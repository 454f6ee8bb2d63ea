import BandChain.Store.Storage

/-! A `StorageMap` that writes down every operation it is asked for, with the store as it was then. -/

namespace BandChain

inductive Operation where
  | load (k : ContractKey)
  | place (k : ContractKey)
  | read (c : Cell)
  | assign (c : Cell) (val : c.Val)
  | switchToCheck
  | switchToApply
  | reset
  | flush

structure Watched {K : Type} (L : Layout K) where
  store : StorageMap L := {}
  moments : List (Operation × StorageMap L) := []

variable {K : Type} {L : Layout K} {α : Type}

def Watched.note (operation : Operation) (x : Exec Stop (StorageMap L) α) : Exec Stop (Watched L) α := fun w =>
  ((x w.store).1, { store := (x w.store).2, moments := w.moments ++ [(operation, w.store)] })

instance [DecidableEq K] : Storage (Watched L) where
  load k := Watched.note (.load k) (StorageMap.load k)
  place k := Watched.note (.place k) (StorageMap.place k)
  read c := Watched.note (.read c) (StorageMap.read c)
  assign c val := Watched.note (.assign c val) (StorageMap.assign c val)
  switchToCheck := Watched.note .switchToCheck StorageMap.switchToCheck
  switchToApply := Watched.note .switchToApply StorageMap.switchToApply
  reset := Watched.note .reset StorageMap.reset
  flush := Watched.note .flush StorageMap.flush

namespace StorageMap

/-- Whenever the storage cache holds a contract, a map is selected. -/
def Selected (s : StorageMap L) : Prop := s.cache ≠ ∅ → s.currentCache ≠ none

/-- The program does not end in a `Failure`. -/
def Unfailing (x : Exec Stop (StorageMap L) α) (s : StorageMap L) : Prop := ∀ f, (x s).1 ≠ .error (.throw (.failure f))

/-- Whatever the order in which the cells are destroyed, no destructor comes to a `Failure`. -/
def Destroyable [DecidableEq K] (s : StorageMap L) : Prop :=
  ∀ done m rest, (done ++ m :: rest).Perm s.members → Unfailing (destroy m) (destroyAll done s).2

end StorageMap

/-- The accesses to the maps that an operation makes, from a given store, find a map selected. -/
def Operation.Sound [DecidableEq K] (s : StorageMap L) : Operation → Prop
  | load k => StorageMap.Unfailing (StorageMap.load k) s
  | place k => StorageMap.Unfailing (StorageMap.place k) s
  | read c => StorageMap.Unfailing (StorageMap.get (.data c)) s
  | reset => s.Destroyable
  | flush => StorageMap.Destroyable ({ s with isFlushing := true } : StorageMap L)
  | assign _ _ | switchToCheck | switchToApply => True

/-! ### Operations on a selected map -/

namespace StorageMap

variable {mode : PrimaryMode}

/-- With a map selected, the program leaves the selection alone and does not end in a `Failure`. -/
def Calm (mode : PrimaryMode) (x : Exec Stop (StorageMap L) α) : Prop :=
  Exec.Triple (fun s => s.currentCache = some mode) x (fun _ s => s.currentCache = some mode)
    (fun e s => s.currentCache = some mode ∧ ∀ f, e ≠ .throw (.failure f))

namespace Calm

variable {β : Type} {s : StorageMap L}

theorem bind {x : Exec Stop (StorageMap L) α} {f : α → Exec Stop (StorageMap L) β} (first : Calm mode x)
    (rest : ∀ a, Calm mode (f a)) : Calm mode (x >>= f) :=
  Exec.Triple.bind first rest

theorem pure (a : α) : Calm mode (Pure.pure a : Exec Stop (StorageMap L) α) := Exec.Triple.pure fun _ => id

theorem stop {e : Stop} (other : ∀ f, e ≠ .throw (.failure f)) : Calm mode (Exec.stop e : Exec Stop (StorageMap L) α) :=
  Exec.Triple.stop fun _ current => ⟨current, other⟩

theorem look : Calm (L := L) mode Exec.get := fun _ current => current

theorem modify {f : StorageMap L → StorageMap L} (kept : ∀ s, (f s).currentCache = s.currentCache) : Calm mode (Exec.modify f) :=
  fun s current => (kept s).trans current

theorem current {x : Exec Stop (StorageMap L) α} (calm : Calm mode x) (selected : s.currentCache = some mode) :
    (x s).2.currentCache = some mode := by
  rcases ran : x s with ⟨e | a, s'⟩
  · exact (calm.of_error selected ran).1
  · exact calm.of_ok selected ran

theorem unfailing {x : Exec Stop (StorageMap L) α} (calm : Calm mode x) (selected : s.currentCache = some mode) :
    Unfailing x s := by
  intro f failed
  exact (calm.of_error selected (Prod.ext failed rfl)).2 f rfl

end Calm

theorem calm_get (mode : PrimaryMode) (x : Slot) : Calm (L := L) mode (get x) := by
  intro s current
  rw [get, current]
  exact current

variable [DecidableEq K]

theorem update_currentCache (s : StorageMap L) (mode : PrimaryMode) (key : K) (val : Option ByteString) :
    (s.update mode key val).currentCache = s.currentCache := by
  cases mode <;> rfl

theorem calm_put (x : Slot) (val : ByteString) : Calm (L := L) mode (put x val) := by
  intro s current
  rw [put, current]
  exact (update_currentCache ..).trans current

theorem calm_del (x : Slot) : Calm (L := L) mode (del x) := by
  intro s current
  rw [del, current]
  exact (update_currentCache ..).trans current

omit [DecidableEq K] in
theorem calm_getContract (k : ContractKey) : Calm (L := L) mode (getContract k) := by
  apply Calm.look.bind
  intro s
  split
  · exact Calm.pure true
  · apply (calm_get mode _).bind
    rintro (_ | storeValue)
    · exact Calm.pure false
    · show Calm mode (if storeValue = k.prefixedKey then _ else _)
      split
      · exact (Calm.modify fun _ => rfl).bind fun _ => Calm.pure true
      · exact Calm.stop nofun

omit [DecidableEq K] in
theorem calm_load (k : ContractKey) : Calm (L := L) mode (load k) := by
  apply (calm_getContract k).bind
  rintro (_ | _)
  · exact Calm.stop nofun
  · exact Calm.pure ()

theorem calm_place (k : ContractKey) : Calm (L := L) mode (place k) := by
  apply (calm_getContract k).bind
  rintro (_ | _)
  · have built : Calm mode (Exec.modify fun s : StorageMap L => { s with cache := s.cache.insert k k.fresh }) := Calm.modify fun _ => rfl
    exact built.bind fun _ => calm_put (.contract k) k.prefixedKey
  · exact Calm.stop nofun

theorem calm_destroy (m : Member) : Calm (L := L) mode (destroy m) := by
  apply Calm.look.bind
  intro s
  split
  · split
    · exact Calm.pure ()
    · split
      · exact calm_put _ _
      · exact Calm.stop nofun
    · exact Calm.stop nofun
    · exact calm_del _
  · exact Calm.pure ()

theorem calm_destroyAll (ms : List Member) : Calm mode (destroyAll ms : Exec Stop (StorageMap L) Unit) := by
  induction ms with
  | nil => exact Calm.pure ()
  | cons m ms ih =>
    refine Calm.bind (fun s current => ?_) fun _ => ih
    rcases ran : destroy m s with ⟨e | _, s'⟩
    · rw [inDestructor, ran]
      exact ⟨((calm_destroy m).of_error current ran).1, nofun⟩
    · rw [inDestructor, ran]
      exact (calm_destroy m).of_ok current ran

omit [DecidableEq K] in
theorem read_currentCache (c : Cell) (s : StorageMap L) : (read c s).2.currentCache = s.currentCache := by
  unfold read
  split
  · rfl
  · split <;> rfl

omit [DecidableEq K] in
theorem assign_currentCache (c : Cell) (val : c.Val) (s : StorageMap L) : (assign c val s).2.currentCache = s.currentCache := by
  unfold assign
  split
  · rfl
  · split <;> rfl

theorem destroyable {s : StorageMap L} (selected : s.Selected) : s.Destroyable := by
  intro done m rest perm
  have held : s.cache ≠ ∅ := by
    intro empty
    have nothing : s.members = [] := by
      rw [members, empty]
      rfl
    rw [nothing] at perm
    cases done <;> cases perm.eq_nil
  obtain ⟨mode, current⟩ := Option.ne_none_iff_exists'.mp (selected held)
  exact (calm_destroy m).unfailing ((calm_destroyAll done).current current)

/-- A destructor leaves the contracts and the selection alone. -/
theorem keeps_destroy (m : Member) {P : StorageMap L → Prop}
    (blind : ∀ s mode key val, P s → P (s.update mode key val)) : Exec.Keeps P (destroy m) := by
  have keeps_put : ∀ (x : Slot) (val : ByteString), Exec.Keeps P (put x val) := by
    intro x val s holds
    rcases current : s.currentCache with _ | mode <;> rw [put, current]
    · exact holds
    · exact blind s mode _ _ holds
  have keeps_del : ∀ x : Slot, Exec.Keeps P (del x) := by
    intro x s holds
    rcases current : s.currentCache with _ | mode <;> rw [del, current]
    · exact holds
    · exact blind s mode _ _ holds
  apply Exec.Keeps.bind (fun s holds => holds)
  intro s
  split
  · split
    · exact Exec.Keeps.pure ()
    · split
      · exact keeps_put _ _
      · exact Exec.Keeps.stop _
    · exact Exec.Keeps.stop _
    · exact keeps_del _
  · exact Exec.Keeps.pure ()

theorem keeps_destroyAll (ms : List Member) {P : StorageMap L → Prop}
    (blind : ∀ s mode key val, P s → P (s.update mode key val)) : Exec.Keeps P (destroyAll ms) := by
  induction ms with
  | nil => exact Exec.Keeps.pure ()
  | cons m ms ih =>
    refine Exec.Keeps.bind (fun s holds => ?_) fun _ => ih
    have after := (keeps_destroy m blind).after holds
    rcases ran : destroy m s with ⟨e | _, s'⟩ <;>
    · rw [ran] at after
      rw [inDestructor, ran]
      exact after

theorem selected_update {s : StorageMap L} (selected : s.Selected) (mode : PrimaryMode) (key : K) (val : Option ByteString) :
    (s.update mode key val).Selected := by
  cases mode <;> exact selected

/-- The contracts go before the selection does. -/
theorem clear_selected :
    Exec.Triple (Selected (L := L)) clear (fun _ s => s.cache = ∅) (fun _ => Selected) := by
  have look : Exec.Keeps Selected (Exec.get : Exec Stop (StorageMap L) (StorageMap L)) := fun _ => id
  apply Exec.Triple.bind look
  intro s
  apply Exec.Triple.bind (keeps_destroyAll s.members fun _ mode key val selected => selected_update selected mode key val)
  exact fun _ _ _ => rfl

theorem keeps_reset : Exec.Keeps (Selected (L := L)) reset :=
  clear_selected.weaken fun _ _ empty held => (held empty).elim

theorem keeps_flush : Exec.Keeps (Selected (L := L)) flush := by
  have raised : Exec.Keeps Selected (Exec.modify fun s => { s with isFlushing := true } : Exec Stop (StorageMap L) Unit) := fun _ => id
  have committed : Exec.Triple (fun s : StorageMap L => s.cache = ∅) commit (fun _ s => s.cache = ∅) (fun _ => Selected) := fun _ => id
  apply Exec.Triple.bind raised
  intro _
  apply Exec.Triple.bind clear_selected
  intro _
  apply committed.bind
  exact fun _ s empty held => (held empty).elim

end StorageMap

end BandChain
