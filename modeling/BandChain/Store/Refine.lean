import BandChain.Store.Overlay

/-!
`StorageMap` refines `Overlay`. The values pending in the overlay are those that an assignment left in
a `Data` of the object cache; everything else an object holds is a copy of what the map holds.
-/

namespace BandChain

/-! ### The cells of the cached objects -/

namespace Data

variable {α : Type} [Serial α]

/-- Every `Data` that the operations build: an assigned one holds a whole value, none is erased. -/
def Sound (d : Data α) : Prop :=
  d.status = .unchanged ∨ d.status = .changed ∧ ∃ val, d.cache = some val ∧ intact val = true

omit [Serial α] in
theorem written_of_unchanged {d : Data α} (h : d.status = .unchanged) : d.written = none := by
  simp [written, h]

theorem Sound.written_cases {d : Data α} (h : d.Sound) :
    (d.status = .unchanged ∧ d.written = none) ∨
      ∃ val, d.status = .changed ∧ d.cache = some val ∧ d.written = some val ∧ intact val = true := by
  rcases h with same | ⟨changed, val, held, whole⟩
  · exact Or.inl ⟨same, written_of_unchanged same⟩
  · exact Or.inr ⟨val, changed, held, by simp [written, changed, held], whole⟩

/-- What a read answers: the assigned value, else the stored one. -/
def Answer [Inhabited α] (raw : Option ByteString) : Option α → Except Stop α
  | some val => copy val
  | none => do copy (← decoded raw)

theorem value_answer [Inhabited α] {d : Data α} {raw : Option ByteString} (sound : d.Sound)
    (copied : ∀ val, d.status = .unchanged → d.cache = some val → decoded raw = .ok val) :
    match d.value (.ok raw) with
    | .error e => Answer raw d.written = .error e
    | .ok (val, d') => Answer raw d.written = .ok val ∧ d'.written = d.written ∧ d'.Sound ∧
        ∀ val, d'.status = .unchanged → d'.cache = some val → decoded raw = .ok val := by
  rcases sound.written_cases with ⟨unchanged, written⟩ | ⟨val, changed, held, written, whole⟩
  · obtain ⟨status, cache⟩ := d
    obtain rfl : status = .unchanged := unchanged
    rw [written]
    cases cache with
    | none =>
      simp only [value, Answer]
      rcases fetched : decoded raw with e | val
      · simp [fetched, bind, Except.bind]
      · rcases copying : copy val with e | val'
        · simp [fetched, copying, bind, Except.bind]
        · simp [fetched, copying, bind, Except.bind, pure, Except.pure, written_of_unchanged, Sound]
    | some val =>
      have fetched := copied val rfl rfl
      simp only [value, Answer, fetched]
      rcases copying : copy val with e | val'
      · simp [copying, bind, Except.bind]
      · simp [copying, bind, Except.bind, pure, Except.pure, written_of_unchanged, Sound]
  · obtain ⟨status, cache⟩ := d
    obtain ⟨rfl, rfl⟩ : status = .changed ∧ cache = some val := ⟨changed, held⟩
    have copying : copy val = .ok val := if_pos whole
    simp [value, Answer, copying, written, bind, Except.bind, pure, Except.pure, Sound, whole]

end Data

namespace Cell

theorem get_set (c : Cell) (d : Data c.Val) (object : c.contract.Object) : c.get (c.set d object) = d := by
  cases c <;> simp [get, set, AList.lookup_insert]

theorem get_set_ne {c c' : Cell} (same : c.contract = c'.contract) (other : c' ≠ c) (d : Data c.Val)
    (object : c.contract.Object) : c'.get (same ▸ c.set d object) = c'.get (same ▸ object) := by
  cases c <;> cases c' <;> cases same <;> first | exact (other rfl).elim | rfl | skip
  rename_i t user user'
  have users : user' ≠ user := by
    rintro rfl
    exact other rfl
  simp [get, set, AList.lookup_insert_ne users]

theorem get_fresh (c : Cell) : c.get c.contract.fresh = {} := by
  cases c <;> rfl

end Cell

namespace StorageMap

variable {K : Type} {L : Layout K}

/-- The `Data` of a cell, where its contract is cached. -/
def cell (s : StorageMap L) (c : Cell) : Option (Data c.Val) := (s.cache.lookup c.contract).map c.get

theorem cell_of_lookup {s : StorageMap L} {c : Cell} {object : c.contract.Object}
    (found : s.cache.lookup c.contract = some object) : s.cell c = some (c.get object) := by
  rw [cell, found]
  rfl

def setCell (s : StorageMap L) (c : Cell) (object : c.contract.Object) (d : Data c.Val) : StorageMap L :=
  { s with cache := s.cache.insert c.contract (c.set d object) }

def addFresh (s : StorageMap L) (k : ContractKey) : StorageMap L := { s with cache := s.cache.insert k k.fresh }

theorem cell_setCell_self (s : StorageMap L) (c : Cell) (object : c.contract.Object) (d : Data c.Val) :
    (s.setCell c object d).cell c = some d := by
  simp [cell, setCell, AList.lookup_insert, Cell.get_set]

theorem cell_setCell_ne {s : StorageMap L} {c c' : Cell} {object : c.contract.Object} (d : Data c.Val)
    (found : s.cache.lookup c.contract = some object) (other : c' ≠ c) :
    (s.setCell c object d).cell c' = s.cell c' := by
  unfold cell setCell
  by_cases same : c.contract = c'.contract
  · have inserted : ∀ (k : ContractKey) (eq : c.contract = k) (new : c.contract.Object),
        (s.cache.insert c.contract new).lookup k = some (eq ▸ new) := by
      rintro _ rfl new
      exact AList.lookup_insert _
    have held : ∀ (k : ContractKey) (eq : c.contract = k), s.cache.lookup k = some (eq ▸ object) := by
      rintro _ rfl
      exact found
    rw [inserted _ same, held _ same]
    exact congrArg some (Cell.get_set_ne same other d object)
  · rw [AList.lookup_insert_ne (Ne.symm same)]

theorem cell_addFresh_of_contract {s : StorageMap L} {c : Cell} : (s.addFresh c.contract).cell c = some {} := by
  simp [cell, addFresh, AList.lookup_insert, Cell.get_fresh]

theorem cell_addFresh_ne {s : StorageMap L} {k : ContractKey} {c : Cell} (other : c.contract ≠ k) :
    (s.addFresh k).cell c = s.cell c := by
  unfold cell addFresh
  rw [AList.lookup_insert_ne other]

/-! ### The overlay of a store -/

/-- The value an assignment left in a cell. -/
def pending (s : StorageMap L) (c : Cell) : Option c.Val := (s.cell c).bind Data.written

/-- The store without its objects. -/
def overlay (s : StorageMap L) : Overlay L where
  checkCache := s.checkCache
  applyCache := s.applyCache
  currentCache := s.currentCache
  pending := s.pending

theorem pending_of_cell {s : StorageMap L} {c : Cell} {d : Data c.Val} (held : s.cell c = some d) :
    s.pending c = d.written := by
  rw [pending, held]
  rfl

theorem pending_setCell {s : StorageMap L} {c : Cell} {object : c.contract.Object} (d : Data c.Val)
    (found : s.cache.lookup c.contract = some object) :
    (s.setCell c object d).pending = Function.update s.pending c d.written := by
  funext c'
  by_cases same : c' = c
  · subst same
    rw [pending_of_cell (cell_setCell_self s c' object d), Function.update_self]
  · rw [Function.update_of_ne same, pending, cell_setCell_ne d found same]
    rfl

theorem cell_eq_none {s : StorageMap L} {c : Cell} (absent : c.contract ∉ s.cache) : s.cell c = none := by
  rw [cell, AList.lookup_eq_none.mpr absent]
  rfl

theorem pending_of_empty {s : StorageMap L} (empty : s.cache = ∅) (c : Cell) : s.pending c = none := by
  rw [pending, cell_eq_none (by rw [empty]; exact AList.notMem_empty _)]
  rfl

theorem pending_addFresh {s : StorageMap L} {k : ContractKey} (absent : k ∉ s.cache) :
    (s.addFresh k).pending = s.pending := by
  funext c
  by_cases same : c.contract = k
  · subst same
    rw [pending_of_cell cell_addFresh_of_contract, pending, cell_eq_none absent]
    rfl
  · rw [pending, cell_addFresh_ne same]
    rfl

/-- What holds of a store between two operations. -/
structure WellFormed (s : StorageMap L) : Prop where
  idle : s.isFlushing = false
  sound : ∀ {c : Cell} {d : Data c.Val}, s.cell c = some d → d.Sound
  marked : ∀ {k : ContractKey}, k ∈ s.cache → s.applyCache (L.key (.contract k)) = some k.prefixedKey

/-- The copies that the objects keep are those of `applyCache`. Putting a marker can break this: the
key of a new marker may be that of a cell that was copied. -/
def Clean (s : StorageMap L) : Prop :=
  ∀ {c : Cell} {d : Data c.Val} {val : c.Val}, s.cell c = some d → d.status = .unchanged → d.cache = some val →
    decoded (s.applyCache (L.key (.data c))) = .ok val

theorem wellFormed_setCell {s : StorageMap L} {c : Cell} {object : c.contract.Object} {d : Data c.Val}
    (well : s.WellFormed) (found : s.cache.lookup c.contract = some object) (sound : d.Sound) :
    (s.setCell c object d).WellFormed where
  idle := well.idle
  sound := by
    intro c' d' held
    by_cases same : c' = c
    · subst same
      rw [cell_setCell_self] at held
      cases held
      exact sound
    · rw [cell_setCell_ne d found same] at held
      exact well.sound held
  marked := by
    intro k member
    rcases (AList.mem_insert _).mp member with rfl | old
    · exact well.marked (AList.lookup_isSome.mp (by rw [found]; rfl))
    · exact well.marked old

theorem clean_setCell {s : StorageMap L} {c : Cell} {object : c.contract.Object} {d : Data c.Val}
    (clean : s.Clean) (found : s.cache.lookup c.contract = some object)
    (copied : ∀ val, d.status = .unchanged → d.cache = some val → decoded (s.applyCache (L.key (.data c))) = .ok val) :
    (s.setCell c object d).Clean := by
  intro c' d' val held unchanged cached
  by_cases same : c' = c
  · subst same
    rw [cell_setCell_self] at held
    cases held
    exact copied val unchanged cached
  · rw [cell_setCell_ne d found same] at held
    exact clean held unchanged cached

theorem wellFormed_addFresh {s : StorageMap L} {k : ContractKey} (well : s.WellFormed)
    (marked : s.applyCache (L.key (.contract k)) = some k.prefixedKey) : (s.addFresh k).WellFormed where
  idle := well.idle
  sound := by
    intro c d held
    by_cases same : c.contract = k
    · subst same
      rw [cell_addFresh_of_contract] at held
      cases held
      exact Or.inl rfl
    · rw [cell_addFresh_ne same] at held
      exact well.sound held
  marked := by
    intro k' member
    rcases (AList.mem_insert _).mp member with rfl | old
    · exact marked
    · exact well.marked old

theorem clean_addFresh {s : StorageMap L} (k : ContractKey) (clean : s.Clean) : (s.addFresh k).Clean := by
  intro c d val held unchanged cached
  by_cases same : c.contract = k
  · subst same
    rw [cell_addFresh_of_contract] at held
    cases held
    cases cached
  · rw [cell_addFresh_ne same] at held
    exact clean held unchanged cached

end StorageMap

variable {K : Type} {L : Layout K}

structure Linked (s : StorageMap L) (o : Overlay L) : Prop where
  overlay : s.overlay = o
  well : s.WellFormed

/-- The relation inside a call, after the mode is chosen and the contracts `ks` are loaded. -/
structure Live (mode : PrimaryMode) (clean : Prop) (ks : List ContractKey) (s : StorageMap L) (o : Overlay L) : Prop
    extends Linked s o where
  current : s.currentCache = some mode
  clean : clean → s.Clean
  loaded : ∀ k ∈ ks, k ∈ s.cache
  agree : mode = .check → o.Agree

/-- What may be read in a mode. -/
def Readable (mode : PrimaryMode) (k : ContractKey) : Prop := mode = .check → ∃ a, k = .account a

theorem readable_apply (k : ContractKey) : Readable .apply k := fun h => by cases h

theorem readable_account (mode : PrimaryMode) (a : Ident) : Readable mode (.account a) := fun _ => ⟨a, rfl⟩

namespace Live

variable {mode : PrimaryMode} {clean : Prop} {ks : List ContractKey} {s : StorageMap L} {o : Overlay L}

theorem mono (h : Live mode clean ks s o) {clean' : Prop} {ks' : List ContractKey} (less : clean' → clean)
    (fewer : ∀ k ∈ ks', k ∈ ks) : Live mode clean' ks' s o :=
  { h with clean := h.clean ∘ less, loaded := fun k member => h.loaded k (fewer k member) }

theorem with_loaded (h : Live mode clean ks s o) {k : ContractKey} (cached : k ∈ s.cache) :
    Live mode clean (k :: ks) s o :=
  { h with
    loaded := by
      intro k' member
      rcases List.mem_cons.mp member with rfl | member
      · exact cached
      · exact h.loaded k' member }

theorem selected (h : Live mode clean ks s o) {x : Slot} (readable : Readable mode x.owner) :
    s.map mode (L.key x) = s.applyCache (L.key x) := by
  cases mode with
  | apply => rfl
  | check =>
    obtain ⟨a, owner⟩ := readable rfl
    have same := h.agree rfl owner
    rw [← h.overlay] at same
    exact same

theorem stored (h : Live mode clean ks s o) {x : Slot} (readable : Readable mode x.owner) :
    o.stored x = .ok (s.applyCache (L.key x)) := by
  rw [← h.selected readable, ← h.overlay]
  cases mode <;> exact Overlay.stored_of_current (o := s.overlay) h.current x

theorem hasContract (h : Live mode clean ks s o) {k : ContractKey} (readable : Readable mode k) :
    o.hasContract k = Overlay.existence k (s.applyCache (L.key (.contract k))) := by
  rw [Overlay.hasContract, h.stored (x := .contract k) readable]
  rfl

theorem setCell (h : Live mode clean ks s o) {c : Cell} {object : c.contract.Object} {d : Data c.Val}
    (found : s.cache.lookup c.contract = some object) (sound : d.Sound)
    (copied : clean → ∀ val, d.status = .unchanged → d.cache = some val →
      decoded (s.applyCache (L.key (.data c))) = .ok val) :
    Live mode clean ks (s.setCell c object d) { o with pending := Function.update o.pending c d.written } where
  overlay := by
    rw [← h.overlay]
    exact congrArg (fun pending => { s.overlay with pending }) (StorageMap.pending_setCell d found)
  well := StorageMap.wellFormed_setCell h.well found sound
  current := h.current
  clean := fun wanted => StorageMap.clean_setCell (h.clean wanted) found (copied wanted)
  loaded := fun k member => (AList.mem_insert _).mpr (Or.inr (h.loaded k member))
  agree := h.agree

theorem addFresh (h : Live mode clean ks s o) {k : ContractKey} (absent : k ∉ s.cache)
    (marked : s.applyCache (L.key (.contract k)) = some k.prefixedKey) :
    Live mode clean (k :: ks) (s.addFresh k) o where
  overlay := by
    rw [← h.overlay]
    exact congrArg (fun pending => { s.overlay with pending }) (StorageMap.pending_addFresh absent)
  well := StorageMap.wellFormed_addFresh h.well marked
  current := h.current
  clean := fun wanted => StorageMap.clean_addFresh k (h.clean wanted)
  loaded := by
    intro k' member
    rcases List.mem_cons.mp member with rfl | member
    · exact (AList.mem_insert _).mpr (Or.inl rfl)
    · exact (AList.mem_insert _).mpr (Or.inr (h.loaded k' member))
  agree := h.agree

/-- Putting a marker where none was keeps the markers of the cached contracts. -/
theorem place [DecidableEq K] (h : Live .apply clean ks s o) {k : ContractKey} (absent : k ∉ s.cache) {clean' : Prop}
    (kept : clean' → clean ∧ ∀ c, L.key (.data c) ≠ L.key (.contract k)) :
    Live .apply clean' (k :: ks) ((s.addFresh k).update .apply (L.key (.contract k)) (some k.prefixedKey)) (o.mark k) := by
  have current : o.currentCache = some .apply := by
    rw [← h.overlay]
    exact h.current
  have put : Live .apply clean' ks (s.update .apply (L.key (.contract k)) (some k.prefixedKey)) (o.mark k) :=
    { overlay := by
        rw [Overlay.mark_apply current, ← h.overlay]
        rfl
      well :=
        { idle := h.well.idle
          sound := h.well.sound
          marked := by
            intro k' member
            have other : L.key (.contract k') ≠ L.key (.contract k) := by
              intro same
              exact absent (L.marker_inj same ▸ member)
            exact (Function.update_of_ne other _ _).trans (h.well.marked member) }
      current := h.current
      clean := by
        intro wanted c d val held unchanged cached
        obtain ⟨before, apart⟩ := kept wanted
        exact (congrArg decoded (Function.update_of_ne (apart c) _ _)).trans (h.clean before held unchanged cached)
      loaded := h.loaded
      agree := fun check => by cases check }
  exact put.addFresh absent (Function.update_self _ _ _)

end Live

/-! ### Operations in step -/

section

variable {mode : PrimaryMode} {clean : Prop} {ks : List ContractKey}

theorem sim_getContract {k : ContractKey} (readable : Readable mode k) :
    Exec.Sim (Live (L := L) mode clean ks) (StorageMap.getContract k) (Overlay.getContract k)
      (fun found s o => if found then Live mode clean (k :: ks) s o
        else Live mode clean ks s o ∧ k ∉ s.cache ∧ s.applyCache (L.key (.contract k)) = none)
      (fun _ => Live mode clean ks) := by
  intro s o live
  have answer := live.hasContract readable
  rw [Overlay.getContract_apply, StorageMap.getContract, Exec.bind_of_ok (Exec.get_apply s)]
  by_cases cached : k ∈ s.cache
  · rw [if_pos cached, answer, live.well.marked cached, Overlay.existence_true.mpr rfl]
    exact .ok (live.with_loaded cached)
  · have got : StorageMap.get (.contract k) s = (.ok (s.applyCache (L.key (.contract k))), s) := by
      rw [StorageMap.get, live.current]
      exact congrArg (fun held => (Except.ok held, s)) (live.selected (x := .contract k) readable)
    rw [if_neg cached, Exec.bind_of_ok got, answer]
    rcases held : s.applyCache (L.key (.contract k)) with _ | raw
    · exact .ok ⟨live, cached, held⟩
    · by_cases same : raw = k.prefixedKey
      · subst same
        simp only [Overlay.existence, if_true]
        exact .ok (live.addFresh cached held)
      · simp only [Overlay.existence, if_neg same]
        exact .error live

theorem sim_switchToApply : Exec.Sim (fun s o => Linked (L := L) s o ∧ (clean → s.Clean)) StorageMap.switchToApply
    (Overlay.switchTo .apply) (fun _ => Live .apply clean []) (fun _ _ _ => False) := by
  rintro s _ ⟨⟨rfl, well⟩, copied⟩
  exact .ok
    { overlay := rfl
      well := ⟨well.idle, well.sound, well.marked⟩
      current := rfl
      clean := copied
      loaded := fun _ member => nomatch member
      agree := fun check => nomatch check }

theorem sim_switchToCheck : Exec.Sim (fun s o => (Linked (L := L) s o ∧ (clean → s.Clean)) ∧ o.Agree)
    StorageMap.switchToCheck (Overlay.switchTo .check) (fun _ => Live .check clean []) (fun _ _ _ => False) := by
  rintro s _ ⟨⟨⟨rfl, well⟩, copied⟩, agree⟩
  exact .ok
    { overlay := rfl
      well := ⟨well.idle, well.sound, well.marked⟩
      current := rfl
      clean := copied
      loaded := fun _ member => nomatch member
      agree := fun _ => agree }

theorem sim_load {k : ContractKey} (readable : Readable mode k) :
    Exec.Sim (Live (L := L) mode clean ks) (StorageMap.load k) (Overlay.load k)
      (fun _ => Live mode clean (k :: ks)) (fun _ => Live mode clean ks) := by
  apply (sim_getContract readable).bind
  intro found
  cases found with
  | true => exact Exec.Sim.pure fun _ _ live => live
  | false => exact Exec.Sim.stop fun _ _ ⟨live, _, _⟩ => live

theorem sim_read {c : Cell} (loaded : c.contract ∈ ks) (readable : Readable mode c.contract) :
    Exec.Sim (Live (L := L) mode True ks) (StorageMap.read c) (Overlay.read c)
      (fun _ => Live mode True ks) (fun _ => Live mode True ks) := by
  intro s o live
  obtain ⟨object, found⟩ := Option.isSome_iff_exists.mp (AList.lookup_isSome.mpr (live.loaded _ loaded))
  have held := StorageMap.cell_of_lookup found
  have stored := live.stored (x := .data c) readable
  have pending : o.pending c = (c.get object).written := by
    rw [← live.overlay]
    exact StorageMap.pending_of_cell held
  have got : (StorageMap.get (.data c) s).1 = .ok (s.applyCache (L.key (.data c))) := by
    rw [StorageMap.get, live.current]
    exact congrArg Except.ok (live.selected (x := .data c) readable)
  have answer : o.value c = Data.Answer (s.applyCache (L.key (.data c))) (c.get object).written := by
    rw [Overlay.value, pending, stored]
    cases (c.get object).written <;> rfl
  have value := Data.value_answer (live.well.sound held) (fun _ => live.clean trivial held)
  unfold StorageMap.read
  simp only [found, got, Overlay.read_apply, answer]
  rcases ran : (c.get object).value (.ok (s.applyCache (L.key (.data c)))) with e | ⟨val, d⟩
  · rw [ran] at value
    rw [value]
    exact .error live
  · rw [ran] at value
    obtain ⟨same, written, sound, copied⟩ := value
    have after := live.setCell found sound (fun _ => copied)
    rw [written, ← pending, Function.update_eq_self] at after
    rw [same]
    exact .ok after

theorem sim_assign {c : Cell} (loaded : c.contract ∈ ks) (val : c.Val) :
    Exec.Sim (Live (L := L) mode clean ks) (StorageMap.assign c val) (Overlay.assign c val)
      (fun _ => Live mode clean ks) (fun _ => Live mode clean ks) := by
  intro s o live
  obtain ⟨object, found⟩ := Option.isSome_iff_exists.mp (AList.lookup_isSome.mpr (live.loaded _ loaded))
  rw [StorageMap.assign, found, Overlay.assign, Exec.bind_apply, Exec.ofExcept_apply]
  unfold Data.assign
  rcases copied : copy val with e | val'
  · exact .error live
  · obtain ⟨rfl, whole⟩ := Overlay.copy_ok copied
    exact .ok (live.setCell found (Or.inr ⟨rfl, _, rfl, whole⟩) (fun _ _ unchanged => by cases unchanged))

variable [DecidableEq K]

/-- A new marker keeps the copies clean where it is nobody else's key. -/
theorem sim_place {clean' : Prop} {k : ContractKey} (kept : clean' → clean ∧ ∀ c, L.key (.data c) ≠ L.key (.contract k)) :
    Exec.Sim (Live (L := L) .apply clean ks) (StorageMap.place k) (Overlay.place k)
      (fun _ => Live .apply clean' (k :: ks)) (fun _ => Live .apply clean ks) := by
  apply (sim_getContract (readable_apply k)).bind
  intro found
  cases found with
  | true => exact Exec.Sim.stop fun _ _ live => live.mono id fun _ => List.mem_cons_of_mem _
  | false =>
    rintro s o ⟨live, absent, _⟩
    have put : StorageMap.put (.contract k) k.prefixedKey (s.addFresh k) =
        (.ok (), (s.addFresh k).update .apply (L.key (.contract k)) (some k.prefixedKey)) := by
      rw [StorageMap.put, show (s.addFresh k).currentCache = some .apply from live.current]
    change Exec.InStep _ _ (StorageMap.put (.contract k) k.prefixedKey (s.addFresh k)) (.ok (), o.mark k)
    rw [put]
    exact .ok (live.place absent kept)

end

/-! ### Reset and flush -/

namespace StorageMap

theorem mem_members_of_object {s : StorageMap L} {k : ContractKey} {object : k.Object} {m : Member}
    (found : s.cache.lookup k = some object) (member : m ∈ k.members object) : s.cell m.1 = some m.2 := by
  cases k with
  | account a =>
    simp only [ContractKey.members, List.mem_cons, List.not_mem_nil, or_false] at member
    rcases member with rfl | rfl <;> exact cell_of_lookup found
  | token t =>
    rcases List.mem_append.mp member with balance | member
    · obtain ⟨⟨user, d⟩, entry, rfl⟩ := List.mem_map.mp balance
      refine (cell_of_lookup (c := .balances t user) found).trans (congrArg some ?_)
      change ((Token.balances object).lookup user).getD {} = d
      rw [Option.mem_def.mp (AList.mem_lookup_iff.mpr entry)]
      rfl
    · simp only [List.mem_cons, List.not_mem_nil, or_false] at member
      rcases member with rfl | rfl | rfl <;> exact cell_of_lookup found

theorem cell_of_mem_members {s : StorageMap L} {m : Member} (member : m ∈ s.members) : s.cell m.1 = some m.2 := by
  obtain ⟨⟨k, object⟩, entry, inside⟩ := List.mem_flatMap.mp member
  exact mem_members_of_object (Option.mem_def.mp (AList.mem_lookup_iff.mpr entry)) inside

theorem mem_members_of_written {s : StorageMap L} {c : Cell} {d : Data c.Val} {val : c.Val}
    (held : s.cell c = some d) (written : d.written = some val) : (⟨c, d⟩ : Member) ∈ s.members := by
  obtain ⟨object, found, rfl⟩ := Option.map_eq_some_iff.mp held
  refine List.mem_flatMap.mpr ⟨⟨c.contract, object⟩, AList.mem_lookup_iff.mp found, ?_⟩
  cases c with
  | verifyKey a | nonce a | curveData t | baseIdent t | currentSupply t =>
    simp [ContractKey.members, Cell.contract, Cell.get]
  | balances t w =>
    refine List.mem_append_left _ (List.mem_map.mpr ⟨⟨w, (Cell.balances t w).get object⟩, ?_, rfl⟩)
    apply AList.mem_lookup_iff.mp
    rcases lookup : AList.lookup w (Token.balances object) with _ | d
    · simp [Cell.get, lookup, Data.written] at written
    · simp [Cell.get, lookup]

def puts (L : Layout K) (ms : List Member) : List (K × ByteString) :=
  ms.filterMap fun m => m.2.written.map fun val => (L.key (.data m.1), serialize val)

theorem mem_puts {s : StorageMap L} (e : K × ByteString) :
    e ∈ puts L s.members ↔ e ∈ WriteBack.writes (fun c => L.key (.data c)) Overlay.encoded s.pending := by
  constructor
  · intro put
    obtain ⟨⟨c, d⟩, member, made⟩ := List.mem_filterMap.mp put
    obtain ⟨val, written, rfl⟩ := Option.map_eq_some_iff.mp made
    exact ⟨c, val, (pending_of_cell (cell_of_mem_members member)).trans written, rfl⟩
  · rintro ⟨c, val, pending, rfl⟩
    obtain ⟨d, held, written⟩ := Option.bind_eq_some_iff.mp pending
    exact List.mem_filterMap.mpr ⟨⟨c, d⟩, mem_members_of_written held written, Option.map_eq_some_iff.mpr ⟨val, written, rfl⟩⟩

variable [DecidableEq K]

/-- The store with other contents in the map of a mode. -/
def withMap (s : StorageMap L) : PrimaryMode → (K → Option ByteString) → StorageMap L
  | .check, m => { s with checkCache := m }
  | .apply, m => { s with applyCache := m }

theorem destroyAll_flushing {mode : PrimaryMode} {ms : List Member} (sound : ∀ m ∈ ms, m.2.Sound) {s : StorageMap L}
    (flushing : s.isFlushing = true) (current : s.currentCache = some mode) :
    destroyAll ms s = (.ok (), s.withMap mode (WriteBack.putAll (puts L ms) (s.map mode))) := by
  induction ms generalizing s with
  | nil => cases mode <;> rfl
  | cons m ms ih =>
    have later : ∀ m ∈ ms, m.2.Sound := fun m member => sound m (List.mem_cons_of_mem _ member)
    rcases (sound m List.mem_cons_self).written_cases with ⟨unchanged, written⟩ | ⟨val, changed, held, written, whole⟩
    · have kept : destroy m s = (.ok (), s) := by
        simp [destroy, Exec.bind_apply, unchanged]
      have first : inDestructor (destroy m) s = (.ok (), s) := by
        rw [inDestructor, kept]
      rw [destroyAll, Exec.bind_of_ok first, ih later flushing current, puts, puts,
        List.filterMap_cons_none (by rw [written]; rfl)]
    · have put : destroy m s = (.ok (), s.update mode (L.key (.data m.1)) (some (serialize val))) := by
        simp [destroy, Exec.bind_apply, flushing, changed, held, whole, StorageMap.put, current]
      have first : inDestructor (destroy m) s = (.ok (), s.update mode (L.key (.data m.1)) (some (serialize val))) := by
        rw [inDestructor, put]
      rw [destroyAll, Exec.bind_of_ok first, puts,
        List.filterMap_cons_some (by rw [written]; rfl)]
      cases mode
      · exact ih (s := s.update .check (L.key (.data m.1)) (some (serialize val))) later flushing current
      · exact ih (s := s.update .apply (L.key (.data m.1)) (some (serialize val))) later flushing current

/-- Outside a flush nothing is written, and in a flush nothing when nothing was assigned. -/
theorem destroyAll_silent {ms : List Member} {s : StorageMap L}
    (silent : s.isFlushing = false ∨ ∀ m ∈ ms, m.2.status = .unchanged) : destroyAll ms s = (.ok (), s) := by
  induction ms with
  | nil => rfl
  | cons m ms ih =>
    have kept : destroy m s = (.ok (), s) := by
      rcases silent with idle | unchanged
      · simp [destroy, Exec.bind_apply, idle]
      · simp [destroy, Exec.bind_apply, unchanged m List.mem_cons_self]
    have first : inDestructor (destroy m) s = (.ok (), s) := by
      rw [inDestructor, kept]
    rw [destroyAll, Exec.bind_of_ok first]
    exact ih (silent.imp_right fun unchanged m member => unchanged m (List.mem_cons_of_mem _ member))

theorem flush_of_destroyed {s t : StorageMap L}
    (destroyed : destroyAll s.members { s with isFlushing := true } = (.ok (), t)) :
    flush s = (.ok (), { checkCache := t.applyCache, applyCache := t.applyCache }) := by
  have cleared : clear { s with isFlushing := true } = (.ok (), ({ t with cache := ∅ } : StorageMap L)) := by
    rw [clear, Exec.bind_of_ok (Exec.get_apply _)]
    exact Exec.bind_of_ok destroyed
  rw [flush, Exec.bind_of_ok (Exec.modify_apply _ s), Exec.bind_of_ok cleared]
  rfl

end StorageMap

/-- The relation after a reset or a flush: no contract is cached. -/
structure Settled (s : StorageMap L) (o : Overlay L) : Prop extends Linked s o where
  cache : s.cache = ∅

theorem settled_of_empty {s : StorageMap L} {o : Overlay L} (empty : s.cache = ∅) (idle : s.isFlushing = false)
    (checkCache : s.checkCache = o.checkCache) (applyCache : s.applyCache = o.applyCache)
    (currentCache : s.currentCache = o.currentCache) (pending : ∀ c, o.pending c = none) : Settled s o where
  overlay := by
    obtain ⟨_, _, _, _⟩ := o
    simp only [StorageMap.overlay, Overlay.mk.injEq]
    exact ⟨checkCache, applyCache, currentCache,
      funext fun c => (StorageMap.pending_of_empty empty c).trans (pending c).symm⟩
  well :=
    { idle
      sound := by
        intro c d held
        rw [StorageMap.cell_eq_none (by rw [empty]; exact AList.notMem_empty _)] at held
        cases held
      marked := by
        intro k member
        rw [empty] at member
        exact (AList.notMem_empty _ member).elim }
  cache := empty

theorem Settled.clean {s : StorageMap L} {o : Overlay L} (h : Settled s o) : s.Clean := by
  intro c d val held _ _
  rw [StorageMap.cell_eq_none (by rw [h.cache]; exact AList.notMem_empty _)] at held
  cases held

section

variable [DecidableEq K]

theorem sim_reset : Exec.Sim (Linked (L := L)) StorageMap.reset Overlay.reset (fun _ => Settled) (fun _ _ _ => False) := by
  rintro s _ ⟨rfl, well⟩
  rw [StorageMap.reset, StorageMap.clear, Exec.bind_of_ok (Exec.get_apply s),
    Exec.bind_of_ok (StorageMap.destroyAll_silent (Or.inl well.idle))]
  exact .ok (settled_of_empty rfl well.idle rfl rfl rfl fun _ => rfl)

/-- A flush writes what the overlay commits, and leaves the two maps equal. -/
theorem sim_flush :
    Exec.Sim (fun (s : StorageMap L) o => Linked s o ∧ o.Separate ∧ ((∃ c, o.pending c ≠ none) → o.currentCache ≠ none))
      StorageMap.flush Overlay.flush (fun _ => Settled) (fun _ _ _ => False) := by
  rintro s _ ⟨⟨rfl, well⟩, separate, selected⟩
  have sound : ∀ m ∈ s.members, m.2.Sound := fun m member => well.sound (StorageMap.cell_of_mem_members member)
  have run := Overlay.flush_apply (o := s.overlay) selected
  have applied : ∃ t : StorageMap L, StorageMap.destroyAll s.members { s with isFlushing := true } = (.ok (), t) ∧
      t.applyCache = s.overlay.flushed := by
    rcases Option.eq_none_or_eq_some s.currentCache with current | ⟨mode, current⟩
    · have unchanged : ∀ m ∈ s.members, m.2.status = .unchanged := by
        intro m member
        rcases (sound m member).written_cases with ⟨unchanged, _⟩ | ⟨val, _, _, written, _⟩
        · exact unchanged
        · have pending : s.pending m.1 = some val :=
            (StorageMap.pending_of_cell (StorageMap.cell_of_mem_members member)).trans written
          exact (selected ⟨m.1, by simp [StorageMap.overlay, pending]⟩ current).elim
      refine ⟨_, StorageMap.destroyAll_silent (Or.inr unchanged), ?_⟩
      rw [Overlay.flushed, show s.overlay.currentCache = none from current]
      rfl
    · have puts := WriteBack.putAll_eq_commit StorageMap.mem_puts separate.functional s.applyCache
      refine ⟨_, StorageMap.destroyAll_flushing sound (s := { s with isFlushing := true }) rfl current, ?_⟩
      rw [Overlay.flushed, show s.overlay.currentCache = some mode from current]
      cases mode with
      | check => rfl
      | apply => exact puts
  obtain ⟨t, destroyed, applied⟩ := applied
  rw [run, StorageMap.flush_of_destroyed destroyed, applied]
  exact .ok (settled_of_empty rfl rfl rfl rfl rfl fun _ => rfl)

end

end BandChain
