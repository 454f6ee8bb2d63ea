import BandChain.Net.Caught
import BandChain.Store.Cells

/-! Which keys of a map are apart, and the contract cache against a map with values laid over it, over whole sessions. -/

namespace BandChain

/-- The two slots, when they differ, have different keys, and a write to the first leaves the value of
the second. -/
def Apart (x y : Slot) : Prop := x ≠ y → x.text ≠ y.text ∧
  ∀ (s : StorageMap Layout.text) (mode : PrimaryMode) (val : ByteString),
    (StorageMap.put x val s).2.map mode y.text = s.map mode y.text

theorem put_frame {x y : Slot} (differ : x.text ≠ y.text) (s : StorageMap Layout.text) (mode : PrimaryMode)
    (val : ByteString) : (StorageMap.put x val s).2.map mode y.text = s.map mode y.text := by
  unfold StorageMap.put
  rcases s.currentCache with _ | _ | _
  · rfl
  · cases mode
    · exact Function.update_of_ne differ.symm ..
    · rfl
  · cases mode
    · rfl
    · exact Function.update_of_ne differ.symm ..

/-- The keys of two slots are apart unless the names in them are one of the listed concatenations. -/
theorem apart_iff (x y : Slot) : Apart x y ↔ ¬ Slot.Clash x y := by
  constructor
  · intro apart clash
    exact (apart clash.ne).1 (Slot.text_eq_iff.mpr (Or.inr clash))
  · intro noClash differ
    have keys : x.text ≠ y.text := by
      intro same
      rcases Slot.text_eq_iff.mp same with same | clash
      · exact differ same
      · exact noClash clash
    exact ⟨keys, put_frame keys⟩

/-- The marker of the account `a/nonce` has the key of the nonce of `a`. -/
theorem marker_not_apart : ¬ Apart (.contract (.account ⟨ascii "a/nonce", by decide +kernel⟩)) (.data (.nonce ⟨ascii "a", by decide +kernel⟩)) :=
  fun apart => (apart (by decide)).1 (by decide)

namespace Data

variable {α : Type} [Serial α]

/-- What a read answers, by what the session did to the cell last and what the map holds. -/
def seen [Inhabited α] (raw : Option ByteString) : Option (Option α) → Except Stop α
  | some (some val) => .ok val
  | some none => .error (.throw (.error .deletedObject))
  | none => decoded raw

/-- What the cell keeps. -/
def Reflects [Inhabited α] (raw : Option ByteString) (touched : Option (Option α)) (d : Data α) : Prop :=
  match touched with
  | some (some val) => d = { status := .changed, cache := some val } ∧ intact val = true
  | some none => d = erase
  | none => d.status = .unchanged ∧ ∀ val, d.cache = some val → decoded raw = .ok val ∧ intact val = true

theorem value_of_reflects [Inhabited α] {raw : Option ByteString} {touched : Option (Option α)} {d : Data α}
    (reflects : d.Reflects raw touched) (whole : touched = none → ∀ val : α, decoded raw = .ok val → intact val = true) :
    match seen raw touched with
    | .ok val => ∃ d', d.value (.ok raw) = .ok (val, d') ∧ d'.Reflects raw touched
    | .error e => d.value (.ok raw) = .error e := by
  rcases touched with _ | _ | val
  · obtain ⟨status, cache⟩ := d
    obtain ⟨rfl, cached⟩ := reflects
    rcases cache with _ | val
    · simp only [seen, value]
      rcases fetched : decoded (α := α) raw with e | val
      · simp [bind, Except.bind, fetched]
      · have copied : copy val = .ok val := if_pos (whole rfl val fetched)
        refine ⟨{ status := .unchanged, cache := some val }, ?_, rfl, ?_⟩
        · simp [bind, Except.bind, pure, Except.pure, fetched, copied]
        · rintro _ ⟨⟩
          exact ⟨fetched, whole rfl val fetched⟩
    · obtain ⟨fetched, intact⟩ := cached val rfl
      have copied : copy val = .ok val := if_pos intact
      simp only [seen, fetched]
      exact ⟨{ status := .unchanged, cache := some val }, by simp [value, copied, bind, Except.bind, pure, Except.pure], rfl, cached⟩
  · obtain rfl : d = erase := reflects
    rfl
  · obtain ⟨rfl, intact⟩ := reflects
    have copied : copy val = .ok val := if_pos intact
    exact ⟨{ status := .changed, cache := some val }, by simp [value, copied, bind, Except.bind, pure, Except.pure], rfl, intact⟩

theorem value_crash [Inhabited α] {d : Data α} (reflects : d.Reflects none none) (broken : ¬ intact (default : α) = true) :
    d.value (.ok none) = .error .crash := by
  obtain ⟨status, cache⟩ := d
  obtain ⟨rfl, cached⟩ := reflects
  rcases cache with _ | val
  · simp [value, decoded, copy, broken, bind, Except.bind]
  · obtain ⟨made, intact⟩ := cached val rfl
    cases made
    exact (broken intact).elim

/-- What a flush does with a cell: nothing, a put, or a removal. -/
def change (d : Data α) : Option (Option α) :=
  match d.status with
  | .unchanged => none
  | .changed => some d.cache
  | .erased => some none

/-- The cells that a session leaves. -/
def Settled (d : Data α) : Prop :=
  d.status = .unchanged ∨ (∃ val, d = { status := .changed, cache := some val } ∧ intact val = true) ∨ d = erase

theorem settled_of_reflects [Inhabited α] {raw : Option ByteString} {touched : Option (Option α)} {d : Data α}
    (reflects : d.Reflects raw touched) : d.Settled ∧ d.change = touched := by
  rcases touched with _ | _ | val
  · obtain ⟨unchanged, _⟩ := reflects
    exact ⟨Or.inl unchanged, by rw [change, unchanged]⟩
  · obtain rfl : d = erase := reflects
    exact ⟨Or.inr (Or.inr rfl), rfl⟩
  · obtain ⟨rfl, intact⟩ := reflects
    exact ⟨Or.inr (Or.inl ⟨val, rfl, intact⟩), rfl⟩

end Data

theorem intact_of_deserialize {c : Cell} {raw : ByteString} {val : c.Val} (read : deserialize raw = .ok val) : intact val = true := by
  cases c with
  | curveData t => exact intact_of_read (show Serial.read raw = (.ok val, (Serial.read (α := Curve) raw).2) from Prod.ext read rfl)
  | verifyKey _ | nonce _ | baseIdent _ | currentSupply _ | balances _ _ => rfl

theorem deserialize_throws {c : Cell} {raw : ByteString} {e : Stop} (failed : deserialize (α := c.Val) raw = .error e) :
    e ≠ .crash := by
  rintro rfl
  let _ := roomyMemory
  have fails : Exec.Fails Stop.Uncaught (Serial.read (α := c.Val)) raw :=
    ⟨.crash, (Serial.read (α := c.Val) raw).2, Prod.ext failed rfl, trivial⟩
  cases c with
  | curveData _ => exact curve_fails fails
  | verifyKey _ => exact bytes_fails fails
  | baseIdent _ => exact Str.read_throws.of_error trivial (Prod.ext failed rfl) rfl
  | nonce _ | currentSupply _ | balances _ _ => exact uint256_fails fails

variable {K : Type} [DecidableEq K] {L : Layout K}

namespace StorageMap

def changes (L : Layout K) (ms : List Member) : List (K × Option ByteString) :=
  ms.filterMap fun m => m.2.change.map fun val => (L.key (.data m.1), val.map serialize)

/-- What the destruction of a cell does in a flush. -/
theorem destroy_settled {mode : PrimaryMode} {m : Member} (settled : m.2.Settled) {s : StorageMap L} (flushing : s.isFlushing = true)
    (current : s.currentCache = some mode) :
    inDestructor (destroy m) s = (.ok (), match m.2.change with
      | none => s
      | some val => s.update mode (L.key (.data m.1)) (val.map serialize)) := by
  obtain ⟨c, d⟩ := m
  change d.Settled at settled
  rcases settled with unchanged | ⟨val, rfl, whole⟩ | rfl
  · simp [inDestructor, destroy, Exec.bind_apply, Data.change, unchanged]
  · simp [inDestructor, destroy, Exec.bind_apply, flushing, Data.change, whole, put, current]
  · simp [inDestructor, destroy, Exec.bind_apply, flushing, Data.change, Data.erase, del, current]

theorem destroyAll_changes {mode : PrimaryMode} {ms : List Member} (settled : ∀ m ∈ ms, m.2.Settled) {s : StorageMap L}
    (flushing : s.isFlushing = true) (current : s.currentCache = some mode) :
    destroyAll ms s = (.ok (), s.withMap mode (WriteBack.changeAll (changes L ms) (s.map mode))) := by
  induction ms generalizing s with
  | nil => cases mode <;> rfl
  | cons m ms ih =>
    have later : ∀ m ∈ ms, m.2.Settled := fun m member => settled m (List.mem_cons_of_mem _ member)
    have first := destroy_settled (settled m List.mem_cons_self) flushing current
    rw [destroyAll, Exec.bind_of_ok first]
    rcases change : m.2.change with _ | val
    · have same : changes L (m :: ms) = changes L ms := List.filterMap_cons_none (by rw [change]; rfl)
      rw [same]
      exact ih later flushing current
    · have more : changes L (m :: ms) = (L.key (.data m.1), val.map serialize) :: changes L ms :=
        List.filterMap_cons_some (by rw [change]; rfl)
      rw [more]
      cases mode
      · exact ih (s := s.update .check (L.key (.data m.1)) (val.map serialize)) later flushing current
      · exact ih (s := s.update .apply (L.key (.data m.1)) (val.map serialize)) later flushing current

omit [DecidableEq K] in
theorem mem_members_of_changed {s : StorageMap L} {c : Cell} {d : Data c.Val} (held : s.cell c = some d)
    (changed : d.status ≠ .unchanged) : (⟨c, d⟩ : Member) ∈ s.members := by
  obtain ⟨object, found, rfl⟩ := Option.map_eq_some_iff.mp held
  refine List.mem_flatMap.mpr ⟨⟨c.contract, object⟩, AList.mem_lookup_iff.mp found, ?_⟩
  cases c with
  | verifyKey a | nonce a | curveData t | baseIdent t | currentSupply t =>
    simp [ContractKey.members, Cell.contract, Cell.get]
  | balances t w =>
    refine List.mem_append_left _ (List.mem_map.mpr ⟨⟨w, (Cell.balances t w).get object⟩, ?_, rfl⟩)
    apply AList.mem_lookup_iff.mp
    rcases lookup : AList.lookup w (Token.balances object) with _ | d
    · simp [Cell.get, lookup] at changed
    · simp [Cell.get, lookup]

end StorageMap

/-! ### A session in step with its view -/

/-- The store of a session on the map of a mode, and its view. -/
structure Seen (base : StorageMap L) (mode : PrimaryMode) (s : StorageMap L) (v : View L) : Prop where
  idle : s.isFlushing = false
  current : s.currentCache = some mode
  checkCache : s.checkCache = base.checkCache
  applyCache : s.applyCache = base.applyCache
  records : base.map mode = v.records
  marked : ∀ k ∈ s.cache, v.records (L.key (.contract k)) = some k.prefixedKey
  cells : ∀ {c : Cell} {d : Data c.Val}, s.cell c = some d → d.Reflects (v.records (L.key (.data c))) (v.touched c)
  uncached : ∀ {c : Cell}, s.cell c = none → v.touched c = none

section

variable {base s : StorageMap L} {mode : PrimaryMode} {v : View L}

omit [DecidableEq K] in
theorem Seen.map (seen : Seen base mode s v) : s.map mode = v.records := by
  rw [← seen.records]
  cases mode
  · exact seen.checkCache
  · exact seen.applyCache

omit [DecidableEq K] in
theorem Seen.get (seen : Seen base mode s v) (x : Slot) : StorageMap.get x s = (.ok (v.records (L.key x)), s) := by
  rw [StorageMap.get, seen.current, ← seen.map]

omit [DecidableEq K] in
theorem Seen.addFresh (seen : Seen base mode s v) {k : ContractKey} (absent : k ∉ s.cache)
    (marked : v.records (L.key (.contract k)) = some k.prefixedKey) : Seen base mode (s.addFresh k) v where
  idle := seen.idle
  current := seen.current
  checkCache := seen.checkCache
  applyCache := seen.applyCache
  records := seen.records
  marked k' member := by
    rcases (AList.mem_insert _).mp member with rfl | old
    · exact marked
    · exact seen.marked k' old
  cells {c d} held := by
    by_cases same : c.contract = k
    · subst same
      rw [StorageMap.cell_addFresh_of_contract] at held
      cases held
      rw [seen.uncached (StorageMap.cell_eq_none absent)]
      exact ⟨rfl, nofun⟩
    · rw [StorageMap.cell_addFresh_ne same] at held
      exact seen.cells held
  uncached {c} clear := by
    by_cases same : c.contract = k
    · subst same
      rw [StorageMap.cell_addFresh_of_contract] at clear
      cases clear
    · rw [StorageMap.cell_addFresh_ne same] at clear
      exact seen.uncached clear

omit [DecidableEq K] in
theorem Seen.setCell (seen : Seen base mode s v) {c : Cell} {object : c.contract.Object} {d : Data c.Val}
    (touched : Option (Option c.Val)) (found : s.cache.lookup c.contract = some object)
    (reflects : d.Reflects (v.records (L.key (.data c))) touched) :
    Seen base mode (s.setCell c object d) { v with touched := Function.update v.touched c touched } where
  idle := seen.idle
  current := seen.current
  checkCache := seen.checkCache
  applyCache := seen.applyCache
  records := seen.records
  marked k member := by
    rcases (AList.mem_insert _).mp member with rfl | old
    · exact seen.marked _ (AList.lookup_isSome.mp (by rw [found]; rfl))
    · exact seen.marked k old
  cells {c' d'} held := by
    by_cases same : c' = c
    · subst same
      rw [StorageMap.cell_setCell_self] at held
      cases held
      simpa using reflects
    · rw [StorageMap.cell_setCell_ne d found same] at held
      simpa [Function.update_of_ne same] using seen.cells held
  uncached {c'} clear := by
    by_cases same : c' = c
    · subst same
      rw [StorageMap.cell_setCell_self] at clear
      cases clear
    · rw [StorageMap.cell_setCell_ne d found same] at clear
      simpa [Function.update_of_ne same] using seen.uncached clear

omit [DecidableEq K] in
theorem Seen.load (seen : Seen base mode s v) (k : ContractKey) :
    match Overlay.existence k (v.records (L.key (.contract k))) with
    | .ok true => ∃ s' object, StorageMap.load k s = (.ok (), s') ∧ Seen base mode s' v ∧ s'.cache.lookup k = some object
    | .ok false => StorageMap.load k s = (.error (.throw (.error (.contractMissing k.prefixedKey))), s)
    | .error e => StorageMap.load k s = (.error e, s) := by
  by_cases cached : k ∈ s.cache
  · obtain ⟨object, found⟩ := Option.isSome_iff_exists.mp (AList.lookup_isSome.mpr cached)
    rw [seen.marked k cached, Overlay.existence_true.mpr rfl]
    have got : StorageMap.getContract k s = (.ok true, s) := by
      rw [StorageMap.getContract, Exec.bind_of_ok (Exec.get_apply s), if_pos cached]
      rfl
    exact ⟨s, object, Exec.bind_of_ok got, seen, found⟩
  · have start : StorageMap.getContract k s = _ :=
      (Exec.bind_of_ok (Exec.get_apply s)).trans ((congrFun (if_neg cached) s).trans (Exec.bind_of_ok (seen.get (.contract k))))
    rcases held : v.records (L.key (.contract k)) with _ | raw <;> rw [held] at start
    · exact Exec.bind_of_ok start
    · by_cases same : raw = k.prefixedKey
      · rw [Overlay.existence, if_pos same]
        have got : StorageMap.getContract k s = (.ok true, s.addFresh k) := start.trans (congrFun (if_pos same) s)
        refine ⟨s.addFresh k, k.fresh, Exec.bind_of_ok got, seen.addFresh cached (by rw [held, same]), ?_⟩
        exact AList.lookup_insert _
      · rw [Overlay.existence, if_neg same]
        exact Exec.bind_of_error (start.trans (congrFun (if_neg same) s))

omit [DecidableEq K] in
theorem View.read_eq (v : View L) (c : Cell) : v.read c = Data.seen (v.records (L.key (.data c))) (v.touched c) := by
  unfold View.read Data.seen
  rcases v.touched c with _ | _ | _ <;> rfl

omit [DecidableEq K] in
theorem Seen.read (seen : Seen base mode s v) {c : Cell} {object : c.contract.Object} (found : s.cache.lookup c.contract = some object)
    (fit : v.touched c = none → v.records (L.key (.data c)) = none → intact (default : c.Val) = true) :
    ∃ s', StorageMap.read c s = (v.read c, s') ∧ Seen base mode s' v := by
  have reflects := seen.cells (StorageMap.cell_of_lookup found)
  have answer := Data.value_of_reflects reflects fun untouched val made => by
    rcases held : v.records (L.key (.data c)) with _ | raw <;> rw [held] at made
    · cases made
      exact fit untouched held
    · exact intact_of_deserialize made
  rw [← v.read_eq] at answer
  rw [StorageMap.read, found]
  simp only [seen.get (.data c)]
  rcases read : v.read c with e | val <;> rw [read] at answer
  · rw [show (c.get object).value (.ok (v.records (L.key (.data c)))) = .error e from answer]
    exact ⟨s, rfl, seen⟩
  · obtain ⟨d, kept, reflects'⟩ := answer
    rw [kept]
    have after := seen.setCell _ found reflects'
    rw [Function.update_eq_self] at after
    exact ⟨_, rfl, after⟩

omit [DecidableEq K] in
theorem Seen.read_crash (seen : Seen base mode s v) {c : Cell} {object : c.contract.Object}
    (found : s.cache.lookup c.contract = some object) (untouched : v.touched c = none) (missing : v.records (L.key (.data c)) = none)
    (broken : ¬ intact (default : c.Val) = true) : StorageMap.read c s = (.error .crash, s) := by
  have reflects := seen.cells (StorageMap.cell_of_lookup found)
  rw [untouched, missing] at reflects
  rw [StorageMap.read, found]
  simp only [seen.get (.data c), missing, Data.value_crash reflects broken]

omit [DecidableEq K] in
theorem View.read_throws (v : View L) {c : Cell} {e : Stop} (failed : v.read c = .error e) : e ≠ .crash := by
  rw [v.read_eq] at failed
  rcases touched : v.touched c with _ | _ | val <;> rw [touched] at failed
  · rcases held : v.records (L.key (.data c)) with _ | raw <;> rw [held] at failed
    · cases failed
    · exact deserialize_throws failed
  · cases failed
    simp
  · cases failed

theorem existence_throws {k : ContractKey} {held : Option ByteString} {e : Stop} (failed : Overlay.existence k held = .error e) :
    e ≠ .crash := by
  unfold Overlay.existence at failed
  split at failed
  · cases failed
  · split at failed <;> cases failed
    simp

omit [DecidableEq K] in
theorem Seen.assign (seen : Seen base mode s v) {c : Cell} {object : c.contract.Object} (found : s.cache.lookup c.contract = some object)
    {val : c.Val} (whole : intact val = true) :
    ∃ s', StorageMap.assign c val s = (.ok (), s') ∧ Seen base mode s' (v.touch c (some val)) := by
  have assigned : Data.assign val = .ok { status := .changed, cache := some val } := by
    simp [Data.assign, copy, whole, bind, Except.bind, pure, Except.pure]
  refine ⟨s.setCell c object { status := .changed, cache := some val }, ?_, seen.setCell (some (some val)) found ⟨rfl, whole⟩⟩
  rw [StorageMap.assign, found]
  simp only [assigned]
  rfl

omit [DecidableEq K] in
theorem assign_broken {c : Cell} {object : c.contract.Object} (found : s.cache.lookup c.contract = some object) {val : c.Val}
    (broken : ¬ intact val = true) : StorageMap.assign c val s = (.error .crash, s) := by
  have assigned : Data.assign val = .error .crash := by simp [Data.assign, copy, broken, bind, Except.bind]
  rw [StorageMap.assign, found]
  simp only [assigned]

omit [DecidableEq K] in
theorem Seen.erase (seen : Seen base mode s v) {c : Cell} {object : c.contract.Object} (found : s.cache.lookup c.contract = some object) :
    ∃ s', StorageMap.erase c s = (.ok (), s') ∧ Seen base mode s' (v.touch c none) := by
  refine ⟨s.setCell c object Data.erase, ?_, seen.setCell (some none) found rfl⟩
  rw [StorageMap.erase, found]
  rfl

omit [DecidableEq K] in
/-- An access to a loaded contract does what the view says if it copies no broken value, and ends the process if it does. -/
theorem Seen.use (seen : Seen base mode s v) {access : Access} {object : access.cell.contract.Object}
    (found : s.cache.lookup access.cell.contract = some object) :
    (v.Copies access ∧ ∃ s', access.use s = ((v.use access).1, s') ∧ (v.use access).1 ≠ .error .crash ∧
        Seen base mode s' (v.use access).2) ∨
      ¬ v.Copies access ∧ (access.use s).1 = .error .crash ∧ (v.use access).1 ≠ .error .crash := by
  cases access with
  | read c =>
    by_cases fit : v.touched c = none → v.records (L.key (.data c)) = none → intact (default : c.Val) = true
    · obtain ⟨s', ran, seen'⟩ := seen.read (c := c) found fit
      refine Or.inl ⟨fit, s', ?_, ?_, seen'⟩
      · rcases answer : v.read c with e | val <;> rw [answer] at ran
        · exact (Exec.bind_of_error ran).trans (by rw [View.use, answer]; rfl)
        · exact (Exec.bind_of_ok ran).trans (by rw [View.use, answer]; rfl)
      · rw [View.use]
        rcases answer : v.read c with e | val
        · rintro ⟨⟩
          exact v.read_throws answer rfl
        · nofun
    · obtain ⟨untouched, missing, broken⟩ :
          v.touched c = none ∧ v.records (L.key (.data c)) = none ∧ ¬ intact (default : c.Val) = true := by
        by_contra other
        exact fit fun untouched missing => by_contra fun broken => other ⟨untouched, missing, broken⟩
      have crashed := seen.read_crash (c := c) found untouched missing broken
      refine Or.inr ⟨fit, congrArg Prod.fst (Exec.bind_of_error crashed), ?_⟩
      rw [View.use, v.read_eq, untouched, missing]
      nofun
  | assign c val =>
    by_cases whole : intact val = true
    · obtain ⟨s', ran, seen'⟩ := seen.assign (c := c) found whole
      exact Or.inl ⟨whole, s', Exec.bind_of_ok ran, nofun, seen'⟩
    · exact Or.inr ⟨whole, congrArg Prod.fst (Exec.bind_of_error (assign_broken (c := c) found whole)), nofun⟩
  | erase c =>
    obtain ⟨s', ran, seen'⟩ := seen.erase (c := c) found
    exact Or.inl ⟨trivial, s', Exec.bind_of_ok ran, nofun, seen'⟩

omit [DecidableEq K] in
theorem Seen.step (seen : Seen base mode s v) (access : Access) :
    (v.Fit access ∧ ∃ s', access.exec s = ((v.step access).1, s') ∧ (v.step access).1 ≠ .error .crash ∧
        Seen base mode s' (v.step access).2) ∨
      ¬ v.Fit access ∧ (access.exec s).1 = .error .crash ∧ (v.step access).1 ≠ .error .crash := by
  have loaded := seen.load access.cell.contract
  unfold View.step View.Fit
  rcases answer : Overlay.existence access.cell.contract (v.records (L.key (.contract access.cell.contract))) with e | _ | _ <;>
    rw [answer] at loaded
  · have unmarked : v.records (L.key (.contract access.cell.contract)) ≠ some access.cell.contract.prefixedKey := by
      intro marked
      rw [Overlay.existence_true.mpr marked] at answer
      cases answer
    refine Or.inl ⟨fun marked => (unmarked marked).elim, s, Exec.bind_of_error loaded, ?_, seen⟩
    rintro ⟨⟩
    exact existence_throws answer rfl
  · have unmarked : v.records (L.key (.contract access.cell.contract)) ≠ some access.cell.contract.prefixedKey := by
      rw [Overlay.existence_false.mp answer]
      nofun
    exact Or.inl ⟨fun marked => (unmarked marked).elim, s, Exec.bind_of_error loaded, nofun, seen⟩
  · obtain ⟨s₁, object, ran, seen₁, found⟩ := loaded
    have marked := Overlay.existence_true.mp answer
    rcases seen₁.use found with ⟨copies, s', used, alive, seen'⟩ | ⟨broken, ended, alive⟩
    · exact Or.inl ⟨fun _ => copies, s', (Exec.bind_of_ok ran).trans used, alive, seen'⟩
    · exact Or.inr ⟨fun all => broken (all marked), (congrArg Prod.fst (Exec.bind_of_ok ran)).trans ended, alive⟩

omit [DecidableEq K] in
theorem session_cons {access : Access} {accesses : List Access} {answer : Except Stop Reading} {s' : StorageMap L}
    (ran : access.exec s = (answer, s')) (alive : answer ≠ .error .crash) :
    Access.session (access :: accesses) s = (answer :: (Access.session accesses s').1, (Access.session accesses s').2) := by
  rw [Access.session, ran]
  rcases answer with (_ | _) | _
  · rfl
  · exact (alive rfl).elim
  · rfl

omit [DecidableEq K] in
/-- A session of fit accesses has the answers of its view. -/
theorem Seen.session (seen : Seen base mode s v) {accesses : List Access} (along : v.Along accesses) :
    (Access.session accesses s).1 = (v.run accesses).1 ∧ Seen base mode (Access.session accesses s).2 (v.run accesses).2 := by
  induction accesses generalizing s v with
  | nil => exact ⟨rfl, seen⟩
  | cons access accesses ih =>
    obtain ⟨fit, later⟩ := along
    rcases seen.step access with ⟨_, s', ran, alive, seen'⟩ | ⟨unfit, _⟩
    · obtain ⟨answers, last⟩ := ih seen' later
      rw [session_cons ran alive, View.run, answers]
      exact ⟨rfl, last⟩
    · exact (unfit fit).elim

omit [DecidableEq K] in
/-- Otherwise it ends the process, where its view goes on. -/
theorem Seen.session_unfit (seen : Seen base mode s v) {accesses : List Access} (unfit : ¬ v.Along accesses) :
    (Access.session accesses s).1 ≠ (v.run accesses).1 := by
  induction accesses generalizing s v with
  | nil => exact (unfit trivial).elim
  | cons access accesses ih =>
    rcases seen.step access with ⟨fit, s', ran, alive, seen'⟩ | ⟨_, ended, alive⟩
    · rw [session_cons ran alive, View.run]
      intro same
      exact ih seen' (fun along => unfit ⟨fit, along⟩) (List.cons.inj same).2
    · rw [Access.session, View.run]
      rcases ran : access.exec s with ⟨answer, s'⟩
      rw [ran] at ended
      obtain rfl : answer = .error .crash := ended
      intro same
      exact alive (List.cons.inj same).1.symm

/-! ### The end of a session -/

omit [DecidableEq K] in
theorem Seen.settled (seen : Seen base mode s v) {order : List Member} (perm : order.Perm s.members) : ∀ m ∈ order, m.2.Settled :=
  fun _ member => (Data.settled_of_reflects (seen.cells (StorageMap.cell_of_mem_members (perm.mem_iff.mp member)))).1

omit [DecidableEq K] in
theorem Seen.mem_changes (seen : Seen base mode s v) {order : List Member} (perm : order.Perm s.members) (e : K × Option ByteString) :
    e ∈ StorageMap.changes L order ↔ ∃ c val, v.touched c = some val ∧ e = (L.key (.data c), val.map serialize) := by
  constructor
  · intro change
    obtain ⟨⟨c, d⟩, member, made⟩ := List.mem_filterMap.mp change
    obtain ⟨val, changed, rfl⟩ := Option.map_eq_some_iff.mp made
    have held := StorageMap.cell_of_mem_members (perm.mem_iff.mp member)
    exact ⟨c, val, (Data.settled_of_reflects (seen.cells held)).2.symm.trans changed, rfl⟩
  · rintro ⟨c, val, touched, rfl⟩
    rcases held : s.cell c with _ | d
    · rw [seen.uncached held] at touched
      cases touched
    · have changed := (Data.settled_of_reflects (seen.cells held)).2.trans touched
      have member : (⟨c, d⟩ : Member) ∈ s.members := StorageMap.mem_members_of_changed held fun unchanged => by
        rw [Data.change, unchanged] at changed
        cases changed
      exact List.mem_filterMap.mpr ⟨⟨c, d⟩, perm.mem_iff.mpr member, Option.map_eq_some_iff.mpr ⟨val, changed, rfl⟩⟩

/-- Whatever their order, the changes settle the view. -/
theorem Seen.settles (seen : Seen base mode s v) (apart : ∀ c d : Cell, L.key (.data c) = L.key (.data d) → c = d)
    {order : List Member} (perm : order.Perm s.members) :
    v.Settles (WriteBack.changeAll (StorageMap.changes L order) v.records) := by
  have single : WriteBack.Functional {e | e ∈ StorageMap.changes L order} := by
    intro k b b' first second
    obtain ⟨c, val, touched, same⟩ := (seen.mem_changes perm _).mp first
    obtain ⟨d, val', touched', same'⟩ := (seen.mem_changes perm _).mp second
    obtain ⟨rfl, rfl⟩ := Prod.mk.inj same
    obtain ⟨keys, rfl⟩ := Prod.mk.inj same'
    obtain rfl := apart c d keys
    rw [touched] at touched'
    rw [Option.some.inj touched']
  refine ⟨fun c val touched => ?_, fun c touched => ?_, fun k others => ?_⟩
  · exact WriteBack.changeAll_of_mem single _ ((seen.mem_changes perm _).mpr ⟨c, some val, touched, rfl⟩)
  · exact WriteBack.changeAll_of_mem single _ ((seen.mem_changes perm _).mpr ⟨c, none, touched, rfl⟩)
  · refine WriteBack.changeAll_of_clear _ fun b change => ?_
    obtain ⟨c, val, touched, same⟩ := (seen.mem_changes perm _).mp change
    rw [others c (Prod.mk.inj same).1.symm] at touched
    cases touched

/-- A flush leaves the settled map where it was made in apply mode, and none of it after check mode. -/
theorem Seen.flushIn (seen : Seen base mode s v) {order : List Member} (perm : order.Perm s.members) {m : K → Option ByteString}
    (map : m = WriteBack.changeAll (StorageMap.changes L order) v.records) :
    StorageMap.clearIn order ({ s with isFlushing := true } : StorageMap L) =
        (.ok (), { base.withMap mode m with currentCache := some mode, isFlushing := true, cache := ∅ }) ∧
      StorageMap.flushIn order s =
        (.ok (), { checkCache := (base.withMap mode m).applyCache, applyCache := (base.withMap mode m).applyCache }) := by
  have destroyed := StorageMap.destroyAll_changes (seen.settled perm) (s := ({ s with isFlushing := true } : StorageMap L)) rfl seen.current
  have records : StorageMap.map ({ s with isFlushing := true } : StorageMap L) mode = v.records := by
    rw [← seen.map]
    cases mode <;> rfl
  rw [records, ← map] at destroyed
  have cleared : StorageMap.clearIn order ({ s with isFlushing := true } : StorageMap L) =
      (.ok (), { base.withMap mode m with currentCache := some mode, isFlushing := true, cache := ∅ }) := by
    refine (Exec.bind_of_ok destroyed).trans ?_
    have check := seen.checkCache
    have apply := seen.applyCache
    have current := seen.current
    cases mode <;> simp [StorageMap.withMap, check, apply, current]
  refine ⟨cleared, ?_⟩
  refine (Exec.bind_of_ok (Exec.modify_apply _ s)).trans ((Exec.bind_of_ok cleared).trans ?_)
  cases mode <;> rfl

/-- A reset drops what the session did. -/
theorem Seen.resetIn (seen : Seen base mode s v) (empty : base.cache = ∅) (idle : base.isFlushing = false)
    (current : base.currentCache = some mode) (order : List Member) : StorageMap.clearIn order s = (.ok (), base) := by
  refine (Exec.bind_of_ok (StorageMap.destroyAll_silent (Or.inl seen.idle))).trans ?_
  obtain ⟨_, _, _, _, _⟩ := base
  cases empty
  cases idle
  cases current
  have check := seen.checkCache
  have apply := seen.applyCache
  simp only [Exec.modify_apply, check, apply, seen.current, seen.idle]
  rfl

end

/-- A session has the answers of its view. Whatever the order in which its cells are destroyed, a flush settles the view in the
selected map, which a commit then keeps after apply mode, and a reset leaves the store as it was. -/
def Invisible (mode : PrimaryMode) (base : StorageMap L) (accesses : List Access) : Prop :=
  let (answers, s) := Access.session accesses base
  let (expected, v) := View.run accesses (⟨base.map mode, fun _ => none⟩ : View L)
  answers = expected ∧ ∀ order : List Member, order.Perm s.members →
    (∃ m, v.Settles m ∧
      StorageMap.clearIn order ({ s with isFlushing := true } : StorageMap L) =
        (.ok (), { base.withMap mode m with currentCache := some mode, isFlushing := true, cache := ∅ }) ∧
      StorageMap.flushIn order s =
        (.ok (), { checkCache := (base.withMap mode m).applyCache, applyCache := (base.withMap mode m).applyCache })) ∧
    StorageMap.clearIn order s = (.ok (), base)

/-- Where the cells have keys of their own, a session is invisible if and only if it copies no curve without an equation. -/
theorem session_invisible_iff (apart : ∀ c d : Cell, L.key (.data c) = L.key (.data d) → c = d) {base : StorageMap L}
    {mode : PrimaryMode} (empty : base.cache = ∅) (idle : base.isFlushing = false) (current : base.currentCache = some mode)
    (accesses : List Access) :
    Invisible mode base accesses ↔ View.Along accesses (⟨base.map mode, fun _ => none⟩ : View L) := by
  have seen : Seen base mode base ⟨base.map mode, fun _ => none⟩ :=
    { idle, current
      checkCache := rfl
      applyCache := rfl
      records := rfl
      marked := fun k member => by
        rw [empty] at member
        cases AList.notMem_empty k member
      cells := fun {c} {d} held => by
        rw [StorageMap.cell_eq_none (by rw [empty]; exact AList.notMem_empty _)] at held
        cases held
      uncached := fun _ => rfl }
  constructor
  · rintro ⟨answers, _⟩
    by_contra unfit
    exact seen.session_unfit unfit answers
  · intro along
    obtain ⟨answers, last⟩ := seen.session along
    refine ⟨answers, fun order perm => ⟨⟨_, last.settles apart perm, last.flushIn perm rfl⟩, last.resetIn empty idle current order⟩⟩

/-- A token and an account, with a supply and a balance of 9. -/
def stocked : StorageMap Layout.free where
  applyCache slot :=
    if slot = .contract (.token default) then some (ContractKey.token default).prefixedKey
    else if slot = .contract (.account default) then some (ContractKey.account default).prefixedKey
    else if slot = .data (.currentSupply default) ∨ slot = .data (.balances default default) then some (serialize (9 : UInt256))
    else none
  currentCache := some .apply

def nobody : Ident := ⟨ascii "nobody", by decide +kernel⟩

def spending : List Access :=
  [.read (.currentSupply default), .assign (.currentSupply default) 4, .read (.currentSupply default), .erase (.balances default default),
   .read (.balances default default), .assign (.balances default nobody) 5, .read (.nonce default), .assign (.nonce default) 1,
   .read (.nonce nobody), .read (.nonce default)]

/-- Stored, assigned, erased and default values are read, and a cell of an account that does not exist. -/
theorem session_invisible_iff_spending :
    ((Access.session spending stocked).1.map fun answer => answer.toOption) =
        [some (some ⟨.currentSupply default, 9⟩), some none, some (some ⟨.currentSupply default, 4⟩), some none, none, some none,
         some (some ⟨.nonce default, 0⟩), some none, none, some (some ⟨.nonce default, 1⟩)] ∧
      Invisible .apply stocked spending := by
  refine ⟨rfl, (session_invisible_iff (fun _ _ same => Slot.data.inj same) rfl rfl rfl spending).mpr ?_⟩
  -- No cell is a curve, so a value that is copied is whole.
  have whole {v : View Layout.free} {c : Cell} (always : ∀ val : c.Val, intact val = true) : v.Fit (.read c) := fun _ _ _ => always _
  exact ⟨whole fun _ => rfl, fun _ => rfl, whole fun _ => rfl, fun _ => trivial, whole fun _ => rfl, fun _ => rfl, whole fun _ => rfl,
    fun _ => rfl, whole fun _ => rfl, whole fun _ => rfl, trivial⟩

/-- A token whose marker is stored and whose curve is not, as an `init` that throws leaves it: a read of the curve ends the
process. -/
theorem orphan_curve_visible :
    ¬ Invisible .apply
        ({ applyCache := fun x => if x = .contract (.token default) then some (ContractKey.token default).prefixedKey else none
           currentCache := some .apply } : StorageMap Layout.free)
        [.read (.curveData default)] := by
  rintro ⟨answers, _⟩
  exact absurd (congrArg (List.map fun answer => (answer.toOption : Option Reading).isSome) answers) (by decide)

end BandChain
