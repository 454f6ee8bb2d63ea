import BandChain.Store.Session
import BandChain.Store.Vector

/-! A `Vector` over load sessions, beside a plain list under the same calls. -/

namespace BandChain.StoredVector

variable {α : Type}

inductive Call (α : Type) where
  | pushBack (val : α)
  | subscript (idx : UInt256)
  | back
  | size
  | destroy
  | lowerBoundIndex (val : α)

inductive Event (α : Type) where
  | call (c : Call α)
  | flush
  | reset

inductive Answer (α : Type) where
  | done
  | value (val : α)
  | count (n : UInt256)
  deriving DecidableEq

/-! ### Sessions -/

/-- A vector in its storage, or in memory while its contract is loaded. -/
inductive Session (α : Type) where
  | stored (records : Records)
  | loaded (v : StoredVector α)

def Session.records : Session α → Records
  | .stored records => records
  | .loaded v => v.storage

def Session.vector (baseKey : ByteString) : Session α → Except Stop (StoredVector α)
  | .stored records => construct records baseKey
  | .loaded v => .ok v

section

variable [Serial α] [LE α] [DecidableLE α]

def Call.exec : Call α → Exec Stop (StoredVector α) (Answer α)
  | .pushBack val => do
    StoredVector.pushBack val
    return .done
  | .subscript idx => do return .value (← StoredVector.subscript idx)
  | .back => do return .value (← StoredVector.back)
  | .size => do return .count (← StoredVector.size)
  | .destroy => do
    StoredVector.destroy
    return .done
  | .lowerBoundIndex val => do return .count (← StoredVector.lowerBoundIndex val)

def Session.step (baseKey : ByteString) (session : Session α) : Event α → Except Stop (Answer α) × Session α
  | .call c =>
    match session.vector baseKey with
    | .error e => (.error e, session)
    | .ok v => ((c.exec v).1, .loaded (c.exec v).2)
  | .flush =>
    match session with
    | .stored records => (.ok .done, .stored records)
    | .loaded v => (.ok .done, .stored v.destruct)
  | .reset => (.ok .done, .stored session.records)

def Session.run (baseKey : ByteString) : Session α → List (Event α) → List (Except Stop (Answer α)) × Session α
  | session, [] => ([], session)
  | session, event :: events =>
    ((session.step baseKey event).1 :: (Session.run baseKey (session.step baseKey event).2 events).1,
      (Session.run baseKey (session.step baseKey event).2 events).2)

end

/-! ### The plain list -/

/-- A list that a flush keeps, its copy in the session, and whether the session destroyed it. -/
structure Plain (α : Type) where
  kept : List α := []
  current : List α := []
  destroyed : Bool := false

section

variable [LE α] [DecidableLE α]

/-- What `lowerBoundIndex` looks for: a place in the list found by halving. -/
def Plain.place (l : List α) (val : α) : Nat := Search.lowerBound (fun i => ∀ x ∈ l[i]?, ¬ val ≤ x) 0 l.length

def Plain.answer (plain : Plain α) : Call α → Except Error (Answer α)
  | .pushBack _ => if plain.destroyed then .error .vectorDestroyed else .ok .done
  | .subscript idx =>
    if plain.destroyed then .error .vectorDestroyed
    else
      match plain.current[idx.val]? with
      | none => .error .indexOutOfRange
      | some val => .ok (.value val)
  | .back =>
    match plain.current.getLast? with
    | none => .error .vectorEmpty
    | some val => if plain.destroyed then .error .vectorDestroyed else .ok (.value val)
  | .size => .ok (.count (.ofNat plain.current.length))
  | .destroy => .ok .done
  | .lowerBoundIndex val =>
    if plain.destroyed ∧ plain.current ≠ [] then .error .vectorDestroyed
    else .ok (.count (.ofNat (Plain.place plain.current val)))

def Plain.call (plain : Plain α) : Call α → Plain α
  | .pushBack val => if plain.destroyed then plain else { plain with current := plain.current ++ [val] }
  | .destroy => { plain with destroyed := true }
  | .subscript _ | .back | .size | .lowerBoundIndex _ => plain

def Plain.step (plain : Plain α) : Event α → Except Error (Answer α) × Plain α
  | .call c => (plain.answer c, plain.call c)
  | .flush => if plain.destroyed then (.ok .done, {}) else (.ok .done, { plain with kept := plain.current })
  | .reset => (.ok .done, { kept := plain.kept, current := plain.kept })

def Plain.run : Plain α → List (Event α) → List (Except Error (Answer α)) × Plain α
  | plain, [] => ([], plain)
  | plain, event :: events =>
    ((plain.step event).1 :: (Plain.run (plain.step event).2 events).1, (Plain.run (plain.step event).2 events).2)

/-- Room for one more element where one is pushed, and for the sum of two bounds where a place is searched. -/
def Plain.Roomy (plain : Plain α) : Event α → Prop
  | .call (.pushBack _) => plain.destroyed = false → plain.current.length + 1 < 2 ^ 256
  | .call (.lowerBoundIndex _) => plain.destroyed = false → plain.current.length < 2 ^ 255
  | _ => True

def Plain.Along : List (Event α) → Plain α → Prop
  | [], _ => True
  | event :: events, plain => plain.Roomy event ∧ Plain.Along events (plain.step event).2

end

/-! ### The search -/

section

variable [LE α] [DecidableLE α] {σ : Type}

theorem middle_ok {st ed mid : UInt256} (computed : (do (← st.add ed).div 2 : Except Stop UInt256) = .ok mid) :
    mid.val = (st.val + ed.val) / 2 := by
  rcases sum : st.add ed with e | total
  · rw [sum] at computed
    cases computed
  · rw [sum] at computed
    have halved : UInt256.checked (total.val / 2) = .ok mid := computed
    rw [UInt256.checked_ok halved, UInt256.add_ok sum]

theorem middle_of_small (st ed : UInt256) (small : st.val + ed.val < 2 ^ 256) :
    ∃ mid, (do (← st.add ed).div 2 : Except Stop UInt256) = .ok mid := by
  have sum : st.add ed = .ok ⟨st.val + ed.val, small⟩ := dif_pos small
  have half : (st.val + ed.val) / 2 < 2 ^ 256 := (Nat.div_le_self _ _).trans_lt small
  have halved : UInt256.div ⟨st.val + ed.val, small⟩ 2 = .ok ⟨(st.val + ed.val) / 2, half⟩ := dif_pos half
  exact ⟨_, by rw [sum]; exact halved⟩

theorem succ_of_small {n : UInt256} (small : n.val + 1 < 2 ^ 256) : n.add 1 = .ok ⟨n.val + 1, small⟩ := dif_pos small

/-- The search reads nothing from its upper end on. -/
theorem lowerBoundLoop_congr {read read' : UInt256 → Exec Stop σ α} {n : Nat} (same : ∀ idx, idx.val < n → read idx = read' idx)
    (value : α) (fuel : Nat) {st ed : UInt256} (within : ed.val ≤ n) :
    lowerBoundLoop read value fuel st ed = lowerBoundLoop read' value fuel st ed := by
  induction fuel generalizing st ed with
  | zero => rfl
  | succ fuel ih =>
    unfold lowerBoundLoop
    split
    · rename_i room
      rw [UInt256.lt_def] at room
      rcases computed : (do (← st.add ed).div 2 : Except Stop UInt256) with e | mid
      · rfl
      · have below : mid.val < ed.val := by
          rw [middle_ok computed]
          omega
        have lower : lowerBoundLoop read value fuel st mid = lowerBoundLoop read' value fuel st mid := ih (by omega)
        have upper : ∀ next, lowerBoundLoop read value fuel next ed = lowerBoundLoop read' value fuel next ed := fun _ => ih within
        show (do if value ≤ (← read mid) then _ else _) = (do if value ≤ (← read' mid) then _ else _)
        rw [same mid (by omega), lower]
        simp only [upper]
    · rfl

/-- Where the elements of a list can be read, the search finds the place in the list. -/
theorem lowerBoundLoop_place {read : UInt256 → Exec Stop σ α} {P : σ → Prop} {l : List α}
    (reads : ∀ {idx val s}, P s → l[idx.val]? = some val → ∃ s', read idx s = (.ok val, s') ∧ P s') (small : l.length < 2 ^ 255)
    (value : α) {fuel : Nat} (st ed : UInt256) (ordered : st.val ≤ ed.val) (within : ed.val ≤ l.length)
    (enough : ed.val - st.val < fuel) {s : σ} (holds : P s) :
    ∃ s', lowerBoundLoop read value fuel st ed s =
      (.ok (.ofNat (Search.lowerBound (fun i => ∀ x ∈ l[i]?, ¬ value ≤ x) st.val ed.val)), s') ∧ P s' := by
  induction fuel generalizing st ed s with
  | zero => omega
  | succ fuel ih =>
    unfold lowerBoundLoop Search.lowerBound
    by_cases room : st.val < ed.val
    · rw [if_pos room, if_pos (UInt256.lt_def.mpr room)]
      obtain ⟨mid, computed⟩ := middle_of_small st ed (by omega)
      have middle := middle_ok computed
      have inside : mid.val < l.length := by omega
      obtain ⟨s₁, ran, holds₁⟩ := reads holds (List.getElem?_eq_getElem inside)
      have element : (∀ x ∈ l[(st.val + ed.val) / 2]?, ¬ value ≤ x) ↔ ¬ value ≤ l[mid.val] := by
        rw [← middle, List.getElem?_eq_getElem inside]
        simp
      rw [computed]
      by_cases reached : value ≤ l[mid.val]
      · obtain ⟨s', found, holds'⟩ := ih st mid (by omega) (by omega) (by omega) holds₁
        refine ⟨s', (Exec.bind_of_ok ran).trans ?_, holds'⟩
        rw [if_neg (mt element.mp (not_not.mpr reached)), ← middle]
        exact (congrFun (if_pos reached) s₁).trans found
      · have next := succ_of_small (n := mid) (by omega)
        obtain ⟨s', found, holds'⟩ := ih ⟨mid.val + 1, by omega⟩ ed (by show mid.val + 1 ≤ _; omega) within
          (by show ed.val - (mid.val + 1) < _; omega) holds₁
        refine ⟨s', (Exec.bind_of_ok ran).trans ?_, holds'⟩
        rw [if_pos (element.mpr reached), ← middle]
        refine (congrFun (if_neg reached) s₁).trans ?_
        rw [next]
        exact found
    · rw [if_neg room, if_neg (mt UInt256.lt_def.mp room)]
      refine ⟨s, congrArg (·, s) (congrArg Except.ok (UInt256.ext ?_)), holds⟩
      exact (Nat.mod_eq_of_lt st.isLt).symm

end

/-! ### What a vector holds -/

section

variable [Serial α]

/-- The records of a list. -/
structure Stored (baseKey : ByteString) (records : Records) (l : List α) : Prop where
  size : records baseKey = some (serialize (UInt256.ofNat l.length)) ∨ records baseKey = none ∧ l = []
  elements : ∀ i, records (StoredSet.nodeKey baseKey i) = l[i]?.map serialize

/-- A vector that holds the current list: what was pushed in this session is in its cache. -/
structure Holds (baseKey : ByteString) (records : Records) (plain : Plain α) (v : StoredVector α) : Prop where
  baseKey_eq : v.baseKey = baseKey
  storage_eq : v.storage = records
  size : v.mSize.val = plain.current.length
  destroyed : v.isDestroyed = plain.destroyed
  grown : plain.kept <+: plain.current
  cached : ∀ {idx val}, v.cache.lookup idx = some val → plain.current[idx.val]? = some val
  pushed : ∀ {idx : UInt256}, plain.kept.length ≤ idx.val → idx.val < plain.current.length → v.cache.lookup idx ≠ none

variable {baseKey : ByteString} {records : Records} {plain : Plain α} {v : StoredVector α}

theorem Stored.construct (stored : Stored baseKey records plain.kept) (small : plain.kept.length < 2 ^ 256)
    (fresh : plain.current = plain.kept) (whole : plain.destroyed = false) :
    ∃ v : StoredVector α, StoredVector.construct records baseKey = .ok v ∧ Holds baseKey records plain v := by
  have holds : ∀ mSize : UInt256, mSize.val = plain.kept.length →
      Holds baseKey records plain { storage := records, baseKey, mSize } := fun mSize same =>
    { baseKey_eq := rfl
      storage_eq := rfl
      size := by rw [fresh]; exact same
      destroyed := whole.symm
      grown := by rw [fresh]
      cached := nofun
      pushed := fun {idx} above below => by rw [fresh] at below; omega }
  rcases stored.size with held | ⟨missing, empty⟩
  · refine ⟨_, ?_, holds (.ofNat plain.kept.length) (Nat.mod_eq_of_lt small)⟩
    rw [StoredVector.construct, held]
    have read : deserialize (serialize (UInt256.ofNat plain.kept.length)) = .ok (UInt256.ofNat plain.kept.length) := deserialize_serialize rfl
    simp only [read]
    rfl
  · refine ⟨_, ?_, holds 0 (by rw [empty]; rfl)⟩
    rw [StoredVector.construct, missing]

variable [LawfulSerial α]

theorem Holds.subscript (intact : ∀ val : α, Serial.intact val = true) (stored : Stored baseKey records plain.kept)
    (holds : Holds baseKey records plain v) (live : plain.destroyed = false) {idx : UInt256} {val : α}
    (element : plain.current[idx.val]? = some val) :
    ∃ v', StoredVector.subscript idx v = (.ok val, v') ∧ Holds baseKey records plain v' := by
  have inside : idx.val < plain.current.length := (List.getElem?_eq_some_iff.mp element).1
  have bounded : ¬ v.mSize ≤ idx := by
    rw [UInt256.le_def, holds.size]
    omega
  have intact_v : ¬ v.isDestroyed = true := by rw [holds.destroyed, live]; simp
  rcases held : v.cache.lookup idx with _ | cached
  · have early : idx.val < plain.kept.length := by
      by_contra late
      exact holds.pushed (Nat.le_of_not_lt late) inside held
    have same : plain.kept[idx.val]? = some val := by
      obtain ⟨rest, grown⟩ := holds.grown
      rw [← element, ← grown, List.getElem?_append_left early]
    have record : v.storage (elementKey v.baseKey idx) = some (serialize val) := by
      rw [holds.storage_eq, holds.baseKey_eq, elementKey, stored.elements, same]
      rfl
    have emplaced : emplace idx val v = { v with cache := v.cache.insert idx val } := by rw [emplace, held]
    refine ⟨emplace idx val v, ?_, ?_⟩
    · simp [StoredVector.subscript, Exec.bind_apply, intact_v, bounded, held, record, deserialize_serialize (intact val)]
    · rw [emplaced]
      refine { holds with cached := fun {i x} found => ?_, pushed := fun {i} above below => ?_ }
      · by_cases here : i = idx
        · subst here
          rw [AList.lookup_insert] at found
          rw [element, Option.some.inj found]
        · rw [AList.lookup_insert_ne here] at found
          exact holds.cached found
      · have other : i ≠ idx := by
          rintro rfl
          omega
        rw [AList.lookup_insert_ne other]
        exact holds.pushed above below
  · obtain rfl : cached = val := Option.some.inj ((holds.cached held).symm.trans element)
    exact ⟨v, by simp [StoredVector.subscript, Exec.bind_apply, intact_v, bounded, held], holds⟩

omit [Serial α] [LawfulSerial α] in
theorem emplace_new {idx : UInt256} (absent : v.cache.lookup idx = none) (val : α) :
    emplace idx val v = { v with cache := v.cache.insert idx val } := by
  rw [emplace, absent]

omit [Serial α] [LawfulSerial α] in
theorem Holds.pushBack (holds : Holds baseKey records plain v) (live : plain.destroyed = false)
    (room : plain.current.length + 1 < 2 ^ 256) (val : α) :
    ∃ v', StoredVector.pushBack val v = (.ok (), v') ∧
      Holds baseKey records { plain with current := plain.current ++ [val] } v' := by
  have absent : v.cache.lookup v.mSize = none := by
    rcases held : v.cache.lookup v.mSize with _ | old
    · rfl
    · have inside := (List.getElem?_eq_some_iff.mp (holds.cached held)).1
      rw [holds.size] at inside
      omega
  have fits : v.mSize.val + 1 < 2 ^ 256 := by rw [holds.size]; exact room
  have whole : ¬ v.isDestroyed = true := by rw [holds.destroyed, live]; simp
  refine ⟨{ v with cache := v.cache.insert v.mSize val, mSize := ⟨v.mSize.val + 1, fits⟩ }, ?_, ?_⟩
  · simp [StoredVector.pushBack, Exec.bind_apply, whole, emplace_new absent, succ_of_small fits]
  · refine { holds with size := ?_, grown := holds.grown.trans (List.prefix_append _ _), cached := fun {i x} found => ?_,
                        pushed := fun {i} above below => ?_ }
    · rw [List.length_append, List.length_singleton, ← holds.size]
    · by_cases here : i = v.mSize
      · subst here
        rw [AList.lookup_insert] at found
        rw [holds.size, List.getElem?_concat_length, Option.some.inj found]
      · rw [AList.lookup_insert_ne here] at found
        have element := holds.cached found
        rw [List.getElem?_append_left (List.getElem?_eq_some_iff.mp element).1]
        exact element
    · by_cases here : i = v.mSize
      · subst here
        rw [AList.lookup_insert]
        intro gone
        cases gone
      · have other : i.val ≠ v.mSize.val := fun same => here (UInt256.ext same)
        rw [List.length_append, List.length_singleton] at below
        rw [AList.lookup_insert_ne here]
        exact holds.pushed above (by rw [holds.size] at other; omega)

variable [LE α] [DecidableLE α]

omit [LawfulSerial α] [LE α] [DecidableLE α] in
theorem subscript_destroyed (gone : v.isDestroyed = true) (idx : UInt256) :
    StoredVector.subscript idx v = (.error (.throw (.error .vectorDestroyed)), v) := by
  simp [StoredVector.subscript, Exec.bind_apply, gone]

omit [LawfulSerial α] [LE α] [DecidableLE α] in
theorem subscript_outside (live : v.isDestroyed = false) {idx : UInt256} (outside : v.mSize.val ≤ idx.val) :
    StoredVector.subscript idx v = (.error (.throw (.error .indexOutOfRange)), v) := by
  simp [StoredVector.subscript, Exec.bind_apply, live, UInt256.le_def, outside]

/-- An answer of the plain list, as the code gives it. -/
def outcome (answer : Except Error (Answer α)) : Except Stop (Answer α) := answer.mapError fun e => .throw (.error e)

/-- The call answers from the list, and leaves a vector that holds what the plain list does. -/
def Obeys (baseKey : ByteString) (records : Records) (plain : Plain α) (v : StoredVector α) (c : Call α) : Prop :=
  ∃ v', c.exec v = (outcome (plain.answer c), v') ∧ Holds baseKey records (plain.call c) v'

omit [Serial α] [LawfulSerial α] [LE α] [DecidableLE α] in
theorem Holds.sized (holds : Holds baseKey records plain v) : v.mSize = .ofNat plain.current.length :=
  UInt256.ext (by rw [UInt256.val_ofNat, ← holds.size, Nat.mod_eq_of_lt v.mSize.isLt])

omit [LawfulSerial α] in
theorem Holds.call_pushBack (holds : Holds baseKey records plain v) (val : α) (roomy : plain.Roomy (.call (.pushBack val))) :
    Obeys baseKey records plain v (.pushBack val) := by
  cases live : plain.destroyed with
  | false =>
    obtain ⟨v', ran, holds'⟩ := holds.pushBack live (roomy live) val
    refine ⟨v', ?_, ?_⟩
    · simp only [Call.exec, Exec.bind_of_ok ran, Plain.answer, live]
      rfl
    · have called : plain.call (.pushBack val) = { plain with current := plain.current ++ [val] } := if_neg (by simp [live])
      rw [called]
      exact holds'
  | true =>
    have gone : v.isDestroyed = true := holds.destroyed.trans live
    refine ⟨v, ?_, ?_⟩
    · simp [Call.exec, StoredVector.pushBack, Exec.bind_apply, gone, Plain.answer, live, outcome, Except.mapError]
    · simp only [Plain.call, live, if_true]
      exact holds

theorem Holds.call_subscript (intact : ∀ val : α, Serial.intact val = true) (stored : Stored baseKey records plain.kept)
    (holds : Holds baseKey records plain v) (idx : UInt256) : Obeys baseKey records plain v (.subscript idx) := by
  cases live : plain.destroyed with
  | false =>
    rcases element : plain.current[idx.val]? with _ | val
    · have outside : v.mSize.val ≤ idx.val := by
        rw [holds.size]
        exact List.getElem?_eq_none_iff.mp element
      refine ⟨v, ?_, holds⟩
      simp only [Call.exec, Exec.bind_of_error (subscript_outside (holds.destroyed.trans live) outside), Plain.answer, live, element]
      rfl
    · obtain ⟨v', ran, holds'⟩ := holds.subscript intact stored live element
      refine ⟨v', ?_, holds'⟩
      simp only [Call.exec, Exec.bind_of_ok ran, Plain.answer, live, element]
      rfl
  | true =>
    refine ⟨v, ?_, holds⟩
    simp only [Call.exec, Exec.bind_of_error (subscript_destroyed (holds.destroyed.trans live) idx), Plain.answer, live]
    rfl

/-- A call of `back` on an empty vector throws another exception than one on a destroyed vector. -/
theorem Holds.call_back (intact : ∀ val : α, Serial.intact val = true) (stored : Stored baseKey records plain.kept)
    (holds : Holds baseKey records plain v) : Obeys baseKey records plain v .back := by
  rcases last : plain.current.getLast? with _ | val
  · have none : v.mSize = 0 := by
      rw [holds.sized, List.getLast?_eq_none_iff.mp last]
      rfl
    refine ⟨v, ?_, holds⟩
    simp [Call.exec, StoredVector.back, Exec.bind_apply, none, Plain.answer, last, outcome, Except.mapError]
  · have element : plain.current[v.mSize.val - 1]? = some val := by
      rw [holds.size, ← List.getLast?_eq_getElem?]
      exact last
    have some : 1 ≤ v.mSize.val := by
      have inside := (List.getElem?_eq_some_iff.mp element).1
      rw [← holds.size] at inside
      omega
    have present : ¬ v.mSize = 0 := by
      intro zero
      rw [zero] at some
      exact absurd some (by decide)
    obtain ⟨idx, index, same⟩ : ∃ idx, v.mSize.sub 1 = .ok idx ∧ idx.val = v.mSize.val - 1 :=
      ⟨_, UInt256.sub_of_le some, rfl⟩
    rw [← same] at element
    have start : ∀ {r}, StoredVector.subscript idx v = r → StoredVector.back v = r := by
      intro r ran
      simp only [StoredVector.back, Exec.bind_apply, Exec.get_apply, if_neg present, index]
      exact ran
    cases live : plain.destroyed with
    | false =>
      obtain ⟨v', ran, holds'⟩ := holds.subscript intact stored live element
      refine ⟨v', ?_, holds'⟩
      simp only [Call.exec, Exec.bind_of_ok (start ran), Plain.answer, live, last]
      rfl
    | true =>
      refine ⟨v, ?_, holds⟩
      simp only [Call.exec, Exec.bind_of_error (start (subscript_destroyed (holds.destroyed.trans live) idx)), Plain.answer, live, last]
      rfl

/-- The search of a destroyed vector throws at its first read, so where there is one. -/
theorem Holds.call_lowerBoundIndex (intact : ∀ val : α, Serial.intact val = true) (stored : Stored baseKey records plain.kept)
    (holds : Holds baseKey records plain v) (val : α) (roomy : plain.Roomy (.call (.lowerBoundIndex val))) :
    Obeys baseKey records plain v (.lowerBoundIndex val) := by
  cases live : plain.destroyed with
  | false =>
    have small : plain.current.length < 2 ^ 255 := roomy live
    have zero : (0 : UInt256).val ≤ v.mSize.val := Nat.zero_le _
    obtain ⟨v', ran, holds'⟩ := lowerBoundLoop_place (P := Holds baseKey records plain)
      (fun holds element => holds.subscript intact stored live element) small val 0 v.mSize zero holds.size.le
      (Nat.lt_succ_of_le (Nat.sub_le _ _)) holds
    refine ⟨v', ?_, holds'⟩
    have found : StoredVector.lowerBoundIndex val v = (.ok (.ofNat (Plain.place plain.current val)), v') := by
      rw [Plain.place, ← holds.size]
      exact ran
    simp only [Call.exec, Exec.bind_of_ok found, Plain.answer, live]
    rfl
  | true =>
    have gone : v.isDestroyed = true := holds.destroyed.trans live
    refine ⟨v, ?_, holds⟩
    by_cases empty : plain.current = []
    · have none : v.mSize = 0 := by
        rw [holds.sized, empty]
        rfl
      have found : StoredVector.lowerBoundIndex val v = (.ok 0, v) := by
        simp only [StoredVector.lowerBoundIndex, Exec.bind_apply, Exec.get_apply, none]
        rfl
      have place : Plain.place plain.current val = 0 := by
        rw [Plain.place, empty, Search.lowerBound]
        rfl
      simp only [Call.exec, Exec.bind_of_ok found, Plain.answer, empty, ne_eq, not_true_eq_false, and_false, if_false]
      rw [← empty, place]
      rfl
    · have some : 0 < v.mSize.val := by
        rw [holds.size]
        exact List.length_pos_iff.mpr empty
      obtain ⟨mid, computed⟩ := middle_of_small 0 v.mSize (by
        rw [UInt256.val_zero, Nat.zero_add]
        exact v.mSize.isLt)
      have failed : StoredVector.lowerBoundIndex val v = (.error (.throw (.error .vectorDestroyed)), v) := by
        simp only [StoredVector.lowerBoundIndex, Exec.bind_apply, Exec.get_apply]
        unfold lowerBoundLoop
        rw [if_pos (UInt256.lt_def.mpr some), computed]
        exact (Exec.bind_of_ok rfl).trans (Exec.bind_of_error (subscript_destroyed gone mid))
      simp only [Call.exec, Exec.bind_of_error failed, Plain.answer, live, ne_eq, empty, not_false_eq_true, and_self, if_true]
      rfl

theorem Holds.call (intact : ∀ val : α, Serial.intact val = true) (stored : Stored baseKey records plain.kept)
    (holds : Holds baseKey records plain v) (c : Call α) (roomy : plain.Roomy (.call c)) : Obeys baseKey records plain v c := by
  cases c with
  | pushBack val => exact holds.call_pushBack val roomy
  | subscript idx => exact holds.call_subscript intact stored idx
  | back => exact holds.call_back intact stored
  | size => exact ⟨v, by rw [Plain.answer, ← holds.sized]; rfl, holds⟩
  | destroy => exact ⟨{ v with isDestroyed := true }, rfl, { holds with destroyed := rfl }⟩
  | lowerBoundIndex val => exact holds.call_lowerBoundIndex intact stored val roomy

/-! ### The end of a session -/

omit [LawfulSerial α] [LE α] [DecidableLE α] in
/-- What a flush of a vector that is not destroyed writes. -/
theorem Holds.mem_changes (holds : Holds baseKey records plain v) (live : plain.destroyed = false) {key : ByteString}
    {raw : Option ByteString} :
    (key, raw) ∈ v.changes ↔ (key = baseKey ∧ raw = some (serialize v.mSize)) ∨
      ∃ idx val, v.cache.lookup idx = some val ∧ key = elementKey baseKey idx ∧ raw = some (serialize val) := by
  have changes : v.changes = (baseKey, some (serialize v.mSize)) ::
      v.cache.entries.map fun e => (elementKey baseKey e.1, some (serialize e.2)) := by
    rw [StoredVector.changes, if_neg (by rw [holds.destroyed, live]; simp), holds.baseKey_eq]
  rw [changes, List.mem_cons, List.mem_map, Prod.mk.injEq]
  refine or_congr_right ⟨?_, ?_⟩
  · rintro ⟨⟨idx, val⟩, member, same⟩
    obtain ⟨rfl, rfl⟩ := Prod.mk.inj same
    exact ⟨idx, val, AList.mem_lookup_iff.mpr member, rfl, rfl⟩
  · rintro ⟨idx, val, held, rfl, rfl⟩
    exact ⟨⟨idx, val⟩, AList.mem_lookup_iff.mp held, rfl⟩

omit [LawfulSerial α] [LE α] [DecidableLE α] in
theorem Holds.changes_functional (holds : Holds baseKey records plain v) (live : plain.destroyed = false) :
    WriteBack.Functional {e | e ∈ v.changes} := by
  intro key raw raw' first second
  rcases (holds.mem_changes live).mp first with ⟨rfl, rfl⟩ | ⟨idx, val, held, rfl, rfl⟩ <;>
    rcases (holds.mem_changes live).mp second with ⟨same, rfl⟩ | ⟨idx', val', held', same, rfl⟩
  · rfl
  · exact (StoredSet.nodeKey_ne _ _ same.symm).elim
  · exact (StoredSet.nodeKey_ne _ _ same).elim
  · obtain rfl : idx = idx' := UInt256.ext (StoredSet.nodeKey_injective same)
    rw [held] at held'
    rw [Option.some.inj held']

omit [Serial α] [LawfulSerial α] [LE α] [DecidableLE α] in
/-- What is not in the cache was kept by an earlier session. -/
theorem Holds.kept_of_uncached (holds : Holds baseKey records plain v) {i : Nat}
    (uncached : ¬ ∃ idx val, v.cache.lookup idx = some val ∧ idx.val = i) : plain.kept[i]? = plain.current[i]? := by
  obtain ⟨rest, grown⟩ := holds.grown
  rcases Nat.lt_or_ge i plain.kept.length with early | late
  · rw [← grown, List.getElem?_append_left early]
  · rw [List.getElem?_eq_none late]
    refine (List.getElem?_eq_none ?_).symm
    by_contra inside
    have bound : i < 2 ^ 256 := by
      have size := v.mSize.isLt
      rw [holds.size] at size
      omega
    have pushed : v.cache.lookup ⟨i, bound⟩ ≠ none := holds.pushed late (Nat.lt_of_not_le inside)
    obtain ⟨val, held⟩ := Option.ne_none_iff_exists'.mp pushed
    exact uncached ⟨⟨i, bound⟩, val, held, rfl⟩

omit [LawfulSerial α] [LE α] [DecidableLE α] in
/-- A flush of a vector that is not destroyed leaves the records of the current list. -/
theorem Holds.stored (holds : Holds baseKey records plain v) (stored : Stored baseKey records plain.kept) (live : plain.destroyed = false) :
    Stored baseKey v.destruct plain.current := by
  have single := holds.changes_functional live
  refine ⟨Or.inl ?_, fun i => ?_⟩
  · rw [← holds.sized]
    exact WriteBack.changeAll_of_mem single _ ((holds.mem_changes live).mpr (Or.inl ⟨rfl, rfl⟩))
  · by_cases cached : ∃ idx val, v.cache.lookup idx = some val ∧ idx.val = i
    · obtain ⟨idx, val, held, rfl⟩ := cached
      rw [holds.cached held]
      exact WriteBack.changeAll_of_mem single _ ((holds.mem_changes live).mpr (Or.inr ⟨idx, val, held, rfl, rfl⟩))
    · have untouched : v.destruct (StoredSet.nodeKey baseKey i) = records (StoredSet.nodeKey baseKey i) := by
        rw [← holds.storage_eq]
        refine WriteBack.changeAll_of_clear _ fun raw changed => ?_
        rcases (holds.mem_changes live).mp changed with ⟨same, _⟩ | ⟨idx, val, held, same, _⟩
        · exact StoredSet.nodeKey_ne _ _ same
        · exact cached ⟨idx, val, held, (StoredSet.nodeKey_injective same).symm⟩
      rw [untouched, stored.elements, holds.kept_of_uncached cached]

omit [LawfulSerial α] [LE α] [DecidableLE α] in
/-- A flush of a destroyed vector leaves none of its keys. -/
theorem Holds.unused (holds : Holds baseKey records plain v) (stored : Stored baseKey records plain.kept) (gone : plain.destroyed = true) :
    StoredSet.Unused v.destruct baseKey := by
  have changes : v.changes = (baseKey, none) :: (List.range v.mSize.val).map fun i => (StoredSet.nodeKey baseKey i, none) := by
    rw [StoredVector.changes, if_pos (by rw [holds.destroyed, gone]), holds.baseKey_eq]
  have removal : ∀ {key raw}, (key, raw) ∈ v.changes → raw = none := by
    intro key raw member
    rw [changes, List.mem_cons, List.mem_map] at member
    rcases member with same | ⟨_, _, same⟩ <;> exact (Prod.mk.inj same).2 ▸ rfl
  have single : WriteBack.Functional {e | e ∈ v.changes} := fun _ _ _ first second => (removal first).trans (removal second).symm
  refine ⟨WriteBack.changeAll_of_mem single _ (by rw [changes]; exact List.mem_cons_self), fun id => ?_⟩
  rcases Nat.lt_or_ge id v.mSize.val with inside | outside
  · refine WriteBack.changeAll_of_mem single _ ?_
    rw [changes]
    exact List.mem_cons_of_mem _ (List.mem_map.mpr ⟨id, List.mem_range.mpr inside, rfl⟩)
  · have untouched : v.destruct (StoredSet.nodeKey baseKey id) = v.storage (StoredSet.nodeKey baseKey id) := by
      refine WriteBack.changeAll_of_clear _ fun raw changed => ?_
      rw [changes, List.mem_cons, List.mem_map] at changed
      rcases changed with same | ⟨i, within, same⟩
      · exact StoredSet.nodeKey_ne _ _ (Prod.mk.inj same).1
      · obtain rfl := StoredSet.nodeKey_injective (Prod.mk.inj same).1
        exact absurd (List.mem_range.mp within) (Nat.not_lt.mpr outside)
    rw [untouched, holds.storage_eq, stored.elements, List.getElem?_eq_none, Option.map_none]
    exact holds.grown.length_le.trans (holds.size ▸ outside)

omit [LawfulSerial α] [LE α] [DecidableLE α] in
theorem stored_nil (unused : StoredSet.Unused records baseKey) : Stored (α := α) baseKey records [] :=
  ⟨Or.inr ⟨unused.1, rfl⟩, unused.2⟩

def Session.Finds (baseKey : ByteString) (plain : Plain α) : Session α → Prop
  | .stored _ => plain.current = plain.kept ∧ plain.destroyed = false
  | .loaded v => Holds baseKey v.storage plain v

/-- The next call finds the current list, and a reset would find the kept one. -/
structure Agrees (baseKey : ByteString) (session : Session α) (plain : Plain α) : Prop where
  stored : Stored baseKey session.records plain.kept
  small : plain.kept.length < 2 ^ 256
  current : session.Finds baseKey plain

omit [LawfulSerial α] [LE α] [DecidableLE α] in
theorem Agrees.vector {session : Session α} (agrees : Agrees baseKey session plain) :
    ∃ v, session.vector baseKey = .ok v ∧ Holds baseKey session.records plain v := by
  cases session with
  | stored records => exact agrees.stored.construct agrees.small agrees.current.1 agrees.current.2
  | loaded v => exact ⟨v, rfl, agrees.current⟩

theorem Agrees.step (intact : ∀ val : α, Serial.intact val = true) {session : Session α} (agrees : Agrees baseKey session plain)
    (event : Event α) (roomy : plain.Roomy event) :
    (session.step baseKey event).1 = outcome (plain.step event).1 ∧
      Agrees baseKey (session.step baseKey event).2 (plain.step event).2 := by
  obtain ⟨v, built, holds⟩ := agrees.vector
  obtain ⟨stored, small, current⟩ := agrees
  cases event with
  | call c =>
    obtain ⟨v', ran, holds'⟩ := holds.call intact stored c roomy
    have kept : (plain.call c).kept = plain.kept := by
      cases c with
      | pushBack val => by_cases gone : plain.destroyed = true <;> simp [Plain.call, gone]
      | subscript _ | back | size | destroy | lowerBoundIndex _ => rfl
    have step : session.step baseKey (.call c) = (outcome (plain.answer c), .loaded v') := by
      simp only [Session.step, built, ran]
    have records : v'.storage = session.records := holds'.storage_eq
    have stored' : Stored baseKey v'.storage (plain.call c).kept := by
      rw [records, kept]
      exact stored
    have small' : (plain.call c).kept.length < 2 ^ 256 := by
      rw [kept]
      exact small
    have found : Holds baseKey v'.storage (plain.call c) v' := by
      rw [records]
      exact holds'
    rw [step]
    exact ⟨rfl, stored', small', found⟩
  | flush =>
    cases session with
    | stored records =>
      obtain ⟨fresh, live⟩ := current
      have step : plain.step .flush = (.ok .done, { plain with kept := plain.current }) := if_neg (by rw [live]; simp)
      rw [step, fresh]
      exact ⟨rfl, stored, small, rfl, live⟩
    | loaded v =>
      have bound : plain.current.length < 2 ^ 256 := current.size ▸ v.mSize.isLt
      cases live : plain.destroyed with
      | false =>
        have step : plain.step .flush = (.ok .done, { plain with kept := plain.current }) := if_neg (by rw [live]; simp)
        rw [step]
        exact ⟨rfl, current.stored stored live, bound, rfl, live⟩
      | true =>
        have step : plain.step .flush = (.ok .done, {}) := if_pos live
        rw [step]
        exact ⟨rfl, stored_nil (current.unused stored live), Nat.two_pow_pos 256, rfl, rfl⟩
  | reset => exact ⟨rfl, stored, small, rfl, rfl⟩

theorem Agrees.run (intact : ∀ val : α, Serial.intact val = true) {session : Session α} (agrees : Agrees baseKey session plain)
    {events : List (Event α)} (along : Plain.Along events plain) :
    (session.run baseKey events).1 = (plain.run events).1.map outcome ∧
      Agrees baseKey (session.run baseKey events).2 (plain.run events).2 := by
  induction events generalizing session plain with
  | nil => exact ⟨rfl, agrees⟩
  | cons event events ih =>
    obtain ⟨answer, next⟩ := agrees.step intact event along.1
    obtain ⟨answers, last⟩ := ih next along.2
    rw [Session.run, Plain.run]
    exact ⟨by rw [answer, answers, List.map_cons], last⟩

/-- The flush of a destroyed vector leaves none of its keys. -/
def Cleared (baseKey : ByteString) (session : Session α) (plain : Plain α) : Prop :=
  plain.destroyed = true → StoredSet.Unused (session.step baseKey .flush).2.records baseKey

omit [LawfulSerial α] in
theorem Agrees.cleared {session : Session α} (agrees : Agrees baseKey session plain) : Cleared baseKey session plain := by
  intro gone
  cases session with
  | stored records => exact absurd (agrees.current.2.symm.trans gone) nofun
  | loaded v => exact agrees.current.unused agrees.stored gone

/-- Whatever the sessions, every call answers as the plain list does, and the flush of a destroyed vector clears its keys. -/
theorem vector_refines_list (intact : ∀ val : α, Serial.intact val = true) (unused : StoredSet.Unused records baseKey)
    {events : List (Event α)} (along : Plain.Along events {}) :
    ((Session.stored records).run baseKey events).1 = (Plain.run {} events).1.map outcome ∧
      Cleared baseKey ((Session.stored records).run baseKey events).2 (Plain.run {} events).2 := by
  have start : Agrees (α := α) baseKey (.stored records) {} := ⟨stored_nil unused, Nat.two_pow_pos 256, rfl, rfl⟩
  obtain ⟨answers, last⟩ := start.run intact along
  exact ⟨answers, last.cleared⟩

end

def emptySession : Session UInt16 := .stored fun _ => none

/-- Three sessions: the first pushes and reads, the second is reset and then destroys the vector, and the third starts again from none. -/
def reused : List (Event UInt16) :=
  [.call (.pushBack 5), .call (.pushBack 9), .call (.subscript 0), .flush,
   .call .back, .call (.lowerBoundIndex 7), .call (.pushBack 11), .call (.subscript 2), .reset, .call (.subscript 2), .call .destroy,
   .call (.subscript 1), .flush,
   .call .size, .call (.pushBack 6), .call .back, .call (.subscript 1), .flush]

theorem vector_refines_list_reused :
    (emptySession.run (ascii "v/") reused).1 = (Plain.run {} reused).1.map outcome ∧
      Cleared (ascii "v/") (emptySession.run (ascii "v/") reused).2 (Plain.run {} reused).2 := by
  apply vector_refines_list (fun _ => rfl) (StoredSet.unused_empty _)
  exact ⟨fun _ => by decide, fun _ => by decide, trivial, trivial,
    trivial, fun _ => by decide, fun _ => by decide, trivial, trivial, trivial, trivial,
    trivial, trivial,
    trivial, fun _ => by decide, trivial, trivial, trivial, trivial⟩

/-! ### A full vector -/

section

variable [Serial α] [LE α] [DecidableLE α]

theorem Session.run_append (baseKey : ByteString) (session : Session α) (events later : List (Event α)) :
    session.run baseKey (events ++ later) =
      ((session.run baseKey events).1 ++ ((session.run baseKey events).2.run baseKey later).1,
        ((session.run baseKey events).2.run baseKey later).2) := by
  induction events generalizing session with
  | nil => rfl
  | cons event events ih => simp only [List.cons_append, Session.run, ih]

omit [Serial α] in
theorem Plain.run_append (plain : Plain α) (events later : List (Event α)) :
    plain.run (events ++ later) =
      ((plain.run events).1 ++ ((plain.run events).2.run later).1, ((plain.run events).2.run later).2) := by
  induction events generalizing plain with
  | nil => rfl
  | cons event events ih => simp only [List.cons_append, Plain.run, ih]

omit [Serial α] in
theorem Plain.run_pushes (val : α) (n : Nat) (plain : Plain α) (live : plain.destroyed = false) (room : plain.current.length + n < 2 ^ 256) :
    Plain.Along (List.replicate n (.call (.pushBack val))) plain ∧
      (plain.run (List.replicate n (.call (.pushBack val)))).2.destroyed = false ∧
      (plain.run (List.replicate n (.call (.pushBack val)))).2.current.length = plain.current.length + n := by
  induction n generalizing plain with
  | zero => exact ⟨trivial, live, rfl⟩
  | succ n ih =>
    have pushed : plain.call (.pushBack val) = { plain with current := plain.current ++ [val] } := if_neg (by simp [live])
    have length : (plain.current ++ [val]).length = plain.current.length + 1 := by simp
    obtain ⟨along, live', total⟩ := ih (plain.call (.pushBack val)) (by rw [pushed]; exact live)
      (by rw [pushed, length]; omega)
    rw [List.replicate_succ]
    refine ⟨⟨fun _ => by omega, along⟩, live', total.trans ?_⟩
    rw [pushed, length]
    omega

theorem pushBack_full {v : StoredVector α} (live : v.isDestroyed = false) (full : v.mSize.val + 1 = 2 ^ 256) (val : α) :
    (Call.exec (.pushBack val) v).1 = .error (.throw .overflowError) := by
  have beyond : v.mSize.add 1 = .error (.throw .overflowError) := dif_neg (by rw [show (1 : UInt256).val = 1 from rfl]; omega)
  simp [Call.exec, StoredVector.pushBack, Exec.bind_apply, live, beyond]

end

/-- A vector cannot hold `2 ^ 256` elements. -/
theorem vector_overflows :
    (emptySession.run (ascii "v/") (List.replicate (2 ^ 256) (.call (.pushBack 5)))).1 ≠
      (Plain.run {} (List.replicate (2 ^ 256) (.call (.pushBack 5)))).1.map outcome := by
  obtain ⟨n, count⟩ : ∃ n, 2 ^ 256 = n + 1 := ⟨2 ^ 256 - 1, by decide⟩
  obtain ⟨along, live, length⟩ := Plain.run_pushes (5 : UInt16) n {} rfl (by rw [count]; simp)
  have start : Agrees (ascii "v/") emptySession ({} : Plain UInt16) := ⟨stored_nil (StoredSet.unused_empty _), Nat.two_pow_pos 256, rfl, rfl⟩
  obtain ⟨answers, last⟩ := start.run (fun _ => rfl) along
  obtain ⟨v, built, holds⟩ := last.vector
  have full : v.mSize.val + 1 = 2 ^ 256 := by rw [holds.size, length, count]; simp
  have thrown := pushBack_full (holds.destroyed.trans live) full 5
  rw [count, List.replicate_succ', Session.run_append, Plain.run_append, List.map_append, answers]
  intro same
  have final := List.append_cancel_left same
  simp only [Session.run, Session.step, built, thrown, Plain.run, Plain.step, Plain.answer, live] at final
  cases (List.cons.inj final).1

/-! ### The place found -/

section

variable [Serial α] [LinearOrder α]

omit [Serial α] in
theorem Plain.place_le (l : List α) (value : α) : Plain.place l value ≤ l.length := Search.lowerBound_le (Nat.zero_le _)

omit [Serial α] in
theorem Plain.place_below (l : List α) (value : α) : Plain.place l value = 0 ∨ ∃ x ∈ l[Plain.place l value - 1]?, x < value := by
  have bound := Plain.place_le l value
  rcases Search.lowerBound_below (fun i => ∀ x ∈ l[i]?, ¬ value ≤ x) (Nat.zero_le l.length) with zero | below
  · exact Or.inl zero
  · rcases Nat.eq_zero_or_pos (Plain.place l value) with zero | positive
    · exact Or.inl zero
    · have element := List.getElem?_eq_getElem (l := l) (i := Plain.place l value - 1) (by omega)
      exact Or.inr ⟨_, element, not_le.mp (below _ element)⟩

omit [Serial α] in
theorem Plain.place_above (l : List α) (value : α) : Plain.place l value = l.length ∨ ∃ x ∈ l[Plain.place l value]?, value ≤ x := by
  rcases Search.lowerBound_above (fun i => ∀ x ∈ l[i]?, ¬ value ≤ x) (Nat.zero_le l.length) with ends | above
  · exact Or.inl ends
  · by_contra none
    exact above fun x element reached => none (Or.inr ⟨x, element, reached⟩)

/-- In every vector that calls and sessions can build, of fewer than `2 ^ 255` elements, the search ends, reads only elements
that are there, and finds a place between smaller and other elements; in a list in order, the number of smaller ones. -/
theorem lowerBoundIndex_exact [LawfulSerial α] (intact : ∀ val : α, Serial.intact val = true) {baseKey : ByteString} {records : Records}
    (unused : StoredSet.Unused records baseKey) {events : List (Event α)} (along : Plain.Along events {}) {l : List α}
    (built : (Plain.run {} events).2.current = l) (live : (Plain.run {} events).2.destroyed = false) (small : l.length < 2 ^ 255) (value : α) :
    ∃ (v : StoredVector α) (i : UInt256), ((Session.stored records).run baseKey events).2.vector baseKey = .ok v ∧
      (lowerBoundIndex value v).1 = .ok i ∧
      (∀ read : UInt256 → Exec Stop (StoredVector α) α, (∀ idx, idx.val < l.length → read idx = subscript idx) →
        ∀ fuel, l.length < fuel → (lowerBoundLoop read value fuel 0 v.mSize v).1 = .ok i) ∧
      i.val ≤ l.length ∧ (i.val = 0 ∨ ∃ x ∈ l[i.val - 1]?, x < value) ∧ (i.val = l.length ∨ ∃ x ∈ l[i.val]?, value ≤ x) ∧
      (l.Pairwise (· ≤ ·) → i.val = (l.filter (· < value)).length) := by
  have start : Agrees (α := α) baseKey (.stored records) {} := ⟨stored_nil unused, Nat.two_pow_pos 256, rfl, rfl⟩
  have last := (start.run intact along).2
  obtain ⟨v, vector, holds⟩ := last.vector
  have size : v.mSize.val = l.length := by rw [holds.size, built]
  have val : (UInt256.ofNat (Plain.place l value)).val = Plain.place l value :=
    Nat.mod_eq_of_lt ((Plain.place_le l value).trans_lt (small.trans (by decide)))
  have found : ∀ fuel, l.length < fuel → (lowerBoundLoop subscript value fuel 0 v.mSize v).1 = .ok (.ofNat (Plain.place l value)) := by
    intro fuel enough
    obtain ⟨v', ran, _⟩ := lowerBoundLoop_place (l := l)
      (fun holds element => holds.subscript intact last.stored live (built ▸ element)) small value 0 v.mSize (Nat.zero_le _) size.le
      ((Nat.sub_le _ _).trans_lt (size ▸ enough)) holds
    rw [ran, size]
    rfl
  refine ⟨v, .ofNat (Plain.place l value), vector, found _ (by omega), fun read same fuel enough => ?_, ?_⟩
  · rw [lowerBoundLoop_congr same value fuel size.le]
    exact found fuel enough
  · rw [val]
    exact ⟨Plain.place_le l value, Plain.place_below l value, Plain.place_above l value, fun sorted =>
      Search.lowerBound_sorted sorted (Plain.place_le l value) (Plain.place_below l value) (Plain.place_above l value)⟩

end

theorem lowerBoundIndex_exact_six :
    ∃ (v : StoredVector UInt16) (i : UInt256),
      (emptySession.run (ascii "v/") [.call (.pushBack 5), .call (.pushBack 9)]).2.vector (ascii "v/") = .ok v ∧
      (lowerBoundIndex 6 v).1 = .ok i ∧
      (∀ read : UInt256 → Exec Stop (StoredVector UInt16) UInt16, (∀ idx, idx.val < 2 → read idx = subscript idx) →
        ∀ fuel, 2 < fuel → (lowerBoundLoop read 6 fuel 0 v.mSize v).1 = .ok i) ∧
      i.val ≤ 2 ∧ (i.val = 0 ∨ ∃ x ∈ [(5 : UInt16), 9][i.val - 1]?, x < 6) ∧ (i.val = 2 ∨ ∃ x ∈ [(5 : UInt16), 9][i.val]?, 6 ≤ x) ∧
      ([(5 : UInt16), 9].Pairwise (· ≤ ·) → i.val = ([(5 : UInt16), 9].filter (· < 6)).length) :=
  have along : Plain.Along [.call (.pushBack (5 : UInt16)), .call (.pushBack 9)] {} := ⟨fun _ => by decide, fun _ => by decide, trivial⟩
  lowerBoundIndex_exact (fun _ => rfl) (StoredSet.unused_empty _) along rfl rfl (by decide) 6

end BandChain.StoredVector
