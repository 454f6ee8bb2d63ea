import BandChain.Store.Reload
import Mathlib.Data.Finset.Sort

/-!
Calls to a `Set` over any number of load sessions, each of which ends in `Storage::flush` or in
`Storage::reset`, beside a plain finite set under the same calls.
-/

namespace BandChain.StoredSet

variable {α : Type}

inductive Call (α : Type) where
  | insert (val : α)
  | erase (val : α)
  | contains (val : α)
  | find (val : α)
  | maxValue
  | size

inductive Event (α : Type) where
  | call (c : Call α)
  | flush
  | reset

/-- What a caller sees. An iterator shows the element it is at. -/
inductive Answer (α : Type) where
  | bool (b : Bool)
  | item (found : Option α)
  | value (val : α)
  | count (n : Nat)
  deriving DecidableEq

/-! ### Sessions -/

/-- A set in its storage, or in memory while its contract is loaded. -/
inductive Session (α : Type) where
  | stored (records : Records)
  | loaded (s : StoredSet α)

def Session.records : Session α → Records
  | .stored records => records
  | .loaded s => s.storage

section

variable [Serial α]

def Session.set (baseKey : ByteString) : Session α → Except Stop (StoredSet α)
  | .stored records => construct records baseKey
  | .loaded s => .ok s

variable [LinearOrder α] [Inhabited α]

def Call.exec : Call α → Exec Stop (StoredSet α) (Answer α)
  | .insert val => do return .bool (← StoredSet.insert val)
  | .erase val => do return .bool (← StoredSet.erase val)
  | .contains val => do return .bool (← StoredSet.contains val)
  | .find val => do
    let it ← StoredSet.find val
    if it = 0 then return .item none else return .item (some (← StoredSet.value it))
  | .maxValue => do return .value (← StoredSet.maxValue)
  | .size => do return .count (← StoredSet.size)

def Session.step (baseKey : ByteString) (session : Session α) : Event α → Except Stop (Option (Answer α)) × Session α
  | .call c =>
    match session.set baseKey with
    | .error e => (.error e, session)
    | .ok s =>
      match c.exec s with
      | (.ok answer, s') => (.ok (some answer), .loaded s')
      | (.error e, s') => (.error e, .loaded s')
  | .flush =>
    match session with
    | .stored records => (.ok none, .stored records)
    | .loaded s => (.ok none, .stored s.destroy)
  | .reset => (.ok none, .stored session.records)

def Session.run (baseKey : ByteString) : Session α → List (Event α) → List (Except Stop (Option (Answer α))) × Session α
  | session, [] => ([], session)
  | session, event :: events =>
    let (answer, next) := session.step baseKey event
    let (answers, last) := next.run baseKey events
    (answer :: answers, last)

theorem Session.run_cons (baseKey : ByteString) (session : Session α) (event : Event α) (events : List (Event α)) :
    session.run baseKey (event :: events) =
      ((session.step baseKey event).1 :: ((session.step baseKey event).2.run baseKey events).1,
        ((session.step baseKey event).2.run baseKey events).2) := rfl

/-- What is asked of a set that is about to insert or to delete. -/
def Event.Fit (inserting erasing : StoredSet α → α → Prop) (s : StoredSet α) : Event α → Prop
  | .call (.insert val) => inserting s val
  | .call (.erase val) => erasing s val
  | _ => True

def Session.Fit (baseKey : ByteString) (inserting erasing : StoredSet α → α → Prop) (session : Session α) (event : Event α) : Prop :=
  ∀ s, session.set baseKey = .ok s → event.Fit inserting erasing s

/-- Every insertion and every deletion of a run is asked of a set that is fit for it. -/
def Session.Along (baseKey : ByteString) (inserting erasing : StoredSet α → α → Prop) : Session α → List (Event α) → Prop
  | _, [] => True
  | session, event :: events =>
    session.Fit baseKey inserting erasing event ∧
      Session.Along baseKey inserting erasing (session.step baseKey event).2 events

section

variable (baseKey : ByteString) (inserting erasing : StoredSet α → α → Prop) [∀ s val, Decidable (inserting s val)]
  [∀ s val, Decidable (erasing s val)]

instance decidableEventFit (s : StoredSet α) : (event : Event α) → Decidable (event.Fit inserting erasing s)
  | .call (.insert val) => inferInstanceAs (Decidable (inserting s val))
  | .call (.erase val) => inferInstanceAs (Decidable (erasing s val))
  | .call (.contains _) | .call (.find _) | .call .maxValue | .call .size | .flush | .reset => .isTrue trivial

instance decidableFit (session : Session α) (event : Event α) : Decidable (session.Fit baseKey inserting erasing event) :=
  match built : session.set baseKey with
  | .ok s => decidable_of_iff (event.Fit inserting erasing s) ⟨fun fit s' same => by cases built.symm.trans same; exact fit, fun fit => fit s built⟩
  | .error _ => .isTrue fun s same => by cases built.symm.trans same

instance decidableAlong : (session : Session α) → (events : List (Event α)) →
    Decidable (session.Along baseKey inserting erasing events)
  | _, [] => .isTrue trivial
  | session, event :: events =>
    have := decidableAlong (session.step baseKey event).2 events
    inferInstanceAs (Decidable (_ ∧ _))

end

/-! ### The plain set -/

/-- A finite set that a flush keeps, and its copy that a reset drops. -/
structure Plain (α : Type) where
  kept : Finset α := ∅
  current : Finset α := ∅

omit [Serial α] in
def Plain.step (plain : Plain α) : Event α → Option (Answer α) × Plain α
  | .call (.insert val) => (some (.bool (val ∉ plain.current)), { plain with current := Insert.insert val plain.current })
  | .call (.erase val) => (some (.bool (val ∈ plain.current)), { plain with current := plain.current.erase val })
  | .call (.contains val) => (some (.bool (val ∈ plain.current)), plain)
  | .call (.find val) => (some (.item (if val ∈ plain.current then some val else none)), plain)
  | .call .maxValue => (some (.value (plain.current.max.unbotD default)), plain)
  | .call .size => (some (.count plain.current.card), plain)
  | .flush => (none, { plain with kept := plain.current })
  | .reset => (none, { plain with current := plain.kept })

def Plain.run : Plain α → List (Event α) → List (Option (Answer α)) × Plain α
  | plain, [] => ([], plain)
  | plain, event :: events =>
    let (answer, next) := plain.step event
    let (answers, last) := next.run events
    (answer :: answers, last)

omit [Serial α] in
theorem Plain.run_cons (plain : Plain α) (event : Event α) (events : List (Event α)) :
    plain.run (event :: events) = ((plain.step event).1 :: ((plain.step event).2.run events).1, ((plain.step event).2.run events).2) :=
  rfl

end

/-! ### The set of the tests, `Set<uint16_t>` -/

instance : LinearOrder UInt16 where
  le_refl := UInt16.le_refl
  le_trans _ _ _ := UInt16.le_trans
  le_antisymm _ _ := UInt16.le_antisymm
  le_total := UInt16.le_total
  lt_iff_le_not_ge _ _ := by simp [UInt16.le_iff_toNat_le, UInt16.lt_iff_toNat_lt]; omega
  toDecidableLE := inferInstance
  toDecidableEq := inferInstance
  toDecidableLT := inferInstance

def emptySession : Session UInt16 := .stored fun _ => none

theorem unused_empty (baseKey : ByteString) : Unused (fun _ => none) baseKey := ⟨rfl, fun _ => rfl⟩

def insertions (vals : List UInt16) : List (Event UInt16) := vals.map fun val => .call (.insert val)

/-- The deletion makes the set rotate its evenly balanced right child as if it leant to the left. -/
def tipped : List (Event UInt16) := insertions [11, 9, 8, 6, 5, 3, 7, 10] ++ [.call (.erase 3)]

/-! ### What every run keeps -/

variable [Serial α] [LinearOrder α]

/-- Room for one more node where an insertion asks for it. -/
def Roomy (s : StoredSet α) (val : α) : Prop := val ∉ s.tree.vals → s.nonceNode + 1 < 2 ^ 64

/-- The insertion finds the children that it rotates. -/
def Unstuck (s : StoredSet α) (val : α) : Prop := ¬ s.tree.Stuck val (s.nonceNode + 1)

def Insertable (s : StoredSet α) (val : α) : Prop := Roomy s val ∧ Unstuck s val

instance (s : StoredSet α) (val : α) : Decidable (Roomy s val) := inferInstanceAs (Decidable (_ → _))

instance (s : StoredSet α) (val : α) : Decidable (Insertable s val) := inferInstanceAs (Decidable (_ ∧ ¬ _))

/-- Conditions on insertions and deletions under which every set keeps `Q`, and its parents where
`strict` asks for them. -/
structure Upheld (strict : Prop) (Q : SearchTree Nat α → Prop) (inserting erasing : StoredSet α → α → Prop) : Prop where
  nil : Q .nil
  insert : ∀ s val, Q s.tree → inserting s val → Roomy s val ∧ Unstuck s val ∧ Q (s.tree.insert val (s.nonceNode + 1))
  erase : ∀ s val, Q s.tree → erasing s val → (strict → ¬ s.tree.Splices val) ∧ Q (s.tree.erase val)

/-- A set over some records that holds the elements of a finite set. -/
structure Holds (baseKey : ByteString) (strict : Prop) (Q : SearchTree Nat α → Prop) (records : Records) (elements : Finset α)
    (s : StoredSet α) (t : SearchTree Nat α) : Prop where
  baseKey_eq : s.baseKey = baseKey
  storage_eq : s.storage = records
  whole : Whole s.stored strict s.heap t
  shape : Q t
  elements_eq : t.vals.toFinset = elements

section

variable {baseKey : ByteString} {strict : Prop} {Q : SearchTree Nat α → Prop} {inserting erasing : StoredSet α → α → Prop}
  {records : Records} {elements : Finset α} {s : StoredSet α} {t : SearchTree Nat α}

theorem Holds.mem (holds : Holds baseKey strict Q records elements s t) (x : α) : x ∈ elements ↔ x ∈ t.vals := by
  rw [← holds.elements_eq, List.mem_toFinset]

theorem Holds.vals_eq (holds : Holds baseKey strict Q records elements s t) : t.vals = elements.sort := by
  rw [← holds.elements_eq]
  exact ((List.toFinset_sort (· ≤ ·) holds.whole.ordered.nodup).mpr (holds.whole.ordered.imp le_of_lt)).symm

theorem Holds.card_eq (holds : Holds baseKey strict Q records elements s t) : t.vals.length = elements.card := by
  rw [holds.vals_eq, Finset.length_sort]

omit [Serial α] in
theorem max_toFinset {l : List α} (ordered : l.Pairwise (· < ·)) (x : α) : l.toFinset.max.unbotD x = l.getLast?.getD x := by
  rcases List.eq_nil_or_concat l with rfl | ⟨init, last, rfl⟩
  · rfl
  · rw [List.concat_eq_append] at ordered ⊢
    have below (y : α) (mem : y ∈ (init ++ [last]).toFinset) : (y : WithBot α) ≤ last := by
      rw [List.mem_toFinset, List.mem_append, List.mem_singleton] at mem
      rcases mem with mem | rfl
      · exact WithBot.coe_le_coe.mpr ((List.pairwise_append.mp ordered).2.2 y mem last (List.mem_singleton_self _)).le
      · exact le_rfl
    have max : (init ++ [last]).toFinset.max = last := le_antisymm (Finset.max_le below) (Finset.le_max (by simp))
    rw [max, List.getLast?_concat]
    rfl

/-- A program that looks the same for every cache ends in a set over the same records. -/
theorem Holds.ran {β : Type} {x : Exec Stop (StoredSet α) β} {b : β} {h : Heap α} {t' : SearchTree Nat α} {E : Finset α}
    (holds : Holds baseKey strict Q records elements s t) (run : Runs x s.heap b h) (whole : Whole s.stored strict h t')
    (shape : Q t') (same : t'.vals.toFinset = E) :
    ∃ s', x s = (.ok b, s') ∧ Holds baseKey strict Q records E s' t' := by
  obtain ⟨s', ran, seen, storage, base⟩ := run s rfl
  have stored : s'.stored = s.stored := by
    funext id
    rw [stored, storage, base]
    rfl
  exact ⟨s', ran, base.trans holds.baseKey_eq, storage.trans holds.storage_eq, by rwa [seen, stored], shape, same⟩

variable [Inhabited α]

/-- Each call answers from the elements, and leaves a set that holds what the plain one does. -/
theorem Holds.call (upheld : Upheld strict Q inserting erasing) {plain : Plain α}
    (holds : Holds baseKey strict Q records plain.current s t) (c : Call α) (fit : (Event.call c).Fit inserting erasing s) :
    ∃ answer s' t', c.exec s = (.ok answer, s') ∧ (plain.step (.call c)).1 = some answer ∧
      Holds baseKey strict Q records (plain.step (.call c)).2.current s' t' := by
  have whole := holds.whole
  have read := whole.tree_eq
  have shape : Q s.tree := read ▸ holds.shape
  cases c with
  | insert val =>
    obtain ⟨roomy, unstuck, shape'⟩ := upheld.insert s val shape fit
    rw [Roomy, read] at roomy
    rw [Unstuck, read] at unstuck
    rw [read] at shape'
    obtain ⟨h, run, whole'⟩ := whole.insert_runs roomy unstuck
    obtain ⟨s', ran, holds'⟩ := holds.ran run whole' shape' (E := Insert.insert val plain.current) (by
      ext x
      simp [SearchTree.mem_insert, holds.mem])
    refine ⟨.bool (decide (val ∉ t.vals)), s', _, ?_, ?_, holds'⟩
    · simp only [Call.exec, Exec.bind_of_ok ran, Exec.pure_apply]
    · simp only [Plain.step, holds.mem]
  | erase val =>
    obtain ⟨tidy, shape'⟩ := upheld.erase s val shape fit
    rw [read] at tidy shape'
    obtain ⟨h, run, whole'⟩ := whole.erase_runs tidy
    obtain ⟨s', ran, holds'⟩ := holds.ran run whole' shape' (E := plain.current.erase val) (by
      ext x
      simp [SearchTree.vals_erase whole.ordered, holds.mem, and_comm])
    refine ⟨.bool (decide (val ∈ t.vals)), s', _, ?_, ?_, holds'⟩
    · simp only [Call.exec, Exec.bind_of_ok ran, Exec.pure_apply]
    · simp only [Plain.step, holds.mem]
  | contains val =>
    obtain ⟨s', ran, holds'⟩ := holds.ran (whole.contains_runs val) whole holds.shape holds.elements_eq
    refine ⟨.bool (decide (val ∈ t.vals)), s', _, ?_, ?_, holds'⟩
    · simp only [Call.exec, Exec.bind_of_ok ran, Exec.pure_apply]
    · simp only [Plain.step, holds.mem]
  | find val =>
    obtain ⟨id, run, answer⟩ := whole.find_runs val
    obtain ⟨s', ran, holds'⟩ := holds.ran (x := Call.exec (.find val)) (b := .item (if val ∈ t.vals then some val else none)) (by
      refine run.bind ?_
      split at answer
      · obtain ⟨named, n, found, same⟩ := answer
        rw [if_neg named, if_pos ‹_›, ← same]
        unfold value
        rw [if_neg named]
        exact Runs.bind ((getNode_runs found).bind (Runs.pure n.val)) (Runs.pure _)
      · rw [if_pos answer, if_neg ‹_›]
        exact Runs.pure _) whole holds.shape holds.elements_eq
    refine ⟨_, s', _, ran, ?_, holds'⟩
    simp only [Plain.step, holds.mem]
  | maxValue =>
    obtain ⟨s', ran, holds'⟩ := holds.ran whole.maxValue_runs whole holds.shape holds.elements_eq
    refine ⟨.value (t.vals.getLast?.getD default), s', _, ?_, ?_, holds'⟩
    · simp only [Call.exec, Exec.bind_of_ok ran, Exec.pure_apply]
    · simp only [Plain.step, ← holds.elements_eq, max_toFinset whole.ordered]
  | size =>
    obtain ⟨s', ran, holds'⟩ := holds.ran whole.size_runs whole holds.shape holds.elements_eq
    refine ⟨.count t.vals.length, s', _, ?_, ?_, holds'⟩
    · simp only [Call.exec, Exec.bind_of_ok ran, Exec.pure_apply]
    · simp only [Plain.step, holds.card_eq]

/-- The next call finds the current elements, and a reset would find the kept ones. -/
structure Agrees (baseKey : ByteString) (strict : Prop) (Q : SearchTree Nat α → Prop) (session : Session α) (plain : Plain α) :
    Prop where
  current : ∃ s t, session.set baseKey = .ok s ∧ Holds baseKey strict Q session.records plain.current s t
  kept : ∃ s t, construct session.records baseKey = .ok s ∧ Holds baseKey strict Q session.records plain.kept s t

omit [Inhabited α] in
theorem Agrees.start (upheld : Upheld strict Q inserting erasing) (unused : Unused records baseKey) :
    Agrees baseKey strict Q (.stored records) {} := by
  obtain ⟨s, built, base, storage, whole⟩ := construct_unused (α := α) strict unused
  have holds : Holds baseKey strict Q records ∅ s .nil := ⟨base, storage, whole, upheld.nil, rfl⟩
  exact ⟨⟨s, .nil, built, holds⟩, ⟨s, .nil, built, holds⟩⟩

variable [LawfulSerial α]

theorem Agrees.step (intact : ∀ val : α, Serial.intact val = true) (upheld : Upheld strict Q inserting erasing)
    {session : Session α} {plain : Plain α} (agrees : Agrees baseKey strict Q session plain) (event : Event α)
    (fit : session.Fit baseKey inserting erasing event) :
    (session.step baseKey event).1 = .ok (plain.step event).1 ∧
      Agrees baseKey strict Q (session.step baseKey event).2 (plain.step event).2 := by
  obtain ⟨⟨s, t, built, holds⟩, kept⟩ := agrees
  cases event with
  | call c =>
    obtain ⟨answer, s', t', ran, same, holds'⟩ := holds.call upheld c (fit s built)
    have keeps : (plain.step (.call c)).2.kept = plain.kept := by cases c <;> rfl
    have step : session.step baseKey (.call c) = (.ok (some answer), .loaded s') := by simp only [Session.step, built, ran]
    have records : s'.storage = session.records := holds'.storage_eq
    rw [step, same]
    refine ⟨rfl, ⟨s', t', rfl, ?_⟩, ?_⟩
    · rwa [Session.records, records]
    · rwa [keeps, Session.records, records]
  | flush =>
    cases session with
    | stored records => exact ⟨rfl, ⟨s, t, built, holds⟩, ⟨s, t, built, holds⟩⟩
    | loaded s =>
      cases built
      obtain ⟨s', built, base, storage, whole⟩ := construct_destroy intact holds.whole
      rw [holds.baseKey_eq] at built base
      have holds' : Holds baseKey strict Q s.destroy plain.current s' t :=
        ⟨base, storage, whole, holds.shape, holds.elements_eq⟩
      exact ⟨rfl, ⟨s', t, built, holds'⟩, ⟨s', t, built, holds'⟩⟩
  | reset => exact ⟨rfl, kept, kept⟩

/-- A run whose steps are all fit answers as the plain set does. -/
theorem Agrees.run (intact : ∀ val : α, Serial.intact val = true) (upheld : Upheld strict Q inserting erasing)
    {session : Session α} {plain : Plain α} (agrees : Agrees baseKey strict Q session plain) {events : List (Event α)}
    (along : session.Along baseKey inserting erasing events) :
    (session.run baseKey events).1 = (plain.run events).1.map .ok ∧
      Agrees baseKey strict Q (session.run baseKey events).2 (plain.run events).2 := by
  induction events generalizing session plain with
  | nil => exact ⟨rfl, agrees⟩
  | cons event events ih =>
    obtain ⟨answer, next⟩ := agrees.step intact upheld event along.1
    obtain ⟨answers, last⟩ := ih next along.2
    rw [Session.run_cons, Plain.run_cons]
    exact ⟨by rw [answer, answers, List.map_cons], last⟩

end

end BandChain.StoredSet
