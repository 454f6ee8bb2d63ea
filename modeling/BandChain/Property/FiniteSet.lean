import BandChain.Store.Iterate
import BandChain.Store.Session

/-! A `Set` answers as a finite set does, unless an insertion has to rotate around a missing child, and its iterators go through it in
order where the parents that it stores are exact. -/

namespace BandChain.StoredSet

/-! ### Answers -/

section

variable {α : Type} [Serial α] [LinearOrder α]

theorem insertable_upheld : Upheld (α := α) False (fun _ => True) Insertable (fun _ _ => True) where
  nil := trivial
  insert _ _ _ fit := ⟨fit.1, fit.2, trivial⟩
  erase _ _ _ _ := ⟨False.elim, trivial⟩

/-- Whatever the sessions, every call answers and answers as the plain set does. -/
theorem set_refines_plain [LawfulSerial α] [Inhabited α] {records : Records} {baseKey : ByteString}
    (intact : ∀ val : α, Serial.intact val = true) (unused : Unused records baseKey) {events : List (Event α)}
    (along : (Session.stored records).Along baseKey Insertable (fun _ _ => True) events) :
    ((Session.stored records).run baseKey events).1 = (Plain.run {} events).1.map .ok :=
  ((Agrees.start insertable_upheld unused).run intact insertable_upheld along).1

end

theorem set_refines_plain_tipped :
    (emptySession.run (ascii "test/set/s/") (tipped ++ [.flush, .call .maxValue, .call (.insert 3), .reset, .call .size])).1 =
      (Plain.run {} (tipped ++ [.flush, .call .maxValue, .call (.insert 3), .reset, .call .size])).1.map .ok :=
  set_refines_plain (fun _ => rfl) (unused_empty _) (by decide +kernel)

/-- Later insertions reach the missing child: the last, of an element that is present, throws. -/
theorem set_gets_stuck :
    (emptySession.run (ascii "test/set/s/") (tipped ++ insertions [3, 2, 4, 1, 10, 4, 5])).1 ≠
        (Plain.run {} (tipped ++ insertions [3, 2, 4, 1, 10, 4, 5])).1.map .ok ∧
      .error (.throw (.error .nodeNotFound)) ∈
        (emptySession.run (ascii "test/set/s/") (tipped ++ insertions [3, 2, 4, 1, 10, 4, 5])).1 := by
  decide +kernel

/-! ### Iterators -/

section

variable {α : Type} [Serial α]

/-- The root has no parent, and every other node that hangs from it has the one that links to it. -/
def Linked (s : StoredSet α) : Prop :=
  (s.nonceRoot ≠ 0 → ∃ n, s.heap.node s.nonceRoot = some n ∧ n.parent = 0) ∧
    ∀ id n side, Reachable s id → s.heap.node id = some n → n.child side ≠ 0 →
      ∃ m, s.heap.node (n.child side) = some m ∧ m.parent = id

variable [LinearOrder α]

theorem Whole.linked {old : Nat → Option (Node α)} {s : StoredSet α} {t : SearchTree Nat α} (whole : Whole old True s.heap t) :
    Linked s := by
  have below {p : Nat} {t : SearchTree Nat α} (held : Held old True s.heap p t) (some : t.top ≠ 0) :
      ∃ m, s.heap.node t.top = .some m ∧ m.parent = p := by
    cases t with
    | nil => exact (some rfl).elim
    | node id l v r =>
      obtain ⟨_, ⟨n, found, ⟨_, _, _, _, parent⟩, _⟩, _⟩ := held
      exact ⟨n, found, parent trivial⟩
  constructor
  · intro some
    have root : s.nonceRoot = t.top := whole.root
    rw [root] at some ⊢
    exact below whole.held some
  · intro id n side reachable found some
    obtain ⟨_, l, v, r, held, _, _⟩ := whole.held.at (whole.mem_of_reachable reachable)
    obtain ⟨_, ⟨n', found', ⟨left, right, _⟩, _⟩, leftHeld, rightHeld⟩ := held
    obtain rfl := Option.some.inj (found.symm.trans found')
    cases side with
    | left =>
      rw [Node.child, left] at some ⊢
      exact below leftHeld some
    | right =>
      rw [Node.child, right] at some ⊢
      exact below rightHeld some

/-- The deletion copies no node over its parent whose children keep the parent they had. -/
def Traceable (s : StoredSet α) (val : α) : Prop := ¬ s.tree.Splices val

instance (s : StoredSet α) (val : α) : Decidable (Traceable s val) := inferInstanceAs (Decidable (¬ _))

theorem linked_upheld : Upheld (α := α) True (fun _ => True) Insertable Traceable where
  nil := trivial
  insert _ _ _ fit := ⟨fit.1, fit.2, trivial⟩
  erase _ _ _ fit := ⟨fun _ => fit, trivial⟩

/-- The parents are exact, and both loops see every element once, in order. -/
theorem set_iterates [LawfulSerial α] [Inhabited α] {records : Records} {baseKey : ByteString}
    (intact : ∀ val : α, Serial.intact val = true) (unused : Unused records baseKey) {events : List (Event α)}
    (along : (Session.stored records).Along baseKey Insertable Traceable events) :
    ∃ s, ((Session.stored records).run baseKey events).2.set baseKey = .ok s ∧ Linked s ∧
      ((Plain.run {} events).2.current.Nonempty →
        (ascending s).1 = .ok (Plain.run {} events).2.current.sort ∧
          (descending s).1 = .ok (Plain.run {} events).2.current.sort.reverse) := by
  obtain ⟨_, ⟨s, t, built, holds⟩, _⟩ := (Agrees.start linked_upheld unused).run intact linked_upheld along
  refine ⟨s, built, holds.whole.linked, fun nonempty => ?_⟩
  have present : t ≠ .nil := by
    rintro rfl
    rw [← holds.elements_eq] at nonempty
    cases nonempty with
    | intro x mem => cases mem
  obtain ⟨_, up, _⟩ := holds.whole.ascending_runs present s rfl
  obtain ⟨_, down, _⟩ := holds.whole.descending_runs present s rfl
  rw [up, down, holds.vals_eq]
  exact ⟨rfl, rfl⟩

end

/-- The insertions of the tests of the source, and deletions after a flush. -/
def erasedAfterFlush : List (Event UInt16) :=
  insertions [11, 7, 12, 2, 8, 13, 1, 3, 4] ++ [.flush, .call (.erase 12), .call (.erase 7)]

theorem set_iterates_erasedAfterFlush :
    ∃ s, (emptySession.run (ascii "test/set/s/") erasedAfterFlush).2.set (ascii "test/set/s/") = .ok s ∧ Linked s ∧
      ((Plain.run {} erasedAfterFlush).2.current.Nonempty →
        (ascending s).1 = .ok (Plain.run {} erasedAfterFlush).2.current.sort ∧
          (descending s).1 = .ok (Plain.run {} erasedAfterFlush).2.current.sort.reverse) :=
  set_iterates (fun _ => rfl) (unused_empty _) (by decide +kernel)

/-- A node with a grandchild loses its left child and then itself: its child takes its place, and the
grandchild keeps it for a parent. -/
theorem set_loses_parent :
    ¬ ∃ s, (emptySession.run (ascii "test/set/s/") (tipped ++ [.call (.erase 9)])).2.set (ascii "test/set/s/") = .ok s ∧ Linked s ∧
      ((Plain.run {} (tipped ++ [.call (.erase 9)])).2.current.Nonempty →
        (ascending s).1 = .ok (Plain.run {} (tipped ++ [.call (.erase 9)])).2.current.sort ∧
          (descending s).1 = .ok (Plain.run {} (tipped ++ [.call (.erase 9)])).2.current.sort.reverse) := by
  rintro ⟨s, built, _, iterates⟩
  have seen : ((emptySession.run (ascii "test/set/s/") (tipped ++ [.call (.erase 9)])).2.set (ascii "test/set/s/")).toOption.map
      (fun s => (ascending s).1) ≠ some (.ok (Plain.run {} (tipped ++ [.call (.erase 9)])).2.current.sort) := by
    decide +kernel
  rw [built] at seen
  exact seen (congrArg some (iterates (by decide +kernel)).1)

end BandChain.StoredSet
