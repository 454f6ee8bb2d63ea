import BandChain.Store.Session

/-! The heights that a `Set` stores, and when its tree is balanced. -/

namespace BandChain.StoredSet

section

variable {α : Type}

/-- What `getHeight` reads. -/
def Heap.height (h : Heap α) (id : Nat) : Nat := if id = 0 then 0 else ((h.node id).map Node.height).getD 0

theorem Held.height_eq {old : Nat → Option (Node α)} {strict : Prop} {h : Heap α} {p : Nat} {t : SearchTree Nat α}
    (held : Held old strict h p t) : h.height t.top = t.height := by
  cases t with
  | nil => rfl
  | node id l v r =>
    obtain ⟨named, ⟨n, found, ⟨_, _, _, height, _⟩, _⟩, _⟩ := held
    simp [Heap.height, named, found, height]

variable [Serial α]

/-- Every node that hangs from the root has the height that its children give it, and children whose
heights differ by one at most. -/
def Avl (s : StoredSet α) : Prop :=
  ∀ id, Reachable s id → ∃ n, s.heap.node id = some n ∧
    n.height = 1 + max (s.heap.height n.left) (s.heap.height n.right) ∧
    s.heap.height n.left ≤ s.heap.height n.right + 1 ∧ s.heap.height n.right ≤ s.heap.height n.left + 1

variable [LinearOrder α]

theorem Whole.avl {old : Nat → Option (Node α)} {strict : Prop} {s : StoredSet α} {t : SearchTree Nat α}
    (whole : Whole old strict s.heap t) (balanced : t.Balanced) : Avl s := by
  intro id reachable
  obtain ⟨q, l, v, r, held, even, _⟩ := whole.held.at (whole.mem_of_reachable reachable)
  obtain ⟨_, ⟨n, found, ⟨left, right, _, height, _⟩, _⟩, leftHeld, rightHeld⟩ := held
  obtain ⟨_, _, notLeft, notRight⟩ := even balanced
  refine ⟨n, found, ?_⟩
  rw [left, right, leftHeld.height_eq, rightHeld.height_eq, height, Nat.add_comm]
  exact ⟨rfl, notLeft, notRight⟩

/-- The deletion comes back to no node whose right child is two higher and even and has a left child
that leans to the left. -/
def Upright (s : StoredSet α) (val : α) : Prop := ¬ s.tree.Skewed val

instance (s : StoredSet α) (val : α) : Decidable (Upright s val) := inferInstanceAs (Decidable (¬ _))

/-- A balanced tree has every child that an insertion rotates. -/
theorem balanced_upheld : Upheld (α := α) False SearchTree.Balanced Roomy Upright where
  nil := trivial
  insert _ val even fit := ⟨fit, SearchTree.not_stuck even val _, (SearchTree.grown_insert val _ even).1⟩
  erase _ _ even fit := ⟨False.elim, (SearchTree.balanced_erase even fit).1⟩

theorem set_balanced [LawfulSerial α] [Inhabited α] {records : Records} {baseKey : ByteString}
    (intact : ∀ val : α, Serial.intact val = true) (unused : Unused records baseKey) {events : List (Event α)}
    (along : (Session.stored records).Along baseKey Roomy Upright events) :
    ∃ s, ((Session.stored records).run baseKey events).2.set baseKey = .ok s ∧ Avl s := by
  obtain ⟨_, ⟨s, t, built, holds⟩, _⟩ := (Agrees.start balanced_upheld unused).run intact balanced_upheld along
  exact ⟨s, built, holds.whole.avl holds.shape⟩

end

/-- What the tests of the source insert. -/
def shapeOfTree : List (Event UInt16) := insertions [11, 7, 12, 2, 8, 13, 1, 3, 4] ++ [.flush, .call (.erase 12), .call (.erase 8)]

theorem set_balanced_shapeOfTree :
    ∃ s, (emptySession.run (ascii "test/set/s/") shapeOfTree).2.set (ascii "test/set/s/") = .ok s ∧ Avl s :=
  set_balanced (fun _ => rfl) (unused_empty _) (by decide +kernel)

/-- The node of 9 is left with no left child and a right child of height two. -/
theorem set_tips :
    ¬ ∃ s, (emptySession.run (ascii "test/set/s/") tipped).2.set (ascii "test/set/s/") = .ok s ∧ Avl s := by
  rintro ⟨s, built, avl⟩
  have seen : ((emptySession.run (ascii "test/set/s/") tipped).2.set (ascii "test/set/s/")).toOption.map
      (fun s => (s.nonceRoot, s.heap.node 3, s.heap.node 2, s.heap.height 1)) =
      some (3, some ⟨4, 2, 4, 0, 8, .changed⟩, some ⟨0, 1, 3, 3, 9, .changed⟩, 2) := by
    decide +kernel
  rw [built] at seen
  simp only [Except.toOption, Option.map_some, Option.some.injEq, Prod.mk.injEq] at seen
  obtain ⟨root, top, nine, eleven⟩ := seen
  have reachable : Reachable s 2 := by
    have above := Reachable.root (s := s) (by rw [root]; decide)
    rw [root] at above
    exact above.child .right top (by decide)
  obtain ⟨n, found, _, _, bound⟩ := avl 2 reachable
  cases nine.symm.trans found
  rw [eleven] at bound
  simp [Heap.height] at bound

end BandChain.StoredSet
