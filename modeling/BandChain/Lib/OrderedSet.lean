import Mathlib.Data.Set.Insert

/-!
Sets kept sorted by a comparison, in which two elements are the same when neither is less. They hold what
was inserted and not erased since, provided that the comparison orders all elements that are used.
-/

namespace OrderedSet

variable {α : Type}

section

variable (lt : α → α → Bool)

/-- The element goes to its lower bound, unless an equivalent one is there. -/
def insert (x : α) : List α → List α
  | [] => [x]
  | y :: ys => if lt y x then y :: insert x ys else if lt x y then x :: y :: ys else y :: ys

def erase (x : α) : List α → List α
  | [] => []
  | y :: ys => if lt y x then y :: erase x ys else if lt x y then y :: ys else ys

/-- A strict order on the elements used, in which only equal elements are incomparable. -/
structure Orders (E : Set α) : Prop where
  irrefl : ∀ a ∈ E, lt a a = false
  asymm : ∀ a ∈ E, ∀ b ∈ E, lt a b = true → lt b a = false
  trans : ∀ a ∈ E, ∀ b ∈ E, ∀ c ∈ E, lt a b = true → lt b c = true → lt a c = true
  incomparable : ∀ a ∈ E, ∀ b ∈ E, lt a b = false ∧ lt b a = false ↔ a = b

/-- Sorted, with elements that are used. -/
structure Sorted (E : Set α) (l : List α) : Prop where
  sorted : l.Pairwise fun a b => lt a b = true
  used : ∀ a ∈ l, a ∈ E

end

variable {lt : α → α → Bool} {E : Set α} {x : α} {l : List α}

theorem Sorted.nil : Sorted lt E [] := ⟨.nil, nofun⟩

theorem Sorted.tail {y : α} (sorted : Sorted lt E (y :: l)) : Sorted lt E l :=
  ⟨(List.pairwise_cons.mp sorted.sorted).2, fun a mem => sorted.used a (List.mem_cons_of_mem _ mem)⟩

theorem Sorted.nodup (orders : Orders lt E) (sorted : Sorted lt E l) : l.Nodup := by
  refine sorted.sorted.imp_of_mem fun mem _ less same => ?_
  subst same
  rw [orders.irrefl _ (sorted.used _ mem)] at less
  cases less

/-- What the two comparisons with the first element say. -/
theorem Orders.eq_of_not_lt (orders : Orders lt E) {y : α} (used : x ∈ E) (used' : y ∈ E) (notLess : ¬ lt y x = true)
    (notMore : ¬ lt x y = true) : y = x :=
  (orders.incomparable y used' x used).mp ⟨by simpa using notLess, by simpa using notMore⟩

theorem mem_insert (orders : Orders lt E) (used : x ∈ E) (sorted : Sorted lt E l) (a : α) :
    a ∈ insert lt x l ↔ a = x ∨ a ∈ l := by
  induction l with
  | nil => simp [insert]
  | cons y ys ih =>
    rw [insert]
    by_cases less : lt y x = true
    · rw [if_pos less, List.mem_cons, ih sorted.tail, List.mem_cons]
      exact or_left_comm
    · by_cases more : lt x y = true
      · rw [if_neg less, if_pos more, List.mem_cons]
      · rw [if_neg less, if_neg more, List.mem_cons, orders.eq_of_not_lt used (sorted.used y List.mem_cons_self) less more]
        exact or_self_left.symm

theorem Sorted.insert (orders : Orders lt E) (used : x ∈ E) (sorted : Sorted lt E l) : Sorted lt E (insert lt x l) := by
  refine ⟨?_, fun a mem => ?_⟩
  · induction l with
    | nil => exact List.pairwise_singleton ..
    | cons y ys ih =>
      have head := sorted.used y List.mem_cons_self
      obtain ⟨below, tail⟩ := List.pairwise_cons.mp sorted.sorted
      rw [OrderedSet.insert]
      split
      · rename_i less
        refine List.pairwise_cons.mpr ⟨fun a mem => ?_, ih sorted.tail⟩
        rcases (mem_insert orders used sorted.tail a).mp mem with rfl | mem
        · exact less
        · exact below a mem
      · split
        · rename_i more
          refine List.pairwise_cons.mpr ⟨fun a mem => ?_, sorted.sorted⟩
          rcases List.mem_cons.mp mem with rfl | mem
          · exact more
          · exact orders.trans x used y head a (sorted.used a (List.mem_cons_of_mem _ mem)) more (below a mem)
        · exact sorted.sorted
  · rcases (mem_insert orders used sorted a).mp mem with rfl | mem
    · exact used
    · exact sorted.used a mem

theorem mem_erase (orders : Orders lt E) (used : x ∈ E) (sorted : Sorted lt E l) (a : α) :
    a ∈ erase lt x l ↔ a ∈ l ∧ a ≠ x := by
  induction l with
  | nil => simp [erase]
  | cons y ys ih =>
    have head := sorted.used y List.mem_cons_self
    obtain ⟨below, _⟩ := List.pairwise_cons.mp sorted.sorted
    rw [erase]
    by_cases less : lt y x = true
    · have other : y ≠ x := by
        rintro rfl
        rw [orders.irrefl y used] at less
        cases less
      rw [if_pos less, List.mem_cons, ih sorted.tail, List.mem_cons]
      constructor
      · rintro (rfl | ⟨mem, ne⟩)
        · exact ⟨Or.inl rfl, other⟩
        · exact ⟨Or.inr mem, ne⟩
      · rintro ⟨rfl | mem, ne⟩
        · exact Or.inl rfl
        · exact Or.inr ⟨mem, ne⟩
    · by_cases more : lt x y = true
      · -- The element is below the first one, so it is not in the list.
        have absent : ∀ b ∈ y :: ys, b ≠ x := by
          rintro b mem rfl
          have above : lt b b = true := by
            rcases List.mem_cons.mp mem with rfl | mem
            · exact more
            · exact orders.trans b used y head b used more (below b mem)
          rw [orders.irrefl b used] at above
          cases above
        rw [if_neg less, if_pos more]
        exact ⟨fun mem => ⟨mem, absent a mem⟩, And.left⟩
      · obtain rfl := orders.eq_of_not_lt used head less more
        rw [if_neg less, if_neg more, List.mem_cons]
        constructor
        · intro mem
          refine ⟨Or.inr mem, ?_⟩
          rintro rfl
          have self := below a mem
          rw [orders.irrefl a used] at self
          cases self
        · rintro ⟨rfl | mem, ne⟩
          · exact (ne rfl).elim
          · exact mem

theorem erase_sublist (x : α) (l : List α) : (erase lt x l).Sublist l := by
  induction l with
  | nil => exact .slnil
  | cons y ys ih =>
    rw [erase]
    split
    · exact ih.cons_cons y
    · split
      · exact .refl _
      · exact List.sublist_cons_self y ys

theorem Sorted.erase (sorted : Sorted lt E l) : Sorted lt E (erase lt x l) :=
  ⟨sorted.sorted.sublist (erase_sublist x l), fun a mem => sorted.used a ((erase_sublist x l).subset mem)⟩

end OrderedSet
