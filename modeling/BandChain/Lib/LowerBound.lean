import Mathlib.Data.List.Sort
import Mathlib.Order.Basic

/-! Binary search for a place where a predicate on numbers stops to hold. -/

namespace Search

def lowerBound (below : Nat → Prop) [DecidablePred below] (st ed : Nat) : Nat :=
  if st < ed then
    if below ((st + ed) / 2) then lowerBound below ((st + ed) / 2 + 1) ed else lowerBound below st ((st + ed) / 2)
  else st
termination_by ed - st

variable {below : Nat → Prop} [DecidablePred below] {st ed : Nat}

theorem lowerBound_le (ordered : st ≤ ed) : lowerBound below st ed ≤ ed := by
  fun_induction lowerBound below st ed with
  | case1 st ed room _ ih => exact ih (by omega)
  | case2 st ed room _ ih => exact (ih (by omega)).trans (by omega)
  | case3 st ed empty => exact ordered

variable (below) in
/-- The predicate holds just below the place found, unless the search began there. -/
theorem lowerBound_below (ordered : st ≤ ed) : lowerBound below st ed = st ∨ below (lowerBound below st ed - 1) := by
  fun_induction lowerBound below st ed with
  | case1 st ed room holds ih =>
    rcases ih (by omega) with begins | within
    · rw [begins, Nat.add_sub_cancel]
      exact Or.inr holds
    · exact Or.inr within
  | case2 st ed room fails ih => exact ih (by omega)
  | case3 st ed empty => exact Or.inl rfl

variable (below) in
/-- It does not hold at the place found, unless the search ended there. -/
theorem lowerBound_above (ordered : st ≤ ed) : lowerBound below st ed = ed ∨ ¬ below (lowerBound below st ed) := by
  fun_induction lowerBound below st ed with
  | case1 st ed room holds ih => exact ih (by omega)
  | case2 st ed room fails ih =>
    rcases ih (by omega) with ends | within
    · rw [ends]
      exact Or.inr fails
    · exact Or.inr within
  | case3 st ed empty => exact Or.inl (by omega)

/-- In a list in order, the place is the number of elements below the bound. -/
theorem lowerBound_sorted {α : Type} [LinearOrder α] {l : List α} (sorted : l.Pairwise (· ≤ ·)) {val : α} {i : Nat}
    (within : i ≤ l.length) (before : i = 0 ∨ ∃ x ∈ l[i - 1]?, x < val) (after : i = l.length ∨ ∃ x ∈ l[i]?, val ≤ x) :
    i = (l.filter (· < val)).length := by
  have ordered : ∀ {j k : Nat} (first : j < l.length) (second : k < l.length), j ≤ k → l[j] ≤ l[k] := by
    intro j k first second le
    rcases Nat.eq_or_lt_of_le le with rfl | lt
    · exact le_rfl
    · exact List.pairwise_iff_getElem.mp sorted j k first second lt
  have split := List.take_append_drop i l
  have early : ∀ x ∈ l.take i, x < val := by
    intro x mem
    obtain ⟨j, bound, rfl⟩ := List.mem_take_iff_getElem.mp mem
    have last : i - 1 < l.length := by omega
    rcases before with rfl | ⟨x, element, below⟩
    · omega
    · rw [List.getElem?_eq_getElem last] at element
      cases element
      exact (ordered (by omega) last (by omega)).trans_lt below
  have late : ∀ x ∈ l.drop i, ¬ x < val := by
    intro x mem
    obtain ⟨j, bound, rfl⟩ := List.mem_drop_iff_getElem.mp mem
    have first : i < l.length := by omega
    have above : l[i] ≤ l[i + j] := ordered first (by omega) (Nat.le_add_right i j)
    rcases after with rfl | ⟨x, element, reached⟩
    · omega
    · rw [List.getElem?_eq_getElem first] at element
      cases element
      exact not_lt.mpr (reached.trans above)
  rw [← split, List.filter_append, List.filter_eq_self.mpr (by simpa using early), List.filter_eq_nil_iff.mpr (by simpa using late)]
  simp [within]

end Search
