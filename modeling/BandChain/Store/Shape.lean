import BandChain.Lib.SearchTree
import Mathlib.Data.List.Nodup
import Mathlib.Data.List.Perm.Subperm

/-!
What `insertNode` and `deleteNode` of `store/set.h` make of the tree that the records of a `Set`
form, without the records. Two defects are named here: an insertion can ask for a rotation around a
missing child, and a deletion can leave a node whose children differ in height by two.
-/

namespace SearchTree

variable {α : Type}

/-- The nonce that links to a tree; 0 for no tree. -/
def top : SearchTree Nat α → Nat
  | nil => 0
  | node id _ _ _ => id

@[simp] theorem top_nil : (nil : SearchTree Nat α).top = 0 := rfl

@[simp] theorem top_node (id : Nat) (l r : SearchTree Nat α) (v : α) : (node id l v r).top = id := rfl

section

variable [LinearOrder α]

/-- The rotations of `insertNode` where the child on a side is too high. -/
def raiseInserted (side : Side) (val : α) (child t : SearchTree Nat α) : SearchTree Nat α :=
  match child with
  | nil => t
  | node _ _ x _ =>
    if beyond side val x then t.raise side else if beyond side.other val x then t.raiseInner side else t

def settleInserted (val : α) : SearchTree Nat α → SearchTree Nat α
  | nil => nil
  | node id l x r =>
    if r.height + 1 < l.height then raiseInserted .left val l (node id l x r)
    else if l.height + 1 < r.height then raiseInserted .right val r (node id l x r)
    else node id l x r

/-- `insertNode`, with the nonce of the new node. -/
def insert (val : α) (new : Nat) : SearchTree Nat α → SearchTree Nat α
  | nil => node new nil val nil
  | node id l x r =>
    if val < x then settleInserted val (node id (insert val new l) x r)
    else if x < val then settleInserted val (node id l x (insert val new r))
    else node id l x r

/-- `getBalance(...).first`. -/
def leansLeft (t : SearchTree Nat α) : Bool := t.right.height ≤ t.left.height

omit [LinearOrder α] in
@[simp] theorem leansLeft_node {id : Nat} {l r : SearchTree Nat α} {x : α} :
    (node id l x r).leansLeft = true ↔ r.height ≤ l.height :=
  decide_eq_true_iff

/-- The rotations of `deleteNode`. On the right they take an even child for one that leans left. -/
def settleErased : SearchTree Nat α → SearchTree Nat α
  | nil => nil
  | node id l x r =>
    if r.height + 1 < l.height then
      if l.leansLeft then (node id l x r).raise .left else (node id l x r).raiseInner .left
    else if l.height + 1 < r.height then
      if r.leansLeft then (node id l x r).raiseInner .right else (node id l x r).raise .right
    else node id l x r

/-- The leftmost value of a tree whose root is to the right of it, at `x`. -/
def minVal (x : α) : SearchTree Nat α → α
  | nil => x
  | node _ l y _ => l.minVal y

/-- `deleteNode`. -/
def erase : SearchTree Nat α → α → SearchTree Nat α
  | nil, _ => nil
  | node id l x r, val =>
    if val < x then settleErased (node id (erase l val) x r)
    else if x < val then settleErased (node id l x (erase r val))
    else
      match l, r with
      | nil, nil => nil
      | node _ a y b, nil => settleErased (node id a y b)
      | nil, node _ a y b => settleErased (node id a y b)
      | node .., node _ a y _ => settleErased (node id l (a.minVal y) (erase r (a.minVal y)))

/-- An insertion comes back to a node whose other side is too high and has no inner child to raise. -/
def Stuck (val : α) (new : Nat) : SearchTree Nat α → Prop
  | nil => False
  | node _ l x r =>
    if val < x then l.Stuck val new ∨ ((l.insert val new).height + 1 < r.height ∧ r.left = nil)
    else if x < val then r.Stuck val new ∨ ((r.insert val new).height + 1 < l.height ∧ l.right = nil)
    else False

/-- The right child is two higher than the left, even, and its left child leans to the left. -/
def Tips (l r : SearchTree Nat α) : Prop :=
  l.height + 1 < r.height ∧ r.left.height = r.right.height ∧ r.left.right.height < r.left.left.height

/-- A deletion comes back to a node whose children it has left so. -/
def Skewed : SearchTree Nat α → α → Prop
  | nil, _ => False
  | node _ l x r, val =>
    if val < x then l.Skewed val ∨ Tips (l.erase val) r
    else if x < val then r.Skewed val
    else
      match l, r with
      | node .., node _ a y _ => r.Skewed (a.minVal y)
      | _, _ => False

/-- The children of a node that is copied over its parent keep the parent they had, unless a rotation
raises them at once. -/
def Strays (l r : SearchTree Nat α) : Prop :=
  ¬ ((l = nil ∨ r.height + 1 < l.height) ∧ (r = nil ∨ l.height + 1 < r.height))

/-- A deletion copies a node with such children over its parent. -/
def Splices : SearchTree Nat α → α → Prop
  | nil, _ => False
  | node _ l x r, val =>
    if val < x then l.Splices val
    else if x < val then r.Splices val
    else
      match l, r with
      | nil, nil => False
      | node _ a _ b, nil => Strays a b
      | nil, node _ a _ b => Strays a b
      | node .., node _ a y _ => r.Splices (a.minVal y)

omit [LinearOrder α] in
instance decidableTips (l r : SearchTree Nat α) : Decidable (Tips l r) := inferInstanceAs (Decidable (_ ∧ _ ∧ _))

instance decidableStuck (val : α) (new : Nat) : (t : SearchTree Nat α) → Decidable (t.Stuck val new)
  | nil => .isFalse id
  | node _ l x r =>
    have := decidableStuck val new l
    have := decidableStuck val new r
    inferInstanceAs (Decidable (if val < x then _ else if x < val then _ else False))

instance decidableSkewed : (t : SearchTree Nat α) → (val : α) → Decidable (t.Skewed val)
  | nil, _ => .isFalse id
  | node _ l x r, val =>
    have := decidableSkewed l val
    have := decidableSkewed r
    match l, r with
    | nil, nil => inferInstanceAs (Decidable (if val < x then _ else if x < val then _ else False))
    | nil, node .. => inferInstanceAs (Decidable (if val < x then _ else if x < val then _ else False))
    | node .., nil => inferInstanceAs (Decidable (if val < x then _ else if x < val then _ else False))
    | node .., node .. => inferInstanceAs (Decidable (if val < x then _ else if x < val then _ else _))

instance decidableStrays (l r : SearchTree Nat α) : Decidable (Strays l r) := inferInstanceAs (Decidable (¬ _))

instance decidableSplices : (t : SearchTree Nat α) → (val : α) → Decidable (t.Splices val)
  | nil, _ => .isFalse id
  | node _ l x r, val =>
    have := decidableSplices l val
    have := decidableSplices r
    match l, r with
    | nil, nil => inferInstanceAs (Decidable (if val < x then _ else if x < val then _ else False))
    | nil, node .. => inferInstanceAs (Decidable (if val < x then _ else if x < val then _ else Strays ..))
    | node .., nil => inferInstanceAs (Decidable (if val < x then _ else if x < val then _ else Strays ..))
    | node .., node .. => inferInstanceAs (Decidable (if val < x then _ else if x < val then _ else _))

/-! ### What the trees hold -/

@[simp] theorem vals_settleInserted (val : α) (t : SearchTree Nat α) : (settleInserted val t).vals = t.vals := by
  unfold settleInserted raiseInserted
  repeat' split
  all_goals simp

@[simp] theorem ids_settleInserted (val : α) (t : SearchTree Nat α) : (settleInserted val t).ids = t.ids := by
  unfold settleInserted raiseInserted
  repeat' split
  all_goals simp

omit [LinearOrder α] in
@[simp] theorem vals_settleErased (t : SearchTree Nat α) : (settleErased t).vals = t.vals := by
  unfold settleErased
  repeat' split
  all_goals simp

omit [LinearOrder α] in
@[simp] theorem ids_settleErased (t : SearchTree Nat α) : (settleErased t).ids = t.ids := by
  unfold settleErased
  repeat' split
  all_goals simp

theorem mem_insert {val x : α} {new : Nat} {t : SearchTree Nat α} :
    x ∈ (t.insert val new).vals ↔ x = val ∨ x ∈ t.vals := by
  induction t with
  | nil => simp [insert]
  | node id l y r hl hr =>
    unfold insert
    split
    · simp only [vals_settleInserted, vals_node, List.mem_append, List.mem_cons, hl]
      exact or_assoc
    · split
      · simp only [vals_settleInserted, vals_node, List.mem_append, List.mem_cons, hr]
        grind
      · have same : val = y := le_antisymm (not_lt.mp ‹_›) (not_lt.mp ‹_›)
        simp only [vals_node, List.mem_append, List.mem_cons, same]
        grind

theorem ordered_of_vals {t u : SearchTree Nat α} (same : u.vals = t.vals) : u.Ordered ↔ t.Ordered := by
  unfold Ordered
  rw [same]

theorem Ordered.insert {t : SearchTree Nat α} (ordered : t.Ordered) (val : α) (new : Nat) : (t.insert val new).Ordered := by
  induction t with
  | nil => simp [SearchTree.insert, Ordered]
  | node id l y r hl hr =>
    obtain ⟨left, right, below, above⟩ := ordered_node.mp ordered
    unfold SearchTree.insert
    split
    · rename_i less
      refine (ordered_of_vals (vals_settleInserted _ _)).mpr (ordered_node.mpr ⟨hl left, right, ?_, above⟩)
      intro x mem
      rcases mem_insert.mp mem with rfl | old
      · exact less
      · exact below x old
    · split
      · rename_i more
        refine (ordered_of_vals (vals_settleInserted _ _)).mpr (ordered_node.mpr ⟨left, hr right, below, ?_⟩)
        intro x mem
        rcases mem_insert.mp mem with rfl | old
        · exact more
        · exact above x old
      · exact ordered

theorem ids_insert (val : α) (new : Nat) (t : SearchTree Nat α) : (t.insert val new).ids.Subperm (new :: t.ids) := by
  induction t with
  | nil => simp [insert]
  | node id l y r hl hr =>
    unfold insert
    split
    · rw [ids_settleInserted, ids_node, ids_node, ← List.cons_append]
      exact hl.append (List.Subperm.refl _)
    · split
      · rw [ids_settleInserted, ids_node, ids_node]
        have tail : (id :: (insert val new r).ids).Subperm (new :: id :: r.ids) :=
          ((List.subperm_cons id).mpr hr).trans (List.Perm.swap new id r.ids).subperm
        exact ((List.Subperm.refl l.ids).append tail).trans List.perm_middle.subperm
      · exact (List.sublist_cons_self _ _).subperm

theorem mem_node_of_lt {id : Nat} {l r : SearchTree Nat α} {x val : α} (ordered : (node id l x r).Ordered) (less : val < x) :
    val ∈ (node id l x r).vals ↔ val ∈ l.vals := by
  obtain ⟨_, _, _, above⟩ := ordered_node.mp ordered
  simp only [vals_node, List.mem_append, List.mem_cons, or_iff_left_iff_imp]
  rintro (rfl | mem)
  · exact (lt_irrefl _ less).elim
  · exact (lt_asymm less (above val mem)).elim

theorem mem_node_of_gt {id : Nat} {l r : SearchTree Nat α} {x val : α} (ordered : (node id l x r).Ordered) (more : x < val) :
    val ∈ (node id l x r).vals ↔ val ∈ r.vals := by
  obtain ⟨_, _, below, _⟩ := ordered_node.mp ordered
  simp only [vals_node, List.mem_append, List.mem_cons]
  constructor
  · rintro (mem | rfl | mem)
    · exact (lt_asymm more (below val mem)).elim
    · exact (lt_irrefl _ more).elim
    · exact mem
  · exact fun mem => Or.inr (Or.inr mem)

theorem ids_insert_of_mem {t : SearchTree Nat α} (ordered : t.Ordered) {val : α} (new : Nat) (mem : val ∈ t.vals) :
    (t.insert val new).ids = t.ids := by
  induction t with
  | nil => cases mem
  | node id l x r hl hr =>
    obtain ⟨left, right, _, _⟩ := ordered_node.mp ordered
    unfold insert
    split
    · rename_i less
      simp [hl left ((mem_node_of_lt ordered less).mp mem)]
    · split
      · rename_i more
        simp [hr right ((mem_node_of_gt ordered more).mp mem)]
      · rfl

theorem length_insert {t : SearchTree Nat α} (ordered : t.Ordered) (val : α) (new : Nat) :
    (t.insert val new).vals.length = t.vals.length + if val ∈ t.vals then 0 else 1 := by
  induction t with
  | nil => rfl
  | node id l x r hl hr =>
    obtain ⟨left, right, _, _⟩ := ordered_node.mp ordered
    unfold insert
    split
    · rename_i less
      rw [if_congr (mem_node_of_lt ordered less) rfl rfl]
      simp only [vals_settleInserted, vals_node, List.length_append, List.length_cons, hl left]
      omega
    · rename_i notLess
      split
      · rename_i more
        rw [if_congr (mem_node_of_gt ordered more) rfl rfl]
        simp only [vals_settleInserted, vals_node, List.length_append, List.length_cons, hr right]
        omega
      · rename_i notMore
        have same : val = x := le_antisymm (not_lt.mp notMore) (not_lt.mp notLess)
        simp [same]

theorem right_of_mem {id : Nat} {l r : SearchTree Nat α} {x val : α} (ordered : (node id l x r).Ordered)
    (mem : val ∈ (node id l x r).vals) (more : x < val) : r ≠ nil := by
  rintro rfl
  cases (mem_node_of_gt ordered more).mp mem

theorem left_of_mem {id : Nat} {l r : SearchTree Nat α} {x val : α} (ordered : (node id l x r).Ordered)
    (mem : val ∈ (node id l x r).vals) (less : val < x) : l ≠ nil := by
  rintro rfl
  cases (mem_node_of_lt ordered less).mp mem

omit [LinearOrder α] in
/-- The values from left to right start with the leftmost. -/
theorem vals_minVal (t : SearchTree Nat α) (x : α) (rest : List α) : ∃ tail, t.vals ++ x :: rest = t.minVal x :: tail := by
  induction t generalizing x rest with
  | nil => exact ⟨rest, rfl⟩
  | node id l y r hl _ =>
    obtain ⟨tail, same⟩ := hl y (r.vals ++ x :: rest)
    exact ⟨tail, by rw [vals_node, List.append_assoc, List.cons_append, same, minVal]⟩

theorem filter_of_absent {xs : List α} {val : α} (absent : ∀ x ∈ xs, x ≠ val) :
    xs.filter (fun x => !decide (x = val)) = xs :=
  List.filter_eq_self.mpr fun x mem => by simpa using absent x mem

theorem vals_erase {t : SearchTree Nat α} (ordered : t.Ordered) (val : α) :
    (t.erase val).vals = t.vals.filter (fun x => !decide (x = val)) := by
  induction t generalizing val with
  | nil => rfl
  | node id l y r hl hr =>
    obtain ⟨left, right, below, above⟩ := ordered_node.mp ordered
    unfold erase
    split
    · rename_i less
      have others : ∀ x ∈ r.vals, x ≠ val := fun x mem => ne_of_gt (less.trans (above x mem))
      simp [hl left, less.ne', filter_of_absent others]
    · split
      · rename_i more
        have others : ∀ x ∈ l.vals, x ≠ val := fun x mem => ne_of_lt ((below x mem).trans more)
        simp [hr right, more.ne, filter_of_absent others]
      · have same : val = y := le_antisymm (not_lt.mp ‹_›) (not_lt.mp ‹_›)
        subst same
        have lower : ∀ x ∈ l.vals, x ≠ val := fun x mem => ne_of_lt (below x mem)
        have upper : ∀ x ∈ r.vals, x ≠ val := fun x mem => ne_of_gt (above x mem)
        have kept : (node id l val r).vals.filter (fun x => !decide (x = val)) = l.vals ++ r.vals := by
          simp [filter_of_absent lower, filter_of_absent upper]
        rw [kept]
        cases l with
        | nil => cases r <;> simp
        | node c a u b =>
          cases r with
          | nil => simp
          | node d e w f =>
            obtain ⟨tail, first⟩ := vals_minVal e w f.vals
            have sorted : (e.minVal w :: tail).Pairwise (· < ·) := first ▸ right
            have rest : ∀ x ∈ tail, x ≠ e.minVal w := fun x mem => ne_of_gt (List.rel_of_pairwise_cons sorted mem)
            simp only [vals_settleErased, vals_node, hr right, first]
            simp [filter_of_absent rest]

theorem Ordered.erase {t : SearchTree Nat α} (ordered : t.Ordered) (val : α) : (t.erase val).Ordered := by
  unfold Ordered
  rw [vals_erase ordered]
  exact List.Pairwise.filter _ ordered

omit [LinearOrder α] in
theorem ids_replaced (id c : Nat) (xs ys : List Nat) : (xs ++ id :: ys).Subperm (id :: (xs ++ c :: ys)) := by
  have sub : (xs ++ ys).Sublist (xs ++ c :: ys) := (List.Sublist.refl xs).append (List.sublist_cons_self c ys)
  exact List.perm_middle.subperm.trans (sub.cons_cons id).subperm

theorem ids_erase (t : SearchTree Nat α) (val : α) : (t.erase val).ids.Subperm t.ids := by
  induction t generalizing val with
  | nil => exact List.Subperm.refl _
  | node id l y r hl hr =>
    unfold erase
    split
    · rw [ids_settleErased]
      exact (hl val).append (List.Subperm.refl _)
    · split
      · rw [ids_settleErased]
        exact (List.Subperm.refl _).append ((List.subperm_cons id).mpr (hr val))
      · cases l with
        | nil =>
          cases r with
          | nil => exact List.nil_subperm
          | node c a u b =>
            rw [ids_settleErased]
            exact ids_replaced id c a.ids b.ids
        | node c a u b =>
          cases r with
          | nil =>
            rw [ids_settleErased]
            exact (ids_replaced id c a.ids b.ids).trans (List.perm_append_singleton id _).symm.subperm
          | node d e w f =>
            rw [ids_settleErased]
            exact (List.Subperm.refl _).append ((List.subperm_cons id).mpr (hr _))

omit [LinearOrder α] in
theorem nodup_of_subperm {xs ys : List Nat} (sub : xs.Subperm ys) (nodup : ys.Nodup) : xs.Nodup := by
  obtain ⟨zs, perm, sub⟩ := sub
  exact perm.nodup_iff.mp (nodup.sublist sub)

/-! ### Balance -/

omit [LinearOrder α] in
theorem balanced_raise_left {i y : Nat} {a b r : SearchTree Nat α} {u x : α} (ha : a.Balanced) (hb : b.Balanced)
    (hr : r.Balanced) (outer : a.height = r.height + 1) (low : r.height ≤ b.height) (high : b.height ≤ r.height + 1) :
    (raise .left (node i (node y a u b) x r)).Balanced ∧
      (raise .left (node i (node y a u b) x r)).height = b.height + 2 := by
  simp only [raise, balanced_node, height_node]
  refine ⟨⟨ha, ⟨hb, hr, by omega⟩, by omega⟩, by omega⟩

omit [LinearOrder α] in
theorem balanced_raise_right {i y : Nat} {l b a : SearchTree Nat α} {u x : α} (ha : a.Balanced) (hb : b.Balanced)
    (hl : l.Balanced) (outer : a.height = l.height + 1) (low : l.height ≤ b.height) (high : b.height ≤ l.height + 1) :
    (raise .right (node i l x (node y b u a))).Balanced ∧
      (raise .right (node i l x (node y b u a))).height = b.height + 2 := by
  simp only [raise, balanced_node, height_node]
  refine ⟨⟨⟨hl, hb, by omega⟩, ha, by omega⟩, by omega⟩

omit [LinearOrder α] in
theorem balanced_raiseInner_left {i y : Nat} {a b r : SearchTree Nat α} {u x : α} (ha : a.Balanced) (hb : b.Balanced)
    (hr : r.Balanced) (outer : a.height = r.height) (inner : b.height = r.height + 1) :
    (raiseInner .left (node i (node y a u b) x r)).Balanced ∧
      (raiseInner .left (node i (node y a u b) x r)).height = r.height + 2 := by
  obtain ⟨z, c, w, d, rfl⟩ := exists_node_of_height (t := b) (by omega)
  simp only [height_node, balanced_node] at inner hb
  simp only [raiseInner, raise, balanced_node, height_node]
  refine ⟨⟨⟨ha, hb.1, by omega⟩, ⟨hb.2.1, hr, by omega⟩, by omega⟩, by omega⟩

omit [LinearOrder α] in
/-- The outer child may be one higher than after an insertion, if the inner child does not lean outwards. -/
theorem balanced_raiseInner_right {i y : Nat} {l b a : SearchTree Nat α} {u x : α} (ha : a.Balanced) (hb : b.Balanced)
    (hl : l.Balanced) (low : l.height ≤ a.height) (high : a.height ≤ l.height + 1) (inner : b.height = l.height + 1)
    (level : a.height = b.height → b.left.height ≤ b.right.height) :
    (raiseInner .right (node i l x (node y b u a))).Balanced ∧
      (raiseInner .right (node i l x (node y b u a))).height = a.height + 2 := by
  obtain ⟨z, c, w, d, rfl⟩ := exists_node_of_height (t := b) (by omega)
  simp only [height_node, balanced_node, left_node, right_node] at inner hb level
  simp only [raiseInner, raise, balanced_node, height_node]
  refine ⟨⟨⟨hl, hb.1, by omega⟩, ⟨hb.2.1, ha, by omega⟩, by omega⟩, by omega⟩

/-- The root leans to the side of a value that was just inserted below it. -/
def Leans (val : α) : SearchTree Nat α → Prop
  | nil => False
  | node _ a y b => val < y ∧ a.height = b.height + 1 ∨ y < val ∧ b.height = a.height + 1

/-- What an insertion does to a balanced tree: it stays balanced, and where it gets higher it leans. -/
def Grown (val : α) (t u : SearchTree Nat α) : Prop :=
  u.Balanced ∧ (u.height = t.height ∨ u.height = t.height + 1 ∧ (t = nil ∨ u.Leans val))

theorem grown_left {val x : α} {id : Nat} {l l' r : SearchTree Nat α} (balanced : (node id l x r).Balanced)
    (less : val < x) (grown : Grown val l l') : Grown val (node id l x r) (settleInserted val (node id l' x r)) := by
  obtain ⟨_, hr, lower, upper⟩ := balanced
  obtain ⟨hl', same | ⟨higher, leaning⟩⟩ := grown
  · rw [settleInserted, if_neg (by omega), if_neg (by omega)]
    exact ⟨⟨hl', hr, by omega, by omega⟩, Or.inl (by simp [same])⟩
  · by_cases level : l'.height ≤ r.height + 1
    · rw [settleInserted, if_neg (by omega), if_neg (by omega)]
      refine ⟨⟨hl', hr, level, by omega⟩, ?_⟩
      by_cases even : l.height = r.height
      · exact Or.inr ⟨by simp; omega, Or.inr (Or.inl ⟨less, by omega⟩)⟩
      · exact Or.inl (by simp; omega)
    · rw [settleInserted, if_pos (by omega)]
      rcases leaning with rfl | leaning
      · simp at higher level; omega
      · cases l' with
        | nil => cases leaning
        | node y a u b =>
          obtain ⟨ha, hb, _⟩ := hl'
          simp only [height_node] at higher level
          rcases leaning with ⟨outer, above⟩ | ⟨inner, above⟩
          · obtain ⟨kept, height⟩ := balanced_raise_left (i := id) (y := y) (u := u) (x := x) ha hb hr (by omega) (by omega) (by omega)
            simp only [raiseInserted, beyond, outer, decide_true, if_true]
            exact ⟨kept, Or.inl (by rw [height]; simp; omega)⟩
          · obtain ⟨kept, height⟩ := balanced_raiseInner_left (i := id) (y := y) (u := u) (x := x) ha hb hr (by omega) (by omega)
            simp only [raiseInserted, beyond, Side.other, inner, inner.not_gt, decide_false, decide_true, if_true,
              Bool.false_eq_true, if_false]
            exact ⟨kept, Or.inl (by rw [height]; simp; omega)⟩

theorem grown_right {val x : α} {id : Nat} {l r r' : SearchTree Nat α} (balanced : (node id l x r).Balanced)
    (more : x < val) (grown : Grown val r r') : Grown val (node id l x r) (settleInserted val (node id l x r')) := by
  obtain ⟨hl, _, lower, upper⟩ := balanced
  obtain ⟨hr', same | ⟨higher, leaning⟩⟩ := grown
  · rw [settleInserted, if_neg (by omega), if_neg (by omega)]
    exact ⟨⟨hl, hr', by omega, by omega⟩, Or.inl (by simp [same])⟩
  · by_cases level : r'.height ≤ l.height + 1
    · rw [settleInserted, if_neg (by omega), if_neg (by omega)]
      refine ⟨⟨hl, hr', by omega, level⟩, ?_⟩
      by_cases even : l.height = r.height
      · exact Or.inr ⟨by simp; omega, Or.inr (Or.inr ⟨more, by omega⟩)⟩
      · exact Or.inl (by simp; omega)
    · rw [settleInserted, if_neg (by omega), if_pos (by omega)]
      rcases leaning with rfl | leaning
      · simp at higher level; omega
      · cases r' with
        | nil => cases leaning
        | node y b u a =>
          obtain ⟨hb, ha, _⟩ := hr'
          simp only [height_node] at higher level
          rcases leaning with ⟨inner, above⟩ | ⟨outer, above⟩
          · obtain ⟨kept, height⟩ := balanced_raiseInner_right (i := id) (y := y) (u := u) (x := x) ha hb hl
              (by omega) (by omega) (by omega) (by omega)
            simp only [raiseInserted, beyond, Side.other, inner, inner.not_gt, decide_false, decide_true, if_true,
              Bool.false_eq_true, if_false]
            exact ⟨kept, Or.inl (by rw [height]; simp; omega)⟩
          · obtain ⟨kept, height⟩ := balanced_raise_right (i := id) (y := y) (u := u) (x := x) ha hb hl (by omega) (by omega) (by omega)
            simp only [raiseInserted, beyond, outer, decide_true, if_true]
            exact ⟨kept, Or.inl (by rw [height]; simp; omega)⟩

theorem grown_insert (val : α) (new : Nat) {t : SearchTree Nat α} (balanced : t.Balanced) : Grown val t (t.insert val new) := by
  induction t with
  | nil => exact ⟨⟨trivial, trivial, by simp, by simp⟩, Or.inr ⟨rfl, Or.inl rfl⟩⟩
  | node id l x r hl hr =>
    unfold insert
    split
    · exact grown_left balanced ‹_› (hl balanced.1)
    · split
      · exact grown_right balanced ‹_› (hr balanced.2.1)
      · exact ⟨balanced, Or.inl rfl⟩

omit [LinearOrder α] in
/-- Around a deletion, children of balanced nodes differ by two at most. -/
theorem balanced_settleErased {i : Nat} {l r : SearchTree Nat α} {x : α} (hl : l.Balanced) (hr : r.Balanced)
    (lower : l.height ≤ r.height + 2) (upper : r.height ≤ l.height + 2) (steady : ¬ Tips l r) :
    (settleErased (node i l x r)).Balanced ∧
      (settleErased (node i l x r)).height ≤ max l.height r.height + 1 ∧
      max l.height r.height ≤ (settleErased (node i l x r)).height ∧
      (l.height ≤ r.height + 1 → r.height ≤ l.height + 1 →
        (settleErased (node i l x r)).height = max l.height r.height + 1) := by
  simp only [settleErased]
  by_cases heavyLeft : r.height + 1 < l.height
  · rw [if_pos heavyLeft]
    obtain ⟨y, a, u, b, rfl⟩ := exists_node_of_height (t := l) (by omega)
    simp only [height_node, balanced_node] at heavyLeft lower hl
    obtain ⟨ha, hb, near⟩ := hl
    by_cases outer : b.height ≤ a.height
    · obtain ⟨kept, height⟩ := balanced_raise_left (i := i) (y := y) (u := u) (x := x) ha hb hr (by omega) (by omega) (by omega)
      rw [if_pos (leansLeft_node.mpr outer)]
      exact ⟨kept, by rw [height, height_node]; omega⟩
    · obtain ⟨kept, height⟩ := balanced_raiseInner_left (i := i) (y := y) (u := u) (x := x) ha hb hr (by omega) (by omega)
      rw [if_neg (leansLeft_node.not.mpr outer)]
      exact ⟨kept, by rw [height, height_node]; omega⟩
  · rw [if_neg heavyLeft]
    by_cases heavyRight : l.height + 1 < r.height
    · rw [if_pos heavyRight]
      obtain ⟨y, b, u, a, rfl⟩ := exists_node_of_height (t := r) (by omega)
      simp only [Tips, height_node, left_node, right_node] at heavyRight upper steady
      obtain ⟨hb, ha, near⟩ := hr
      by_cases inner : a.height ≤ b.height
      · obtain ⟨kept, height⟩ := balanced_raiseInner_right (i := i) (y := y) (u := u) (x := x) ha hb hl
          (by omega) (by omega) (by omega) (by omega)
        rw [if_pos (leansLeft_node.mpr inner)]
        exact ⟨kept, by rw [height, height_node]; omega⟩
      · obtain ⟨kept, height⟩ := balanced_raise_right (i := i) (y := y) (u := u) (x := x) ha hb hl (by omega) (by omega) (by omega)
        rw [if_neg (leansLeft_node.not.mpr inner)]
        exact ⟨kept, by rw [height, height_node]; omega⟩
    · rw [if_neg heavyRight]
      exact ⟨⟨hl, hr, by omega, by omega⟩, by rw [height_node]; omega⟩

theorem balanced_erase {t : SearchTree Nat α} {val : α} (balanced : t.Balanced) (steady : ¬ t.Skewed val) :
    (t.erase val).Balanced ∧ ((t.erase val).height = t.height ∨ (t.erase val).height + 1 = t.height) := by
  induction t generalizing val with
  | nil => exact ⟨trivial, Or.inl rfl⟩
  | node id l x r hl hr =>
    obtain ⟨left, right, lower, upper⟩ := balanced
    unfold Skewed at steady
    unfold erase
    split at steady
    · rename_i less
      rw [if_pos less]
      obtain ⟨inner, tips⟩ := not_or.mp steady
      obtain ⟨kept, height⟩ := hl left inner
      obtain ⟨settled, high, low, level⟩ := balanced_settleErased (i := id) (x := x) kept right (by omega) (by omega) tips
      exact ⟨settled, by rw [height_node]; omega⟩
    · rename_i notLess
      rw [if_neg notLess]
      split at steady
      · rename_i more
        rw [if_pos more]
        obtain ⟨kept, height⟩ := hr right steady
        obtain ⟨settled, high, low, level⟩ := balanced_settleErased (i := id) (x := x) left kept (by omega) (by omega)
          (by unfold Tips; omega)
        exact ⟨settled, by rw [height_node]; omega⟩
      · rename_i notMore
        rw [if_neg notMore]
        cases l with
        | nil =>
          cases r with
          | nil => exact ⟨trivial, Or.inr rfl⟩
          | node c a u b =>
            obtain ⟨ha, hb, near, far⟩ := right
            obtain ⟨settled, high, low, level⟩ := balanced_settleErased (i := id) (x := u) ha hb (by omega) (by omega)
              (by unfold Tips; omega)
            exact ⟨settled, by simp only [height_node, height_nil] at *; omega⟩
        | node c a u b =>
          cases r with
          | nil =>
            obtain ⟨ha, hb, near, far⟩ := left
            obtain ⟨settled, high, low, level⟩ := balanced_settleErased (i := id) (x := u) ha hb (by omega) (by omega)
              (by unfold Tips; omega)
            exact ⟨settled, by simp only [height_node, height_nil] at *; omega⟩
          | node d e w f =>
            obtain ⟨kept, height⟩ := hr right steady
            obtain ⟨settled, high, low, level⟩ := balanced_settleErased (i := id) (x := e.minVal w) left kept (by omega)
              (by omega) (by unfold Tips; omega)
            refine ⟨settled, ?_⟩
            change (settleErased _).height = _ ∨ (settleErased _).height + 1 = _
            rw [height_node id]
            omega

/-- A balanced tree takes every insertion. -/
theorem not_stuck {t : SearchTree Nat α} (balanced : t.Balanced) (val : α) (new : Nat) : ¬ t.Stuck val new := by
  induction t with
  | nil => exact id
  | node id l x r hl hr =>
    obtain ⟨left, right, lower, upper⟩ := balanced
    unfold Stuck
    split
    · obtain ⟨_, height⟩ := grown_insert val new left
      rintro (inner | ⟨heavy, -⟩)
      · exact hl left inner
      · omega
    · split
      · obtain ⟨_, height⟩ := grown_insert val new right
        rintro (inner | ⟨heavy, -⟩)
        · exact hr right inner
        · omega
      · exact False.elim

end

end SearchTree
