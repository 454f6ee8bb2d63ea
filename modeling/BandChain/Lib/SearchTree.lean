import Mathlib.Data.List.Pairwise
import Mathlib.Order.Lattice
import Mathlib.Tactic.Tauto

/-!
Binary search trees whose nodes have names, and the rotations that change a tree's shape without
changing its sequence.
-/

/-- The two children of a node. -/
inductive Side where
  | left
  | right
  deriving DecidableEq

def Side.other : Side → Side
  | left => right
  | right => left

inductive SearchTree (ι α : Type) where
  | nil
  | node (id : ι) (left : SearchTree ι α) (val : α) (right : SearchTree ι α)
  deriving DecidableEq

namespace SearchTree

variable {ι α : Type}

def height : SearchTree ι α → Nat
  | nil => 0
  | node _ l _ r => max l.height r.height + 1

/-- The names of the nodes, from left to right. -/
def ids : SearchTree ι α → List ι
  | nil => []
  | node id l _ r => l.ids ++ id :: r.ids

/-- The values of the nodes, from left to right. -/
def vals : SearchTree ι α → List α
  | nil => []
  | node _ l v r => l.vals ++ v :: r.vals

def Ordered [LT α] (t : SearchTree ι α) : Prop := t.vals.Pairwise (· < ·)

def Balanced : SearchTree ι α → Prop
  | nil => True
  | node _ l _ r => l.Balanced ∧ r.Balanced ∧ l.height ≤ r.height + 1 ∧ r.height ≤ l.height + 1

def left : SearchTree ι α → SearchTree ι α
  | nil => nil
  | node _ l _ _ => l

def right : SearchTree ι α → SearchTree ι α
  | nil => nil
  | node _ _ _ r => r

@[simp] theorem left_node (id : ι) (l r : SearchTree ι α) (v : α) : (node id l v r).left = l := rfl

@[simp] theorem right_node (id : ι) (l r : SearchTree ι α) (v : α) : (node id l v r).right = r := rfl

@[simp] theorem height_nil : (nil : SearchTree ι α).height = 0 := rfl

@[simp] theorem height_node (id : ι) (l r : SearchTree ι α) (v : α) :
    (node id l v r).height = max l.height r.height + 1 := rfl

@[simp] theorem ids_nil : (nil : SearchTree ι α).ids = [] := rfl

@[simp] theorem ids_node (id : ι) (l r : SearchTree ι α) (v : α) : (node id l v r).ids = l.ids ++ id :: r.ids := rfl

@[simp] theorem vals_nil : (nil : SearchTree ι α).vals = [] := rfl

@[simp] theorem vals_node (id : ι) (l r : SearchTree ι α) (v : α) : (node id l v r).vals = l.vals ++ v :: r.vals := rfl

theorem length_ids (t : SearchTree ι α) : t.ids.length = t.vals.length := by
  induction t with
  | nil => rfl
  | node id l v r hl hr => simp [hl, hr]

theorem height_le_length (t : SearchTree ι α) : t.height ≤ t.vals.length := by
  induction t with
  | nil => simp
  | node id l v r hl hr => simp; omega

theorem exists_node_of_height {t : SearchTree ι α} (high : 0 < t.height) : ∃ id l v r, t = node id l v r := by
  cases t with
  | nil => simp at high
  | node id l v r => exact ⟨id, l, v, r, rfl⟩

@[simp] theorem balanced_node {id : ι} {l r : SearchTree ι α} {v : α} :
    (node id l v r).Balanced ↔ l.Balanced ∧ r.Balanced ∧ l.height ≤ r.height + 1 ∧ r.height ≤ l.height + 1 := Iff.rfl

section

variable [LinearOrder α]

theorem ordered_node {id : ι} {l r : SearchTree ι α} {v : α} :
    (node id l v r).Ordered ↔
      l.Ordered ∧ r.Ordered ∧ (∀ x ∈ l.vals, x < v) ∧ ∀ x ∈ r.vals, v < x := by
  unfold Ordered
  simp only [vals_node, List.pairwise_append, List.pairwise_cons, List.mem_cons, forall_eq_or_imp]
  constructor
  · rintro ⟨hl, ⟨hv, hr⟩, across⟩
    exact ⟨hl, hr, fun x mem => (across x mem).1, hv⟩
  · rintro ⟨hl, hr, below, above⟩
    exact ⟨hl, ⟨above, hr⟩, fun x mem => ⟨below x mem, fun y later => (below x mem).trans (above y later)⟩⟩

theorem Ordered.nodup {t : SearchTree ι α} (ordered : t.Ordered) : t.vals.Nodup :=
  ordered.imp fun less => ne_of_lt less

end

/-- Whether a value belongs further out on a side than the node that holds `x`. -/
def beyond [LT α] [DecidableLT α] (side : Side) (val x : α) : Bool :=
  match side with
  | .left => val < x
  | .right => x < val

/-! ### Rotations -/

/-- The node with `near` on a side and `far` on the other. -/
def join (side : Side) (id : ι) (near : SearchTree ι α) (val : α) (far : SearchTree ι α) : SearchTree ι α :=
  match side with
  | .left => node id near val far
  | .right => node id far val near

/-- The child on a side is raised above its parent; a missing child leaves the tree as it is. -/
def raise : Side → SearchTree ι α → SearchTree ι α
  | .left, node y (node x a u b) v c => node x a u (node y b v c)
  | .right, node y c v (node x b u a) => node x (node y c v b) u a
  | _, t => t

/-- The child on a side is exchanged for its own inner child, which is then raised. -/
def raiseInner : Side → SearchTree ι α → SearchTree ι α
  | .left, node y l v r => raise .left (node y (raise .right l) v r)
  | .right, node y l v r => raise .right (node y l v (raise .left r))
  | _, nil => nil

theorem raise_join (side : Side) (x y : ι) (a b c : SearchTree ι α) (u v : α) :
    raise side (join side y (join side x a u b) v c) = join side x a u (join side y b v c) := by
  cases side <;> rfl

theorem raiseInner_join (side : Side) (y : ι) (t c : SearchTree ι α) (v : α) :
    raiseInner side (join side y t v c) = raise side (join side y (raise side.other t) v c) := by
  cases side <;> rfl

@[simp] theorem vals_raise (side : Side) (t : SearchTree ι α) : (t.raise side).vals = t.vals := by
  unfold raise
  split <;> simp

@[simp] theorem vals_raiseInner (side : Side) (t : SearchTree ι α) : (t.raiseInner side).vals = t.vals := by
  unfold raiseInner
  split <;> simp

@[simp] theorem ids_raise (side : Side) (t : SearchTree ι α) : (t.raise side).ids = t.ids := by
  unfold raise
  split <;> simp

@[simp] theorem ids_raiseInner (side : Side) (t : SearchTree ι α) : (t.raiseInner side).ids = t.ids := by
  unfold raiseInner
  split <;> simp

/-! ### A node from either side -/

@[simp] theorem mem_join {side : Side} {i id : ι} {near far : SearchTree ι α} {v : α} :
    i ∈ (join side id near v far).ids ↔ i = id ∨ i ∈ near.ids ∨ i ∈ far.ids := by
  cases side <;> simp [join] <;> tauto

@[simp] theorem length_ids_join {side : Side} {id : ι} {near far : SearchTree ι α} {v : α} :
    (join side id near v far).ids.length = near.ids.length + far.ids.length + 1 := by
  cases side with
  | left => simp [join, Nat.add_assoc]
  | right => simp [join, Nat.add_assoc, Nat.add_comm]

@[simp] theorem length_vals_join {side : Side} {id : ι} {near far : SearchTree ι α} {v : α} :
    (join side id near v far).vals.length = near.vals.length + far.vals.length + 1 := by
  cases side with
  | left => simp [join, Nat.add_assoc]
  | right => simp [join, Nat.add_assoc, Nat.add_comm]

theorem perm_join (side : Side) (id : ι) (near far : SearchTree ι α) (v : α) :
    (join side id near v far).ids.Perm (id :: (near.ids ++ far.ids)) := by
  cases side with
  | left => exact List.perm_middle
  | right => exact List.perm_middle.trans (List.perm_append_comm.cons id)

theorem near_subset (side : Side) (id : ι) (near far : SearchTree ι α) (v : α) :
    id :: near.ids ⊆ (join side id near v far).ids := by
  intro i mem
  exact mem_join.mpr ((List.mem_cons.mp mem).imp_right Or.inl)

theorem nodup_join {s : Side} {id : ι} {near far : SearchTree ι α} {v : α} :
    (join s id near v far).ids.Nodup ↔
      id ∉ near.ids ∧ id ∉ far.ids ∧ near.ids.Nodup ∧ far.ids.Nodup ∧ ∀ i ∈ near.ids, i ∉ far.ids := by
  cases s <;> simp [join, List.nodup_append] <;> grind

@[simp] theorem height_join {side : Side} {id : ι} {near far : SearchTree ι α} {v : α} :
    (join side id near v far).height = max near.height far.height + 1 := by
  cases side with
  | left => rfl
  | right => exact congrArg (· + 1) (Nat.max_comm _ _)

theorem exists_join (side : Side) {t : SearchTree ι α} (present : t ≠ .nil) : ∃ id near v far, t = join side id near v far := by
  cases t with
  | nil => exact (present rfl).elim
  | node id l v r =>
    cases side with
    | left => exact ⟨id, l, v, r, rfl⟩
    | right => exact ⟨id, r, v, l, rfl⟩

theorem join_other (side : Side) (id : ι) (near far : SearchTree ι α) (v : α) :
    join side.other id near v far = join side id far v near := by
  cases side <;> rfl

theorem ids_raise_join (side : Side) (t : SearchTree ι α) (id : ι) (far : SearchTree ι α) (v : α) :
    (join side id (t.raise side.other) v far).ids = (join side id t v far).ids := by
  cases side <;> simp [join]

/-- The element of a list that is furthest out on a side. -/
def outer {β : Type} : Side → List β → Option β
  | .left, xs => xs.head?
  | .right, xs => xs.getLast?

theorem outer_ids_join (side : Side) (id : ι) (near far : SearchTree ι α) (v : α) :
    outer side (join side id near v far).ids = (outer side near.ids).or (some id) := by
  cases side <;> simp [outer, join, List.head?_append, List.getLast?_append, List.getLast?_cons]

theorem outer_vals_join (side : Side) (id : ι) (near far : SearchTree ι α) (v : α) :
    outer side (join side id near v far).vals = (outer side near.vals).or (some v) := by
  cases side <;> simp [outer, join, List.head?_append, List.getLast?_append, List.getLast?_cons]

/-! ### Going through a tree -/

/-- A list in the order that leads to a side. -/
def toward {β : Type} : Side → List β → List β
  | .left, xs => xs.reverse
  | .right, xs => xs

theorem toward_ids_join (side : Side) (id : ι) (near far : SearchTree ι α) (v : α) :
    toward side (join side id near v far).ids = toward side far.ids ++ id :: toward side near.ids := by
  cases side <;> simp [toward, join]

theorem getLast?_toward {β : Type} (side : Side) (xs : List β) : (toward side xs).getLast? = outer side xs := by
  cases side <;> simp [toward, outer]

theorem head?_toward {β : Type} (side : Side) (xs : List β) : (toward side xs).head? = outer side.other xs := by
  cases side <;> simp [toward, outer, Side.other]

/-- Two neighbours in a list with a middle: before it, up to it, from it, or after it. -/
theorem neighbours {β : Type} {far near pre post : List β} {id x y : β} (split : far ++ id :: near = pre ++ x :: y :: post) :
    (∃ rest, far = pre ++ x :: y :: rest) ∨ (far = pre ++ [x] ∧ y = id) ∨ (x = id ∧ near = y :: post) ∨
      ∃ rest, near = rest ++ x :: y :: post := by
  rcases List.append_eq_append_iff.mp split with ⟨as, -, tail⟩ | ⟨bs, whole, tail⟩
  · cases as with
    | nil =>
      obtain ⟨same, after⟩ := List.cons.inj tail
      exact Or.inr (Or.inr (Or.inl ⟨same.symm, after⟩))
    | cons a as => exact Or.inr (Or.inr (Or.inr ⟨as, (List.cons.inj tail).2⟩))
  · match bs with
    | [] =>
      obtain ⟨same, after⟩ := List.cons.inj tail
      exact Or.inr (Or.inr (Or.inl ⟨same, after.symm⟩))
    | [b] =>
      obtain ⟨rfl, after⟩ := List.cons.inj tail
      exact Or.inr (Or.inl ⟨whole, (List.cons.inj after).1⟩)
    | b :: c :: bs =>
      obtain ⟨rfl, after⟩ := List.cons.inj tail
      obtain ⟨rfl, _⟩ := List.cons.inj after
      exact Or.inl ⟨bs, whole⟩

theorem join_induction {P : SearchTree ι α → Prop} (s : Side) (nil : P .nil)
    (node : ∀ id near v far, P near → P far → P (join s id near v far)) (t : SearchTree ι α) : P t := by
  induction t with
  | nil => exact nil
  | node id l v r hl hr =>
    cases s with
    | left => exact node id l v r hl hr
    | right => exact node id r v l hr hl

end SearchTree
