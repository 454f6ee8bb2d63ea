import BandChain.Store.Set
import BandChain.Store.Shape

/-!
The records of a `Set` as the set sees them, wherever they are kept, and the trees they hold. A
tree is held when each of its nodes has a record with its links, value and height, and a flush
would leave such a record in the storage. What the parent of a record says counts only where
`strict` asks for it.
-/

namespace BandChain.StoredSet

open SearchTree (top join mem_join nodup_join height_join exists_join join_other ids_raise_join)

variable {α : Type}

theorem changed_ne_erased : SetCacheStatus.changed ≠ .erased := by decide

theorem changed_ne_unchanged : SetCacheStatus.changed ≠ .unchanged := by decide

structure Heap (α : Type) where
  nonceNode : Nat
  nonceRoot : Nat
  setSize : Nat
  node : Nat → Option (Node α)

def Heap.set (h : Heap α) (id : Nat) (n : Node α) : Heap α := { h with node := Function.update h.node id (some n) }

@[simp] theorem Heap.set_nonceNode (h : Heap α) (id : Nat) (n : Node α) : (h.set id n).nonceNode = h.nonceNode := rfl

@[simp] theorem Heap.set_nonceRoot (h : Heap α) (id : Nat) (n : Node α) : (h.set id n).nonceRoot = h.nonceRoot := rfl

@[simp] theorem Heap.set_setSize (h : Heap α) (id : Nat) (n : Node α) : (h.set id n).setSize = h.setSize := rfl

@[simp] theorem Heap.set_self (h : Heap α) (id : Nat) (n : Node α) : (h.set id n).node id = some n := by
  simp [Heap.set]

theorem Heap.set_ne (h : Heap α) {id other : Nat} (n : Node α) (ne : other ≠ id) : (h.set id n).node other = h.node other := by
  simp [Heap.set, ne]

section

variable [Serial α]

def stored (s : StoredSet α) (id : Nat) : Option (Node α) :=
  (s.storage (nodeKey s.baseKey id)).bind fun raw => (deserialize raw).toOption

def heap (s : StoredSet α) : Heap α where
  nonceNode := s.nonceNode
  nonceRoot := s.nonceRoot
  setSize := s.setSize
  node id := (s.cache.lookup id).or (s.stored id)

/-- Whatever the cache holds, the program takes a set that looks like `h` to one that looks like `h'`. -/
def Runs {β : Type} (x : Exec Stop (StoredSet α) β) (h : Heap α) (b : β) (h' : Heap α) : Prop :=
  ∀ s, s.heap = h → ∃ s', x s = (.ok b, s') ∧ s'.heap = h' ∧ s'.storage = s.storage ∧ s'.baseKey = s.baseKey

namespace Runs

variable {β γ : Type} {h h' h'' : Heap α}

theorem pure (b : β) : Runs (Pure.pure b) h b h := fun s same => ⟨s, rfl, same, rfl, rfl⟩

theorem bind {x : Exec Stop (StoredSet α) β} {f : β → Exec Stop (StoredSet α) γ} {b : β} {c : γ} (first : Runs x h b h')
    (rest : Runs (f b) h' c h'') : Runs (x >>= f) h c h'' := by
  intro s same
  obtain ⟨t, run, seen, storage, baseKey⟩ := first s same
  obtain ⟨u, run', seen', storage', baseKey'⟩ := rest t seen
  exact ⟨u, (Exec.bind_of_ok run).trans run', seen', storage'.trans storage, baseKey'.trans baseKey⟩

theorem rounds : Runs StoredSet.rounds h (h.nonceNode + 1) h := by
  rintro s rfl
  exact ⟨s, rfl, rfl, rfl, rfl⟩

end Runs

theorem heap_insert (s : StoredSet α) (id : Nat) (n : Node α) :
    heap { s with cache := s.cache.insert id n } = s.heap.set id n := by
  unfold heap Heap.set
  congr
  funext other
  by_cases same : other = id
  · subst same
    simp
  · simp [AList.lookup_insert_ne same, Function.update_of_ne same, stored]

theorem getNode_runs {h : Heap α} {id : Nat} {n : Node α} (found : h.node id = some n) : Runs (getNode id) h n h := by
  rintro s rfl
  unfold getNode
  simp only [heap, Option.or_eq_some_iff] at found
  rcases found with cached | ⟨missing, kept⟩
  · exact ⟨s, by simp [cached]⟩
  · obtain ⟨raw, record, decoded⟩ := Option.bind_eq_some_iff.mp kept
    have value : deserialize raw = Except.ok n := by
      cases result : (deserialize raw : Except Stop (Node α)) with
      | error e => simp [result, Except.toOption] at decoded
      | ok m => simpa [result, Except.toOption] using decoded
    refine ⟨{ s with cache := s.cache.insert id n }, by simp [missing, record, value], ?_, rfl, rfl⟩
    rw [heap_insert]
    unfold Heap.set
    congr
    exact Function.update_eq_self_iff.mpr (by simp [heap, missing, kept])

theorem modifyNode_runs {h : Heap α} {id : Nat} {n : Node α} (f : Node α → Node α) (found : h.node id = some n) :
    Runs (modifyNode id f) h () (h.set id (f n)) := by
  refine (getNode_runs found).bind ?_
  rintro s rfl
  exact ⟨_, rfl, heap_insert s id (f n), rfl, rfl⟩

end

/-! ### Heights -/

/-- The height that is read through a link. -/
inductive Tall (h : Heap α) : Nat → Nat → Prop where
  | missing : Tall h 0 0
  | found {id : Nat} {n : Node α} (named : id ≠ 0) (found : h.node id = some n) : Tall h id n.height

theorem Tall.frame {h h' : Heap α} {id height : Nat} (tall : Tall h id height) (same : h'.node id = h.node id) : Tall h' id height := by
  cases tall with
  | missing => exact .missing
  | found named found => exact .found named (same.trans found)

theorem Tall.set {h : Heap α} {id height other : Nat} (tall : Tall h id height) (n : Node α) (ne : id ≠ other) :
    Tall (h.set other n) id height :=
  tall.frame (h.set_ne n ne)

section

variable [Serial α] {h : Heap α} {id : Nat} {n : Node α}

theorem Tall.runs {height : Nat} (tall : Tall h id height) : Runs (getHeight id) h height h := by
  cases tall with
  | missing => exact Runs.pure 0
  | found named found =>
    rw [getHeight, if_neg named]
    exact (getNode_runs found).bind (Runs.pure _)

/-- The status says that the height is to be saved. -/
theorem updateHeight_runs {s : Side} {near far : Nat} (found : h.node id = some n) (nearTall : Tall h (n.child s) near)
    (farTall : Tall h (n.child s.other) far) :
    Runs (updateHeight id) h () (h.set id { n with height := max near far + 1, status := .changed }) := by
  have run (f : Nat → Nat → Node α → Node α) {a b : Nat} (left : Tall h n.left a) (right : Tall h n.right b) :
      Runs (do
        let node ← getNode id
        let leftHeight ← getHeight node.left
        let rightHeight ← getHeight node.right
        modifyNode id (f leftHeight rightHeight)) h () (h.set id (f a b n)) :=
    (getNode_runs found).bind (left.runs.bind (right.runs.bind (modifyNode_runs (f a b) found)))
  cases s with
  | left => exact run _ nearTall farTall
  | right =>
    rw [max_comm]
    exact run _ farTall nearTall

theorem getBalance_runs {left right : Nat} (named : id ≠ 0) (found : h.node id = some n) (leftTall : Tall h n.left left)
    (rightTall : Tall h n.right right) :
    Runs (getBalance id) h (if right ≤ left then (true, left - right) else (false, right - left)) h := by
  rw [getBalance, if_neg named]
  refine (getNode_runs found).bind (leftTall.runs.bind (rightTall.runs.bind ?_))
  split <;> exact Runs.pure _

end

/-! ### Rotations of records -/

@[simp] theorem child_withChild (side : Side) (id : Nat) (n : Node α) : (n.withChild side id).child side = id := by
  cases side <;> rfl

@[simp] theorem child_withChild_other (side : Side) (id : Nat) (n : Node α) :
    (n.withChild side id).child side.other = n.child side.other := by
  cases side <;> rfl

@[simp] theorem child_other_withChild (side : Side) (id : Nat) (n : Node α) :
    (n.withChild side.other id).child side = n.child side := by
  cases side <;> rfl

@[simp] theorem child_other_withChild_other (side : Side) (id : Nat) (n : Node α) :
    (n.withChild side.other id).child side.other = id := by
  cases side <;> rfl

@[simp] theorem withChild_val (side : Side) (id : Nat) (n : Node α) : (n.withChild side id).val = n.val := by
  cases side <;> rfl

@[simp] theorem withChild_parent (side : Side) (id : Nat) (n : Node α) : (n.withChild side id).parent = n.parent := by
  cases side <;> rfl

@[simp] theorem withChild_status (side : Side) (id : Nat) (n : Node α) : (n.withChild side id).status = n.status := by
  cases side <;> rfl

/-- The node `n` at `y` goes below its child `m` at `x`, and takes over the child at `inner`. -/
structure Rotated (side : Side) (x y inner : Nat) (n m : Node α) (a b c : Nat) (h h' : Heap α) : Prop where
  lowered : h'.node y = some { n.withChild side inner with parent := x, height := max b c + 1, status := .changed }
  raised : h'.node x =
    some { m.withChild side.other y with parent := n.parent, height := max a (max b c + 1) + 1, status := .changed }
  adopted : inner ≠ 0 → ∀ w, h.node inner = some w → h'.node inner = some { w with parent := y, status := .changed }
  others : ∀ id, id ≠ x → id ≠ y → (id = inner → inner = 0) → h'.node id = h.node id
  nonceNode : h'.nonceNode = h.nonceNode
  nonceRoot : h'.nonceRoot = h.nonceRoot
  setSize : h'.setSize = h.setSize

section

variable [Serial α]

theorem adopt_adopts {h : Heap α} (parent : Nat) {child height : Nat} (tall : Tall h child height) :
    ∃ h', Runs (adopt parent child) h () h' ∧ Tall h' child height ∧
      (child ≠ 0 → ∀ w, h.node child = some w → h'.node child = some { w with parent, status := .changed }) ∧
      (∀ id, (id = child → child = 0) → h'.node id = h.node id) ∧
      h'.nonceNode = h.nonceNode ∧ h'.nonceRoot = h.nonceRoot ∧ h'.setSize = h.setSize := by
  cases tall with
  | missing => exact ⟨h, Runs.pure (), .missing, fun some => (some rfl).elim, fun _ _ => rfl, rfl, rfl, rfl⟩
  | @found _ n named found =>
    rw [adopt, if_neg named]
    refine ⟨_, modifyNode_runs _ found, ?_, fun _ w same => ?_, fun id ne => ?_, rfl, rfl, rfl⟩
    · exact Tall.found (n := { n with parent, status := .changed }) named (h.set_self child _)
    · obtain rfl := Option.some.inj (found.symm.trans same)
      exact h.set_self child _
    · exact h.set_ne _ fun same => named (ne same)

theorem rotate_rotates {side : Side} {h : Heap α} {x y inner a b c : Nat} {n m : Node α} (named : y ≠ 0) (foundY : h.node y = some n)
    (foundX : h.node x = some m) (apart : y ≠ x) (near : n.child side = x) (innerLink : m.child side.other = inner)
    (offInner : inner ≠ x ∧ inner ≠ y) (offOuter : m.child side ≠ x ∧ m.child side ≠ y ∧ (m.child side = inner → inner = 0))
    (offFar : n.child side.other ≠ x ∧ n.child side.other ≠ y ∧ (n.child side.other = inner → inner = 0))
    (tallA : Tall h (m.child side) a) (tallB : Tall h inner b) (tallC : Tall h (n.child side.other) c) :
    ∃ h', Runs (rotate side y) h x h' ∧ Rotated side x y inner n m a b c h h' := by
  -- The links of the two nodes are exchanged, and their parents with them.
  let n' : Node α := { n.withChild side inner with parent := x }
  let m' : Node α := { m.withChild side.other y with parent := n.parent }
  let linked := (((h.set y (n.withChild side inner)).set x (m.withChild side.other y)).set x m').set y n'
  have atY : linked.node y = some n' := Heap.set_self _ _ _
  have atX : linked.node x = some m' := (Heap.set_ne _ _ apart.symm).trans (Heap.set_self _ _ _)
  have elsewhere (i : Nat) (notX : i ≠ x) (notY : i ≠ y) : linked.node i = h.node i := by
    simp only [linked, Heap.set_ne _ _ notX, Heap.set_ne _ _ notY]
  have linkedB : Tall linked inner b := tallB.frame (elsewhere inner offInner.1 offInner.2)
  -- The inner child changes its parent.
  obtain ⟨adopted, adoptRuns, adoptedB, taken, frame, nonceNode, nonceRoot, setSize⟩ := adopt_adopts y linkedB
  have atY' : adopted.node y = some n' := (frame y fun same => (offInner.2 same.symm).elim).trans atY
  have atX' : adopted.node x = some m' := (frame x fun same => (offInner.1 same.symm).elim).trans atX
  have adoptedA : Tall adopted (m.child side) a :=
    tallA.frame ((frame _ offOuter.2.2).trans (elsewhere _ offOuter.1 offOuter.2.1))
  have adoptedC : Tall adopted (n.child side.other) c :=
    tallC.frame ((frame _ offFar.2.2).trans (elsewhere _ offFar.1 offFar.2.1))
  -- The heights follow, the lower node first.
  have nearY : n'.child side = inner := by cases side <;> rfl
  have farY : n'.child side.other = n.child side.other := by cases side <;> rfl
  have nearX : m'.child side = m.child side := by cases side <;> rfl
  have farX : m'.child side.other = y := by cases side <;> rfl
  let low : Node α := { n' with height := max b c + 1, status := .changed }
  have lowRuns : Runs (updateHeight y) adopted () (adopted.set y low) :=
    updateHeight_runs atY' (nearY ▸ adoptedB) (farY ▸ adoptedC)
  have atX'' : (adopted.set y low).node x = some m' := (Heap.set_ne _ _ apart.symm).trans atX'
  have tallY : Tall (adopted.set y low) y (max b c + 1) := Tall.found (n := low) named (Heap.set_self _ _ _)
  have nearTall : Tall (adopted.set y low) (m'.child side) a := by
    rw [nearX]
    exact adoptedA.set low offOuter.2.1
  have farTall : Tall (adopted.set y low) (m'.child side.other) (max b c + 1) := by
    rw [farX]
    exact tallY
  have topRuns := updateHeight_runs atX'' nearTall farTall
  refine ⟨_, ?_, (Heap.set_ne _ _ apart).trans (Heap.set_self _ _ _), Heap.set_self _ _ _, fun some w found => ?_,
    fun i notX notY notInner => ?_, nonceNode, nonceRoot, setSize⟩
  · unfold rotate
    refine (getNode_runs foundY).bind ?_
    simp only [near]
    refine (getNode_runs foundX).bind ?_
    simp only [innerLink]
    refine (modifyNode_runs _ foundY).bind ?_
    refine (modifyNode_runs _ ((Heap.set_ne _ _ apart.symm).trans foundX)).bind ?_
    refine (getNode_runs ((Heap.set_ne _ _ apart).trans (Heap.set_self _ _ _))).bind ?_
    refine (modifyNode_runs _ (Heap.set_self _ _ _)).bind ?_
    refine (modifyNode_runs _ (((Heap.set_ne _ _ apart).trans (Heap.set_ne _ _ apart)).trans (Heap.set_self _ _ _))).bind ?_
    simp only [withChild_parent]
    exact adoptRuns.bind (lowRuns.bind (topRuns.bind (Runs.pure x)))
  · refine (Heap.set_ne _ _ offInner.1).trans ((Heap.set_ne _ _ offInner.2).trans (taken some w ?_))
    exact (elsewhere inner offInner.1 offInner.2).trans found
  · exact (Heap.set_ne _ _ notX).trans ((Heap.set_ne _ _ notY).trans ((frame i notInner).trans (elsewhere i notX notY)))

end

/-! ### Trees in the heap -/

def Node.Fits (strict : Prop) (left : Nat) (val : α) (right height parent : Nat) (n : Node α) : Prop :=
  n.left = left ∧ n.right = right ∧ n.val = val ∧ n.height = height ∧ (strict → n.parent = parent)

variable (old : Nat → Option (Node α)) (strict : Prop)

/-- A record that is as `P` says, now and after a flush over the records `old`. -/
def Kept (id : Nat) (P : Node α → Prop) (n : Node α) : Prop :=
  P n ∧ n.status ≠ .erased ∧ (n.status = .unchanged → ∃ m, old id = some m ∧ P m)

def Held (h : Heap α) : Nat → SearchTree Nat α → Prop
  | _, .nil => True
  | parent, .node id l v r =>
    id ≠ 0 ∧ (∃ n, h.node id = some n ∧ Kept old id (Node.Fits strict l.top v r.top (max l.height r.height + 1) parent) n) ∧
      Held h id l ∧ Held h id r

variable {old strict}

theorem Held.frame {h h' : Heap α} {parent : Nat} {t : SearchTree Nat α} (held : Held old strict h parent t)
    (same : ∀ id ∈ t.ids, h'.node id = h.node id) : Held old strict h' parent t := by
  induction t generalizing parent with
  | nil => trivial
  | node id l v r hl hr =>
    obtain ⟨named, ⟨n, found, kept⟩, left, right⟩ := held
    refine ⟨named, ⟨n, (same id (by simp)).trans found, kept⟩, hl left ?_, hr right ?_⟩
    · exact fun i mem => same i (by simp [mem])
    · exact fun i mem => same i (by simp [mem])

theorem Held.set {h : Heap α} {parent : Nat} {t : SearchTree Nat α} (held : Held old strict h parent t) {id : Nat}
    (n : Node α) (apart : id ∉ t.ids) : Held old strict (h.set id n) parent t :=
  held.frame fun _ mem => h.set_ne n fun same => apart (same ▸ mem)

theorem Held.top_eq_zero {h : Heap α} {parent : Nat} {t : SearchTree Nat α} (held : Held old strict h parent t) :
    t.top = 0 ↔ t = .nil := by
  cases t with
  | nil => simp
  | node id l v r => simp [held.1]

theorem Held.tall {h : Heap α} {parent : Nat} {t : SearchTree Nat α} (held : Held old strict h parent t) : Tall h t.top t.height := by
  cases t with
  | nil => exact .missing
  | node id l v r =>
    obtain ⟨named, ⟨n, found, ⟨_, _, _, height, _⟩, _⟩, _⟩ := held
    rw [SearchTree.top_node, SearchTree.height_node, ← height]
    exact .found named found

/-! ### Nodes and their subtrees, from either side -/

theorem fits_join (side : Side) {near far height p : Nat} {v : α} :
    (fun n : Node α => n.child side = near ∧ n.child side.other = far ∧ n.val = v ∧ n.height = height ∧ (strict → n.parent = p)) =
      match side with
      | .left => Node.Fits strict near v far height p
      | .right => Node.Fits strict far v near height p := by
  funext n
  cases side <;> simp only [Node.child, Side.other, Node.Fits, eq_iff_iff]
  tauto

theorem held_join {side : Side} {h : Heap α} {p id : Nat} {near far : SearchTree Nat α} {v : α} :
    Held old strict h p (join side id near v far) ↔
      id ≠ 0 ∧
      (∃ n, h.node id = some n ∧ Kept old id (fun n => n.child side = near.top ∧ n.child side.other = far.top ∧ n.val = v ∧
        n.height = max near.height far.height + 1 ∧ (strict → n.parent = p)) n) ∧
      Held old strict h id near ∧ Held old strict h id far := by
  rw [fits_join side]
  cases side with
  | left => rfl
  | right => simp only [join, Held, max_comm near.height, and_comm (a := Held old strict h id near)]

@[simp] theorem top_join {side : Side} {id : Nat} {near far : SearchTree Nat α} {v : α} :
    (join side id near v far).top = id := by
  cases side <;> rfl

/-! ### Rotations -/

/-- Only nodes among `ids` have changed. -/
structure Frame (ids : List Nat) (h h' : Heap α) : Prop where
  nonceNode : h'.nonceNode = h.nonceNode
  nonceRoot : h'.nonceRoot = h.nonceRoot
  setSize : h'.setSize = h.setSize
  node : ∀ id, id ∉ ids → h'.node id = h.node id

theorem Frame.refl (ids : List Nat) (h : Heap α) : Frame ids h h := ⟨rfl, rfl, rfl, fun _ _ => rfl⟩

theorem Frame.trans {ids : List Nat} {h h' h'' : Heap α} (first : Frame ids h h') (then_ : Frame ids h' h'') : Frame ids h h'' :=
  ⟨then_.nonceNode.trans first.nonceNode, then_.nonceRoot.trans first.nonceRoot, then_.setSize.trans first.setSize,
    fun id out => (then_.node id out).trans (first.node id out)⟩

theorem Frame.mono {ids more : List Nat} {h h' : Heap α} (frame : Frame ids h h') (sub : ids ⊆ more) : Frame more h h' :=
  ⟨frame.nonceNode, frame.nonceRoot, frame.setSize, fun id out => frame.node id fun mem => out (sub mem)⟩

theorem Frame.set (h : Heap α) {ids : List Nat} {id : Nat} (n : Node α) (mem : id ∈ ids) : Frame ids h (h.set id n) :=
  ⟨rfl, rfl, rfl, fun _ out => h.set_ne n fun same => out (same ▸ mem)⟩

theorem top_mem {t : SearchTree Nat α} (some : t.top ≠ 0) : t.top ∈ t.ids := by
  cases t with
  | nil => exact (some rfl).elim
  | node id l v r => simp

theorem top_ne {t : SearchTree Nat α} {id : Nat} (named : id ≠ 0) (out : id ∉ t.ids) : t.top ≠ id := by
  rintro rfl
  exact out (top_mem named)

theorem top_apart {t : SearchTree Nat α} {ids : List Nat} (across : ∀ i ∈ ids, i ∉ t.ids) {id : Nat} (mem : id ∈ ids)
    (same : id = t.top) : t.top = 0 := by
  by_contra some
  exact across id mem (same ▸ top_mem some)

theorem tops_apart {t r : SearchTree Nat α} (across : ∀ i ∈ t.ids, i ∉ r.ids) (same : t.top = r.top) : r.top = 0 := by
  by_cases empty : t.top = 0
  · exact same.symm.trans empty
  · exact top_apart across (top_mem empty) same

section

variable {side : Side} {x y : Nat} {a b c : SearchTree Nat α} {u v : α} {n m : Node α} {ha hb hc : Nat} {h h' : Heap α}

/-- Subtrees apart from the two nodes and from the one that is handed over stay as they are. -/
theorem Rotated.outside (rotated : Rotated side x y b.top n m ha hb hc h h') {t : SearchTree Nat α} (offX : x ∉ t.ids) (offY : y ∉ t.ids)
    (across : ∀ i ∈ t.ids, i ∉ b.ids) : ∀ i ∈ t.ids, h'.node i = h.node i :=
  fun i mem => rotated.others i (ne_of_mem_of_not_mem mem offX) (ne_of_mem_of_not_mem mem offY) (top_apart across mem)

theorem Rotated.frame (rotated : Rotated side x y b.top n m ha hb hc h h') :
    Frame (join side y (join side x a u b) v c).ids h h' := by
  refine ⟨rotated.nonceNode, rotated.nonceRoot, rotated.setSize, fun i out => ?_⟩
  simp only [mem_join, not_or] at out
  obtain ⟨notY, ⟨notX, _, notB⟩, _⟩ := out
  refine rotated.others i notX notY fun same => ?_
  by_contra some
  exact notB (same ▸ top_mem some)

theorem Held.adopted {p q : Nat} {t : SearchTree Nat α} (held : Held old strict h q t) (apart : t.ids.Nodup)
    (adopted : t.top ≠ 0 → ∀ w, h.node t.top = some w → h'.node t.top = some { w with parent := p, status := .changed })
    (others : ∀ i ∈ t.ids, i ≠ t.top → h'.node i = h.node i) : Held old strict h' p t := by
  cases t with
  | nil => trivial
  | node id l v r =>
    obtain ⟨named, ⟨n, found, ⟨left, right, val, height, _⟩, _⟩, hl, hr⟩ := held
    obtain ⟨offLeft, offRight, -⟩ := (nodup_join (s := .left)).mp apart
    refine ⟨named, ⟨_, adopted named n found, ⟨left, right, val, height, fun _ => rfl⟩, nofun, nofun⟩, hl.frame fun i mem => ?_,
      hr.frame fun i mem => ?_⟩
    · exact others i (by simp [mem]) (ne_of_mem_of_not_mem mem offLeft)
    · exact others i (by simp [mem]) (ne_of_mem_of_not_mem mem offRight)

end

section

variable [Serial α]

/-- A rotation may start from a node whose height is out of date and from a child whose parent is. -/
theorem rotate_runs {side : Side} {h : Heap α} {p q x y : Nat} {a b c : SearchTree Nat α} {u v : α} {n : Node α} (named : y ≠ 0)
    (found : h.node y = some n) (near : n.child side = x) (far : n.child side.other = c.top) (val : n.val = v)
    (parent : strict → n.parent = p) (nearHeld : Held old strict h q (join side x a u b)) (farHeld : Held old strict h y c)
    (apart : (join side y (join side x a u b) v c).ids.Nodup) :
    ∃ h', Runs (rotate side y) h x h' ∧ Held old strict h' p (join side x a u (join side y b v c)) ∧
      Frame (join side y (join side x a u b) v c).ids h h' := by
  obtain ⟨yNear, yc, inner, _, across⟩ := nodup_join.mp apart
  obtain ⟨xa, xb, _, apartB, ab⟩ := nodup_join.mp inner
  simp only [mem_join, not_or, forall_eq_or_imp] at yNear across
  obtain ⟨yx, ya, yb⟩ := yNear
  have cb (i : Nat) (mem : i ∈ c.ids) : i ∉ b.ids := fun inB => across.2 i (Or.inr inB) mem
  obtain ⟨xNamed, ⟨m, foundX, ⟨mNear, mFar, mVal, _, _⟩, _⟩, heldA, heldB⟩ := held_join.mp nearHeld
  obtain ⟨h', run, rotated⟩ := rotate_rotates named found foundX yx near mFar ⟨top_ne xNamed xb, top_ne named yb⟩
    (mNear ▸ ⟨top_ne xNamed xa, top_ne named ya, tops_apart ab⟩) (far ▸ ⟨top_ne xNamed across.1, top_ne named yc, tops_apart cb⟩)
    (mNear ▸ heldA.tall) heldB.tall (far ▸ farHeld.tall)
  refine ⟨h', run, ?_, rotated.frame⟩
  have heldLow : Held old strict h' x (join side y b v c) := by
    refine held_join.mpr ⟨named, ⟨_, rotated.lowered, ⟨?_, changed_ne_erased, fun kept => absurd kept changed_ne_unchanged⟩⟩, ?_, farHeld.frame (rotated.outside across.1 yc cb)⟩
    · refine ⟨?_, ?_, (withChild_val _ _ _).trans val, rfl, fun _ => rfl⟩
      · exact child_withChild side b.top n
      · exact (child_withChild_other side b.top n).trans far
    · exact heldB.adopted apartB rotated.adopted fun i mem ne =>
        rotated.others i (ne_of_mem_of_not_mem mem xb) (ne_of_mem_of_not_mem mem yb) fun same => (ne same).elim
  refine held_join.mpr ⟨xNamed, ⟨_, rotated.raised, ⟨?_, changed_ne_erased, fun kept => absurd kept changed_ne_unchanged⟩⟩, heldA.frame (rotated.outside xa ya ab), heldLow⟩
  refine ⟨?_, ?_, (withChild_val _ _ _).trans mVal, by rw [height_join], parent⟩
  · exact (child_other_withChild side y m).trans mNear
  · exact (child_other_withChild_other side y m).trans top_join.symm

/-- A node whose record has its links, value and parent, but perhaps not its height. -/
structure Open (strict : Prop) (h : Heap α) (p id : Nat) (side : Side) (near : SearchTree Nat α) (v : α) (far : SearchTree Nat α)
    (n : Node α) : Prop where
  named : id ≠ 0
  found : h.node id = some n
  near : n.child side = near.top
  far : n.child side.other = far.top
  val : n.val = v
  parent : strict → n.parent = p

omit [Serial α] in
theorem Open.swap {s : Side} {h : Heap α} {p id : Nat} {near far : SearchTree Nat α} {v : α} {n : Node α}
    (opened : Open strict h p id s near v far n) : Open strict h p id s.other far v near n := by
  refine ⟨opened.named, opened.found, opened.far, ?_, opened.val, opened.parent⟩
  cases s <;> exact opened.near

theorem Open.updateHeight_runs {s : Side} {h : Heap α} {p id a b : Nat} {near far : SearchTree Nat α} {v : α} {n : Node α}
    (opened : Open strict h p id s near v far n) (nearTall : Tall h near.top a) (farTall : Tall h far.top b) :
    Runs (updateHeight id) h () (h.set id { n with height := max a b + 1, status := .changed }) := by
  rw [← opened.near] at nearTall
  rw [← opened.far] at farTall
  exact StoredSet.updateHeight_runs opened.found nearTall farTall

theorem Open.getBalance_runs {h : Heap α} {p id a b : Nat} {l r : SearchTree Nat α} {v : α} {n : Node α}
    (opened : Open strict h p id .left l v r n) (leftTall : Tall h l.top a) (rightTall : Tall h r.top b) :
    Runs (getBalance id) h (if b ≤ a then (true, a - b) else (false, b - a)) h := by
  rw [← opened.near] at leftTall
  rw [← opened.far] at rightTall
  exact StoredSet.getBalance_runs opened.named opened.found leftTall rightTall

/-- The two cases in which `insertNode` and `deleteNode` rotate. -/
theorem Open.getBalance_cases {h : Heap α} {p id a b : Nat} {l r : SearchTree Nat α} {v : α} {n : Node α}
    (opened : Open strict h p id .left l v r n) (leftTall : Tall h l.top a) (rightTall : Tall h r.top b) :
    ∃ heavyLeft diff, Runs (getBalance id) h (heavyLeft, diff) h ∧ (heavyLeft = true ∧ 1 < diff ↔ b + 1 < a) ∧
      (¬ heavyLeft = true ∧ 1 < diff ↔ a + 1 < b) := by
  have run := opened.getBalance_runs leftTall rightTall
  split at run
  · exact ⟨true, a - b, run, by simp; omega, by simp; omega⟩
  · exact ⟨false, b - a, run, by simp; omega, by simp; omega⟩

theorem raise_runs {s : Side} {h : Heap α} {p q id : Nat} {near far : SearchTree Nat α} {v : α} {n : Node α}
    (opened : Open strict h p id s near v far n) (present : near ≠ .nil) (nearHeld : Held old strict h q near)
    (farHeld : Held old strict h id far) (apart : (join s id near v far).ids.Nodup) :
    ∃ h', Runs (rotate s id) h ((join s id near v far).raise s).top h' ∧
      Held old strict h' p ((join s id near v far).raise s) ∧ Frame (join s id near v far).ids h h' := by
  obtain ⟨x, a, u, b, rfl⟩ := exists_join s present
  rw [SearchTree.raise_join, top_join]
  exact rotate_runs opened.named opened.found (opened.near.trans top_join) opened.far opened.val opened.parent nearHeld farHeld apart

theorem raiseInner_runs {s : Side} {h : Heap α} {p q id : Nat} {near far : SearchTree Nat α} {v : α} {n : Node α}
    (opened : Open strict h p id s near v far n) {y : Nat} {a b : SearchTree Nat α} {u : α}
    (shape : near = join s y a u b) (inner : b ≠ .nil) (nearHeld : Held old strict h q near)
    (farHeld : Held old strict h id far) (apart : (join s id near v far).ids.Nodup) :
    ∃ h', Runs (rotateTwice s id) h ((join s id near v far).raiseInner s).top h' ∧
      Held old strict h' p ((join s id near v far).raiseInner s) ∧ Frame (join s id near v far).ids h h' := by
  subst shape
  obtain ⟨offNear, offFar, nearApart, farApart, across⟩ := nodup_join.mp apart
  obtain ⟨yNamed, ⟨m, foundY, ⟨mNear, mFar, mVal, _, mParent⟩, _⟩, heldA, heldB⟩ := held_join.mp nearHeld
  -- The child is opened from its inner s and rotated below the node.
  have child : Open strict h q y s.other b u a m := by
    refine ⟨yNamed, foundY, mFar, ?_, mVal, mParent⟩
    rw [← mNear]
    cases s <;> rfl
  obtain ⟨h₁, run₁, held₁, frame₁⟩ := raise_runs child inner heldB heldA (by rwa [join_other])
  rw [join_other] at run₁ held₁ frame₁
  -- Its new root takes its place.
  have found₁ : h₁.node id = some n := (frame₁.node id offNear).trans opened.found
  let n₂ : Node α := n.withChild s ((join s y a u b).raise s.other).top
  have opened₂ : Open strict (h₁.set id n₂) p id s ((join s y a u b).raise s.other) v far n₂ :=
    ⟨opened.named, Heap.set_self _ _ _, child_withChild _ _ _, (child_withChild_other _ _ _).trans opened.far,
      (withChild_val _ _ _).trans opened.val, fun asked => (withChild_parent _ _ _).trans (opened.parent asked)⟩
  have present : (join s y a u b).raise s.other ≠ .nil := by
    intro empty
    have same := SearchTree.ids_raise s.other (join s y a u b)
    rw [empty] at same
    have mem : y ∈ (join s y a u b).ids := mem_join.mpr (Or.inl rfl)
    rw [← same] at mem
    cases mem
  have near₂ := held₁.set n₂ (by rwa [SearchTree.ids_raise])
  have far₂ : Held old strict (h₁.set id n₂) id far :=
    (farHeld.frame fun i mem => frame₁.node i fun inNear => across i inNear mem).set n₂ offFar
  obtain ⟨h₃, run₃, held₃, frame₃⟩ := raise_runs opened₂ present near₂ far₂ (by rwa [ids_raise_join])
  rw [SearchTree.raiseInner_join]
  rw [ids_raise_join] at frame₃
  refine ⟨h₃, ?_, held₃, (frame₁.mono ?_).trans ((Frame.set h₁ n₂ (by simp)).trans frame₃)⟩
  · unfold rotateTwice
    refine (getNode_runs opened.found).bind ?_
    simp only [opened.near, top_join]
    exact run₁.bind ((modifyNode_runs _ found₁).bind run₃)
  · intro i mem
    exact mem_join.mpr (Or.inr (Or.inl mem))

end

end BandChain.StoredSet
