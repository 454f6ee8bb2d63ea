import BandChain.Store.Update
import Mathlib.Data.Finset.Max

/-!
What a `Set` is between two calls: an ordered tree that hangs from the root, every node of it in the
records now and after a flush. Each operation keeps it and answers from the values of the tree.
-/

namespace BandChain.StoredSet

variable {α : Type} [Serial α] {old : Nat → Option (Node α)} {strict : Prop}

/-! ### Programs that read the counters -/

theorem Runs.get {β : Type} {f : StoredSet α → Exec Stop (StoredSet α) β} {h h' : Heap α} {b : β}
    (rest : ∀ s : StoredSet α, s.heap = h → Runs (f s) h b h') : Runs (Exec.get >>= f) h b h' := by
  rintro s same
  exact rest s same s same

theorem setRoot_runs (h : Heap α) (root : Nat) :
    Runs (Exec.modify fun s : StoredSet α => { s with nonceRoot := root }) h () { h with nonceRoot := root } := by
  rintro s rfl
  exact ⟨_, rfl, rfl, rfl, rfl⟩

/-! ### The invariant -/

structure Whole (old : Nat → Option (Node α)) (strict : Prop) [LinearOrder α] (h : Heap α) (t : SearchTree Nat α) : Prop where
  root : h.nonceRoot = t.top
  held : Held old strict h 0 t
  apart : t.ids.Nodup
  known : ∀ id ∈ t.ids, id ≤ h.nonceNode
  fresh : ∀ id, h.nonceNode < id → h.node id = none
  room : h.nonceNode < 2 ^ 64
  ordered : t.Ordered
  counted : h.setSize = t.vals.length

omit [Serial α] in
theorem Held.named {h : Heap α} {p : Nat} {t : SearchTree Nat α} (held : Held old strict h p t) {id : Nat} (mem : id ∈ t.ids) :
    id ≠ 0 := by
  induction t generalizing p with
  | nil => cases mem
  | node i l v r hl hr =>
    obtain ⟨named, _, left, right⟩ := held
    rcases List.mem_append.mp mem with mem | mem
    · exact hl left mem
    · rcases List.mem_cons.mp mem with rfl | mem
      · exact named
      · exact hr right mem

omit [Serial α] in
theorem top_known {t : SearchTree Nat α} {n : Nat} (known : ∀ id ∈ t.ids, id ≤ n) : t.top ≤ n := by
  by_cases empty : t.top = 0
  · omega
  · exact known _ (top_mem empty)

section

variable [LinearOrder α] {h : Heap α} {t : SearchTree Nat α}

omit [Serial α] in
theorem Whole.length_le (whole : Whole old strict h t) : t.vals.length ≤ h.nonceNode := by
  have inside : t.ids ⊆ List.range' 1 h.nonceNode := fun id mem => by
    have named := whole.held.named mem
    have known := whole.known id mem
    simp only [List.mem_range'_1]
    omega
  rw [← SearchTree.length_ids]
  exact (whole.apart.subperm inside).length_le.trans_eq List.length_range'

omit [Serial α] in
theorem Whole.height_le (whole : Whole old strict h t) : t.height ≤ h.nonceNode :=
  t.height_le_length.trans whole.length_le

end

/-! ### Updates -/

section

variable [LinearOrder α] {h : Heap α} {t : SearchTree Nat α}

theorem Whole.insert_runs (whole : Whole old strict h t) {val : α} (room : val ∉ t.vals → h.nonceNode + 1 < 2 ^ 64)
    (free : ¬ t.Stuck val (h.nonceNode + 1)) :
    ∃ h', Runs (insert val) h (decide (val ∉ t.vals)) h' ∧ Whole old strict h' (t.insert val (h.nonceNode + 1)) := by
  obtain ⟨h₁, run, held, _, inserted⟩ := insertNode_runs whole.held whole.apart whole.known
    (whole.fresh _ (Nat.lt_succ_self _)) room whole.ordered free (Nat.lt_succ_of_le whole.height_le)
  have size : h₁.setSize = (t.insert val (h.nonceNode + 1)).vals.length := by
    rw [inserted.setSize, whole.counted, SearchTree.length_insert whole.ordered]
  refine ⟨{ h₁ with nonceRoot := (t.insert val (h.nonceNode + 1)).top }, ?_, ?_⟩
  · unfold insert
    refine Runs.get fun s seen => Runs.rounds.bind ?_
    have root : s.nonceRoot = t.top := (congrArg Heap.nonceRoot seen).trans whole.root
    have before : s.setSize = h.setSize := congrArg Heap.setSize seen
    rw [root, before]
    refine run.bind ((setRoot_runs h₁ _).bind (Runs.get fun s' seen' => ?_))
    have after : s'.setSize = h₁.setSize := congrArg Heap.setSize seen'
    have answer : decide (h.setSize ≠ s'.setSize) = decide (val ∉ t.vals) := by
      rw [after, inserted.setSize]
      by_cases mem : val ∈ t.vals
      · simp [mem]
      · simp [mem]
    rw [answer]
    exact Runs.pure _
  · have ids : ∀ id ∈ (t.insert val (h.nonceNode + 1)).ids, id ∈ t.ids ∨ id = h.nonceNode + 1 ∧ val ∉ t.vals := by
      intro id mem
      by_cases present : val ∈ t.vals
      · rw [SearchTree.ids_insert_of_mem whole.ordered _ present] at mem
        exact Or.inl mem
      · exact (List.mem_cons.mp ((SearchTree.ids_insert val _ t).subset mem)).symm.imp_right fun same => ⟨same, present⟩
    have off : h.nonceNode + 1 ∉ t.ids := fun mem => by
      have known := whole.known _ mem
      omega
    refine ⟨rfl, ?_, ?_, fun id mem => ?_, fun id beyond => ?_, ?_, whole.ordered.insert val _, size⟩
    · have held' : Held old strict h₁ 0 (t.insert val (h.nonceNode + 1)) := by
        split at held <;> exact held
      exact held'.frame fun _ _ => rfl
    · exact SearchTree.nodup_of_subperm (SearchTree.ids_insert val _ t) (List.nodup_cons.mpr ⟨off, whole.apart⟩)
    · change id ≤ h₁.nonceNode
      rw [inserted.nonceNode]
      rcases ids id mem with mem | ⟨rfl, absent⟩
      · exact (whole.known id mem).trans (Nat.le_add_right _ _)
      · simp [absent]
    · change h₁.nonceNode < id at beyond
      rw [inserted.nonceNode] at beyond
      have above : h.nonceNode < id := Nat.lt_of_le_of_lt (Nat.le_add_right _ _) beyond
      have out : id ∉ t.ids := fun mem => absurd (whole.known id mem) (Nat.not_le.mpr above)
      refine (inserted.node id out ?_).trans (whole.fresh id above)
      by_cases present : val ∈ t.vals
      · exact Or.inl present
      · rw [if_neg present] at beyond
        exact Or.inr (Nat.ne_of_gt beyond)
    · change h₁.nonceNode < 2 ^ 64
      rw [inserted.nonceNode]
      split
      · exact whole.room
      · rename_i absent
        exact room absent

theorem Whole.erase_runs (whole : Whole old strict h t) {val : α} (tidy : strict → ¬ t.Splices val) :
    ∃ h', Runs (erase val) h (decide (val ∈ t.vals)) h' ∧ Whole old strict h' (t.erase val) := by
  obtain ⟨h₁, run, held, erased⟩ := deleteNode_runs whole.held whole.apart
    (Nat.lt_succ_of_le whole.height_le) whole.height_le whole.counted.ge tidy
  have size : h₁.setSize = (t.erase val).vals.length := by
    have change := erased.setSize
    rw [whole.counted] at change
    omega
  have fewer := (SearchTree.ids_erase t val).subset
  refine ⟨{ h₁ with nonceRoot := (t.erase val).top }, ?_, ?_⟩
  · unfold erase
    refine Runs.get fun s seen => Runs.rounds.bind ?_
    have root : s.nonceRoot = t.top := (congrArg Heap.nonceRoot seen).trans whole.root
    have before : s.setSize = t.vals.length := (congrArg Heap.setSize seen).trans whole.counted
    rw [root, before]
    refine run.bind ((setRoot_runs h₁ _).bind (Runs.get fun s' seen' => ?_))
    have after : s'.setSize = (t.vals.filter fun x => !decide (x = val)).length := by
      rw [← SearchTree.vals_erase whole.ordered]
      exact (congrArg Heap.setSize seen').trans size
    have shorter := List.length_filter_le (fun x => !decide (x = val)) t.vals
    have answer : decide (t.vals.length ≠ s'.setSize) = decide (val ∈ t.vals) := by
      rw [after, decide_eq_decide, ne_comm, ← (Nat.lt_iff_le_and_ne.trans (and_iff_right shorter)),
        List.length_filter_lt_length_iff_exists]
      simp
    rw [answer]
    exact Runs.pure _
  · refine ⟨rfl, held.frame fun _ _ => rfl, SearchTree.nodup_of_subperm (SearchTree.ids_erase t val) whole.apart, fun id mem => ?_,
      fun id beyond => ?_, ?_, whole.ordered.erase val, size⟩
    · exact (whole.known id (fewer mem)).trans_eq erased.nonceNode.symm
    · have above : h.nonceNode < id := erased.nonceNode ▸ beyond
      exact (erased.node id fun mem => absurd (whole.known id mem) (Nat.not_le.mpr above)).trans (whole.fresh id above)
    · exact erased.nonceNode.trans_lt whole.room

end

/-! ### Queries -/

section

variable [LinearOrder α] {h : Heap α} {t : SearchTree Nat α}

theorem search_runs {p : Nat} (held : Held old strict h p t) (ordered : t.Ordered) (val : α) {fuel : Nat} (enough : t.height < fuel) :
    ∃ id, Runs (search val fuel t.top) h id h ∧
      if val ∈ t.vals then id ≠ 0 ∧ ∃ n, h.node id = some n ∧ n.val = val else id = 0 := by
  induction t generalizing p fuel with
  | nil =>
    obtain ⟨fuel, rfl⟩ : ∃ k, fuel = k + 1 := ⟨fuel - 1, by omega⟩
    exact ⟨0, Runs.pure 0, rfl⟩
  | node id l x r hl hr =>
    obtain ⟨fuel, rfl⟩ : ∃ k, fuel = k + 1 := ⟨fuel - 1, by omega⟩
    simp only [SearchTree.height_node] at enough
    obtain ⟨left, right, _, _⟩ := SearchTree.ordered_node.mp ordered
    obtain ⟨⟨n, opened, _⟩, leftHeld, rightHeld⟩ := Held.open (s := .left) held
    have leftLink : n.left = l.top := opened.near
    have rightLink : n.right = r.top := opened.far
    have start {i : Nat} (run : Runs (if val = x then Pure.pure id else if val < x then search val fuel l.top
        else search val fuel r.top) h i h) : Runs (search val (fuel + 1) id) h i h := by
      rw [search, if_neg opened.named]
      refine (getNode_runs opened.found).bind ?_
      rwa [opened.val, leftLink, rightLink]
    rw [SearchTree.top_node]
    rcases lt_trichotomy val x with less | same | more
    · have enoughLeft : l.height < fuel := by omega
      obtain ⟨i, run, answer⟩ := hl leftHeld left enoughLeft
      refine ⟨i, start ?_, ?_⟩
      · rwa [if_neg less.ne, if_pos less]
      · rwa [if_congr (SearchTree.mem_node_of_lt ordered less) rfl rfl]
    · refine ⟨id, start ?_, ?_⟩
      · rw [if_pos same]
        exact Runs.pure id
      · have mem : val ∈ (SearchTree.node id l x r).vals := by simp [same]
        rw [if_pos mem]
        exact ⟨opened.named, n, opened.found, opened.val.trans same.symm⟩
    · have enoughRight : r.height < fuel := by omega
      obtain ⟨i, run, answer⟩ := hr rightHeld right enoughRight
      refine ⟨i, start ?_, ?_⟩
      · rwa [if_neg more.ne', if_neg more.not_gt]
      · rwa [if_congr (SearchTree.mem_node_of_gt ordered more) rfl rfl]

theorem Whole.find_runs (whole : Whole old strict h t) (val : α) :
    ∃ id, Runs (find val) h id h ∧ if val ∈ t.vals then id ≠ 0 ∧ ∃ n, h.node id = some n ∧ n.val = val else id = 0 := by
  obtain ⟨id, run, answer⟩ := search_runs whole.held whole.ordered val (Nat.lt_succ_of_le whole.height_le)
  refine ⟨id, Runs.rounds.bind (Runs.get fun s seen => ?_), answer⟩
  have root : s.nonceRoot = t.top := (congrArg Heap.nonceRoot seen).trans whole.root
  rwa [root]

theorem Whole.contains_runs (whole : Whole old strict h t) (val : α) :
    Runs (contains val) h (decide (val ∈ t.vals)) h := by
  obtain ⟨id, run, answer⟩ := search_runs whole.held whole.ordered val (Nat.lt_succ_of_le whole.height_le)
  refine Runs.rounds.bind (Runs.get fun s seen => ?_)
  have root : s.nonceRoot = t.top := (congrArg Heap.nonceRoot seen).trans whole.root
  rw [root]
  refine run.bind ?_
  have same : decide (id ≠ 0) = decide (val ∈ t.vals) := by
    by_cases mem : val ∈ t.vals
    · rw [if_pos mem] at answer
      simp [mem, answer.1]
    · rw [if_neg mem] at answer
      simp [mem, answer]
  rw [same]
  exact Runs.pure _

theorem Whole.size_runs (whole : Whole old strict h t) : Runs size h t.vals.length h := by
  rw [← whole.counted]
  refine Runs.get fun s seen => ?_
  rw [← seen]
  rintro s' same
  exact ⟨s', rfl, same, rfl, rfl⟩

theorem Whole.outermost_runs (whole : Whole old strict h t) (present : t ≠ .nil) (side : Side) :
    ∃ id n, Runs (outermost side (h.nonceNode + 1) t.top) h id h ∧ h.node id = some n ∧
      SearchTree.outer side t.ids = some id ∧ SearchTree.outer side t.vals = some n.val :=
  StoredSet.outermost_runs whole.held present (Nat.le_succ_of_le whole.height_le)

theorem Whole.maxValue_runs [Inhabited α] (whole : Whole old strict h t) :
    Runs maxValue h (t.vals.getLast?.getD default) h := by
  refine Runs.get fun s seen => ?_
  have count : s.setSize = t.vals.length := (congrArg Heap.setSize seen).trans whole.counted
  have root : s.nonceRoot = t.top := (congrArg Heap.nonceRoot seen).trans whole.root
  rw [count, root]
  by_cases empty : t = .nil
  · subst empty
    exact Runs.pure _
  · obtain ⟨id, n, run, found, _, last⟩ := whole.outermost_runs empty .right
    have some : t.vals.getLast? = .some n.val := last
    have counted : t.vals.length ≠ 0 := by
      cases t with
      | nil => exact (empty rfl).elim
      | node => simp
    rw [if_neg counted, some]
    exact Runs.rounds.bind (run.bind ((getNode_runs found).bind (Runs.pure _)))

end

/-! ### The nodes that hang from the root -/

inductive Reachable (s : StoredSet α) : Nat → Prop where
  | root (some : s.nonceRoot ≠ 0) : Reachable s s.nonceRoot
  | child {id : Nat} {n : Node α} (side : Side) (above : Reachable s id) (found : s.heap.node id = some n)
    (some : n.child side ≠ 0) : Reachable s (n.child side)

omit [Serial α] in
/-- Each node of a tree holds a subtree, below the node that holds it. -/
theorem Held.at {h : Heap α} {p id : Nat} {t : SearchTree Nat α} (held : Held old strict h p t) (mem : id ∈ t.ids) :
    ∃ q l v r, Held old strict h q (.node id l v r) ∧ (t.Balanced → (SearchTree.node id l v r).Balanced) ∧
      (SearchTree.node id l v r).ids ⊆ t.ids := by
  induction t generalizing p with
  | nil => cases mem
  | node i l v r hl hr =>
    have ⟨_, _, left, right⟩ := held
    rcases List.mem_append.mp mem with mem | mem
    · obtain ⟨q, a, u, b, held', balanced, inside⟩ := hl left mem
      exact ⟨q, a, u, b, held', fun even => balanced even.1, fun x mem => by simp [inside mem]⟩
    · rcases List.mem_cons.mp mem with rfl | mem
      · exact ⟨p, l, v, r, held, fun even => even, List.Subset.refl _⟩
      · obtain ⟨q, a, u, b, held', balanced, inside⟩ := hr right mem
        exact ⟨q, a, u, b, held', fun even => balanced even.2.1, fun x mem => by simp [inside mem]⟩

theorem Whole.mem_of_reachable [LinearOrder α] {s : StoredSet α} {t : SearchTree Nat α} (whole : Whole old strict s.heap t)
    {id : Nat} (reachable : Reachable s id) : id ∈ t.ids := by
  induction reachable with
  | root some =>
    have root : s.nonceRoot = t.top := whole.root
    rw [root] at some ⊢
    exact top_mem some
  | child side above found some ih =>
    obtain ⟨q, l, v, r, held, _, inside⟩ := whole.held.at ih
    obtain ⟨_, ⟨n, found', ⟨left, right, _⟩, _⟩, _⟩ := held
    obtain rfl := Option.some.inj (found.symm.trans found')
    cases side with
    | left =>
      rw [Node.child, left] at some ⊢
      exact inside (by simp [top_mem some])
    | right =>
      rw [Node.child, right] at some ⊢
      exact inside (by simp [top_mem some])

end BandChain.StoredSet
