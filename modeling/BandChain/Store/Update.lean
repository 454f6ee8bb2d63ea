import BandChain.Store.Heap

/-!
Insertion and deletion in the records of a `Set` do to the tree that the records hold what
`SearchTree.insert` and `SearchTree.erase` say.
-/

namespace BandChain.StoredSet

open SearchTree (top join mem_join nodup_join height_join exists_join join_other length_vals_join)

variable {α : Type} [Serial α] {old : Nat → Option (Node α)} {strict : Prop}

omit [Serial α] in
/-- The parent of a tree matters only where parents are asked for, and not for no tree. -/
theorem Held.reparent {h : Heap α} {p q : Nat} {t : SearchTree Nat α} (held : Held old strict h q t)
    (ready : strict → t = .nil ∨ q = p) : Held old strict h p t := by
  cases t with
  | nil => trivial
  | node id l v r =>
    have parent (asked : strict) : q = p := (ready asked).resolve_left nofun
    have fits {m : Node α} {height : Nat} (fit : Node.Fits strict l.top v r.top height q m) :
        Node.Fits strict l.top v r.top height p m :=
      ⟨fit.1, fit.2.1, fit.2.2.1, fit.2.2.2.1, fun asked => (fit.2.2.2.2 asked).trans (parent asked)⟩
    obtain ⟨named, ⟨n, found, fit, live, saved⟩, hl, hr⟩ := held
    refine ⟨named, ⟨n, found, fits fit, live, fun same => ?_⟩, hl, hr⟩
    obtain ⟨m, record, fit'⟩ := saved same
    exact ⟨m, record, fits fit'⟩

theorem updateParent_runs {h : Heap α} {p q : Nat} {t : SearchTree Nat α} (held : Held old strict h q t)
    (ready : q = p ∨ ∃ n, h.node t.top = some n ∧ n.status = .changed) (apart : t.ids.Nodup) :
    ∃ h', Runs (updateParent p t.top) h () h' ∧ Held old strict h' p t ∧ Frame t.ids h h' := by
  cases t with
  | nil => exact ⟨h, Runs.pure (), trivial, Frame.refl _ h⟩
  | node id l v r =>
    obtain ⟨named, ⟨n, found, ⟨left, right, val, height, parent⟩, live, saved⟩, hl, hr⟩ := held
    obtain ⟨offLeft, offRight, -⟩ := (nodup_join (s := .left)).mp apart
    rw [updateParent, SearchTree.top_node, if_neg named]
    refine ⟨_, modifyNode_runs _ found, ⟨named, ⟨_, h.set_self id _, ⟨left, right, val, height, fun _ => rfl⟩, live, ?_⟩,
      hl.set _ offLeft, hr.set _ offRight⟩, Frame.set h _ (by simp)⟩
    intro same
    rcases ready with rfl | ⟨m, found', changed⟩
    · exact saved same
    · obtain rfl : n = m := Option.some.inj (found.symm.trans found')
      cases changed.symm.trans same

omit [Serial α] in
theorem Held.open {s : Side} {h : Heap α} {p id : Nat} {near far : SearchTree Nat α} {v : α}
    (held : Held old strict h p (join s id near v far)) :
    (∃ n, Open strict h p id s near v far n ∧ n.status ≠ .erased) ∧ Held old strict h id near ∧ Held old strict h id far := by
  obtain ⟨named, ⟨n, found, ⟨nearLink, farLink, val, _, parent⟩, live, _⟩, hn, hf⟩ := held_join.mp held
  exact ⟨⟨n, ⟨named, found, nearLink, farLink, val, parent⟩, live⟩, hn, hf⟩

/-- A subtree takes the place of the one it was made from. -/
theorem replace_runs {side : Side} {h : Heap α} {p q id : Nat} {near near' far : SearchTree Nat α} {v : α} {n : Node α}
    (opened : Open strict h p id side near v far n) (near'Held : Held old strict h q near')
    (ready : q = id ∨ ∃ m, h.node near'.top = some m ∧ m.status = .changed) (apart : (join side id near' v far).ids.Nodup) :
    ∃ h', Runs (modifyNode id (Node.withChild side near'.top)) h () (h.set id (n.withChild side near'.top)) ∧
      Runs (updateParent id near'.top) (h.set id (n.withChild side near'.top)) () h' ∧
      Open strict h' p id side near' v far (n.withChild side near'.top) ∧ Held old strict h' id near' ∧
      Frame (id :: near'.ids) h h' := by
  obtain ⟨offNear, offFar, nearApart, -⟩ := nodup_join.mp apart
  have ready' : q = id ∨ ∃ m, (h.set id (n.withChild side near'.top)).node near'.top = some m ∧ m.status = .changed := by
    rcases ready with same | ⟨m, found, changed⟩
    · exact Or.inl same
    · by_cases empty : near'.top = id
      · cases near' with
        | nil => exact (opened.named empty.symm).elim
        | node => exact (offNear (empty ▸ by simp)).elim
      · exact Or.inr ⟨m, (h.set_ne _ empty).trans found, changed⟩
  obtain ⟨h', run, held', frame⟩ := updateParent_runs (near'Held.set (n.withChild side near'.top) offNear) ready' nearApart
  refine ⟨h', modifyNode_runs _ opened.found, run, ?_, held', (Frame.set h _ (by simp)).trans (frame.mono (by simp))⟩
  exact ⟨opened.named, (frame.node id offNear).trans (h.set_self id _), child_withChild _ _ _,
    (child_withChild_other _ _ _).trans opened.far, (withChild_val _ _ _).trans opened.val,
    fun asked => (withChild_parent _ _ _).trans (opened.parent asked)⟩

/-! ### Insertion -/

section

variable [LinearOrder α]

theorem raiseInserted_runs {s : Side} {h : Heap α} {p id y : Nat} {a b far : SearchTree Nat α} {u v val : α}
    (held : Held old strict h p (join s id (join s y a u b) v far))
    (apart : (join s id (join s y a u b) v far).ids.Nodup)
    (inner : SearchTree.beyond s.other val u = true → b ≠ .nil) :
    ∃ h', Runs (raiseInserted s id val) h
        (SearchTree.raiseInserted s val (join s y a u b) (join s id (join s y a u b) v far)).top h' ∧
      Held old strict h' p (SearchTree.raiseInserted s val (join s y a u b) (join s id (join s y a u b) v far)) ∧
      Frame (join s id (join s y a u b) v far).ids h h' := by
  obtain ⟨⟨n, opened, _⟩, nearHeld, farHeld⟩ := held.open
  obtain ⟨⟨m, child, _⟩, -, -⟩ := nearHeld.open
  have present : join s y a u b ≠ .nil := by cases s <;> exact nofun
  have shape : SearchTree.raiseInserted s val (join s y a u b) (join s id (join s y a u b) v far) =
      if SearchTree.beyond s val u then (join s id (join s y a u b) v far).raise s
      else if SearchTree.beyond s.other val u then (join s id (join s y a u b) v far).raiseInner s
      else join s id (join s y a u b) v far := by
    cases s <;> rfl
  have start {top : Nat} {h' : Heap α}
      (run : Runs (if SearchTree.beyond s val u then rotate s id
        else if SearchTree.beyond s.other val u then rotateTwice s id else Pure.pure id) h top h') :
      Runs (raiseInserted s id val) h top h' := by
    unfold raiseInserted
    refine (getNode_runs opened.found).bind ?_
    simp only [opened.near, top_join]
    refine (getNode_runs child.found).bind ?_
    rwa [child.val]
  rw [shape]
  by_cases outer : SearchTree.beyond s val u = true
  · obtain ⟨h', run, held', frame⟩ := raise_runs opened present nearHeld farHeld apart
    rw [if_pos outer]
    exact ⟨h', start (by rwa [if_pos outer]), held', frame⟩
  · rw [if_neg outer]
    by_cases within : SearchTree.beyond s.other val u = true
    · obtain ⟨h', run, held', frame⟩ := raiseInner_runs opened rfl (inner within) nearHeld farHeld apart
      rw [if_pos within]
      exact ⟨h', start (by rwa [if_neg outer, if_pos within]), held', frame⟩
    · rw [if_neg within]
      refine ⟨h, start ?_, held, Frame.refl _ h⟩
      rw [if_neg outer, if_neg within, top_join]
      exact Runs.pure id

/-- The rotations of an insertion find the children they raise. -/
structure Raisable (val : α) (l r : SearchTree Nat α) : Prop where
  left : ∀ y a u b, l = .node y a u b → r.height + 1 < l.height → u < val → b ≠ .nil
  right : ∀ y b u a, r = .node y b u a → l.height + 1 < r.height → val < u → b ≠ .nil

theorem settleInserted_runs {h : Heap α} {p id : Nat} {l r : SearchTree Nat α} {x val : α} {n : Node α}
    (opened : Open strict h p id .left l x r n) (leftHeld : Held old strict h id l) (rightHeld : Held old strict h id r)
    (apart : (SearchTree.node id l x r).ids.Nodup) (raisable : Raisable val l r) :
    ∃ h', Runs (settleInserted id val) h (SearchTree.settleInserted val (.node id l x r)).top h' ∧
      Held old strict h' p (SearchTree.settleInserted val (.node id l x r)) ∧
      Frame (SearchTree.node id l x r).ids h h' := by
  obtain ⟨offLeft, offRight, -⟩ := (nodup_join (s := .left)).mp apart
  let n' : Node α := { n with height := max l.height r.height + 1, status := .changed }
  have heightRuns : Runs (updateHeight id) h () (h.set id n') :=
    opened.updateHeight_runs leftHeld.tall rightHeld.tall
  have left' := leftHeld.set n' offLeft
  have right' := rightHeld.set n' offRight
  have held' : Held old strict (h.set id n') p (join .left id l x r) := by
    refine held_join.mpr ⟨opened.named, ⟨n', h.set_self id n', ⟨?_, nofun, nofun⟩⟩, left', right'⟩
    exact ⟨opened.near, opened.far, opened.val, rfl, opened.parent⟩
  have opened' : Open strict (h.set id n') p id .left l x r n' :=
    ⟨opened.named, h.set_self id n', opened.near, opened.far, opened.val, opened.parent⟩
  obtain ⟨heavyLeft, diff, balanceRuns, leftCase, rightCase⟩ := opened'.getBalance_cases left'.tall right'.tall
  have frame : Frame (SearchTree.node id l x r).ids h (h.set id n') := Frame.set h n' (by simp)
  have start {top : Nat} {h' : Heap α}
      (run : Runs (if r.height + 1 < l.height then raiseInserted .left id val
        else if l.height + 1 < r.height then raiseInserted .right id val else Pure.pure id) (h.set id n') top h') :
      Runs (settleInserted id val) h top h' := by
    refine heightRuns.bind (balanceRuns.bind ?_)
    simpa only [leftCase, rightCase] using run
  rw [SearchTree.settleInserted]
  by_cases left : r.height + 1 < l.height
  · rw [if_pos left] at start ⊢
    obtain ⟨y, a, u, b, rfl⟩ := SearchTree.exists_node_of_height (t := l) (by omega)
    obtain ⟨h'', run, held'', frame'⟩ := raiseInserted_runs (s := .left) (y := y) (a := a) (u := u) (b := b) held' apart
      (fun within => raisable.left y a u b rfl left (of_decide_eq_true within))
    exact ⟨h'', start run, held'', frame.trans frame'⟩
  · rw [if_neg left] at start ⊢
    by_cases right : l.height + 1 < r.height
    · rw [if_pos right] at start ⊢
      obtain ⟨y, b, u, a, rfl⟩ := SearchTree.exists_node_of_height (t := r) (by omega)
      obtain ⟨h'', run, held'', frame'⟩ := raiseInserted_runs (s := .right) (y := y) (a := a) (u := u) (b := b) held' apart
        (fun within => raisable.right y b u a rfl right (of_decide_eq_true within))
      exact ⟨h'', start run, held'', frame.trans frame'⟩
    · rw [if_neg right] at start ⊢
      exact ⟨_, start (Runs.pure id), held', frame⟩

omit [LinearOrder α] in
theorem newNode_runs {h : Heap α} (val : α) (room : h.nonceNode + 1 < 2 ^ 64) (fresh : h.node (h.nonceNode + 1) = none) :
    Runs (newNode val) h (h.nonceNode + 1)
      (Heap.set { h with nonceNode := h.nonceNode + 1, setSize := h.setSize + 1 } (h.nonceNode + 1)
        { left := 0, right := 0, height := 1, parent := 0, val, status := .changed }) := by
  rintro s rfl
  simp only [heap, Option.or_eq_none_iff] at fresh room
  have next : (s.nonceNode + 1) % 2 ^ 64 = s.nonceNode + 1 := Nat.mod_eq_of_lt room
  have absent : ¬ s.nonceNode + 1 ∈ s.cache := fun mem => by
    obtain ⟨n, found⟩ := Option.isSome_iff_exists.mp (AList.lookup_isSome.mpr mem)
    cases fresh.1.symm.trans found
  refine ⟨_, ?_, heap_insert { s with nonceNode := s.nonceNode + 1, setSize := s.setSize + 1 } _ _, rfl, rfl⟩
  simp only [newNode, Exec.bind_apply, Exec.modify_apply, Exec.get_apply, next, if_neg absent, Exec.pure_apply]
  rfl

/-- The nodes and counters that an insertion leaves alone. -/
structure Inserted (val : α) (t : SearchTree Nat α) (h h' : Heap α) : Prop where
  nonceNode : h'.nonceNode = h.nonceNode + if val ∈ t.vals then 0 else 1
  setSize : h'.setSize = h.setSize + if val ∈ t.vals then 0 else 1
  nonceRoot : h'.nonceRoot = h.nonceRoot
  node : ∀ id, id ∉ t.ids → val ∈ t.vals ∨ id ≠ h.nonceNode + 1 → h'.node id = h.node id

omit [Serial α] in
theorem Inserted.within {val : α} {t u : SearchTree Nat α} {h h₁ h₂ : Heap α} {ids : List Nat} (inserted : Inserted val t h h₁)
    (same : val ∈ u.vals ↔ val ∈ t.vals) (more : t.ids ⊆ u.ids) (frame : Frame ids h₁ h₂)
    (inside : ids ⊆ (h.nonceNode + 1) :: u.ids) (kept : val ∈ t.vals → ids ⊆ u.ids) : Inserted val u h h₂ := by
  refine ⟨?_, ?_, frame.nonceRoot.trans inserted.nonceRoot, fun id out new => ?_⟩
  · rw [frame.nonceNode, inserted.nonceNode]
    simp only [same]
  · rw [frame.setSize, inserted.setSize]
    simp only [same]
  · rw [same] at new
    refine (frame.node id fun mem => ?_).trans (inserted.node id (fun mem => out (more mem)) new)
    rcases new with old | new
    · exact out (kept old mem)
    · rcases List.mem_cons.mp (inside mem) with rfl | mem
      · exact new rfl
      · exact out mem

/-- What an insertion below a node leaves to be done at the node. -/
theorem inserted_below {s : Side} {h h₁ : Heap α} {p id : Nat} {near far : SearchTree Nat α} {v val : α}
    (held : Held old strict h p (join s id near v far)) (apart : (join s id near v far).ids.Nodup)
    (known : ∀ i ∈ (join s id near v far).ids, i ≤ h.nonceNode)
    (below : Held old strict h₁ (if near = .nil then 0 else id) (near.insert val (h.nonceNode + 1)))
    (changed : near = .nil → ∃ n, h₁.node (near.insert val (h.nonceNode + 1)).top = some n ∧ n.status = .changed)
    (inserted : Inserted val near h h₁) :
    ∃ h₂ h₃ n, Runs (modifyNode id (Node.withChild s (near.insert val (h.nonceNode + 1)).top)) h₁ () h₂ ∧
      Runs (updateParent id (near.insert val (h.nonceNode + 1)).top) h₂ () h₃ ∧
      Open strict h₃ p id s (near.insert val (h.nonceNode + 1)) v far n ∧
      Held old strict h₃ id (near.insert val (h.nonceNode + 1)) ∧ Held old strict h₃ id far ∧
      (join s id (near.insert val (h.nonceNode + 1)) v far).ids.Nodup ∧
      Frame (id :: (near.insert val (h.nonceNode + 1)).ids) h₁ h₃ := by
  obtain ⟨⟨n, opened, _⟩, _, farHeld⟩ := held.open
  obtain ⟨offNear, offFar, nearApart, farApart, across⟩ := nodup_join.mp apart
  have knownFar (i : Nat) (mem : i ∈ far.ids) : i ≠ h.nonceNode + 1 := by
    have := known i (by simp [mem])
    omega
  have newNode : id ≠ h.nonceNode + 1 := by
    have := known id (by simp)
    omega
  have ids := SearchTree.ids_insert val (h.nonceNode + 1) near
  have newOff : h.nonceNode + 1 ∉ near.ids := fun mem => by
    have := known _ (mem_join.mpr (Or.inr (Or.inl mem)))
    omega
  have apart' : (join s id (near.insert val (h.nonceNode + 1)) v far).ids.Nodup := by
    refine nodup_join.mpr ⟨fun mem => ?_, offFar, ?_, farApart, fun i mem inFar => ?_⟩
    · rcases List.mem_cons.mp (ids.subset mem) with same | inNear
      · exact newNode same
      · exact offNear inNear
    · exact SearchTree.nodup_of_subperm ids (List.nodup_cons.mpr ⟨newOff, nearApart⟩)
    · rcases List.mem_cons.mp (ids.subset mem) with same | inNear
      · exact knownFar i inFar same
      · exact across i inNear inFar
  have opened₁ : Open strict h₁ p id s near v far n :=
    { opened with found := (inserted.node id offNear (Or.inr newNode)).trans opened.found }
  have ready : (if near = .nil then 0 else id) = id ∨
      ∃ m, h₁.node (near.insert val (h.nonceNode + 1)).top = some m ∧ m.status = .changed := by
    by_cases empty : near = .nil
    · exact Or.inr (changed empty)
    · exact Or.inl (if_neg empty)
  obtain ⟨h₃, linkRuns, parentRuns, opened₃, near₃, frame⟩ := replace_runs opened₁ below ready apart'
  obtain ⟨_, _, _, _, across'⟩ := nodup_join.mp apart'
  refine ⟨_, h₃, _, linkRuns, parentRuns, opened₃, near₃, farHeld.frame fun i mem => ?_, apart', frame⟩
  have out : i ∉ id :: (near.insert val (h.nonceNode + 1)).ids := by
    rw [List.mem_cons]
    rintro (rfl | inNear)
    · exact offFar mem
    · exact across' i inNear mem
  exact (frame.node i out).trans (inserted.node i (fun inNear => across i inNear mem) (Or.inr (knownFar i mem)))

theorem settleInserted_runs_join {s : Side} {h : Heap α} {p id : Nat} {near far : SearchTree Nat α} {x val : α} {n : Node α}
    (opened : Open strict h p id s near x far n) (nearHeld : Held old strict h id near) (farHeld : Held old strict h id far)
    (apart : (join s id near x far).ids.Nodup) (raisable : ∀ l r, join s id near x far = .node id l x r → Raisable val l r) :
    ∃ h', Runs (settleInserted id val) h (SearchTree.settleInserted val (join s id near x far)).top h' ∧
      Held old strict h' p (SearchTree.settleInserted val (join s id near x far)) ∧ Frame (join s id near x far).ids h h' := by
  cases s with
  | left => exact settleInserted_runs opened nearHeld farHeld apart (raisable _ _ rfl)
  | right => exact settleInserted_runs opened.swap farHeld nearHeld apart (raisable _ _ rfl)

/-- What the node does after an insertion below it. -/
theorem insertBelow_runs {s : Side} {h h₁ : Heap α} {p id : Nat} {near far : SearchTree Nat α} {x val : α}
    {inserting : Exec Stop (StoredSet α) Nat} (held : Held old strict h p (join s id near x far))
    (apart : (join s id near x far).ids.Nodup) (known : ∀ i ∈ (join s id near x far).ids, i ≤ h.nonceNode) (ordered : near.Ordered)
    (same : val ∈ (join s id near x far).vals ↔ val ∈ near.vals)
    (raisable : ∀ l r, join s id (near.insert val (h.nonceNode + 1)) x far = .node id l x r → Raisable val l r)
    (run : Runs inserting h (near.insert val (h.nonceNode + 1)).top h₁)
    (below : Held old strict h₁ (if near = .nil then 0 else id) (near.insert val (h.nonceNode + 1)))
    (changed : near = .nil → ∃ n, h₁.node (near.insert val (h.nonceNode + 1)).top = some n ∧ n.status = .changed)
    (inserted : Inserted val near h h₁) :
    ∃ h', Runs (inserting >>= fun child => modifyNode id (Node.withChild s child) >>= fun _ => updateParent id child >>= fun _ =>
        settleInserted id val) h (SearchTree.settleInserted val (join s id (near.insert val (h.nonceNode + 1)) x far)).top h' ∧
      Held old strict h' p (SearchTree.settleInserted val (join s id (near.insert val (h.nonceNode + 1)) x far)) ∧
      Inserted val (join s id near x far) h h' := by
  obtain ⟨h₂, h₃, n, linkRuns, parentRuns, opened₃, near₃, far₃, apart₃, frame₃⟩ :=
    inserted_below held apart known below changed inserted
  obtain ⟨h₄, run₄, held₄, frame₄⟩ := settleInserted_runs_join opened₃ near₃ far₃ apart₃ raisable
  refine ⟨h₄, run.bind (linkRuns.bind (parentRuns.bind run₄)), held₄, ?_⟩
  have frame := (frame₃.mono (SearchTree.near_subset s id _ far x)).trans frame₄
  refine inserted.within same (fun i mem => by simp [mem]) frame (fun i mem => ?_) fun present i mem => ?_
  · rcases mem_join.mp mem with rfl | inNear | inFar
    · simp
    · rcases List.mem_cons.mp ((SearchTree.ids_insert val (h.nonceNode + 1) near).subset inNear) with new | old
      · exact List.mem_cons.mpr (Or.inl new)
      · exact List.mem_cons_of_mem _ (mem_join.mpr (Or.inr (Or.inl old)))
    · exact List.mem_cons_of_mem _ (mem_join.mpr (Or.inr (Or.inr inFar)))
  · rw [mem_join, SearchTree.ids_insert_of_mem ordered _ present] at mem
    exact mem_join.mpr mem

theorem insertNode_at {h h' : Heap α} {p id top fuel : Nat} {l r : SearchTree Nat α} {x val : α} {n : Node α}
    (opened : Open strict h p id .left l x r n)
    (run : Runs (if val < x then
        insertNode fuel l.top val >>= fun left => modifyNode id (Node.withChild .left left) >>= fun _ =>
          updateParent id left >>= fun _ => settleInserted id val
      else if x < val then
        insertNode fuel r.top val >>= fun right => modifyNode id (Node.withChild .right right) >>= fun _ =>
          updateParent id right >>= fun _ => settleInserted id val
      else Pure.pure id) h top h') :
    Runs (insertNode (fuel + 1) id val) h top h' := by
  have leftLink : n.left = l.top := opened.near
  have rightLink : n.right = r.top := opened.far
  rw [insertNode, if_neg opened.named]
  refine (getNode_runs opened.found).bind ?_
  rwa [opened.val, leftLink, rightLink]

/-- An insertion into an ordered tree that is not stuck at it. -/
theorem insertNode_runs {h : Heap α} {p : Nat} {t : SearchTree Nat α} {val : α} {fuel : Nat}
    (held : Held old strict h p t) (apart : t.ids.Nodup) (known : ∀ id ∈ t.ids, id ≤ h.nonceNode)
    (fresh : h.node (h.nonceNode + 1) = none) (room : val ∉ t.vals → h.nonceNode + 1 < 2 ^ 64) (ordered : t.Ordered)
    (free : ¬ t.Stuck val (h.nonceNode + 1)) (enough : t.height < fuel) :
    ∃ h', Runs (insertNode fuel t.top val) h (t.insert val (h.nonceNode + 1)).top h' ∧
      Held old strict h' (if t = .nil then 0 else p) (t.insert val (h.nonceNode + 1)) ∧
      (t = .nil → ∃ n, h'.node (t.insert val (h.nonceNode + 1)).top = some n ∧ n.status = .changed) ∧
      Inserted val t h h' := by
  induction t generalizing h p fuel with
  | nil =>
    obtain ⟨fuel, rfl⟩ : ∃ k, fuel = k + 1 := ⟨fuel - 1, by omega⟩
    refine ⟨_, newNode_runs val (room nofun) fresh, ?_, fun _ => ⟨_, Heap.set_self _ _ _, rfl⟩, ?_⟩
    · exact ⟨by omega, ⟨_, Heap.set_self _ _ _, ⟨rfl, rfl, rfl, rfl, fun _ => rfl⟩, nofun, nofun⟩, trivial, trivial⟩
    · exact ⟨rfl, rfl, rfl, fun id _ new => Heap.set_ne _ _ (new.resolve_left nofun)⟩
  | node id l x r hl hr =>
    obtain ⟨fuel, rfl⟩ : ∃ k, fuel = k + 1 := ⟨fuel - 1, by omega⟩
    simp only [SearchTree.height_node] at enough
    obtain ⟨left, right, below, above⟩ := SearchTree.ordered_node.mp ordered
    obtain ⟨⟨n, opened, live⟩, leftHeld, rightHeld⟩ := Held.open (s := .left) held
    obtain ⟨_, _, leftApart, rightApart, _⟩ := (nodup_join (s := .left)).mp apart
    have nonempty : (SearchTree.node id l x r) ≠ .nil := nofun
    simp only [nonempty, if_false, false_implies, true_and, SearchTree.top_node]
    unfold SearchTree.Stuck at free
    unfold SearchTree.insert
    split at free
    · rename_i less
      have same := SearchTree.mem_node_of_lt ordered less
      rw [same] at room
      obtain ⟨inner, light⟩ := not_or.mp free
      have enoughLeft : l.height < fuel := by omega
      obtain ⟨h₁, run₁, held₁, changed₁, inserted₁⟩ :=
        hl leftHeld leftApart (fun i mem => known i (by simp [mem])) fresh room left inner enoughLeft
      have raisable : Raisable val (l.insert val (h.nonceNode + 1)) r := by
        constructor
        · rintro y a u b shape - above
          exact SearchTree.right_of_mem (shape ▸ left.insert val _) (shape ▸ SearchTree.mem_insert.mpr (Or.inl rfl)) above
        · rintro y b u a rfl heavy -
          exact fun missing => light ⟨heavy, missing⟩
      obtain ⟨h', run, held', inserted⟩ := insertBelow_runs (s := .left) held apart known left same
        (by rintro _ _ ⟨⟩; exact raisable) run₁ held₁ changed₁ inserted₁
      rw [if_pos less]
      exact ⟨h', insertNode_at opened (by rwa [if_pos less]), held', inserted⟩
    · rename_i notLess
      rw [if_neg notLess]
      split at free
      · rename_i more
        have same := SearchTree.mem_node_of_gt ordered more
        rw [same] at room
        obtain ⟨inner, light⟩ := not_or.mp free
        have enoughRight : r.height < fuel := by omega
        obtain ⟨h₁, run₁, held₁, changed₁, inserted₁⟩ :=
          hr rightHeld rightApart (fun i mem => known i (by simp [mem])) fresh room right inner enoughRight
        have raisable : Raisable val l (r.insert val (h.nonceNode + 1)) := by
          constructor
          · rintro y a u b rfl heavy -
            exact fun missing => light ⟨heavy, missing⟩
          · rintro y b u a shape - under
            exact SearchTree.left_of_mem (shape ▸ right.insert val _) (shape ▸ SearchTree.mem_insert.mpr (Or.inl rfl)) under
        obtain ⟨h', run, held', inserted⟩ := insertBelow_runs (s := .right) held apart known right same
          (by rintro _ _ ⟨⟩; exact raisable) run₁ held₁ changed₁ inserted₁
        rw [if_pos more]
        exact ⟨h', insertNode_at opened (by rwa [if_neg notLess, if_pos more]), held', inserted⟩
      · rename_i notMore
        rw [if_neg notMore]
        have same : val = x := le_antisymm (not_lt.mp notMore) (not_lt.mp notLess)
        have present : val ∈ (SearchTree.node id l x r).vals := by simp [same]
        refine ⟨h, insertNode_at opened ?_, held, ?_⟩
        · rw [if_neg notLess, if_neg notMore]
          exact Runs.pure id
        · exact ⟨by rw [if_pos present]; rfl, by rw [if_pos present]; rfl, rfl, fun _ _ _ => rfl⟩

/-! ### Deletion -/

omit [LinearOrder α] in
/-- A node with its height up to date, and what `deleteNode` does with it. -/
theorem settleErased_at {h h₁ h' : Heap α} {p id top a b : Nat} {l r : SearchTree Nat α} {x : α} {n : Node α}
    (heightRuns : Runs (updateHeight id) h () h₁) (opened : Open strict h₁ p id .left l x r n) (leftTall : Tall h₁ l.top a)
    (rightTall : Tall h₁ r.top b)
    (run : Runs (if b + 1 < a then
        getBalance l.top >>= fun balance => if balance.1 = true then rotate .left id else rotateTwice .left id
      else if a + 1 < b then
        getBalance r.top >>= fun balance => if balance.1 = true then rotateTwice .right id else rotate .right id
      else Pure.pure id) h₁ top h') :
    Runs (settleErased id) h top h' := by
  obtain ⟨heavyLeft, diff, balanceRuns, leftCase, rightCase⟩ := opened.getBalance_cases leftTall rightTall
  have leftLink : n.left = l.top := opened.near
  have rightLink : n.right = r.top := opened.far
  refine heightRuns.bind (balanceRuns.bind ((getNode_runs opened.found).bind ?_))
  simpa only [leftLink, rightLink, leftCase, rightCase, ite_not, leftRotate, rightRotate] using run

omit [LinearOrder α] in
/-- The children need the right parent only where no rotation gives it to them. -/
theorem settleErased_runs {h : Heap α} {p id ql qr : Nat} {l r : SearchTree Nat α} {x : α} {n : Node α}
    (opened : Open strict h p id .left l x r n) (leftHeld : Held old strict h ql l) (rightHeld : Held old strict h qr r)
    (apart : (SearchTree.node id l x r).ids.Nodup) (readyLeft : strict → l = .nil ∨ ql = id ∨ r.height + 1 < l.height)
    (readyRight : strict → r = .nil ∨ qr = id ∨ l.height + 1 < r.height) :
    ∃ h', Runs (settleErased id) h (SearchTree.settleErased (.node id l x r)).top h' ∧
      Held old strict h' p (SearchTree.settleErased (.node id l x r)) ∧ Frame (SearchTree.node id l x r).ids h h' := by
  obtain ⟨offLeft, offRight, -⟩ := (nodup_join (s := .left)).mp apart
  let n' : Node α := { n with height := max l.height r.height + 1, status := .changed }
  have heightRuns : Runs (updateHeight id) h () (h.set id n') :=
    opened.updateHeight_runs leftHeld.tall rightHeld.tall
  have left' := leftHeld.set n' offLeft
  have right' := rightHeld.set n' offRight
  have opened' : Open strict (h.set id n') p id .left l x r n' :=
    ⟨opened.named, h.set_self id n', opened.near, opened.far, opened.val, opened.parent⟩
  have frame : Frame (SearchTree.node id l x r).ids h (h.set id n') := Frame.set h n' (by simp)
  have start {top : Nat} {h' : Heap α} (run : _) : Runs (settleErased id) h top h' :=
    settleErased_at heightRuns opened' left'.tall right'.tall run
  have leftReady (still : ¬ r.height + 1 < l.height) : Held old strict (h.set id n') id l :=
    left'.reparent fun asked => (readyLeft asked).imp_right fun ready => ready.resolve_right still
  have rightReady (still : ¬ l.height + 1 < r.height) : Held old strict (h.set id n') id r :=
    right'.reparent fun asked => (readyRight asked).imp_right fun ready => ready.resolve_right still
  by_cases heavyLeft : r.height + 1 < l.height
  · obtain ⟨y, a, u, b, rfl⟩ := SearchTree.exists_node_of_height (t := l) (by omega)
    obtain ⟨⟨m, child, _⟩, heldA, heldB⟩ := Held.open (s := .left) left'
    have childBalance := child.getBalance_runs heldA.tall heldB.tall
    have far := rightReady (by omega)
    rw [SearchTree.settleErased, if_pos heavyLeft]
    simp only [if_pos heavyLeft] at start
    by_cases outer : b.height ≤ a.height
    · rw [if_pos (SearchTree.leansLeft_node.mpr outer)]
      obtain ⟨h', run, held', frame'⟩ := raise_runs (s := .left) opened' (fun gone => by cases gone) left' far apart
      refine ⟨h', start (childBalance.bind ?_), held', frame.trans frame'⟩
      rw [if_pos outer]
      exact run
    · rw [if_neg (SearchTree.leansLeft_node.not.mpr outer)]
      have inner : b ≠ .nil := by rintro rfl; simp at outer
      obtain ⟨h', run, held', frame'⟩ := raiseInner_runs (s := .left) (y := y) (a := a) (u := u) opened' rfl inner left' far apart
      refine ⟨h', start (childBalance.bind ?_), held', frame.trans frame'⟩
      rw [if_neg outer]
      exact run
  · rw [SearchTree.settleErased, if_neg heavyLeft]
    simp only [if_neg heavyLeft] at start
    have near := leftReady heavyLeft
    by_cases heavyRight : l.height + 1 < r.height
    · obtain ⟨y, b, u, a, rfl⟩ := SearchTree.exists_node_of_height (t := r) (by omega)
      obtain ⟨⟨m, child, _⟩, heldB, heldA⟩ := Held.open (s := .left) right'
      have childBalance := child.getBalance_runs heldB.tall heldA.tall
      have mirrored : Open strict (h.set id n') p id .right (.node y b u a) x l n' := opened'.swap
      rw [if_pos heavyRight]
      simp only [if_pos heavyRight] at start
      by_cases outer : a.height ≤ b.height
      · rw [if_pos (SearchTree.leansLeft_node.mpr outer)]
        have inner : b ≠ .nil := by rintro rfl; simp at outer heavyRight; omega
        obtain ⟨h', run, held', frame'⟩ := raiseInner_runs (s := .right) (y := y) (a := a) (u := u) mirrored rfl inner right' near apart
        refine ⟨h', start (childBalance.bind ?_), held', frame.trans frame'⟩
        rw [if_pos outer]
        exact run
      · rw [if_neg (SearchTree.leansLeft_node.not.mpr outer)]
        obtain ⟨h', run, held', frame'⟩ := raise_runs (s := .right) mirrored (fun gone => by cases gone) right' near apart
        refine ⟨h', start (childBalance.bind ?_), held', frame.trans frame'⟩
        rw [if_neg outer]
        exact run
    · rw [if_neg heavyRight]
      simp only [if_neg heavyRight] at start
      refine ⟨_, start (Runs.pure id), ?_, frame⟩
      refine ⟨opened.named, ⟨n', h.set_self id n', ⟨?_, changed_ne_erased, fun kept => absurd kept changed_ne_unchanged⟩⟩, near, rightReady heavyRight⟩
      exact ⟨opened.near, opened.far, opened.val, rfl, opened.parent⟩

omit [LinearOrder α] in
/-- The loop down a side ends at the node that is furthest out. -/
theorem outermost_runs {s : Side} {h : Heap α} {p fuel : Nat} {t : SearchTree Nat α} (held : Held old strict h p t)
    (present : t ≠ .nil) (enough : t.height ≤ fuel) :
    ∃ id n, Runs (outermost s fuel t.top) h id h ∧ h.node id = some n ∧ SearchTree.outer s t.ids = some id ∧
      SearchTree.outer s t.vals = some n.val := by
  induction fuel generalizing p t with
  | zero =>
    obtain ⟨id, near, v, far, rfl⟩ := exists_join s present
    simp at enough
  | succ fuel ih =>
    obtain ⟨id, near, v, far, rfl⟩ := exists_join s present
    obtain ⟨⟨n, opened, _⟩, nearHeld, _⟩ := held.open
    have start {top : Nat} (run : Runs (if near.top = 0 then Pure.pure id else outermost s fuel near.top) h top h) :
        Runs (outermost s (fuel + 1) (join s id near v far).top) h top h := by
      rw [top_join, outermost]
      refine (getNode_runs opened.found).bind ?_
      rwa [opened.near]
    rw [SearchTree.outer_ids_join, SearchTree.outer_vals_join]
    by_cases empty : near = .nil
    · subst empty
      exact ⟨id, n, start (Runs.pure id), opened.found, by cases s <;> rfl, by rw [opened.val]; cases s <;> rfl⟩
    · have deep : near.height ≤ fuel := by simp at enough; omega
      obtain ⟨i, m, run, found, ids, vals⟩ := ih nearHeld empty deep
      refine ⟨i, m, start ?_, found, by rw [ids]; rfl, by rw [vals]; rfl⟩
      rwa [if_neg (nearHeld.top_eq_zero.not.mpr empty)]

omit [LinearOrder α] in
theorem minValueNode_runs {h : Heap α} {p id : Nat} {l r : SearchTree Nat α} {x : α} (held : Held old strict h p (.node id l x r))
    (deep : (SearchTree.node id l x r).height ≤ h.nonceNode) :
    ∃ i n, Runs (minValueNode id) h i h ∧ h.node i = some n ∧ n.val = l.minVal x := by
  obtain ⟨i, n, run, found, _, vals⟩ := outermost_runs (s := .left) held nofun (Nat.le_succ_of_le deep)
  refine ⟨i, n, Runs.rounds.bind run, found, ?_⟩
  obtain ⟨tail, first⟩ := SearchTree.vals_minVal l x r.vals
  simpa [SearchTree.outer, first] using vals.symm

/-- What a deletion changes. -/
structure Erased (t u : SearchTree Nat α) (h h' : Heap α) : Prop where
  nonceNode : h'.nonceNode = h.nonceNode
  nonceRoot : h'.nonceRoot = h.nonceRoot
  setSize : h'.setSize + t.vals.length = h.setSize + u.vals.length
  node : ∀ id, id ∉ t.ids → h'.node id = h.node id

omit [Serial α] [LinearOrder α] in
theorem Erased.within {t u whole rest : SearchTree Nat α} {h h₁ h₂ : Heap α} {ids : List Nat} (erased : Erased t u h h₁)
    (frame : Frame ids h₁ h₂) (more : t.ids ⊆ whole.ids) (inside : ids ⊆ whole.ids)
    (size : whole.vals.length + u.vals.length = t.vals.length + rest.vals.length) : Erased whole rest h h₂ := by
  refine ⟨frame.nonceNode.trans erased.nonceNode, frame.nonceRoot.trans erased.nonceRoot, ?_, fun id out => ?_⟩
  · have before := erased.setSize
    have after := frame.setSize
    omega
  · exact (frame.node id fun mem => out (inside mem)).trans (erased.node id fun mem => out (more mem))

omit [LinearOrder α] in
theorem uncount_runs (h : Heap α) :
    Runs (Exec.modify fun s : StoredSet α => { s with setSize := s.setSize - 1 }) h () { h with setSize := h.setSize - 1 } := by
  rintro s rfl
  exact ⟨_, rfl, rfl, rfl, rfl⟩

omit [LinearOrder α] in
theorem spliceNode_runs_leaf {h : Heap α} {p id : Nat} {x : α} {n : Node α} (opened : Open strict h p id .left .nil x .nil n) :
    Runs (spliceNode id) h () (Heap.set { h with setSize := h.setSize - 1 } id { n with status := .erased }) := by
  have left : n.left = 0 := opened.near
  have right : n.right = 0 := opened.far
  have child : (if n.left ≠ 0 then n.left else n.right) = 0 := by rw [left, right]; rfl
  let counted : Heap α := { h with setSize := h.setSize - 1 }
  have found : counted.node id = some n := opened.found
  unfold spliceNode
  refine (getNode_runs opened.found).bind ?_
  simp only [child, if_true]
  exact (uncount_runs h).bind (modifyNode_runs _ found)

omit [LinearOrder α] in
/-- A node takes over the record of its only child, and the child is erased. -/
theorem spliceNode_runs {h : Heap α} {id c : Nat} {side : Side} {n m : Node α} (found : h.node id = some n) (near : n.child side = c)
    (far : n.child side.other = 0) (named : c ≠ 0) (child : h.node c = some m) (apart : c ≠ id) :
    Runs (spliceNode id) h ()
      (Heap.set { h.set id { m with parent := n.parent, status := .changed } with setSize := h.setSize - 1 } c
        { m with status := .erased }) := by
  have only : (if n.left ≠ 0 then n.left else n.right) = c := by
    cases side with
    | left =>
      have left : n.left = c := near
      rw [left, if_pos named]
    | right =>
      have left : n.left = 0 := far
      have right : n.right = c := near
      rw [left, right]
      rfl
  let counted : Heap α := { h.set id { m with parent := n.parent, status := .changed } with setSize := h.setSize - 1 }
  have still : counted.node c = some m := (h.set_ne _ apart).trans child
  unfold spliceNode
  refine (getNode_runs found).bind ?_
  simp only [only, if_neg named]
  refine (getNode_runs child).bind ?_
  refine (modifyNode_runs _ found).bind ?_
  exact (uncount_runs _).bind (modifyNode_runs _ still)

omit [LinearOrder α] in
theorem spliceNode_runs_child {h : Heap α} {p q id c : Nat} {side : Side} {x u : α} {n : Node α} {a b : SearchTree Nat α}
    (opened : Open strict h p id side (.node c a u b) x .nil n) (held : Held old strict h q (.node c a u b))
    (apart : (join side id (.node c a u b) x .nil).ids.Nodup) :
    ∃ h' m, Runs (spliceNode id) h () h' ∧ Open strict h' p id .left a u b m ∧ m.status = .changed ∧
      Held old strict h' c a ∧ Held old strict h' c b ∧ h'.nonceNode = h.nonceNode ∧ h'.nonceRoot = h.nonceRoot ∧
      h'.setSize = h.setSize - 1 ∧ ∀ i, i ∉ (join side id (.node c a u b) x .nil).ids → h'.node i = h.node i := by
  obtain ⟨offChild, _, childApart, -, -⟩ := nodup_join.mp apart
  obtain ⟨offA, offB, -, -, -⟩ := (nodup_join (s := .left)).mp childApart
  simp only [SearchTree.ids_node, List.mem_append, List.mem_cons, not_or] at offChild
  obtain ⟨idA, idC, idB⟩ := offChild
  obtain ⟨⟨m, childOpen, _⟩, heldA, heldB⟩ := Held.open (s := .left) held
  let m' : Node α := { m with parent := n.parent, status := .changed }
  let counted : Heap α := { h.set id m' with setSize := h.setSize - 1 }
  have heldA' : Held old strict counted c a := (heldA.set m' idA).frame fun _ _ => rfl
  have heldB' : Held old strict counted c b := (heldB.set m' idB).frame fun _ _ => rfl
  refine ⟨_, m', spliceNode_runs opened.found opened.near opened.far childOpen.named childOpen.found (Ne.symm idC), ?_, rfl,
    heldA'.set _ offA, heldB'.set _ offB, rfl, rfl, rfl, fun i out => ?_⟩
  · exact ⟨opened.named, (counted.set_ne _ idC).trans (h.set_self id m'), childOpen.near, childOpen.far, childOpen.val, opened.parent⟩
  · simp only [mem_join, SearchTree.ids_node, List.mem_append, List.mem_cons, not_or] at out
    exact (counted.set_ne _ out.2.1.2.1).trans (h.set_ne m' out.1)

omit [LinearOrder α] in
theorem leaveErased_runs {h h' : Heap α} {id top : Nat} {n : Node α} (found : h.node id = some n) (live : n.status ≠ .erased)
    (run : Runs (settleErased id) h top h') : Runs (leaveErased id) h top h' := by
  unfold leaveErased
  refine (getNode_runs found).bind ?_
  rwa [if_neg live]

omit [LinearOrder α] in
/-- What a deletion below a node leaves to be done at the node. -/
theorem erased_below {s : Side} {h h₁ : Heap α} {p id : Nat} {near near' far : SearchTree Nat α} {v : α}
    (held : Held old strict h p (join s id near v far)) (apart : (join s id near v far).ids.Nodup)
    (below : Held old strict h₁ id near') (fewer : near'.ids.Subperm near.ids) (erased : Erased near near' h h₁) :
    ∃ h₂ h₃ n, Runs (modifyNode id (Node.withChild s near'.top)) h₁ () h₂ ∧
      Runs (updateParent id near'.top) h₂ () h₃ ∧ Open strict h₃ p id s near' v far n ∧ n.status ≠ .erased ∧
      Held old strict h₃ id near' ∧ Held old strict h₃ id far ∧ (join s id near' v far).ids.Nodup ∧
      Frame (id :: near'.ids) h₁ h₃ := by
  obtain ⟨⟨n, opened, live⟩, _, farHeld⟩ := held.open
  obtain ⟨offNear, offFar, nearApart, farApart, across⟩ := nodup_join.mp apart
  have apart' : (join s id near' v far).ids.Nodup :=
    nodup_join.mpr ⟨fun mem => offNear (fewer.subset mem), offFar, SearchTree.nodup_of_subperm fewer nearApart, farApart,
      fun i mem => across i (fewer.subset mem)⟩
  have opened₁ : Open strict h₁ p id s near v far n :=
    { opened with found := (erased.node id offNear).trans opened.found }
  obtain ⟨h₃, linkRuns, parentRuns, opened₃, near₃, frame⟩ := replace_runs opened₁ below (Or.inl rfl) apart'
  refine ⟨_, h₃, _, linkRuns, parentRuns, opened₃, by rwa [withChild_status], near₃, farHeld.frame fun i mem => ?_, apart', frame⟩
  have out : i ∉ id :: near'.ids := by
    rw [List.mem_cons]
    rintro (rfl | inNear)
    · exact offFar mem
    · exact across i (fewer.subset inNear) mem
  exact (frame.node i out).trans (erased.node i fun inNear => across i inNear mem)

omit [LinearOrder α] in
theorem deleteNode_runs_child {h : Heap α} {p q id c : Nat} {side : Side} {x u : α} {n : Node α} {a b : SearchTree Nat α}
    (opened : Open strict h p id side (.node c a u b) x .nil n) (held : Held old strict h q (.node c a u b))
    (apart : (join side id (.node c a u b) x .nil).ids.Nodup) (counted : 1 ≤ h.setSize)
    (tidy : strict → ¬ SearchTree.Strays a b) :
    ∃ h', Runs (spliceNode id >>= fun _ => leaveErased id) h (SearchTree.settleErased (.node id a u b)).top h' ∧
      Held old strict h' p (SearchTree.settleErased (.node id a u b)) ∧
      Erased (join side id (.node c a u b) x .nil) (SearchTree.settleErased (.node id a u b)) h h' := by
  obtain ⟨h₁, m, run₁, opened₁, changed, heldA, heldB, nonceNode, nonceRoot, setSize, others⟩ :=
    spliceNode_runs_child opened held apart
  obtain ⟨offChild, -, childApart, -, -⟩ := nodup_join.mp apart
  simp only [SearchTree.ids_node, List.mem_append, List.mem_cons, not_or] at offChild
  obtain ⟨_, _, apartA, apartB, across⟩ := (nodup_join (s := .left)).mp childApart
  have apart' : (SearchTree.node id a u b).ids.Nodup :=
    (nodup_join (s := .left)).mpr ⟨offChild.1, offChild.2.2, apartA, apartB, across⟩
  have steady (asked : strict) := not_not.mp (tidy asked)
  obtain ⟨h₂, run₂, held₂, frame⟩ := settleErased_runs opened₁ heldA heldB apart'
    (fun asked => (steady asked).1.imp_right Or.inr) (fun asked => (steady asked).2.imp_right Or.inr)
  refine ⟨h₂, run₁.bind (leaveErased_runs opened₁.found (by rw [changed]; nofun) run₂), held₂, ?_⟩
  refine ⟨frame.nonceNode.trans nonceNode, frame.nonceRoot.trans nonceRoot, ?_, fun i out => ?_⟩
  · rw [frame.setSize, setSize, length_vals_join, SearchTree.vals_settleErased]
    simp only [SearchTree.vals_node, SearchTree.vals_nil, List.length_append, List.length_cons, List.length_nil]
    omega
  · refine (frame.node i fun mem => out ?_).trans (others i out)
    rcases List.mem_append.mp mem with mem | mem
    · exact mem_join.mpr (Or.inr (Or.inl (by simp [mem])))
    · rcases List.mem_cons.mp mem with rfl | mem
      · exact mem_join.mpr (Or.inl rfl)
      · exact mem_join.mpr (Or.inr (Or.inl (by simp [mem])))

omit [LinearOrder α] in
theorem leaveErased_runs_join {s : Side} {h : Heap α} {p id : Nat} {near far : SearchTree Nat α} {x : α} {n : Node α}
    (opened : Open strict h p id s near x far n) (live : n.status ≠ .erased) (nearHeld : Held old strict h id near)
    (farHeld : Held old strict h id far) (apart : (join s id near x far).ids.Nodup) :
    ∃ h', Runs (leaveErased id) h (SearchTree.settleErased (join s id near x far)).top h' ∧
      Held old strict h' p (SearchTree.settleErased (join s id near x far)) ∧ Frame (join s id near x far).ids h h' := by
  have settled : ∃ h', Runs (settleErased id) h (SearchTree.settleErased (join s id near x far)).top h' ∧
      Held old strict h' p (SearchTree.settleErased (join s id near x far)) ∧ Frame (join s id near x far).ids h h' := by
    cases s with
    | left => exact settleErased_runs opened nearHeld farHeld apart (fun _ => Or.inr (Or.inl rfl)) (fun _ => Or.inr (Or.inl rfl))
    | right => exact settleErased_runs opened.swap farHeld nearHeld apart (fun _ => Or.inr (Or.inl rfl)) (fun _ => Or.inr (Or.inl rfl))
  obtain ⟨h', run, rest⟩ := settled
  exact ⟨h', leaveErased_runs opened.found live run, rest⟩

omit [LinearOrder α] in
/-- What the node does after a deletion below it. -/
theorem eraseBelow_runs {s : Side} {h h₁ : Heap α} {p id : Nat} {near near' far : SearchTree Nat α} {x : α}
    {erasing : Exec Stop (StoredSet α) Nat} (held : Held old strict h p (join s id near x far))
    (apart : (join s id near x far).ids.Nodup) (fewer : near'.ids.Subperm near.ids) (run : Runs erasing h near'.top h₁)
    (below : Held old strict h₁ id near') (erased : Erased near near' h h₁) :
    ∃ h', Runs (erasing >>= fun child => modifyNode id (Node.withChild s child) >>= fun _ => updateParent id child >>= fun _ =>
        leaveErased id) h (SearchTree.settleErased (join s id near' x far)).top h' ∧
      Held old strict h' p (SearchTree.settleErased (join s id near' x far)) ∧
      Erased (join s id near x far) (SearchTree.settleErased (join s id near' x far)) h h' := by
  obtain ⟨h₂, h₃, n, linkRuns, parentRuns, opened₃, live, near₃, far₃, apart₃, frame₃⟩ := erased_below held apart below fewer erased
  obtain ⟨h₄, run₄, held₄, frame₄⟩ := leaveErased_runs_join opened₃ live near₃ far₃ apart₃
  refine ⟨h₄, run.bind (linkRuns.bind (parentRuns.bind run₄)), held₄, ?_⟩
  have frame := (frame₃.mono (SearchTree.near_subset s id near' far x)).trans frame₄
  refine erased.within frame (fun i mem => by simp [mem]) (fun i mem => ?_) ?_
  · exact mem_join.mpr ((mem_join.mp mem).imp_right (Or.imp_left fun inNear => fewer.subset inNear))
  · rw [SearchTree.vals_settleErased, length_vals_join, length_vals_join]
    omega

omit [LinearOrder α] in
/-- The value of the smallest node on the right comes to a node, and that node is deleted instead. -/
theorem takeLeast_runs {h h₂ : Heap α} {p id d : Nat} {l e f : SearchTree Nat α} {x w : α} {n : Node α}
    {erasing : α → Exec Stop (StoredSet α) Nat} {rest : SearchTree Nat α}
    (opened : Open strict h p id .left l x (.node d e w f) n) (live : n.status ≠ .erased) (leftHeld : Held old strict h id l)
    (rightHeld : Held old strict h id (.node d e w f)) (apart : (SearchTree.node id l x (.node d e w f)).ids.Nodup)
    (deep : (SearchTree.node d e w f).height ≤ h.nonceNode) (fewer : rest.ids.Subperm (SearchTree.node d e w f).ids)
    (run : Runs (erasing (e.minVal w)) (h.set id { n with val := e.minVal w }) rest.top h₂)
    (below : Held old strict h₂ id rest) (erased : Erased (.node d e w f) rest (h.set id { n with val := e.minVal w }) h₂) :
    ∃ h', Runs (minValueNode d >>= fun i => getNode i >>= fun minNode =>
        modifyNode id (fun node => { node with val := minNode.val }) >>= fun _ => erasing minNode.val >>= fun right =>
          modifyNode id (Node.withChild .right right) >>= fun _ => leaveErased id) h
        (SearchTree.settleErased (.node id l (e.minVal w) rest)).top h' ∧
      Held old strict h' p (SearchTree.settleErased (.node id l (e.minVal w) rest)) ∧
      Erased (.node id l x (.node d e w f)) (SearchTree.settleErased (.node id l (e.minVal w) rest)) h h' := by
  obtain ⟨offLeft, offRight, leftApart, rightApart, across⟩ := (nodup_join (s := .left)).mp apart
  obtain ⟨i, m, minRuns, foundMin, minVal⟩ := minValueNode_runs rightHeld deep
  let n₁ : Node α := { n with val := e.minVal w }
  let n₃ : Node α := n₁.withChild .right rest.top
  have found₂ : h₂.node id = some n₁ := (erased.node id offRight).trans (h.set_self id n₁)
  have apart' : (SearchTree.node id l (e.minVal w) rest).ids.Nodup :=
    (nodup_join (s := .left)).mpr ⟨offLeft, fun mem => offRight (fewer.subset mem), leftApart,
      SearchTree.nodup_of_subperm fewer rightApart, fun i mem inRest => across i mem (fewer.subset inRest)⟩
  have opened₃ : Open strict (h₂.set id n₃) p id .left l (e.minVal w) rest n₃ :=
    ⟨opened.named, h₂.set_self id n₃, opened.near, rfl, rfl, opened.parent⟩
  have left₃ : Held old strict (h₂.set id n₃) id l :=
    ((leftHeld.set n₁ offLeft).frame fun i mem => erased.node i (across i mem)).set n₃ offLeft
  obtain ⟨h₄, run₄, held₄, frame₄⟩ :=
    leaveErased_runs_join opened₃ live left₃ (below.set n₃ fun mem => offRight (fewer.subset mem)) apart'
  refine ⟨h₄, minRuns.bind ((getNode_runs foundMin).bind ?_), held₄, ?_⟩
  · rw [minVal]
    exact (modifyNode_runs _ opened.found).bind (run.bind ((modifyNode_runs _ found₂).bind run₄))
  refine ⟨frame₄.nonceNode.trans erased.nonceNode, frame₄.nonceRoot.trans erased.nonceRoot, ?_, fun i out => ?_⟩
  · have before := erased.setSize
    have after := frame₄.setSize
    simp only [Heap.set_setSize, SearchTree.vals_settleErased, SearchTree.vals_node, List.length_append,
      List.length_cons] at before after ⊢
    omega
  · simp only [SearchTree.ids_node d, SearchTree.ids_node id, List.mem_append, List.mem_cons, not_or] at out
    have outRight : i ∉ (SearchTree.node d e w f).ids := by simp [out]
    have outWhole : i ∉ (join .left id l (e.minVal w) rest).ids := by
      rw [mem_join, not_or, not_or]
      exact ⟨out.2.1, out.1, fun mem => outRight (fewer.subset mem)⟩
    exact (frame₄.node i outWhole).trans ((h₂.set_ne n₃ out.2.1).trans ((erased.node i outRight).trans (h.set_ne n₁ out.2.1)))

theorem deleteNode_at {h h' : Heap α} {p id top fuel : Nat} {l r : SearchTree Nat α} {x val : α} {n : Node α}
    (opened : Open strict h p id .left l x r n)
    (run : Runs (if val < x then
        deleteNode fuel l.top val >>= fun left => modifyNode id (Node.withChild .left left) >>= fun _ =>
          updateParent id left >>= fun _ => leaveErased id
      else if x < val then
        deleteNode fuel r.top val >>= fun right => modifyNode id (Node.withChild .right right) >>= fun _ =>
          updateParent id right >>= fun _ => leaveErased id
      else if l.top = 0 ∨ r.top = 0 then spliceNode id >>= fun _ => leaveErased id
      else minValueNode r.top >>= fun i => getNode i >>= fun minNode =>
        modifyNode id (fun node => { node with val := minNode.val }) >>= fun _ =>
          deleteNode fuel r.top minNode.val >>= fun right => modifyNode id (Node.withChild .right right) >>= fun _ =>
            leaveErased id) h top h') :
    Runs (deleteNode (fuel + 1) id val) h top h' := by
  have leftLink : n.left = l.top := opened.near
  have rightLink : n.right = r.top := opened.far
  rw [deleteNode, if_neg opened.named]
  refine (getNode_runs opened.found).bind ?_
  rw [← leftLink, ← rightLink, ← opened.val] at run
  exact run

omit [LinearOrder α] in
theorem spliceNode_runs_nil {h : Heap α} {p id : Nat} {x : α} {n : Node α} (opened : Open strict h p id .left .nil x .nil n)
    (counted : 1 ≤ h.setSize) :
    ∃ h', Runs (spliceNode id >>= fun _ => leaveErased id) h 0 h' ∧ Erased (.node id .nil x .nil) .nil h h' := by
  let final : Heap α := Heap.set { h with setSize := h.setSize - 1 } id { n with status := .erased }
  have left : Runs (leaveErased id) final 0 final := by
    unfold leaveErased
    refine (getNode_runs (Heap.set_self _ _ _)).bind ?_
    rw [if_pos rfl]
    exact Runs.pure 0
  refine ⟨final, (spliceNode_runs_leaf opened).bind left, rfl, rfl, ?_, fun i out => ?_⟩
  · change h.setSize - 1 + 1 = h.setSize + 0
    omega
  · have ne : i ≠ id := by simpa using out
    exact Heap.set_ne _ _ ne

/-- A deletion, where parents are asked for one that does not lose them. -/
theorem deleteNode_runs {h : Heap α} {p : Nat} {t : SearchTree Nat α} {val : α} {fuel : Nat}
    (held : Held old strict h p t) (apart : t.ids.Nodup) (enough : t.height < fuel) (deep : t.height ≤ h.nonceNode)
    (counted : t.vals.length ≤ h.setSize) (tidy : strict → ¬ t.Splices val) :
    ∃ h', Runs (deleteNode fuel t.top val) h (t.erase val).top h' ∧ Held old strict h' p (t.erase val) ∧
      Erased t (t.erase val) h h' := by
  induction t generalizing h p fuel val with
  | nil =>
    obtain ⟨fuel, rfl⟩ : ∃ k, fuel = k + 1 := ⟨fuel - 1, by omega⟩
    exact ⟨h, Runs.pure 0, trivial, ⟨rfl, rfl, rfl, fun _ _ => rfl⟩⟩
  | node id l x r hl hr =>
    obtain ⟨fuel, rfl⟩ : ∃ k, fuel = k + 1 := ⟨fuel - 1, by omega⟩
    simp only [SearchTree.height_node] at enough deep
    simp only [SearchTree.vals_node, List.length_append, List.length_cons] at counted
    obtain ⟨⟨n, opened, live⟩, leftHeld, rightHeld⟩ := Held.open (s := .left) held
    obtain ⟨_, offRight, leftApart, rightApart, _⟩ := (nodup_join (s := .left)).mp apart
    rw [SearchTree.top_node]
    unfold SearchTree.Splices at tidy
    unfold SearchTree.erase
    by_cases less : val < x
    · rw [if_pos less] at tidy ⊢
      have enoughLeft : l.height < fuel := by omega
      obtain ⟨h₁, run₁, held₁, erased₁⟩ := hl leftHeld leftApart enoughLeft (by omega) (by omega) tidy
      obtain ⟨h', run, held', erased⟩ :=
        eraseBelow_runs (s := .left) held apart (SearchTree.ids_erase l val) run₁ held₁ erased₁
      exact ⟨h', deleteNode_at opened (by rwa [if_pos less]), held', erased⟩
    · rw [if_neg less] at tidy ⊢
      by_cases more : x < val
      · rw [if_pos more] at tidy ⊢
        have enoughRight : r.height < fuel := by omega
        obtain ⟨h₁, run₁, held₁, erased₁⟩ := hr rightHeld rightApart enoughRight (by omega) (by omega) tidy
        obtain ⟨h', run, held', erased⟩ :=
          eraseBelow_runs (s := .right) held apart (SearchTree.ids_erase r val) run₁ held₁ erased₁
        exact ⟨h', deleteNode_at opened (by rwa [if_neg less, if_pos more]), held', erased⟩
      · rw [if_neg more] at tidy ⊢
        have start {top : Nat} {h' : Heap α} (run : _) : Runs (deleteNode (fuel + 1) id val) h top h' := deleteNode_at opened run
        rw [if_neg less, if_neg more] at start
        cases l with
        | nil =>
          simp only [SearchTree.top_nil, true_or, if_true] at start
          cases r with
          | nil =>
            obtain ⟨h', run, erased⟩ := spliceNode_runs_nil opened (by simpa using counted)
            exact ⟨h', start run, trivial, erased⟩
          | node c a u b =>
            obtain ⟨h', run, held', erased⟩ := deleteNode_runs_child opened.swap rightHeld apart (by omega) tidy
            exact ⟨h', start run, held', erased⟩
        | node c a u b =>
          cases r with
          | nil =>
            simp only [SearchTree.top_nil, or_true, if_true] at start
            obtain ⟨h', run, held', erased⟩ := deleteNode_runs_child opened leftHeld apart (by omega) tidy
            exact ⟨h', start run, held', erased⟩
          | node d e w f =>
            have both : ¬ ((SearchTree.node c a u b).top = 0 ∨ (SearchTree.node d e w f).top = 0) :=
              not_or.mpr ⟨leftHeld.1, rightHeld.1⟩
            rw [if_neg both] at start
            have enoughRight : (SearchTree.node d e w f).height < fuel := by omega
            have deepRight : (SearchTree.node d e w f).height ≤ h.nonceNode :=
              Nat.le_trans (Nat.le_succ_of_le (Nat.le_max_right _ _)) deep
            obtain ⟨h₂, run₂, held₂, erased₂⟩ := hr (rightHeld.set { n with val := e.minVal w } offRight) rightApart
              enoughRight deepRight (by simp only [Heap.set_setSize]; omega) tidy
            obtain ⟨h', run, held', erased⟩ :=
              takeLeast_runs opened live leftHeld rightHeld apart deepRight (SearchTree.ids_erase _ _) run₂ held₂ erased₂
            exact ⟨h', start run, held', erased⟩

end

end BandChain.StoredSet
