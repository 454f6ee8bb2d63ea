import BandChain.Store.Whole

/-!
Iterators of a `Set` whose parent links are exact. `operator++` and `operator--` are one walk, to
either side: down into the subtree ahead, or else up to the first ancestor that lies ahead.
-/

namespace BandChain.StoredSet

open SearchTree (join mem_join nodup_join height_join exists_join outer toward)

variable {α : Type} [Serial α] {old : Nat → Option (Node α)} {h : Heap α}

/-- One round of the loop upwards, at a node with a parent. -/
theorem climb_runs {side : Side} {p id below fuel top : Nat} {near far : SearchTree Nat α} {v : α} {n m : Node α} {s : Side}
    (opened : Open True h p id s near v far n) (found : h.node below = some m) (parent : m.parent = id)
    (next : Runs (if n.child side = below then climb side fuel id else Pure.pure id) h top h) :
    Runs (climb side (fuel + 1) below) h top h := by
  unfold climb
  refine (getNode_runs found).bind ?_
  simp only [parent, if_neg opened.named]
  exact (getNode_runs opened.found).bind next

/-- From the last node of a subtree the loop upwards comes to the root of the subtree. -/
theorem climb_last (side : Side) {p x : Nat} {t : SearchTree Nat α} (held : Held old True h p t) (last : outer side t.ids = some x) :
    (∃ n, x ≠ 0 ∧ h.node x = some n ∧ n.child side = 0) ∧
      ∃ k < t.height, ∀ fuel top, Runs (climb side fuel t.top) h top h → Runs (climb side (fuel + k) x) h top h := by
  induction t using SearchTree.join_induction side generalizing p with
  | nil => cases side <;> cases last
  | node id near v far ih _ =>
    obtain ⟨⟨n, opened, _⟩, nearHeld, _⟩ := held.open
    rw [SearchTree.outer_ids_join] at last
    rw [height_join, top_join]
    by_cases empty : near = .nil
    · subst empty
      have here : outer side (SearchTree.nil : SearchTree Nat α).ids = none := by cases side <;> rfl
      rw [here] at last
      cases last
      exact ⟨⟨n, opened.named, opened.found, opened.near⟩, 0, Nat.succ_pos _, fun _ _ run => run⟩
    · obtain ⟨y, a, u, b, rfl⟩ := exists_join side empty
      rw [SearchTree.outer_ids_join] at last
      obtain ⟨found, k, short, climbs⟩ := ih nearHeld (by rw [SearchTree.outer_ids_join]; simpa using last)
      obtain ⟨⟨m, child, _⟩, _, _⟩ := nearHeld.open
      refine ⟨found, k + 1, by omega, fun fuel top run => ?_⟩
      rw [show fuel + (k + 1) = fuel + 1 + k by omega]
      refine climbs (fuel + 1) top ?_
      rw [top_join]
      refine climb_runs opened child.found (child.parent trivial) ?_
      rwa [opened.near, top_join, if_pos rfl]

/-- An iterator goes to the next node of the tree. -/
theorem advance_runs (side : Side) {p x y : Nat} {t : SearchTree Nat α} {pre post : List Nat} (held : Held old True h p t)
    (apart : t.ids.Nodup) (deep : t.height ≤ h.nonceNode) (split : toward side t.ids = pre ++ x :: y :: post) :
    Runs (advance side x) h y h := by
  induction t using SearchTree.join_induction side generalizing p pre post with
  | nil => cases side <;> cases pre <;> cases split
  | node id near v far nearIh farIh =>
    obtain ⟨⟨n, opened, _⟩, nearHeld, farHeld⟩ := held.open
    obtain ⟨offNear, offFar, nearApart, farApart, across⟩ := nodup_join.mp apart
    rw [height_join] at deep
    rw [SearchTree.toward_ids_join] at split
    have start {x : Nat} {m : Node α} (named : x ≠ 0) (found : h.node x = some m)
        (next : Runs (if m.child side = 0 then climb side (h.nonceNode + 1) x
          else outermost side.other (h.nonceNode + 1) (m.child side)) h y h) : Runs (advance side x) h y h := by
      unfold advance
      rw [if_neg named]
      refine (getNode_runs found).bind ?_
      split at next
      · rw [if_pos ‹_›]
        exact Runs.rounds.bind next
      · rw [if_neg ‹_›]
        exact Runs.rounds.bind next
    rcases SearchTree.neighbours split with ⟨rest, inFar⟩ | ⟨inFar, rfl⟩ | ⟨rfl, inNear⟩ | ⟨rest, inNear⟩
    · exact farIh farHeld farApart (by omega) inFar
    · -- The last node of the far subtree climbs to that subtree's root, and from there to this node.
      have last : outer side far.ids = some x := by
        rw [← SearchTree.getLast?_toward, inFar, List.getLast?_append]
        rfl
      obtain ⟨⟨m, named, found, childless⟩, k, short, climbs⟩ := climb_last side farHeld last
      refine start named found ?_
      rw [if_pos childless]
      obtain ⟨fuel, enough⟩ : ∃ fuel, h.nonceNode + 1 = fuel + 1 + k := ⟨h.nonceNode - k, by omega⟩
      rw [enough]
      refine climbs (fuel + 1) _ ?_
      have present : far ≠ .nil := by
        rintro rfl
        cases side <;> cases last
      obtain ⟨z, a, u, b, rfl⟩ := exists_join side present
      obtain ⟨⟨w, child, _⟩, _, _⟩ := farHeld.open
      rw [top_join]
      refine climb_runs opened child.found (child.parent trivial) ?_
      have apartTops : n.child side ≠ z := by
        rw [opened.near]
        intro same
        have mem : near.top ∈ near.ids := top_mem (by rw [same]; exact child.named)
        exact across _ mem (by rw [same]; simp)
      rw [if_neg apartTops]
      exact Runs.pure _
    · -- The first node of the subtree ahead.
      have present : near ≠ .nil := by
        rintro rfl
        cases side <;> cases inNear
      obtain ⟨i, _, run, _, first, _⟩ := outermost_runs (s := side.other) nearHeld present
        (show near.height ≤ h.nonceNode + 1 by omega)
      have ahead : i = y := by
        rw [← SearchTree.head?_toward, inNear] at first
        exact (Option.some.inj first).symm
      refine start opened.named opened.found ?_
      rw [opened.near, if_neg (nearHeld.top_eq_zero.not.mpr present), ← ahead]
      exact run
    · exact nearIh nearHeld nearApart (by omega) inNear

theorem advance_last (side : Side) {x : Nat} {t : SearchTree Nat α} (held : Held old True h 0 t) (deep : t.height ≤ h.nonceNode)
    (last : outer side t.ids = some x) : Runs (advance side x) h 0 h := by
  obtain ⟨⟨n, named, found, childless⟩, k, short, climbs⟩ := climb_last side held last
  obtain ⟨fuel, enough⟩ : ∃ fuel, h.nonceNode + 1 = fuel + 1 + k := ⟨h.nonceNode - k, by omega⟩
  have present : t ≠ .nil := by
    rintro rfl
    cases side <;> cases last
  obtain ⟨id, near, v, far, rfl⟩ := exists_join side present
  obtain ⟨⟨m, opened, _⟩, _, _⟩ := held.open
  unfold advance
  rw [if_neg named]
  refine (getNode_runs found).bind ?_
  rw [if_pos childless]
  refine Runs.rounds.bind ?_
  rw [enough]
  refine climbs (fuel + 1) 0 ?_
  rw [top_join]
  unfold climb
  refine (getNode_runs opened.found).bind ?_
  simp only [opened.parent trivial, if_true]
  exact Runs.pure 0

/-! ### A loop over the elements -/

/-- A caller's loop from an iterator to the end iterator, and the elements it sees. -/
def visit [Inhabited α] (side : Side) : Nat → Nat → Exec Stop (StoredSet α) (List α)
  | 0, _ => Exec.stop .crash
  | fuel + 1, it => do
    if it = 0 then return []
    else
      let val ← value it
      let rest ← visit side fuel (← advance side it)
      return val :: rest

/-- `for (auto it = begin(); ...; ++it)`, with one round for each element and one for the end. -/
def ascending [Inhabited α] : Exec Stop (StoredSet α) (List α) := do visit .right ((← size) + 1) (← begin)

/-- `for (auto it = last(); ...; --it)`. -/
def descending [Inhabited α] : Exec Stop (StoredSet α) (List α) := do visit .left ((← size) + 1) (← last)

variable [Inhabited α]

omit [Serial α] [Inhabited α] in
theorem Held.vals_eq {p : Nat} {strict : Prop} {t : SearchTree Nat α} (held : Held old strict h p t) :
    t.ids.map (fun id => (h.node id).map Node.val) = t.vals.map some := by
  induction t generalizing p with
  | nil => rfl
  | node id l v r hl hr =>
    obtain ⟨_, ⟨n, found, ⟨_, _, val, _⟩, _⟩, left, right⟩ := held
    simp [hl left, hr right, found, val]

theorem visit_runs (side : Side) {t : SearchTree Nat α} (held : Held old True h 0 t) (apart : t.ids.Nodup)
    (deep : t.height ≤ h.nonceNode) {pre rest : List Nat} {fuel : Nat} (split : toward side t.ids = pre ++ rest)
    (enough : rest.length < fuel) :
    ∃ vals, Runs (visit side fuel (rest.head?.getD 0)) h vals h ∧
      vals.map some = rest.map fun id => (h.node id).map Node.val := by
  induction rest generalizing pre fuel with
  | nil =>
    obtain ⟨fuel, rfl⟩ : ∃ k, fuel = k + 1 := ⟨fuel - 1, by omega⟩
    exact ⟨[], Runs.pure [], rfl⟩
  | cons x rest ih =>
    obtain ⟨fuel, rfl⟩ : ∃ k, fuel = k + 1 := ⟨fuel - 1, by omega⟩
    have mem : x ∈ t.ids := by
      have inside : x ∈ toward side t.ids := by rw [split]; simp
      cases side
      · exact List.mem_reverse.mp inside
      · exact inside
    obtain ⟨_, _, _, _, ⟨named, ⟨n, found, _⟩, _⟩, _, _⟩ := held.at mem
    have step : Runs (advance side x) h (rest.head?.getD 0) h := by
      cases rest with
      | nil =>
        refine advance_last side held deep ?_
        rw [← SearchTree.getLast?_toward, split, List.getLast?_append]
        rfl
      | cons y rest => exact advance_runs side held apart deep split
    have onward : toward side t.ids = (pre ++ [x]) ++ rest := by
      rw [split]
      simp
    obtain ⟨vals, run, same⟩ := ih onward (by simpa using enough)
    refine ⟨n.val :: vals, ?_, by simp [found, same]⟩
    change Runs (visit side (fuel + 1) x) h _ h
    unfold visit value
    rw [if_neg named, if_neg named]
    exact ((getNode_runs found).bind (Runs.pure n.val)).bind (step.bind (run.bind (Runs.pure _)))

variable [LinearOrder α]

omit [Inhabited α] in
theorem Whole.start_runs {strict : Prop} {t : SearchTree Nat α} (whole : Whole old strict h t) (present : t ≠ .nil) (side : Side) :
    ∃ id, outer side t.ids = some id ∧ Runs (do outermost side (← rounds) (← Exec.get).nonceRoot) h id h := by
  obtain ⟨id, n, run, _, first, _⟩ := whole.outermost_runs present side
  refine ⟨id, first, Runs.rounds.bind (Runs.get fun s seen => ?_)⟩
  have root : s.nonceRoot = t.top := (congrArg Heap.nonceRoot seen).trans whole.root
  rwa [root]

/-- A loop from one end of the set to the other sees every element once, in order. -/
theorem Whole.visit_runs {t : SearchTree Nat α} (whole : Whole old True h t) {s : Side} {start : Exec Stop (StoredSet α) Nat}
    {id : Nat} (first : outer s.other t.ids = some id) (begins : Runs start h id h) :
    Runs (do visit s ((← size) + 1) (← start)) h (toward s t.vals) h := by
  have count : (toward s t.ids).length = t.vals.length := by
    rw [← SearchTree.length_ids]
    cases s <;> simp [toward]
  obtain ⟨vals, visits, same⟩ := StoredSet.visit_runs s whole.held whole.apart whole.height_le
    (List.nil_append _).symm (show (toward s t.ids).length < t.vals.length + 1 by omega)
  rw [SearchTree.head?_toward, first] at visits
  have values : vals = toward s t.vals := by
    have sees := whole.held.vals_eq
    refine List.map_injective_iff.mpr (Option.some_injective α) ?_
    rw [same]
    cases s
    · simp [toward, List.map_reverse, sees]
    · exact sees
  rw [← values]
  exact whole.size_runs.bind (begins.bind visits)

theorem Whole.ascending_runs {t : SearchTree Nat α} (whole : Whole old True h t) (present : t ≠ .nil) :
    Runs ascending h t.vals h := by
  obtain ⟨id, first, begins⟩ := whole.start_runs present .left
  exact whole.visit_runs (s := .right) first begins

theorem Whole.descending_runs {t : SearchTree Nat α} (whole : Whole old True h t) (present : t ≠ .nil) :
    Runs descending h t.vals.reverse h := by
  obtain ⟨id, first, begins⟩ := whole.start_runs present .right
  exact whole.visit_runs (s := .left) first begins

end BandChain.StoredSet
