import BandChain.Store.Whole

/-!
Sets whose heights are out of date. An insertion that throws has linked its node already and leaves
the heights above it, so the records still form a tree; each says a height between one and the
number of nodes below it. Every call keeps such a tree, whether it returns or throws.
-/

namespace BandChain.StoredSet

open SearchTree (top join mem_join nodup_join exists_join join_other)

variable {α : Type} {old : Nat → Option (Node α)}

/-! ### Trees of records -/

/-- Each node has a record with its links and value, which a flush leaves in the storage. -/
def Rests (old : Nat → Option (Node α)) (h : Heap α) : SearchTree Nat α → Prop
  | .nil => True
  | .node id l v r =>
    id ≠ 0 ∧
      (∃ n, h.node id = some n ∧ Kept old id (Node.Fits False l.top v r.top n.height 0) n ∧ 0 < n.height ∧
        n.height ≤ l.ids.length + r.ids.length + 1) ∧
      Rests old h l ∧ Rests old h r

theorem Rests.frame {h h' : Heap α} {t : SearchTree Nat α} (rests : Rests old h t) (same : ∀ id ∈ t.ids, h'.node id = h.node id) :
    Rests old h' t := by
  induction t with
  | nil => trivial
  | node id l v r hl hr =>
    obtain ⟨named, ⟨n, found, kept⟩, left, right⟩ := rests
    refine ⟨named, ⟨n, (same id (by simp)).trans found, kept⟩, hl left ?_, hr right ?_⟩
    · exact fun i mem => same i (by simp [mem])
    · exact fun i mem => same i (by simp [mem])

theorem Rests.set {h : Heap α} {t : SearchTree Nat α} (rests : Rests old h t) {id : Nat} (n : Node α) (apart : id ∉ t.ids) :
    Rests old (h.set id n) t :=
  rests.frame fun _ mem => h.set_ne n (ne_of_mem_of_not_mem mem apart)

theorem rests_join {s : Side} {h : Heap α} {id : Nat} {near far : SearchTree Nat α} {v : α} :
    Rests old h (join s id near v far) ↔
      id ≠ 0 ∧
      (∃ n, h.node id = some n ∧
        Kept old id (fun m => m.child s = near.top ∧ m.child s.other = far.top ∧ m.val = v ∧ m.height = n.height) n ∧
        0 < n.height ∧ n.height ≤ near.ids.length + far.ids.length + 1) ∧
      Rests old h near ∧ Rests old h far := by
  cases s with
  | left => simp only [join, Rests, Kept, Node.Fits, Node.child, Side.other, false_implies, and_true]
  | right =>
    simp only [join, Rests, Kept, Node.Fits, Node.child, Side.other, false_implies, and_true, Nat.add_comm far.ids.length,
      and_left_comm (a := Node.left _ = _), and_comm (a := Rests old h near)]

theorem Rests.tall {h : Heap α} {t : SearchTree Nat α} (rests : Rests old h t) :
    ∃ k, Tall h t.top k ∧ (k = 0 ↔ t = .nil) ∧ k ≤ t.ids.length := by
  cases t with
  | nil => exact ⟨0, .missing, by simp, Nat.zero_le _⟩
  | node id l v r =>
    obtain ⟨named, ⟨n, found, _, positive, bounded⟩, _⟩ := rests
    refine ⟨n.height, .found named found, ?_, by simp; omega⟩
    simp [positive.ne']

theorem Rests.top_eq_zero {h : Heap α} {t : SearchTree Nat α} (rests : Rests old h t) : t.top = 0 ↔ t = .nil := by
  cases t with
  | nil => simp
  | node id l v r => simp [rests.1]

theorem Rests.named {h : Heap α} {t : SearchTree Nat α} (rests : Rests old h t) {id : Nat} (mem : id ∈ t.ids) : id ≠ 0 := by
  induction t with
  | nil => cases mem
  | node i l v r hl hr =>
    obtain ⟨named, _, left, right⟩ := rests
    rcases List.mem_append.mp mem with mem | mem
    · exact hl left mem
    · rcases List.mem_cons.mp mem with rfl | mem
      · exact named
      · exact hr right mem

theorem Rests.open {s : Side} {h : Heap α} {id : Nat} {near far : SearchTree Nat α} {v : α}
    (rests : Rests old h (join s id near v far)) :
    (∃ n, Open False h 0 id s near v far n ∧ n.status ≠ .erased) ∧ Rests old h near ∧ Rests old h far := by
  obtain ⟨named, ⟨n, found, ⟨⟨nearLink, farLink, val, _⟩, live, _⟩, _⟩, hn, hf⟩ := rests_join.mp rests
  exact ⟨⟨n, ⟨named, found, nearLink, farLink, val, nofun⟩, live⟩, hn, hf⟩

theorem Open.rests {s : Side} {h : Heap α} {id : Nat} {near far : SearchTree Nat α} {v : α} {n : Node α}
    (opened : Open False h 0 id s near v far n) (changed : n.status = .changed) (positive : 0 < n.height)
    (bounded : n.height ≤ near.ids.length + far.ids.length + 1) (nearRests : Rests old h near) (farRests : Rests old h far) :
    Rests old h (join s id near v far) := by
  refine rests_join.mpr ⟨opened.named, ⟨n, opened.found, ⟨⟨opened.near, opened.far, opened.val, rfl⟩, ?_, ?_⟩, positive, bounded⟩,
    nearRests, farRests⟩
  · rw [changed]
    nofun
  · rw [changed]
    nofun

theorem Rests.adopted {h h' : Heap α} {p : Nat} {t : SearchTree Nat α} (rests : Rests old h t) (apart : t.ids.Nodup)
    (adopted : t.top ≠ 0 → ∀ w, h.node t.top = some w → h'.node t.top = some { w with parent := p, status := .changed })
    (others : ∀ i ∈ t.ids, i ≠ t.top → h'.node i = h.node i) : Rests old h' t := by
  cases t with
  | nil => trivial
  | node id l v r =>
    obtain ⟨named, ⟨n, found, ⟨⟨left, right, val, _⟩, _⟩, bounds⟩, hl, hr⟩ := rests
    obtain ⟨offLeft, offRight, -⟩ := (nodup_join (s := .left)).mp apart
    refine ⟨named, ⟨_, adopted named n found, ⟨⟨left, right, val, rfl, nofun⟩, nofun, nofun⟩, bounds⟩, hl.frame fun i mem => ?_,
      hr.frame fun i mem => ?_⟩
    · exact others i (by simp [mem]) (ne_of_mem_of_not_mem mem offLeft)
    · exact others i (by simp [mem]) (ne_of_mem_of_not_mem mem offRight)

/-! ### Rotations -/

section

variable [Serial α]

theorem raise_rests {s : Side} {h : Heap α} {id : Nat} {near far : SearchTree Nat α} {v : α} {n : Node α}
    (opened : Open False h 0 id s near v far n) (present : near ≠ .nil) (nearRests : Rests old h near) (farRests : Rests old h far)
    (apart : (join s id near v far).ids.Nodup) :
    ∃ h', Runs (rotate s id) h ((join s id near v far).raise s).top h' ∧ Rests old h' ((join s id near v far).raise s) ∧
      Frame (join s id near v far).ids h h' := by
  obtain ⟨x, a, u, b, rfl⟩ := exists_join s present
  obtain ⟨yNear, yc, inner, _, across⟩ := nodup_join.mp apart
  obtain ⟨xa, xb, _, apartB, ab⟩ := nodup_join.mp inner
  simp only [mem_join, not_or, forall_eq_or_imp] at yNear across
  obtain ⟨yx, ya, yb⟩ := yNear
  have cb (i : Nat) (mem : i ∈ far.ids) : i ∉ b.ids := fun inB => across.2 i (Or.inr inB) mem
  obtain ⟨⟨m, child, _⟩, restsA, restsB⟩ := nearRests.open
  obtain ⟨ha, tallA, _, boundA⟩ := restsA.tall
  obtain ⟨hb, tallB, _, boundB⟩ := restsB.tall
  obtain ⟨hc, tallC, _, boundC⟩ := farRests.tall
  obtain ⟨h', run, rotated⟩ := rotate_rotates opened.named opened.found child.found yx (opened.near.trans top_join) child.far
    ⟨top_ne child.named xb, top_ne opened.named yb⟩
    (child.near ▸ ⟨top_ne child.named xa, top_ne opened.named ya, tops_apart ab⟩)
    (opened.far ▸ ⟨top_ne child.named across.1, top_ne opened.named yc, tops_apart cb⟩)
    (child.near ▸ tallA) tallB (opened.far ▸ tallC)
  rw [SearchTree.raise_join, top_join]
  refine ⟨h', run, ?_, rotated.frame⟩
  have low : Rests old h' (join s id b v far) := by
    refine Open.rests ⟨opened.named, rotated.lowered, ?_, ?_, (withChild_val _ _ _).trans opened.val, False.elim⟩
      rfl (Nat.succ_pos _) ?_ ?_ (farRests.frame (rotated.outside across.1 yc cb))
    · exact child_withChild s b.top n
    · exact (child_withChild_other s b.top n).trans opened.far
    · change max hb hc + 1 ≤ _
      omega
    · exact restsB.adopted apartB rotated.adopted fun i mem ne =>
        rotated.others i (ne_of_mem_of_not_mem mem xb) (ne_of_mem_of_not_mem mem yb) fun same => (ne same).elim
  refine Open.rests ⟨child.named, rotated.raised, ?_, ?_, (withChild_val _ _ _).trans child.val, False.elim⟩
    rfl (Nat.succ_pos _) ?_ (restsA.frame (rotated.outside xa ya ab)) low
  · exact (child_other_withChild s id m).trans child.near
  · exact (child_other_withChild_other s id m).trans top_join.symm
  · change max ha (max hb hc + 1) + 1 ≤ _
    rw [SearchTree.length_ids_join]
    omega

theorem raiseInner_rests {s : Side} {h : Heap α} {id y : Nat} {a b far : SearchTree Nat α} {u v : α} {n : Node α}
    (opened : Open False h 0 id s (join s y a u b) v far n) (inner : b ≠ .nil) (nearRests : Rests old h (join s y a u b))
    (farRests : Rests old h far) (apart : (join s id (join s y a u b) v far).ids.Nodup) :
    ∃ h', Runs (rotateTwice s id) h ((join s id (join s y a u b) v far).raiseInner s).top h' ∧
      Rests old h' ((join s id (join s y a u b) v far).raiseInner s) ∧ Frame (join s id (join s y a u b) v far).ids h h' := by
  obtain ⟨offNear, offFar, nearApart, farApart, across⟩ := nodup_join.mp apart
  obtain ⟨⟨m, child, _⟩, restsA, restsB⟩ := nearRests.open
  -- The child is opened from its inner side and rotated below the node.
  have turned : Open False h 0 y s.other b u a m := by
    refine ⟨child.named, child.found, child.far, ?_, child.val, nofun⟩
    rw [← child.near]
    cases s <;> rfl
  obtain ⟨h₁, run₁, rests₁, frame₁⟩ := raise_rests turned inner restsB restsA (by rwa [join_other])
  rw [join_other] at run₁ rests₁ frame₁
  -- Its new root takes its place.
  have found₁ : h₁.node id = some n := (frame₁.node id offNear).trans opened.found
  let n₂ : Node α := n.withChild s ((join s y a u b).raise s.other).top
  have opened₂ : Open False (h₁.set id n₂) 0 id s ((join s y a u b).raise s.other) v far n₂ :=
    ⟨opened.named, Heap.set_self _ _ _, child_withChild _ _ _, (child_withChild_other _ _ _).trans opened.far,
      (withChild_val _ _ _).trans opened.val, nofun⟩
  have present : (join s y a u b).raise s.other ≠ .nil := by
    intro empty
    have same := SearchTree.ids_raise s.other (join s y a u b)
    rw [empty] at same
    have mem : y ∈ (join s y a u b).ids := mem_join.mpr (Or.inl rfl)
    rw [← same] at mem
    cases mem
  have near₂ := rests₁.set n₂ (by rwa [SearchTree.ids_raise])
  have far₂ : Rests old (h₁.set id n₂) far :=
    (farRests.frame fun i mem => frame₁.node i fun inNear => across i inNear mem).set n₂ offFar
  obtain ⟨h₃, run₃, rests₃, frame₃⟩ := raise_rests opened₂ present near₂ far₂ (by rwa [SearchTree.ids_raise_join])
  rw [SearchTree.raiseInner_join]
  rw [SearchTree.ids_raise_join] at frame₃
  refine ⟨h₃, ?_, rests₃, (frame₁.mono ?_).trans ((Frame.set h₁ n₂ (by simp)).trans frame₃)⟩
  · unfold rotateTwice
    refine (getNode_runs opened.found).bind ?_
    simp only [opened.near, top_join]
    exact run₁.bind ((modifyNode_runs _ found₁).bind run₃)
  · intro i mem
    exact mem_join.mpr (Or.inr (Or.inl mem))

/-! ### A node above a change -/

theorem updateParent_rests {h : Heap α} {p : Nat} {t : SearchTree Nat α} (rests : Rests old h t) (apart : t.ids.Nodup) :
    ∃ h', Runs (updateParent p t.top) h () h' ∧ Rests old h' t ∧ Frame t.ids h h' := by
  cases t with
  | nil => exact ⟨h, Runs.pure (), trivial, Frame.refl _ h⟩
  | node id l v r =>
    obtain ⟨named, ⟨n, found, ⟨⟨left, right, val, _⟩, live, saved⟩, bounds⟩, hl, hr⟩ := rests
    obtain ⟨offLeft, offRight, -⟩ := (nodup_join (s := .left)).mp apart
    rw [updateParent, SearchTree.top_node, if_neg named]
    refine ⟨_, modifyNode_runs _ found, ⟨named, ⟨_, h.set_self id _, ⟨?_, live, saved⟩, bounds⟩, hl.set _ offLeft, hr.set _ offRight⟩,
      Frame.set h _ (by simp)⟩
    exact ⟨left, right, val, rfl, False.elim⟩

/-- A node with its height up to date, before it is rotated. -/
structure Ready (old : Nat → Option (Node α)) (h : Heap α) (id : Nat) (l : SearchTree Nat α) (x : α) (r : SearchTree Nat α)
    (n : Node α) (a b : Nat) : Prop where
  opened : Open False h 0 id .left l x r n
  left : Rests old h l
  right : Rests old h r
  whole : Rests old h (.node id l x r)
  leftTall : Tall h l.top a
  rightTall : Tall h r.top b
  leftNil : a = 0 ↔ l = .nil
  rightNil : b = 0 ↔ r = .nil
  rightBound : b ≤ r.ids.length

theorem updateHeight_rests {h : Heap α} {id : Nat} {l r : SearchTree Nat α} {x : α} {n : Node α}
    (opened : Open False h 0 id .left l x r n) (left : Rests old h l) (right : Rests old h r)
    (apart : (SearchTree.node id l x r).ids.Nodup) :
    ∃ h' n' a b, Runs (updateHeight id) h () h' ∧ Ready old h' id l x r n' a b ∧ Frame (SearchTree.node id l x r).ids h h' := by
  obtain ⟨offLeft, offRight, -⟩ := (nodup_join (s := .left)).mp apart
  obtain ⟨a, leftTall, leftNil, leftBound⟩ := left.tall
  obtain ⟨b, rightTall, rightNil, rightBound⟩ := right.tall
  let n' : Node α := { n with height := max a b + 1, status := .changed }
  have opened' : Open False (h.set id n') 0 id .left l x r n' :=
    ⟨opened.named, h.set_self id n', opened.near, opened.far, opened.val, nofun⟩
  have bounded : n'.height ≤ l.ids.length + r.ids.length + 1 := by
    change max a b + 1 ≤ _
    omega
  refine ⟨_, n', a, b, opened.updateHeight_runs leftTall rightTall, ⟨opened', left.set n' offLeft, right.set n' offRight, ?_, ?_, ?_,
    leftNil, rightNil, rightBound⟩, Frame.set h n' (by simp)⟩
  · exact opened'.rests rfl (Nat.succ_pos _) bounded (left.set n' offLeft) (right.set n' offRight)
  · exact leftTall.set n' (top_ne opened.named offLeft)
  · exact rightTall.set n' (top_ne opened.named offRight)

section

variable {h : Heap α} {id a b : Nat} {l r : SearchTree Nat α} {x : α} {n : Node α}

/-- `getBalance` of a child, and which of the grandchildren is there. -/
theorem Rests.getBalance_runs {y k : Nat} {c d : SearchTree Nat α} {u : α} (rests : Rests old h (.node y c u d)) (tall : Tall h y k) :
    ∃ balance : Bool × Nat, Runs (getBalance y) h balance h ∧ (balance.1 = false → d ≠ .nil) ∧
      (balance.1 = true → 1 < k → c ≠ .nil) := by
  have ⟨named, ⟨m, found, _, positive, bounded⟩, _⟩ := rests
  obtain ⟨⟨m', opened, _⟩, left, right⟩ := Rests.open (s := .left) rests
  obtain ⟨e, leftTall, leftNil, _⟩ := left.tall
  obtain ⟨f, rightTall, rightNil, _⟩ := right.tall
  refine ⟨_, opened.getBalance_runs leftTall rightTall, fun leans empty => ?_, fun leans high empty => ?_⟩
  · rw [if_pos (by rw [rightNil.mpr empty]; exact Nat.zero_le _)] at leans
    cases leans
  · -- A node without children says a height of one.
    cases tall with
    | missing => exact named rfl
    | found named' found' =>
      obtain rfl := Option.some.inj (found.symm.trans found')
      have level : f ≤ e := by
        by_contra above
        rw [if_neg above] at leans
        cases leans
      have none : d = .nil := rightNil.mp (by rw [leftNil.mpr empty] at level; omega)
      rw [empty, none] at bounded
      simp only [SearchTree.ids_nil, List.length_nil] at bounded
      omega

/-- Every rotation of a deletion finds the child it raises. -/
theorem settleErased_rests (opened : Open False h 0 id .left l x r n) (left : Rests old h l) (right : Rests old h r)
    (apart : (SearchTree.node id l x r).ids.Nodup) :
    ∃ t h', Runs (settleErased id) h t.top h' ∧ Rests old h' t ∧ t.ids = (SearchTree.node id l x r).ids ∧
      Frame (SearchTree.node id l x r).ids h h' := by
  obtain ⟨h₁, n₁, a, b, heightRuns, ready, frame⟩ := updateHeight_rests opened left right apart
  have leftLink : n₁.left = l.top := ready.opened.near
  have rightLink : n₁.right = r.top := ready.opened.far
  obtain ⟨heavyLeft, diff, balanceRuns, leftCase, rightCase⟩ := ready.opened.getBalance_cases ready.leftTall ready.rightTall
  have start {top : Nat} {h' : Heap α}
      (run : Runs (if heavyLeft = true ∧ 1 < diff then
          getBalance l.top >>= fun balance => if balance.1 = true then rotate .left id else rotateTwice .left id
        else if ¬ heavyLeft = true ∧ 1 < diff then
          getBalance r.top >>= fun balance => if ¬ balance.1 = true then rotate .right id else rotateTwice .right id
        else Pure.pure id) h₁ top h') :
      Runs (settleErased id) h top h' := by
    unfold settleErased
    refine heightRuns.bind (balanceRuns.bind ((getNode_runs ready.opened.found).bind ?_))
    rw [leftLink, rightLink]
    exact run
  by_cases left : b + 1 < a
  · rw [if_pos (leftCase.mpr left)] at start
    have present : l ≠ .nil := fun empty => by
      have := ready.leftNil.mpr empty
      omega
    obtain ⟨y, c, u, d, rfl⟩ := exists_join .left present
    obtain ⟨balance, childRuns, inner, _⟩ := ready.left.getBalance_runs ready.leftTall
    cases leans : balance.1 with
    | true =>
      obtain ⟨h₂, run, rests, frame'⟩ := raise_rests ready.opened present ready.left ready.right apart
      refine ⟨_, h₂, start (childRuns.bind ?_), rests, SearchTree.ids_raise _ _, frame.trans frame'⟩
      rwa [leans, if_pos rfl]
    | false =>
      obtain ⟨h₂, run, rests, frame'⟩ := raiseInner_rests (s := .left) ready.opened (inner leans) ready.left ready.right apart
      refine ⟨_, h₂, start (childRuns.bind ?_), rests, SearchTree.ids_raiseInner _ _, frame.trans frame'⟩
      rwa [leans, if_neg Bool.false_ne_true]
  · rw [if_neg (leftCase.not.mpr left)] at start
    by_cases right : a + 1 < b
    · rw [if_pos (rightCase.mpr right)] at start
      have present : r ≠ .nil := fun empty => by
        have := ready.rightNil.mpr empty
        omega
      obtain ⟨y, c, u, d, rfl⟩ := exists_join .left present
      obtain ⟨balance, childRuns, _, inner⟩ := ready.right.getBalance_runs ready.rightTall
      have mirrored : Open False h₁ 0 id .right (join .left y c u d) x l n₁ :=
        ⟨ready.opened.named, ready.opened.found, ready.opened.far, ready.opened.near, ready.opened.val, nofun⟩
      cases leans : balance.1 with
      | true =>
        obtain ⟨h₂, run, rests, frame'⟩ := raiseInner_rests (s := .right) (a := d) (b := c) mirrored (inner leans (by omega)) ready.right
          ready.left apart
        refine ⟨_, h₂, start (childRuns.bind ?_), rests, SearchTree.ids_raiseInner _ _, frame.trans frame'⟩
        rwa [leans, if_neg (not_not.mpr rfl)]
      | false =>
        obtain ⟨h₂, run, rests, frame'⟩ := raise_rests mirrored present ready.right ready.left apart
        refine ⟨_, h₂, start (childRuns.bind ?_), rests, SearchTree.ids_raise _ _, frame.trans frame'⟩
        rwa [leans, if_pos Bool.false_ne_true]
    · rw [if_neg (rightCase.not.mpr right)] at start
      exact ⟨.node id l x r, h₁, start (Runs.pure id), ready.whole, rfl, frame⟩

end

/-! ### Programs that may throw -/

/-- Whatever the cache holds, the program takes a set that looks like `h` to one that looks as `Q` says
when it returns, and as `E` says when it throws. No node has the number 0. -/
def Ends {β : Type} (x : Exec Stop (StoredSet α) β) (h : Heap α) (Q : β → Heap α → Prop) (E : Heap α → Prop) : Prop :=
  ∀ s, s.heap = h → s.storage (nodeKey s.baseKey 0) = none → ∃ s', s'.storage = s.storage ∧ s'.baseKey = s.baseKey ∧
    ((∃ b, x s = (.ok b, s') ∧ Q b s'.heap) ∨ (x s = (.error (.throw (.error .nodeNotFound)), s') ∧ E s'.heap))

namespace Ends

variable {β γ : Type} {h h' : Heap α} {Q : β → Heap α → Prop} {R : γ → Heap α → Prop} {E E' : Heap α → Prop}

theorem of_runs {x : Exec Stop (StoredSet α) β} {b : β} (run : Runs x h b h') (post : Q b h') : Ends x h Q E := by
  intro s same _
  obtain ⟨s', ran, seen, storage, baseKey⟩ := run s same
  exact ⟨s', storage, baseKey, Or.inl ⟨b, ran, seen ▸ post⟩⟩

theorem bind {x : Exec Stop (StoredSet α) β} {f : β → Exec Stop (StoredSet α) γ} (first : Ends x h Q E)
    (rest : ∀ b h', Q b h' → Ends (f b) h' R E') (stopped : ∀ h', E h' → E' h') : Ends (x >>= f) h R E' := by
  intro s same none
  obtain ⟨s', storage, baseKey, ⟨b, ran, post⟩ | ⟨ran, post⟩⟩ := first s same none
  · obtain ⟨t, storage', baseKey', last⟩ := rest b s'.heap post s' rfl (by rwa [storage, baseKey])
    refine ⟨t, storage'.trans storage, baseKey'.trans baseKey, ?_⟩
    rwa [Exec.bind_of_ok ran]
  · exact ⟨s', storage, baseKey, Or.inr ⟨Exec.bind_of_error ran, stopped _ post⟩⟩

theorem after {x : Exec Stop (StoredSet α) β} {f : β → Exec Stop (StoredSet α) γ} {b : β} (first : Runs x h b h')
    (rest : Ends (f b) h' R E) : Ends (x >>= f) h R E := by
  intro s same none
  obtain ⟨s', ran, seen, storage, baseKey⟩ := first s same
  obtain ⟨t, storage', baseKey', last⟩ := rest s' seen (by rwa [storage, baseKey])
  refine ⟨t, storage'.trans storage, baseKey'.trans baseKey, ?_⟩
  rwa [Exec.bind_of_ok ran]

theorem get {f : StoredSet α → Exec Stop (StoredSet α) β} (rest : ∀ s : StoredSet α, s.heap = h → Ends (f s) h Q E) :
    Ends (Exec.get >>= f) h Q E :=
  fun s same none => rest s same s same none

theorem mono {x : Exec Stop (StoredSet α) β} {Q' : β → Heap α → Prop} (ends : Ends x h Q E) (post : ∀ b h', Q b h' → Q' b h')
    (stopped : ∀ h', E h' → E' h') : Ends x h Q' E' := by
  intro s same none
  obtain ⟨s', storage, baseKey, last⟩ := ends s same none
  refine ⟨s', storage, baseKey, last.imp ?_ ?_⟩
  · exact fun ⟨b, ran, now⟩ => ⟨b, ran, post _ _ now⟩
  · exact fun ⟨ran, now⟩ => ⟨ran, stopped _ now⟩

end Ends

theorem getNode_zero {h : Heap α} {Q : Node α → Heap α → Prop} {E : Heap α → Prop} (missing : h.node 0 = none) (post : E h) :
    Ends (getNode 0) h Q E := by
  rintro s rfl none
  refine ⟨s, rfl, rfl, Or.inr ⟨?_, post⟩⟩
  have uncached : s.cache.lookup 0 = .none := (Option.or_eq_none_iff.mp missing).1
  simp only [getNode, uncached, none]

/-! ### Insertion -/

/-- A rotation around a missing child throws before it has changed anything. -/
theorem rotate_missing {s : Side} {h : Heap α} {id : Nat} {far : SearchTree Nat α} {v : α} {n : Node α}
    (opened : Open False h 0 id s .nil v far n) {Q : Nat → Heap α → Prop} {E : Heap α → Prop} (missing : h.node 0 = none) (post : E h) :
    Ends (rotate s id) h Q E := by
  unfold rotate
  refine Ends.after (getNode_runs opened.found) ?_
  simp only [opened.near, SearchTree.top_nil]
  exact (getNode_zero missing post).bind (Q := fun _ _ => False) (fun _ _ none => none.elim) fun _ same => same

section

variable [LinearOrder α]

/-- Where the child on a side is too high, it is raised unless its inner child is missing. -/
theorem raiseInserted_ends {s : Side} {h : Heap α} {id : Nat} {near far : SearchTree Nat α} {v val : α} {n : Node α}
    (opened : Open False h 0 id s near v far n) (present : near ≠ .nil) (nearRests : Rests old h near) (farRests : Rests old h far)
    (whole : Rests old h (join s id near v far)) (apart : (join s id near v far).ids.Nodup) (missing : h.node 0 = none) :
    Ends (raiseInserted s id val) h
      (fun top h' => ∃ t : SearchTree Nat α, t.top = top ∧ Rests old h' t ∧ t.ids = (join s id near v far).ids ∧
        Frame (join s id near v far).ids h h')
      (· = h) := by
  obtain ⟨y, a, u, b, rfl⟩ := exists_join s present
  obtain ⟨⟨m, child, _⟩, restsA, restsB⟩ := nearRests.open
  unfold raiseInserted
  refine Ends.after (getNode_runs opened.found) ?_
  simp only [opened.near, top_join]
  refine Ends.after (getNode_runs child.found) ?_
  rw [child.val]
  split
  · obtain ⟨h', run, rests, frame⟩ := raise_rests opened present nearRests farRests apart
    exact Ends.of_runs run ⟨_, rfl, rests, SearchTree.ids_raise _ _, frame⟩
  · split
    · by_cases inner : b = .nil
      · subst inner
        have turned : Open False h 0 y s.other .nil u a m := by
          refine ⟨child.named, child.found, child.far, ?_, child.val, False.elim⟩
          rw [← child.near]
          cases s <;> rfl
        unfold rotateTwice
        refine Ends.after (getNode_runs opened.found) ?_
        simp only [opened.near, top_join]
        exact (rotate_missing turned missing (E := fun h' => h' = h) rfl).bind (Q := fun _ _ => False) (fun _ _ none => none.elim) fun _ same => same
      · obtain ⟨h', run, rests, frame⟩ := raiseInner_rests opened inner nearRests farRests apart
        exact Ends.of_runs run ⟨_, rfl, rests, SearchTree.ids_raiseInner _ _, frame⟩
    · exact Ends.of_runs (Runs.pure id) ⟨_, top_join, whole, rfl, Frame.refl _ h⟩

/-- An insertion that throws at a node leaves it with its height up to date. -/
theorem settleInserted_ends {h : Heap α} {id : Nat} {l r : SearchTree Nat α} {x val : α} {n : Node α}
    (opened : Open False h 0 id .left l x r n) (leftRests : Rests old h l) (rightRests : Rests old h r)
    (apart : (SearchTree.node id l x r).ids.Nodup) (missing : h.node 0 = none) :
    Ends (settleInserted id val) h
      (fun top h' => ∃ t : SearchTree Nat α, t.top = top ∧ Rests old h' t ∧ t.ids = (SearchTree.node id l x r).ids ∧
        Frame (SearchTree.node id l x r).ids h h')
      (fun h' => Rests old h' (.node id l x r) ∧ Frame (SearchTree.node id l x r).ids h h') := by
  obtain ⟨h₁, n₁, a, b, heightRuns, ready, frame⟩ := updateHeight_rests opened leftRests rightRests apart
  obtain ⟨heavyLeft, diff, balanceRuns, leftCase, rightCase⟩ := ready.opened.getBalance_cases ready.leftTall ready.rightTall
  have off : 0 ∉ (SearchTree.node id l x r).ids := fun mem => ready.whole.named mem rfl
  have missing₁ : h₁.node 0 = none := (frame.node 0 off).trans missing
  unfold settleInserted
  refine Ends.after heightRuns (Ends.after balanceRuns ?_)
  dsimp only
  by_cases left : b + 1 < a
  · rw [if_pos (leftCase.mpr left)]
    have present : l ≠ .nil := fun empty => by
      have := ready.leftNil.mpr empty
      omega
    refine (raiseInserted_ends ready.opened present ready.left ready.right ready.whole apart missing₁).mono ?_ ?_
    · rintro _ h' ⟨t, rfl, rests, ids, frame'⟩
      exact ⟨t, rfl, rests, ids, frame.trans frame'⟩
    · rintro _ rfl
      exact ⟨ready.whole, frame⟩
  · rw [if_neg (leftCase.not.mpr left)]
    by_cases right : a + 1 < b
    · rw [if_pos (rightCase.mpr right)]
      have present : r ≠ .nil := fun empty => by
        have := ready.rightNil.mpr empty
        omega
      have mirrored : Open False h₁ 0 id .right r x l n₁ :=
        ⟨ready.opened.named, ready.opened.found, ready.opened.far, ready.opened.near, ready.opened.val, nofun⟩
      refine (raiseInserted_ends mirrored present ready.right ready.left ready.whole apart missing₁).mono ?_ ?_
      · rintro _ h' ⟨t, rfl, rests, ids, frame'⟩
        exact ⟨t, rfl, rests, ids, frame.trans frame'⟩
      · rintro _ rfl
        exact ⟨ready.whole, frame⟩
    · rw [if_neg (rightCase.not.mpr right)]
      exact Ends.of_runs (Runs.pure id) ⟨_, rfl, ready.whole, rfl, frame⟩

theorem settleInserted_join {s : Side} {h : Heap α} {id : Nat} {near far : SearchTree Nat α} {x val : α} {n : Node α}
    (opened : Open False h 0 id s near x far n) (nearRests : Rests old h near) (farRests : Rests old h far)
    (apart : (join s id near x far).ids.Nodup) (missing : h.node 0 = none) :
    Ends (settleInserted id val) h
      (fun top h' => ∃ t : SearchTree Nat α, t.top = top ∧ Rests old h' t ∧ t.ids = (join s id near x far).ids ∧
        Frame (join s id near x far).ids h h')
      (fun h' => Rests old h' (join s id near x far) ∧ Frame (join s id near x far).ids h h') := by
  cases s with
  | left => exact settleInserted_ends opened nearRests farRests apart missing
  | right => exact settleInserted_ends opened.swap farRests nearRests apart missing

/-- What an insertion that makes the nodes `new` changes. -/
structure Grown (new : List Nat) (t u : SearchTree Nat α) (h h' : Heap α) : Prop where
  ids : u.ids.Perm (new ++ t.ids)
  nonceNode : h'.nonceNode = h.nonceNode + new.length
  setSize : h'.setSize = h.setSize + new.length
  nonceRoot : h'.nonceRoot = h.nonceRoot
  node : ∀ id, id ∉ new ++ t.ids → h'.node id = h.node id

/-- The nodes have become a tree below `top`. -/
def Grows (old : Nat → Option (Node α)) (new : List Nat) (t : SearchTree Nat α) (h : Heap α) (top : Nat) (h' : Heap α) : Prop :=
  ∃ u : SearchTree Nat α, u.top = top ∧ Rests old h' u ∧ Grown new t u h h'

omit [Serial α] [LinearOrder α] in
theorem Grown.join {new : List Nat} {s : Side} {id : Nat} {near near' far : SearchTree Nat α} {v : α} {h h₁ h₂ : Heap α}
    (grown : Grown new near near' h h₁) (frame : Frame (join s id near' v far).ids h₁ h₂) :
    Grown new (join s id near v far) (join s id near' v far) h h₂ := by
  refine ⟨?_, frame.nonceNode.trans grown.nonceNode, frame.setSize.trans grown.setSize, frame.nonceRoot.trans grown.nonceRoot,
    fun i out => ?_⟩
  · refine (SearchTree.perm_join s id near' far v).trans ?_
    refine List.Perm.trans ?_ ((SearchTree.perm_join s id near far v).symm.append_left new)
    refine ((grown.ids.append_right far.ids).cons id).trans ?_
    rw [List.append_assoc]
    exact List.perm_middle.symm
  · simp only [List.mem_append, mem_join, not_or] at out
    obtain ⟨notNew, notId, notNear, notFar⟩ := out
    have still : i ∉ new ++ near.ids := by simp [notNew, notNear]
    refine (frame.node i ?_).trans (grown.node i still)
    simp only [mem_join, not_or]
    exact ⟨notId, fun mem => still (grown.ids.subset mem), notFar⟩

/-- What an insertion below a node, whether it returns or throws, makes of the node. -/
theorem insertBelow_ends {s : Side} {h : Heap α} {id : Nat} {near far : SearchTree Nat α} {v val : α} {new : List Nat}
    {x : Exec Stop (StoredSet α) Nat} (rests : Rests old h (join s id near v far))
    (apart : (new ++ (join s id near v far).ids).Nodup) (missing : h.node 0 = none) (named : 0 ∉ new)
    (below : Ends x h (Grows old new near h) (Grows old new near h near.top)) :
    Ends (x >>= fun child => modifyNode id (Node.withChild s child) >>= fun _ => updateParent id child >>= fun _ =>
        settleInserted id val) h
      (Grows old new (join s id near v far) h) (Grows old new (join s id near v far) h id) := by
  obtain ⟨n, opened, live⟩ := rests.open.1
  obtain ⟨-, ⟨n', found', kept, positive, bounded⟩, nearRests, farRests⟩ := rests_join.mp rests
  obtain rfl := Option.some.inj (opened.found.symm.trans found')
  -- The nodes apart from each other, those of the tree below as they were.
  have apartAll := (((SearchTree.perm_join s id near far v).append_left new).trans List.perm_middle).nodup_iff.mp apart
  rw [← List.append_assoc, List.nodup_cons, List.nodup_append] at apartAll
  obtain ⟨offId, apartNear, apartFar, across⟩ := apartAll
  have offNear : id ∉ new ++ near.ids := fun mem => offId (List.mem_append_left _ mem)
  have offFar : id ∉ far.ids := fun mem => offId (List.mem_append_right _ mem)
  have joined (u : SearchTree Nat α) (ids : u.ids.Perm (new ++ near.ids)) : (join s id u v far).ids.Nodup :=
    nodup_join.mpr ⟨fun mem => offNear (ids.subset mem), offFar, ids.nodup_iff.mpr apartNear, apartFar,
      fun i mem inFar => across i (ids.subset mem) i inFar rfl⟩
  have noFar (i : Nat) (mem : i ∈ far.ids) : i ∉ new ++ near.ids := fun inNear => across i inNear i mem rfl
  refine below.bind ?_ ?_
  · rintro _ h₁ ⟨u, rfl, rests₁, grown⟩
    have found₁ : h₁.node id = some n := (grown.node id offNear).trans opened.found
    have offU : id ∉ u.ids := fun mem => offNear (grown.ids.subset mem)
    let n₂ : Node α := n.withChild s u.top
    obtain ⟨h₃, parentRuns, rests₃, frame₃⟩ := updateParent_rests (p := id) (rests₁.set n₂ offU) (grown.ids.nodup_iff.mpr apartNear)
    have found₃ : h₃.node id = some n₂ := (frame₃.node id offU).trans (Heap.set_self _ _ _)
    have opened₃ : Open False h₃ 0 id s u v far n₂ :=
      ⟨opened.named, found₃, child_withChild _ _ _, (child_withChild_other _ _ _).trans opened.far,
        (withChild_val _ _ _).trans opened.val, nofun⟩
    have far₃ : Rests old h₃ far := farRests.frame fun i mem =>
      (frame₃.node i fun inU => noFar i mem (grown.ids.subset inU)).trans
        ((Heap.set_ne _ _ (ne_of_mem_of_not_mem mem offFar)).trans (grown.node i (noFar i mem)))
    have frame : Frame (join s id u v far).ids h₁ h₃ :=
      (Frame.set h₁ n₂ (by simp)).trans (frame₃.mono fun i mem => by simp [mem])
    have missing₃ : h₃.node 0 = none := by
      have off : 0 ∉ (join s id u v far).ids := fun mem => by
        rcases mem_join.mp mem with same | mem | mem
        · exact opened.named same.symm
        · exact rests₁.named mem rfl
        · exact farRests.named mem rfl
      have below : 0 ∉ new ++ near.ids := fun mem => (List.mem_append.mp mem).elim named fun mem => nearRests.named mem rfl
      exact (frame.node 0 off).trans ((grown.node 0 below).trans missing)
    refine Ends.after (modifyNode_runs _ found₁) (Ends.after parentRuns ((settleInserted_join opened₃ rests₃ far₃ (joined u grown.ids)
      missing₃).mono ?_ ?_))
    · rintro _ h₄ ⟨t, rfl, rests₄, ids, frame₄⟩
      have whole := grown.join (frame.trans frame₄)
      exact ⟨t, rfl, rests₄, ids ▸ whole.ids, whole.nonceNode, whole.setSize, whole.nonceRoot, whole.node⟩
    · rintro h₄ ⟨rests₄, frame₄⟩
      exact ⟨_, top_join, rests₄, grown.join (frame.trans frame₄)⟩
  · rintro h₁ ⟨u, same, rests₁, grown⟩
    have longer : near.ids.length ≤ u.ids.length := by
      rw [grown.ids.length_eq, List.length_append]
      exact Nat.le_add_left _ _
    refine ⟨join s id u v far, top_join, rests_join.mpr ⟨opened.named, ⟨n, ?_, ?_, positive, by omega⟩, rests₁, ?_⟩,
      grown.join (Frame.refl _ h₁)⟩
    · exact (grown.node id offNear).trans opened.found
    · rwa [same]
    · exact farRests.frame fun i mem => grown.node i (noFar i mem)

/-- Whether the way down to a value ends at a node that holds it. -/
def meets (val : α) : SearchTree Nat α → Bool
  | .nil => false
  | .node _ l x r => if val < x then meets val l else if x < val then meets val r else true

/-- The nodes that an insertion makes. -/
def made (val : α) (t : SearchTree Nat α) (h : Heap α) : List Nat := if meets val t then [] else [h.nonceNode + 1]

theorem insertNode_ends {h : Heap α} {t : SearchTree Nat α} {val : α} {fuel : Nat} (rests : Rests old h t) (apart : t.ids.Nodup)
    (known : ∀ id ∈ t.ids, id ≤ h.nonceNode) (missing : h.node 0 = none) (fresh : h.node (h.nonceNode + 1) = none)
    (room : meets val t = false → h.nonceNode + 1 < 2 ^ 64) (enough : t.height < fuel) :
    Ends (insertNode fuel t.top val) h (Grows old (made val t h) t h) (Grows old (made val t h) t h t.top) := by
  induction t generalizing fuel with
  | nil =>
    obtain ⟨fuel, rfl⟩ : ∃ k, fuel = k + 1 := ⟨fuel - 1, by omega⟩
    refine Ends.of_runs (newNode_runs val (room rfl) fresh) ⟨.node (h.nonceNode + 1) .nil val .nil, rfl, ?_, ?_⟩
    · refine Open.rests (s := .left) ⟨Nat.succ_ne_zero _, Heap.set_self _ _ _, rfl, rfl, rfl, nofun⟩ rfl
        Nat.one_pos ?_ trivial trivial
      exact Nat.le_refl 1
    · refine ⟨List.Perm.refl _, rfl, rfl, rfl, fun id out => Heap.set_ne _ _ fun same => out ?_⟩
      rw [same]
      exact List.mem_singleton_self _
  | node id l x r hl hr =>
    obtain ⟨fuel, rfl⟩ : ∃ k, fuel = k + 1 := ⟨fuel - 1, by omega⟩
    simp only [SearchTree.height_node] at enough
    obtain ⟨⟨n, opened, _⟩, leftRests, rightRests⟩ := Rests.open (s := .left) rests
    obtain ⟨_, _, leftApart, rightApart, _⟩ := (nodup_join (s := .left)).mp apart
    have knownLeft (i : Nat) (mem : i ∈ l.ids) : i ≤ h.nonceNode := known i (by simp [mem])
    have knownRight (i : Nat) (mem : i ∈ r.ids) : i ≤ h.nonceNode := known i (by simp [mem])
    have newApart (u : SearchTree Nat α) : (made val u h ++ (SearchTree.node id l x r).ids).Nodup := by
      unfold made
      split
      · exact apart
      · refine List.nodup_cons.mpr ⟨fun mem => ?_, apart⟩
        have := known _ mem
        omega
    have named (u : SearchTree Nat α) : 0 ∉ made val u h := by
      unfold made
      split <;> simp
    have leftLink : n.left = l.top := opened.near
    have rightLink : n.right = r.top := opened.far
    rw [SearchTree.top_node, insertNode, if_neg opened.named]
    refine Ends.after (getNode_runs opened.found) ?_
    rw [opened.val, leftLink, rightLink]
    by_cases less : val < x
    · have same : made val (.node id l x r) h = made val l h := by simp [made, meets, less]
      have roomLeft : meets val l = false → h.nonceNode + 1 < 2 ^ 64 := fun new => room (by simp [meets, less, new])
      have enoughLeft : l.height < fuel := by omega
      rw [if_pos less, same]
      exact insertBelow_ends (s := .left) rests (newApart l) missing (named l) (hl leftRests leftApart knownLeft roomLeft enoughLeft)
    · rw [if_neg less]
      by_cases more : x < val
      · have same : made val (.node id l x r) h = made val r h := by simp [made, meets, less, more]
        have roomRight : meets val r = false → h.nonceNode + 1 < 2 ^ 64 := fun new => room (by simp [meets, less, more, new])
        have enoughRight : r.height < fuel := by omega
        rw [if_pos more, same]
        exact insertBelow_ends (s := .right) rests (newApart r) missing (named r)
          (hr rightRests rightApart knownRight roomRight enoughRight)
      · have none : made val (.node id l x r) h = [] := by simp [made, meets, less, more]
        rw [if_neg more, none]
        exact Ends.of_runs (Runs.pure id) ⟨_, rfl, rests, List.Perm.refl _, rfl, rfl, rfl, fun _ _ => rfl⟩

end

/-! ### Deletion -/

/-- What a deletion that erases the nodes `gone` changes. -/
structure Shrunk (gone : List Nat) (t u : SearchTree Nat α) (h h' : Heap α) : Prop where
  ids : t.ids.Perm (gone ++ u.ids)
  nonceNode : h'.nonceNode = h.nonceNode
  setSize : h'.setSize + gone.length = h.setSize
  nonceRoot : h'.nonceRoot = h.nonceRoot
  erased : ∀ id ∈ gone, ∃ n, h'.node id = some n ∧ n.status = .erased
  node : ∀ id, id ∉ t.ids → h'.node id = h.node id

def Shrinks (old : Nat → Option (Node α)) (t : SearchTree Nat α) (h : Heap α) (top : Nat) (h' : Heap α) : Prop :=
  ∃ (u : SearchTree Nat α) (gone : List Nat), u.top = top ∧ Rests old h' u ∧ Shrunk gone t u h h'

omit [Serial α] in
theorem Shrunk.join {gone : List Nat} {s : Side} {id : Nat} {near near' far : SearchTree Nat α} {v v' : α} {h h₁ h₂ h₃ : Heap α}
    (shrunk : Shrunk gone near near' h₁ h₂) (before : Frame [id] h h₁) (after : Frame (join s id near' v' far).ids h₂ h₃)
    (apart : (join s id near v far).ids.Nodup) : Shrunk gone (join s id near v far) (join s id near' v' far) h h₃ := by
  obtain ⟨offNear, offFar, nearApart, _, across⟩ := nodup_join.mp apart
  have divided := List.nodup_append.mp (shrunk.ids.nodup_iff.mp nearApart)
  refine ⟨?_, ?_, ?_, ?_, fun i mem => ?_, fun i out => ?_⟩
  · refine (SearchTree.perm_join s id near far v).trans ?_
    refine List.Perm.trans ?_ ((SearchTree.perm_join s id near' far v').symm.append_left gone)
    refine ((shrunk.ids.append_right far.ids).cons id).trans ?_
    rw [List.append_assoc]
    exact List.perm_middle.symm
  · exact after.nonceNode.trans (shrunk.nonceNode.trans before.nonceNode)
  · rw [after.setSize, shrunk.setSize, before.setSize]
  · exact after.nonceRoot.trans (shrunk.nonceRoot.trans before.nonceRoot)
  · obtain ⟨n, found, status⟩ := shrunk.erased i mem
    have inNear : i ∈ near.ids := shrunk.ids.mem_iff.mpr (List.mem_append_left _ mem)
    refine ⟨n, (after.node i ?_).trans found, status⟩
    simp only [mem_join, not_or]
    exact ⟨ne_of_mem_of_not_mem inNear offNear, fun still => divided.2.2 i mem i still rfl, across i inNear⟩
  · simp only [mem_join, not_or] at out
    obtain ⟨notId, notNear, notFar⟩ := out
    refine (after.node i ?_).trans ((shrunk.node i notNear).trans (before.node i (by simp [notId])))
    simp only [mem_join, not_or]
    exact ⟨notId, fun mem => notNear (shrunk.ids.mem_iff.mpr (List.mem_append_right _ mem)), notFar⟩

theorem leaveErased_rests {s : Side} {h : Heap α} {id : Nat} {near far : SearchTree Nat α} {x : α} {n : Node α}
    (opened : Open False h 0 id s near x far n) (live : n.status ≠ .erased) (nearRests : Rests old h near)
    (farRests : Rests old h far) (apart : (join s id near x far).ids.Nodup) :
    ∃ t h', Runs (leaveErased id) h t.top h' ∧ Rests old h' t ∧ t.ids = (join s id near x far).ids ∧
      Frame (join s id near x far).ids h h' := by
  have settled : ∃ t h', Runs (settleErased id) h t.top h' ∧ Rests old h' t ∧ t.ids = (join s id near x far).ids ∧
      Frame (join s id near x far).ids h h' := by
    cases s with
    | left => exact settleErased_rests opened nearRests farRests apart
    | right => exact settleErased_rests opened.swap farRests nearRests apart
  obtain ⟨t, h', run, rest⟩ := settled
  exact ⟨t, h', leaveErased_runs opened.found live run, rest⟩

/-- What a deletion below a node makes of the node, once the link to what is left below is set. -/
theorem eraseBelow_rests {s : Side} {h h₁ h₂ h₃ : Heap α} {id : Nat} {near near' far : SearchTree Nat α} {v v' : α} {gone : List Nat}
    {n : Node α} (apart : (join s id near v far).ids.Nodup) (farRests : Rests old h far) (before : Frame [id] h h₁)
    (shrunk : Shrunk gone near near' h₁ h₂) (linked : Frame (id :: near'.ids) h₂ h₃) (opened : Open False h₃ 0 id s near' v' far n)
    (live : n.status ≠ .erased) (rests : Rests old h₃ near') :
    ∃ top h', Runs (leaveErased id) h₃ top h' ∧ Shrinks old (join s id near v far) h top h' := by
  obtain ⟨offNear, offFar, nearApart, farApart, across⟩ := nodup_join.mp apart
  have fewer {i : Nat} (mem : i ∈ near'.ids) : i ∈ near.ids := shrunk.ids.mem_iff.mpr (List.mem_append_right _ mem)
  have apart' : (join s id near' v' far).ids.Nodup :=
    nodup_join.mpr ⟨fun mem => offNear (fewer mem), offFar, (List.nodup_append.mp (shrunk.ids.nodup_iff.mp nearApart)).2.1, farApart,
      fun i mem => across i (fewer mem)⟩
  have far₃ : Rests old h₃ far := farRests.frame fun i mem => by
    have notId : i ≠ id := ne_of_mem_of_not_mem mem offFar
    have notNear : i ∉ near.ids := fun inNear => across i inNear mem
    refine (linked.node i ?_).trans ((shrunk.node i notNear).trans (before.node i (by simp [notId])))
    rw [List.mem_cons, not_or]
    exact ⟨notId, fun inNear => notNear (fewer inNear)⟩
  obtain ⟨t, h₄, run, rests₄, ids, frame⟩ := leaveErased_rests opened live rests far₃ apart'
  have whole := shrunk.join before ((linked.mono (SearchTree.near_subset s id near' far v')).trans frame) apart
  exact ⟨t.top, h₄, run, t, gone, rfl, rests₄, ids ▸ whole.ids, whole.nonceNode, whole.setSize, whole.nonceRoot, whole.erased, whole.node⟩

theorem outermost_rests {s : Side} {h : Heap α} {fuel : Nat} {t : SearchTree Nat α} (rests : Rests old h t) (present : t ≠ .nil)
    (enough : t.height ≤ fuel) : ∃ id n, Runs (outermost s fuel t.top) h id h ∧ h.node id = some n := by
  induction fuel generalizing t with
  | zero =>
    obtain ⟨id, near, v, far, rfl⟩ := exists_join s present
    simp at enough
  | succ fuel ih =>
    obtain ⟨id, near, v, far, rfl⟩ := exists_join s present
    obtain ⟨⟨n, opened, _⟩, nearRests, _⟩ := rests.open
    have start {top : Nat} (run : Runs (if near.top = 0 then Pure.pure id else outermost s fuel near.top) h top h) :
        Runs (outermost s (fuel + 1) (join s id near v far).top) h top h := by
      rw [top_join, outermost]
      refine (getNode_runs opened.found).bind ?_
      rwa [opened.near]
    by_cases empty : near = .nil
    · subst empty
      exact ⟨id, n, start (Runs.pure id), opened.found⟩
    · have deep : near.height ≤ fuel := by simp at enough; omega
      obtain ⟨i, m, run, found⟩ := ih nearRests empty deep
      refine ⟨i, m, start ?_, found⟩
      rwa [if_neg (nearRests.top_eq_zero.not.mpr empty)]

/-- A node with one child takes over the child's record, and settles. -/
theorem spliceNode_rests {side : Side} {h : Heap α} {id c : Nat} {a b : SearchTree Nat α} {u x : α} {n : Node α}
    (opened : Open False h 0 id side (.node c a u b) x .nil n) (rests : Rests old h (.node c a u b))
    (apart : (join side id (.node c a u b) x .nil).ids.Nodup) (counted : 1 ≤ h.setSize) :
    ∃ top h', Runs (spliceNode id >>= fun _ => leaveErased id) h top h' ∧
      Shrinks old (join side id (.node c a u b) x .nil) h top h' := by
  obtain ⟨offChild, _, childApart, -, -⟩ := nodup_join.mp apart
  obtain ⟨offA, offB, apartA, apartB, across⟩ := (nodup_join (s := .left)).mp childApart
  simp only [SearchTree.ids_node, List.mem_append, List.mem_cons, not_or] at offChild
  obtain ⟨idA, idC, idB⟩ := offChild
  obtain ⟨⟨m, child, _⟩, restsA, restsB⟩ := Rests.open (s := .left) rests
  let m' : Node α := { m with parent := n.parent, status := .changed }
  let counted' : Heap α := { h.set id m' with setSize := h.setSize - 1 }
  let h₁ : Heap α := counted'.set c { m with status := .erased }
  have run : Runs (spliceNode id) h () h₁ :=
    spliceNode_runs opened.found opened.near opened.far child.named child.found (Ne.symm idC)
  have restsA' : Rests old counted' a := (restsA.set m' idA).frame fun _ _ => rfl
  have restsB' : Rests old counted' b := (restsB.set m' idB).frame fun _ _ => rfl
  have opened' : Open False h₁ 0 id .left a u b m' :=
    ⟨opened.named, (counted'.set_ne _ idC).trans (h.set_self id m'), child.near, child.far, child.val, nofun⟩
  have apart' : (SearchTree.node id a u b).ids.Nodup := (nodup_join (s := .left)).mpr ⟨idA, idB, apartA, apartB, across⟩
  obtain ⟨t, h₂, run', rests₂, ids, frame⟩ := leaveErased_rests opened' nofun (restsA'.set _ offA) (restsB'.set _ offB) apart'
  have offC : c ∉ (SearchTree.node id a u b).ids := by
    simp only [SearchTree.ids_node, List.mem_append, List.mem_cons, not_or]
    exact ⟨offA, Ne.symm idC, offB⟩
  refine ⟨t.top, h₂, run.bind run', t, [c], rfl, rests₂, ?_, frame.nonceNode, ?_, frame.nonceRoot, fun i mem => ?_, fun i out => ?_⟩
  · rw [ids]
    refine (SearchTree.perm_join side id _ _ x).trans ?_
    rw [SearchTree.ids_nil, List.append_nil]
    refine (List.perm_middle.cons id).trans ((List.Perm.swap c id _).trans ?_)
    exact List.perm_middle.symm.cons c
  · rw [frame.setSize]
    exact Nat.sub_add_cancel counted
  · obtain rfl := List.mem_singleton.mp mem
    exact ⟨_, (frame.node i offC).trans (Heap.set_self _ _ _), rfl⟩
  · simp only [mem_join, SearchTree.ids_node, List.mem_append, List.mem_cons, not_or] at out
    obtain ⟨notId, ⟨notA, notC, notB⟩, _⟩ := out
    refine (frame.node i ?_).trans ((counted'.set_ne _ notC).trans (h.set_ne m' notId))
    simp only [mem_join, not_or]
    exact ⟨notId, notA, notB⟩

section

variable [LinearOrder α]

omit [LinearOrder α] in
theorem spliceNode_rests_nil {h : Heap α} {id : Nat} {x : α} {n : Node α} (opened : Open False h 0 id .left .nil x .nil n)
    (counted : 1 ≤ h.setSize) :
    ∃ top h', Runs (spliceNode id >>= fun _ => leaveErased id) h top h' ∧ Shrinks old (.node id .nil x .nil) h top h' := by
  let final : Heap α := Heap.set { h with setSize := h.setSize - 1 } id { n with status := .erased }
  have left : Runs (leaveErased id) final 0 final := by
    unfold leaveErased
    refine (getNode_runs (Heap.set_self _ _ _)).bind ?_
    rw [if_pos rfl]
    exact Runs.pure 0
  refine ⟨0, final, (spliceNode_runs_leaf opened).bind left, .nil, [id], rfl, trivial, List.Perm.refl _, rfl, Nat.sub_add_cancel counted,
    rfl, fun i mem => ?_, fun i out => Heap.set_ne _ _ (by simpa using out)⟩
  obtain rfl := List.mem_singleton.mp mem
  exact ⟨_, Heap.set_self _ _ _, rfl⟩

omit [LinearOrder α] in
/-- What a deletion below a node makes of the node. -/
theorem deleteBelow_rests {s : Side} {h : Heap α} {id : Nat} {near far : SearchTree Nat α} {x : α} {n : Node α}
    {erasing : Exec Stop (StoredSet α) Nat} (opened : Open False h 0 id s near x far n) (live : n.status ≠ .erased)
    (farRests : Rests old h far) (apart : (join s id near x far).ids.Nodup)
    (below : ∃ top h', Runs erasing h top h' ∧ Shrinks old near h top h') :
    ∃ top h', Runs (erasing >>= fun child => modifyNode id (Node.withChild s child) >>= fun _ => updateParent id child >>= fun _ =>
        leaveErased id) h top h' ∧ Shrinks old (join s id near x far) h top h' := by
  obtain ⟨_, h₁, run, u, gone, rfl, rests₁, shrunk⟩ := below
  obtain ⟨offNear, _, nearApart, _, _⟩ := nodup_join.mp apart
  have offU : id ∉ u.ids := fun mem => offNear (shrunk.ids.mem_iff.mpr (List.mem_append_right _ mem))
  let n₂ : Node α := n.withChild s u.top
  have found₁ : h₁.node id = some n := (shrunk.node id offNear).trans opened.found
  obtain ⟨h₃, parentRuns, rests₃, frame₃⟩ := updateParent_rests (p := id) (rests₁.set n₂ offU)
    (List.nodup_append.mp (shrunk.ids.nodup_iff.mp nearApart)).2.1
  have opened₃ : Open False h₃ 0 id s u x far n₂ :=
    ⟨opened.named, (frame₃.node id offU).trans (Heap.set_self _ _ _), child_withChild _ _ _,
      (child_withChild_other _ _ _).trans opened.far, (withChild_val _ _ _).trans opened.val, False.elim⟩
  obtain ⟨top, h₄, run₄, shrinks⟩ := eraseBelow_rests apart farRests (Frame.refl _ h) shrunk
    ((Frame.set h₁ n₂ (List.mem_cons_self ..)).trans (frame₃.mono (List.subset_cons_self _ _))) opened₃
    (by rwa [withChild_status]) rests₃
  exact ⟨top, h₄, run.bind ((modifyNode_runs _ found₁).bind (parentRuns.bind run₄)), shrinks⟩

/-- A deletion returns: the rotations find the children they raise. -/
theorem deleteNode_rests {h : Heap α} {t : SearchTree Nat α} (val : α) {fuel : Nat} (rests : Rests old h t) (apart : t.ids.Nodup)
    (enough : t.height < fuel) (deep : t.height ≤ h.nonceNode) (counted : t.ids.length ≤ h.setSize) :
    ∃ top h', Runs (deleteNode fuel t.top val) h top h' ∧ Shrinks old t h top h' := by
  induction t generalizing h fuel val with
  | nil =>
    obtain ⟨fuel, rfl⟩ : ∃ k, fuel = k + 1 := ⟨fuel - 1, by omega⟩
    exact ⟨0, h, Runs.pure 0, .nil, [], rfl, trivial, List.Perm.refl _, rfl, rfl, rfl, fun _ mem => absurd mem List.not_mem_nil, fun _ _ => rfl⟩
  | node id l x r hl hr =>
    obtain ⟨fuel, rfl⟩ : ∃ k, fuel = k + 1 := ⟨fuel - 1, by omega⟩
    simp only [SearchTree.height_node] at enough deep
    simp only [SearchTree.ids_node, List.length_append, List.length_cons] at counted
    obtain ⟨⟨n, opened, live⟩, leftRests, rightRests⟩ := Rests.open (s := .left) rests
    obtain ⟨offLeft, offRight, leftApart, rightApart, across⟩ := (nodup_join (s := .left)).mp apart
    have start {top : Nat} {h' : Heap α} (run : _) : Runs (deleteNode (fuel + 1) id val) h top h' := deleteNode_at opened run
    rw [SearchTree.top_node]
    by_cases less : val < x
    · rw [if_pos less] at start
      have enoughLeft : l.height < fuel := by omega
      obtain ⟨top, h', run, shrinks⟩ := deleteBelow_rests (s := .left) opened live rightRests apart
        (hl val leftRests leftApart enoughLeft (by omega) (by omega))
      exact ⟨top, h', start run, shrinks⟩
    · rw [if_neg less] at start
      by_cases more : x < val
      · rw [if_pos more] at start
        have enoughRight : r.height < fuel := by omega
        obtain ⟨top, h', run, shrinks⟩ := deleteBelow_rests (s := .right) opened.swap live leftRests apart
          (hr val rightRests rightApart enoughRight (by omega) (by omega))
        exact ⟨top, h', start run, shrinks⟩
      · rw [if_neg more] at start
        by_cases one : l.top = 0 ∨ r.top = 0
        · rw [if_pos one] at start
          have size : 1 ≤ h.setSize := by omega
          cases l with
          | nil =>
            cases r with
            | nil =>
              obtain ⟨top, h', run, shrinks⟩ := spliceNode_rests_nil opened size
              exact ⟨top, h', start run, shrinks⟩
            | node c a u b =>
              obtain ⟨top, h', run, shrinks⟩ := spliceNode_rests opened.swap rightRests apart size
              exact ⟨top, h', start run, shrinks⟩
          | node c a u b =>
            obtain rfl : r = .nil := rightRests.top_eq_zero.mp (one.resolve_left leftRests.1)
            obtain ⟨top, h', run, shrinks⟩ := spliceNode_rests opened leftRests apart size
            exact ⟨top, h', start run, shrinks⟩
        · rw [if_neg one] at start
          have present : r ≠ .nil := rightRests.top_eq_zero.not.mp (not_or.mp one).2
          obtain ⟨i, m, minRuns, foundMin⟩ := outermost_rests (s := .left) rightRests present
            (show r.height ≤ h.nonceNode + 1 by omega)
          -- The value of the smallest node above comes here, and that node is deleted instead.
          let n₁ : Node α := { n with val := m.val }
          obtain ⟨_, h₂, run₂, u, gone, rfl, rests₂, shrunk⟩ := hr m.val (rightRests.set n₁ offRight) rightApart
            (Nat.lt_of_le_of_lt (Nat.le_max_right _ _) (Nat.lt_of_succ_lt_succ enough)) (by simp only [Heap.set_nonceNode]; omega)
            (by simp only [Heap.set_setSize]; omega)
          have found₂ : h₂.node id = some n₁ := (shrunk.node id offRight).trans (h.set_self id n₁)
          have offU : id ∉ u.ids := fun mem => offRight (shrunk.ids.mem_iff.mpr (List.mem_append_right _ mem))
          let n₃ : Node α := n₁.withChild .right u.top
          have opened₃ : Open False (h₂.set id n₃) 0 id .right u m.val l n₃ :=
            ⟨opened.named, h₂.set_self id n₃, rfl, opened.near, rfl, False.elim⟩
          obtain ⟨top, h₄, run₄, shrinks⟩ := eraseBelow_rests (s := .right) (v := x) apart leftRests (Frame.set h n₁ (by simp)) shrunk
            (Frame.set h₂ n₃ (by simp)) opened₃ live (rests₂.set n₃ offU)
          exact ⟨top, h₄, start ((Runs.rounds.bind minRuns).bind ((getNode_runs foundMin).bind ((modifyNode_runs _ opened.found).bind
            (run₂.bind ((modifyNode_runs _ found₂).bind run₄))))), shrinks⟩

end

end

end BandChain.StoredSet
