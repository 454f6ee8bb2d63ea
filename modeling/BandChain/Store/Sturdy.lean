import BandChain.Store.Reload
import BandChain.Store.Stale
import Mathlib.Data.Set.Card

/-!
What a `Set` is between two calls, whatever they threw: every record hangs from the root or is marked
as erased. A flush of such a set leaves the records of the nodes that hang from the root and no others.
-/

namespace BandChain.StoredSet

open SearchTree (top nodup_join)

variable {α : Type} {old : Nat → Option (Node α)}

structure Sturdy (old : Nat → Option (Node α)) (h : Heap α) (t : SearchTree Nat α) : Prop where
  root : h.nonceRoot = t.top
  rests : Rests old h t
  apart : t.ids.Nodup
  known : ∀ id ∈ t.ids, id ≤ h.nonceNode
  fresh : ∀ id, id = 0 ∨ h.nonceNode < id → h.node id = none
  room : h.nonceNode < 2 ^ 64
  counted : h.setSize = t.ids.length
  stray : ∀ id n, id ∉ t.ids → h.node id = some n → n.status = .erased

theorem Sturdy.length_le {h : Heap α} {t : SearchTree Nat α} (sturdy : Sturdy old h t) : t.ids.length ≤ h.nonceNode := by
  have inside : t.ids ⊆ List.range' 1 h.nonceNode := fun id mem => by
    have named := sturdy.rests.named mem
    have known := sturdy.known id mem
    simp only [List.mem_range'_1]
    omega
  exact (sturdy.apart.subperm inside).length_le.trans_eq List.length_range'

theorem Sturdy.height_le {h : Heap α} {t : SearchTree Nat α} (sturdy : Sturdy old h t) : t.height ≤ h.nonceNode :=
  (t.height_le_length.trans_eq t.length_ids.symm).trans sturdy.length_le

/-! ### Insertion and deletion -/

section

variable {h h' : Heap α} {t u : SearchTree Nat α}

theorem Sturdy.grown (sturdy : Sturdy old h t) {new : List Nat} (rests : Rests old h' u) (grown : Grown new t u h h')
    (made : new = [] ∨ new = [h.nonceNode + 1] ∧ h.nonceNode + 1 < 2 ^ 64) :
    Sturdy old { h' with nonceRoot := u.top } u := by
  have next (id : Nat) (mem : id ∈ new) : id = h.nonceNode + 1 := by
    rcases made with rfl | ⟨rfl, _⟩
    · cases mem
    · exact List.mem_singleton.mp mem
  have counter : h'.nonceNode = h.nonceNode + new.length := grown.nonceNode
  have known (id : Nat) (mem : id ∈ new ++ t.ids) : id ≠ 0 ∧ id ≤ h.nonceNode + new.length := by
    rcases List.mem_append.mp mem with mem | mem
    · have := next id mem
      have := List.length_pos_of_mem mem
      omega
    · have := sturdy.rests.named mem
      have := sturdy.known id mem
      omega
  refine ⟨rfl, rests.frame fun _ _ => rfl, grown.ids.nodup_iff.mpr ?_, fun id mem => ?_, fun id out => ?_, ?_, ?_, fun id n out found => ?_⟩
  · rcases made with rfl | ⟨rfl, _⟩
    · exact sturdy.apart
    · refine List.nodup_cons.mpr ⟨fun mem => ?_, sturdy.apart⟩
      have := sturdy.known _ mem
      omega
  · exact counter ▸ (known id (grown.ids.subset mem)).2
  · change id = 0 ∨ h'.nonceNode < id at out
    have off : id ∉ new ++ t.ids := fun mem => by
      have := known id mem
      omega
    refine (grown.node id off).trans (sturdy.fresh id ?_)
    omega
  · change h'.nonceNode < 2 ^ 64
    rcases made with rfl | ⟨rfl, room⟩
    · exact counter ▸ sturdy.room
    · exact counter ▸ room
  · change h'.setSize = _
    rw [grown.setSize, sturdy.counted, grown.ids.length_eq, List.length_append, Nat.add_comm]
  · have off : id ∉ new ++ t.ids := fun mem => out (grown.ids.symm.subset mem)
    have still : h.node id = some n := (grown.node id off).symm.trans found
    exact sturdy.stray id n (fun mem => off (List.mem_append_right _ mem)) still

theorem Sturdy.shrunk (sturdy : Sturdy old h t) {gone : List Nat} (rests : Rests old h' u) (shrunk : Shrunk gone t u h h') :
    Sturdy old { h' with nonceRoot := u.top } u := by
  have fewer {id : Nat} (mem : id ∈ u.ids) : id ∈ t.ids := shrunk.ids.mem_iff.mpr (List.mem_append_right _ mem)
  have counter : h'.nonceNode = h.nonceNode := shrunk.nonceNode
  refine ⟨rfl, rests.frame fun _ _ => rfl, (List.nodup_append.mp (shrunk.ids.nodup_iff.mp sturdy.apart)).2.1,
    fun id mem => counter ▸ sturdy.known id (fewer mem), fun id out => ?_, counter ▸ sturdy.room, ?_, fun id n out found => ?_⟩
  · change id = 0 ∨ h'.nonceNode < id at out
    rw [counter] at out
    refine (shrunk.node id fun mem => ?_).trans (sturdy.fresh id out)
    have := sturdy.rests.named mem
    have := sturdy.known id mem
    omega
  · change h'.setSize = _
    have size := shrunk.setSize
    rw [sturdy.counted, shrunk.ids.length_eq, List.length_append] at size
    omega
  · by_cases mem : id ∈ t.ids
    · rcases List.mem_append.mp (shrunk.ids.subset mem) with lost | still
      · obtain ⟨m, found', status⟩ := shrunk.erased id lost
        obtain rfl := Option.some.inj (found.symm.trans found')
        exact status
      · exact (out still).elim
    · exact sturdy.stray id n mem ((shrunk.node id mem).symm.trans found)

variable [Serial α] [LinearOrder α]

theorem Sturdy.insert_ends (sturdy : Sturdy old h t) {val : α} (room : meets val t = false → h.nonceNode + 1 < 2 ^ 64) :
    Ends (insert val) h (fun _ h' => ∃ u, Sturdy old h' u) (fun h' => ∃ u, Sturdy old h' u) := by
  have made : made val t h = [] ∨ made val t h = [h.nonceNode + 1] ∧ h.nonceNode + 1 < 2 ^ 64 := by
    unfold StoredSet.made
    split
    · exact Or.inl rfl
    · rename_i new
      exact Or.inr ⟨rfl, room (Bool.eq_false_iff.mpr new)⟩
  have grows := insertNode_ends sturdy.rests sturdy.apart sturdy.known (sturdy.fresh 0 (Or.inl rfl))
    (sturdy.fresh _ (Or.inr (Nat.lt_succ_self _))) room (Nat.lt_succ_of_le sturdy.height_le)
  unfold insert
  refine Ends.get fun s seen => Ends.after Runs.rounds ?_
  have root : s.nonceRoot = t.top := (congrArg Heap.nonceRoot seen).trans sturdy.root
  rw [root]
  refine grows.bind ?_ ?_
  · rintro _ h' ⟨u, rfl, rests, grown⟩
    refine Ends.after (setRoot_runs h' u.top) (Ends.get fun s' _ => Ends.of_runs (Runs.pure _) ?_)
    exact ⟨u, sturdy.grown rests grown made⟩
  · rintro h' ⟨u, same, rests, grown⟩
    have whole := sturdy.grown rests grown made
    have still : h'.nonceRoot = u.top := by rw [grown.nonceRoot, sturdy.root, same]
    rw [← still] at whole
    exact ⟨u, whole⟩

theorem Sturdy.erase_runs (sturdy : Sturdy old h t) (val : α) : ∃ b h', Runs (erase val) h b h' ∧ ∃ u, Sturdy old h' u := by
  obtain ⟨_, h₁, run, u, gone, rfl, rests, shrunk⟩ := deleteNode_rests val sturdy.rests sturdy.apart
    (Nat.lt_succ_of_le sturdy.height_le) sturdy.height_le sturdy.counted.ge
  refine ⟨decide (h.setSize ≠ h₁.setSize), { h₁ with nonceRoot := u.top }, ?_, u, sturdy.shrunk rests shrunk⟩
  unfold erase
  refine Runs.get fun s seen => Runs.rounds.bind ?_
  have root : s.nonceRoot = t.top := (congrArg Heap.nonceRoot seen).trans sturdy.root
  have before : s.setSize = h.setSize := congrArg Heap.setSize seen
  rw [root, before]
  refine run.bind ((setRoot_runs h₁ _).bind (Runs.get fun s' seen' => ?_))
  have after : s'.setSize = h₁.setSize := congrArg Heap.setSize seen'
  rw [after]
  exact Runs.pure _

end

/-! ### Lookups -/

section

variable [Serial α]

/-- Nothing has changed but what the cache has copied from the storage. -/
def Looks (s₀ s : StoredSet α) : Prop := s.heap = s₀.heap ∧ s.storage = s₀.storage ∧ s.baseKey = s₀.baseKey

variable {s₀ : StoredSet α}

theorem get_looks : (Exec.get : Exec Stop (StoredSet α) (StoredSet α)).Keeps (Looks s₀) := fun _ looks => looks

theorem getNode_looks (id : Nat) : (getNode id).Keeps (Looks s₀) := by
  rintro s ⟨heap, storage, baseKey⟩
  unfold getNode
  cases cached : s.cache.lookup id with
  | some n => exact ⟨heap, storage, baseKey⟩
  | none =>
    cases record : s.storage (nodeKey s.baseKey id) with
    | none => exact ⟨heap, storage, baseKey⟩
    | some raw =>
      dsimp only
      cases read : (deserialize raw : Except Stop (Node α)) with
      | error e => exact ⟨heap, storage, baseKey⟩
      | ok n =>
        refine ⟨?_, storage, baseKey⟩
        have found : s.heap.node id = some n := by
          simp [StoredSet.heap, cached, stored, record, read, Except.toOption]
        rw [heap_insert, ← heap, Heap.set, Function.update_eq_self_iff.mpr found.symm]

theorem outermost_looks (s : Side) (fuel id : Nat) : (outermost s fuel id : Exec Stop (StoredSet α) Nat).Keeps (Looks s₀) := by
  induction fuel generalizing id with
  | zero => exact Exec.Keeps.stop _
  | succ fuel ih =>
    refine Exec.Keeps.bind (getNode_looks id) fun n => ?_
    split
    · exact Exec.Keeps.pure _
    · exact ih _

theorem climb_looks (s : Side) (fuel id : Nat) : (climb s fuel id : Exec Stop (StoredSet α) Nat).Keeps (Looks s₀) := by
  induction fuel generalizing id with
  | zero => exact Exec.Keeps.stop _
  | succ fuel ih =>
    refine Exec.Keeps.bind (getNode_looks id) fun n => ?_
    dsimp only
    split
    · exact Exec.Keeps.pure _
    · refine Exec.Keeps.bind (getNode_looks _) fun m => ?_
      split
      · exact ih _
      · exact Exec.Keeps.pure _

theorem rounds_looks : (rounds : Exec Stop (StoredSet α) Nat).Keeps (Looks s₀) := get_looks.bind fun _ => Exec.Keeps.pure _

theorem end_looks (s : Side) :
    (do outermost s (← rounds) (← Exec.get).nonceRoot : Exec Stop (StoredSet α) Nat).Keeps (Looks s₀) :=
  rounds_looks.bind fun _ => get_looks.bind fun _ => outermost_looks s _ _

theorem advance_looks (s : Side) (it : Nat) : (advance s it : Exec Stop (StoredSet α) Nat).Keeps (Looks s₀) := by
  unfold advance
  split
  · exact Exec.Keeps.pure _
  · refine Exec.Keeps.bind (getNode_looks it) fun n => ?_
    split
    · exact rounds_looks.bind fun _ => climb_looks s _ _
    · exact rounds_looks.bind fun _ => outermost_looks s.other _ _

theorem value_looks [Inhabited α] (it : Nat) : (value it : Exec Stop (StoredSet α) α).Keeps (Looks s₀) := by
  unfold value
  split
  · exact Exec.Keeps.pure _
  · exact (getNode_looks it).bind fun _ => Exec.Keeps.pure _

theorem maxValue_looks [Inhabited α] : (maxValue : Exec Stop (StoredSet α) α).Keeps (Looks s₀) := by
  refine get_looks.bind fun s => ?_
  split
  · exact Exec.Keeps.pure _
  · refine rounds_looks.bind fun fuel => (outermost_looks _ _ _).bind fun id => (getNode_looks id).bind fun _ => Exec.Keeps.pure _

variable [LinearOrder α]

theorem search_looks (val : α) (fuel id : Nat) : (search val fuel id).Keeps (Looks s₀) := by
  induction fuel generalizing id with
  | zero => exact Exec.Keeps.stop _
  | succ fuel ih =>
    unfold search
    split
    · exact Exec.Keeps.pure _
    · refine Exec.Keeps.bind (getNode_looks id) fun n => ?_
      split
      · exact Exec.Keeps.pure _
      · split
        · exact ih _
        · exact ih _

theorem find_looks (val : α) : (find val).Keeps (Looks s₀) :=
  rounds_looks.bind fun _ => get_looks.bind fun _ => search_looks val _ _

theorem contains_looks (val : α) : (contains val).Keeps (Looks s₀) :=
  rounds_looks.bind fun _ => get_looks.bind fun _ => (search_looks val _ _).bind fun _ => Exec.Keeps.pure _

/-- `contains` tells whether an insertion would make a node. -/
theorem search_meets {h : Heap α} {t : SearchTree Nat α} (rests : Rests old h t) (val : α) {fuel : Nat} (enough : t.height < fuel) :
    ∃ id, Runs (search val fuel t.top) h id h ∧ decide (id ≠ 0) = meets val t := by
  induction t generalizing fuel with
  | nil =>
    obtain ⟨fuel, rfl⟩ : ∃ k, fuel = k + 1 := ⟨fuel - 1, by omega⟩
    exact ⟨0, Runs.pure 0, rfl⟩
  | node id l x r hl hr =>
    obtain ⟨fuel, rfl⟩ : ∃ k, fuel = k + 1 := ⟨fuel - 1, by omega⟩
    simp only [SearchTree.height_node] at enough
    obtain ⟨⟨n, opened, _⟩, leftRests, rightRests⟩ := Rests.open (s := .left) rests
    have leftLink : n.left = l.top := opened.near
    have rightLink : n.right = r.top := opened.far
    have start {i : Nat} (run : Runs (if val = x then Pure.pure id else if val < x then search val fuel l.top
        else search val fuel r.top) h i h) : Runs (search val (fuel + 1) id) h i h := by
      rw [search, if_neg opened.named]
      refine (getNode_runs opened.found).bind ?_
      rwa [opened.val, leftLink, rightLink]
    rw [SearchTree.top_node, meets]
    rcases lt_trichotomy val x with less | rfl | more
    · have enoughLeft : l.height < fuel := by omega
      obtain ⟨i, run, answer⟩ := hl leftRests enoughLeft
      refine ⟨i, start ?_, ?_⟩
      · rwa [if_neg less.ne, if_pos less]
      · rwa [if_pos less]
    · refine ⟨id, start ?_, ?_⟩
      · rw [if_pos rfl]
        exact Runs.pure id
      · simp [opened.named]
    · have enoughRight : r.height < fuel := by omega
      obtain ⟨i, run, answer⟩ := hr rightRests enoughRight
      refine ⟨i, start ?_, ?_⟩
      · rwa [if_neg more.ne', if_neg more.not_gt]
      · rwa [if_neg more.not_gt, if_pos more]

theorem Sturdy.contains_runs {h : Heap α} {t : SearchTree Nat α} (sturdy : Sturdy old h t) (val : α) :
    Runs (contains val) h (meets val t) h := by
  obtain ⟨id, run, answer⟩ := search_meets sturdy.rests val (Nat.lt_succ_of_le sturdy.height_le)
  refine Runs.rounds.bind (Runs.get fun s seen => ?_)
  have root : s.nonceRoot = t.top := (congrArg Heap.nonceRoot seen).trans sturdy.root
  rw [root, ← answer]
  exact run.bind (Runs.pure _)

end

/-! ### Flushes -/

/-- The keys that begin like those of a set are those of a set, and hold nodes. -/
structure Tidy (α : Type) [Serial α] (records : Records) (baseKey : ByteString) : Prop where
  keys : ∀ key, baseKey <+: key → records key ≠ none → key = baseKey ∨ ∃ id, key = nodeKey baseKey id
  decoded : ∀ id raw, records (nodeKey baseKey id) = some raw → ∃ n : Node α, deserialize raw = .ok n

/-- The records under the keys of a set are its details and those of the nodes that hang from its root,
and they are read back as they were. -/
structure Persists [Serial α] (s : StoredSet α) (kept : Records) : Prop where
  keys : ∀ key, s.baseKey <+: key → (kept key ≠ none ↔ key = s.baseKey ∨ ∃ id, Reachable s id ∧ key = nodeKey s.baseKey id)
  count : {key | s.baseKey <+: key ∧ kept key ≠ none}.ncard = 1 + s.setSize
  reload : ∃ s' : StoredSet α, construct kept s.baseKey = .ok s' ∧ s'.nonceRoot = s.nonceRoot ∧ s'.setSize = s.setSize ∧
    s'.nonceNode = s.nonceNode ∧ ∀ id, Reachable s id → ∃ n m, s.heap.node id = some n ∧ s'.heap.node id = some m ∧
      m.val = n.val ∧ m.left = n.left ∧ m.right = n.right ∧ m.height = n.height

variable [Serial α]

theorem Rests.reachable {s : StoredSet α} {t : SearchTree Nat α} (rests : Rests old s.heap t) (above : t.top ≠ 0 → Reachable s t.top)
    {id : Nat} (mem : id ∈ t.ids) : Reachable s id := by
  induction t with
  | nil => cases mem
  | node i l v r hl hr =>
    obtain ⟨⟨n, opened, _⟩, left, right⟩ := Rests.open (s := .left) rests
    have here : Reachable s i := above opened.named
    have leftLink : n.child .left = l.top := opened.near
    have rightLink : n.child .right = r.top := opened.far
    rcases List.mem_append.mp mem with mem | mem
    · exact hl left (fun some => leftLink ▸ .child .left here opened.found (leftLink ▸ some)) mem
    · rcases List.mem_cons.mp mem with rfl | mem
      · exact here
      · exact hr right (fun some => rightLink ▸ .child .right here opened.found (rightLink ▸ some)) mem

omit [Serial α] in
theorem Rests.at {h : Heap α} {t : SearchTree Nat α} (rests : Rests old h t) {id : Nat} (mem : id ∈ t.ids) :
    ∃ l v r, Rests old h (.node id l v r) ∧ (SearchTree.node id l v r).ids.Sublist t.ids := by
  induction t with
  | nil => cases mem
  | node i l v r hl hr =>
    have ⟨_, _, left, right⟩ := rests
    rcases List.mem_append.mp mem with mem | mem
    · obtain ⟨a, u, b, rests', inside⟩ := hl left mem
      exact ⟨a, u, b, rests', inside.trans (List.sublist_append_left _ _)⟩
    · rcases List.mem_cons.mp mem with rfl | mem
      · exact ⟨l, v, r, rests, List.Sublist.refl _⟩
      · obtain ⟨a, u, b, rests', inside⟩ := hr right mem
        exact ⟨a, u, b, rests', (inside.trans (List.sublist_cons_self _ _)).trans (List.sublist_append_right _ _)⟩

omit [Serial α] in
theorem Rests.mem_child {h : Heap α} {t : SearchTree Nat α} (rests : Rests old h t) {id : Nat} (mem : id ∈ t.ids) {n : Node α}
    (found : h.node id = some n) {side : Side} (some : n.child side ≠ 0) : n.child side ∈ t.ids := by
  obtain ⟨l, v, r, rests', inside⟩ := rests.at mem
  obtain ⟨⟨m, opened, _⟩, _, _⟩ := Rests.open (s := .left) rests'
  obtain rfl := Option.some.inj (found.symm.trans opened.found)
  have leftLink : n.child .left = l.top := opened.near
  have rightLink : n.child .right = r.top := opened.far
  cases side with
  | left =>
    rw [leftLink] at some ⊢
    exact inside.subset (by simp [top_mem some])
  | right =>
    rw [rightLink] at some ⊢
    exact inside.subset (by simp [top_mem some])

/-- The fields that a reload gives back. -/
def Node.Same (n m : Node α) : Prop := m.val = n.val ∧ m.left = n.left ∧ m.right = n.right ∧ m.height = n.height

omit [Serial α] in
theorem Rests.reload {h h' : Heap α} {t : SearchTree Nat α} (rests : Rests old h t)
    (kept : ∀ id ∈ t.ids, ∀ n, h.node id = some n → ∃ m, h'.node id = some m ∧ m.status = .unchanged ∧ n.Same m) :
    Rests h'.node h' t := by
  induction t with
  | nil => trivial
  | node id l v r hl hr =>
    obtain ⟨named, ⟨n, found, ⟨⟨left, right, val, _⟩, _⟩, positive, bounded⟩, leftRests, rightRests⟩ := rests
    obtain ⟨m, found', status, val', left', right', height⟩ := kept id (by simp) n found
    have fits : Node.Fits False l.top v r.top m.height 0 m := ⟨left'.trans left, right'.trans right, val'.trans val, rfl, nofun⟩
    refine ⟨named, ⟨m, found', ⟨fits, ?_, fun _ => ⟨m, found', fits⟩⟩, ?_, ?_⟩, ?_, ?_⟩
    · rw [status]
      nofun
    · rwa [height]
    · rwa [height]
    · exact hl leftRests fun i mem => kept i (by simp [mem])
    · exact hr rightRests fun i mem => kept i (by simp [mem])

section

variable {s : StoredSet α} {t : SearchTree Nat α}

theorem Sturdy.reachable_iff (sturdy : Sturdy s.stored s.heap t) (id : Nat) : Reachable s id ↔ id ∈ t.ids := by
  have root : s.nonceRoot = t.top := sturdy.root
  constructor
  · intro reachable
    induction reachable with
    | root some =>
      rw [root] at some ⊢
      exact top_mem some
    | child side _ found some ih => exact sturdy.rests.mem_child ih found some
  · refine fun mem => sturdy.rests.reachable (fun some => ?_) mem
    rw [← root] at some ⊢
    exact .root some

theorem stored_of_record {id : Nat} {raw : ByteString} {n : Node α} (record : s.storage (nodeKey s.baseKey id) = some raw)
    (read : deserialize raw = .ok n) : s.stored id = some n := by
  simp [stored, record, read, Except.toOption]

/-- A record is there after the flush for the nodes of the tree, and for no others. -/
theorem Sturdy.destroy_node_iff (sturdy : Sturdy s.stored s.heap t) (tidy : Tidy α s.storage s.baseKey) (id : Nat) :
    s.destroy (nodeKey s.baseKey id) ≠ none ↔ id ∈ t.ids := by
  rw [destroy_node]
  constructor
  · intro record
    by_contra out
    cases cached : s.cache.lookup id with
    | none =>
      obtain ⟨raw, record⟩ := Option.ne_none_iff_exists'.mp (by simpa [cached] using record)
      obtain ⟨n, read⟩ := tidy.decoded id raw record
      have found := stored_of_record record read
      have erased := sturdy.stray id n out (by simp [heap, cached, found])
      rw [status_of_stored found] at erased
      cases erased
    | some n =>
      have erased := sturdy.stray id n out (by simp [heap, cached])
      simp [cached, savedNode, erased] at record
  · intro mem
    obtain ⟨l, v, r, n, found, live, saved⟩ : ∃ l v r n, s.heap.node id = some n ∧ n.status ≠ .erased ∧
        (n.status = .unchanged → ∃ m, s.stored id = some m ∧ Node.Fits False l v r n.height 0 m) := by
      obtain ⟨l, v, r, ⟨_, ⟨n, found, ⟨_, live, saved⟩, _⟩, _⟩, _⟩ := sturdy.rests.at mem
      exact ⟨_, _, _, n, found, live, saved⟩
    have kept (m : Node α) (found : s.stored id = some m) : s.storage (nodeKey s.baseKey id) ≠ none := by
      obtain ⟨raw, record, _⟩ := Option.bind_eq_some_iff.mp found
      rw [record]
      intro gone
      cases gone
    cases cached : s.cache.lookup id with
    | none =>
      refine kept n ?_
      simpa [heap, cached] using found
    | some m =>
      obtain rfl : m = n := by simpa [heap, cached] using found
      cases status : m.status with
      | unchanged =>
        obtain ⟨m', found', _⟩ := saved status
        simpa [savedNode, status] using kept m' found'
      | changed => simp [savedNode, status]
      | erased => exact (live status).elim

theorem Sturdy.small (sturdy : Sturdy s.stored s.heap t) :
    s.nonceNode < 2 ^ 64 ∧ s.nonceRoot < 2 ^ 64 ∧ s.setSize < 2 ^ 64 := by
  have room : s.nonceNode < 2 ^ 64 := sturdy.room
  have root : s.nonceRoot = t.top := sturdy.root
  have counted : s.setSize = t.ids.length := sturdy.counted
  have length : t.ids.length ≤ s.nonceNode := sturdy.length_le
  have known : t.top ≤ s.nonceNode := top_known sturdy.known
  omega

/-- The set that a load builds after the flush. -/
def reloaded (s : StoredSet α) : StoredSet α :=
  { storage := s.destroy, baseKey := s.baseKey, nonceNode := s.nonceNode, nonceRoot := s.nonceRoot, setSize := s.setSize }

theorem reloaded_node (s : StoredSet α) : s.reloaded.heap.node = s.reloaded.stored := by
  funext id
  simp [heap, reloaded]

/-- The keys that are used after a flush. -/
theorem Sturdy.destroy_keys (sturdy : Sturdy s.stored s.heap t) (tidy : Tidy α s.storage s.baseKey) {key : ByteString}
    (below : s.baseKey <+: key) : s.destroy key ≠ none ↔ key = s.baseKey ∨ ∃ id ∈ t.ids, key = nodeKey s.baseKey id := by
  by_cases base : key = s.baseKey
  · subst base
    simp [destroy_details]
  · by_cases node : ∃ id, key = nodeKey s.baseKey id
    · obtain ⟨id, rfl⟩ := node
      rw [sturdy.destroy_node_iff tidy]
      constructor
      · exact fun mem => Or.inr ⟨id, mem, rfl⟩
      · rintro (same | ⟨i, mem, same⟩)
        · exact (base same).elim
        · rwa [nodeKey_injective same]
    · have kept : s.destroy key = s.storage key := by
        unfold destroy
        rw [saved_other (fun id same => node ⟨id, same⟩), Function.update_of_ne base]
      rw [kept]
      constructor
      · exact fun record => (tidy.keys key below record).imp id fun ⟨id, same⟩ => (node ⟨id, same⟩).elim
      · rintro (same | ⟨id, _, same⟩)
        · exact (base same).elim
        · exact (node ⟨id, same⟩).elim

theorem Sturdy.reloaded_missing (sturdy : Sturdy s.stored s.heap t) (tidy : Tidy α s.storage s.baseKey) {id : Nat} (out : id ∉ t.ids) :
    s.reloaded.heap.node id = none := by
  have absent : s.destroy (nodeKey s.baseKey id) = none := by
    by_contra record
    exact out ((sturdy.destroy_node_iff tidy id).mp record)
  rw [reloaded_node]
  exact congrArg (Option.bind · _) absent

variable [LawfulSerial α]

theorem Sturdy.reload_node (sturdy : Sturdy s.stored s.heap t) (intact : ∀ val : α, Serial.intact val = true) {id : Nat}
    (mem : id ∈ t.ids) {n : Node α} (found : s.heap.node id = some n) :
    ∃ m, s.reloaded.heap.node id = some m ∧ m.status = .unchanged ∧ n.Same m := by
  obtain ⟨l, v, r, rests, inside⟩ := sturdy.rests.at mem
  obtain ⟨_, ⟨n', found', ⟨⟨left, right, val, _⟩, live, saved⟩, _, bounded⟩, _⟩ := rests
  obtain rfl := Option.some.inj (found.symm.trans found')
  rw [reloaded_node]
  cases status : n.status with
  | erased => exact (live status).elim
  | unchanged =>
    obtain ⟨m, kept, left', right', val', height', _⟩ := saved status
    have record : s.destroy (nodeKey s.baseKey id) = s.storage (nodeKey s.baseKey id) := by
      rw [destroy_node]
      cases cached : s.cache.lookup id with
      | none => rfl
      | some w =>
        obtain rfl : w = n := by simpa [heap, cached] using found
        simp [savedNode, status]
    exact ⟨m, (congrArg (Option.bind · _) record).trans kept, status_of_stored kept, val'.trans val.symm, left'.trans left.symm,
      right'.trans right.symm, height'⟩
  | changed =>
    have cached : s.cache.lookup id = some n := by
      cases cached : s.cache.lookup id with
      | none =>
        have stored : s.stored id = some n := by simpa [heap, cached] using found
        rw [status_of_stored stored] at status
        cases status
      | some w => simpa [heap, cached] using found
    have record : s.destroy (nodeKey s.baseKey id) = some (serialize n) := by simp [destroy_node, cached, savedNode, status]
    have room : s.nonceNode < 2 ^ 64 := sturdy.room
    have length : t.ids.length ≤ s.nonceNode := sturdy.length_le
    have smallLeft : n.left < 2 ^ 64 := by
      have known : l.top ≤ s.nonceNode := top_known fun i mem => sturdy.known i (inside.subset (by simp [mem]))
      omega
    have smallRight : n.right < 2 ^ 64 := by
      have known : r.top ≤ s.nonceNode := top_known fun i mem => sturdy.known i (inside.subset (by simp [mem]))
      omega
    have shallow : n.height < 2 ^ 64 := by
      have fewer := inside.length_le
      simp only [SearchTree.ids_node, List.length_append, List.length_cons] at fewer
      omega
    refine ⟨n.reloaded, ?_, rfl, rfl, Nat.mod_eq_of_lt smallLeft, Nat.mod_eq_of_lt smallRight, Nat.mod_eq_of_lt shallow⟩
    refine stored_of_record (s := s.reloaded) record (deserialize_node (intact n.val))

theorem Sturdy.reload (sturdy : Sturdy s.stored s.heap t) (tidy : Tidy α s.storage s.baseKey)
    (intact : ∀ val : α, Serial.intact val = true) : Sturdy s.reloaded.stored s.reloaded.heap t := by
  refine ⟨sturdy.root, ?_, sturdy.apart, sturdy.known, fun id out => ?_, sturdy.room, sturdy.counted, fun id n out found => ?_⟩
  · rw [← reloaded_node]
    exact sturdy.rests.reload fun id mem n found => sturdy.reload_node intact mem found
  · refine sturdy.reloaded_missing tidy fun mem => ?_
    have named := sturdy.rests.named mem
    have known : id ≤ s.nonceNode := sturdy.known id mem
    change id = 0 ∨ s.nonceNode < id at out
    omega
  · cases found.symm.trans (sturdy.reloaded_missing tidy out)

theorem Sturdy.tidy (sturdy : Sturdy s.stored s.heap t) (tidy : Tidy α s.storage s.baseKey)
    (intact : ∀ val : α, Serial.intact val = true) : Tidy α s.destroy s.baseKey := by
  refine ⟨fun key below record => ?_, fun id raw record => ?_⟩
  · exact ((sturdy.destroy_keys tidy below).mp record).imp_right fun ⟨id, _, same⟩ => ⟨id, same⟩
  · have mem : id ∈ t.ids := (sturdy.destroy_node_iff tidy id).mp (by rw [record]; nofun)
    obtain ⟨_, _, _, ⟨_, ⟨n, found, _⟩, _⟩, _⟩ := sturdy.rests.at mem
    obtain ⟨m, kept, _⟩ := sturdy.reload_node intact mem found
    rw [reloaded_node] at kept
    obtain ⟨raw', record', decoded⟩ := Option.bind_eq_some_iff.mp kept
    obtain rfl : raw' = raw := Option.some.inj (record'.symm.trans record)
    cases read : (deserialize raw' : Except Stop (Node α)) with
    | error e => simp [read, Except.toOption] at decoded
    | ok w => exact ⟨w, rfl⟩

theorem Sturdy.persists (sturdy : Sturdy s.stored s.heap t) (tidy : Tidy α s.storage s.baseKey)
    (intact : ∀ val : α, Serial.intact val = true) : s.Persists s.destroy := by
  have keys (key : ByteString) (below : s.baseKey <+: key) := sturdy.destroy_keys tidy below
  refine ⟨fun key below => ?_, ?_, s.reloaded, ?_, rfl, rfl, rfl, fun id reachable => ?_⟩
  · simp only [keys key below, sturdy.reachable_iff]
  · have used : {key | s.baseKey <+: key ∧ s.destroy key ≠ none} =
        (Insert.insert s.baseKey (t.ids.toFinset.image (nodeKey s.baseKey)) : Finset ByteString) := by
      ext key
      simp only [Set.mem_ofPred_eq, Finset.coe_insert, Finset.coe_image, List.coe_toFinset, Set.mem_insert_iff, Set.mem_image]
      constructor
      · rintro ⟨below, record⟩
        exact ((keys key below).mp record).imp_right fun ⟨id, mem, same⟩ => ⟨id, mem, same.symm⟩
      · intro key_of
        have below : s.baseKey <+: key := by
          rcases key_of with rfl | ⟨id, _, rfl⟩
          · exact List.prefix_refl _
          · exact List.prefix_append _ _
        exact ⟨below, (keys key below).mpr (key_of.imp_right fun ⟨id, mem, same⟩ => ⟨id, mem, same.symm⟩)⟩
    have new : s.baseKey ∉ t.ids.toFinset.image (nodeKey s.baseKey) := by
      rw [Finset.mem_image]
      rintro ⟨id, _, same⟩
      exact nodeKey_ne _ _ same
    have counted : s.setSize = t.ids.length := sturdy.counted
    rw [used, Set.ncard_coe_finset, Finset.card_insert_of_notMem new, Finset.card_image_of_injective _ fun _ _ => nodeKey_injective,
      List.toFinset_card_of_nodup sturdy.apart, counted, Nat.add_comm]
  · obtain ⟨counter, root, size⟩ := sturdy.small
    exact construct_details s counter root size
  · have mem := (sturdy.reachable_iff id).mp reachable
    obtain ⟨_, _, _, ⟨_, ⟨n, found, _⟩, _⟩, _⟩ := sturdy.rests.at mem
    obtain ⟨m, kept, _, same⟩ := sturdy.reload_node intact mem found
    exact ⟨n, m, found, kept, same⟩

end

end BandChain.StoredSet
