import BandChain.Store.Whole

/-!
A set that a flush destroys and a later load constructs is the same tree, and a set is the tree that
can be read out of its records.
-/

namespace BandChain.StoredSet

open SearchTree (top)

variable {α : Type}

/-! ### The tree in the records -/

/-- The tree below a nonce, to a depth. -/
def Heap.tree (h : Heap α) : Nat → Nat → SearchTree Nat α
  | 0, _ => .nil
  | depth + 1, id =>
    if id = 0 then .nil
    else
      match h.node id with
      | none => .nil
      | some n => .node id (h.tree depth n.left) n.val (h.tree depth n.right)

theorem Held.tree_eq {old : Nat → Option (Node α)} {strict : Prop} {h : Heap α} {p depth : Nat} {t : SearchTree Nat α}
    (held : Held old strict h p t) (enough : t.height ≤ depth) : h.tree depth t.top = t := by
  induction t generalizing p depth with
  | nil => cases depth <;> rfl
  | node id l v r hl hr =>
    obtain ⟨depth, rfl⟩ : ∃ k, depth = k + 1 := ⟨depth - 1, by simp at enough; omega⟩
    obtain ⟨named, ⟨n, found, ⟨left, right, val, _⟩, _⟩, leftHeld, rightHeld⟩ := held
    simp only [SearchTree.height_node] at enough
    have enoughLeft : l.height ≤ depth := by omega
    have enoughRight : r.height ≤ depth := by omega
    simp only [SearchTree.top_node, Heap.tree, if_neg named, found, left, right, val, hl leftHeld enoughLeft,
      hr rightHeld enoughRight]

variable [Serial α]

def tree (s : StoredSet α) : SearchTree Nat α := s.heap.tree s.nonceNode s.nonceRoot

theorem Whole.tree_eq [LinearOrder α] {old : Nat → Option (Node α)} {strict : Prop} {s : StoredSet α} {t : SearchTree Nat α}
    (whole : Whole old strict s.heap t) : s.tree = t := by
  have root : s.nonceRoot = t.top := whole.root
  rw [tree, root]
  exact whole.held.tree_eq whole.height_le

/-! ### Keys -/

theorem digits_of_ascii {cs : List Char} (digits : ∀ c ∈ cs, c.isDigit = true) :
    (cs.map fun c => UInt8.ofNat c.toNat).map (fun b => Char.ofNat b.toNat) = cs := by
  rw [List.map_map]
  refine (List.map_congr_left fun c mem => ?_).trans (List.map_id cs)
  have digit := digits c mem
  simp only [Char.isDigit, Bool.and_eq_true, decide_eq_true_eq, ge_iff_le, UInt32.le_iff_toNat_le] at digit
  have small : c.toNat < 2 ^ 8 := Nat.lt_of_le_of_lt digit.2 (by decide)
  simp only [Function.comp_apply, UInt8.toNat_ofNat_of_lt' small, Char.ofNat_toNat, id]

theorem nodeKey_injective {baseKey : ByteString} {i j : Nat} (same : nodeKey baseKey i = nodeKey baseKey j) : i = j := by
  have read (n : Nat) : Nat.ofDigitChars 10 ((ascii (toString n)).map fun b => Char.ofNat b.toNat) 0 = n := by
    have digits (c : Char) (mem : c ∈ (toString n).toList) : c.isDigit = true := by
      rw [Nat.toString_eq_repr, Nat.toList_repr] at mem
      exact Nat.isDigit_of_mem_toDigits (by decide) (by decide) mem
    rw [ascii, digits_of_ascii digits, Nat.toString_eq_repr, Nat.toList_repr]
    exact Nat.ofDigitChars_toDigits (by decide) (by decide)
  rw [← read i, List.append_cancel_left same, read j]

theorem nodeKey_ne (baseKey : ByteString) (id : Nat) : nodeKey baseKey id ≠ baseKey := by
  intro same
  have empty : ascii (toString id) = [] := List.append_right_eq_self.mp same
  rw [ascii, List.map_eq_nil_iff, Nat.toString_eq_repr, Nat.toList_repr] at empty
  exact Nat.toDigits_ne_nil empty

/-! ### What a flush leaves -/

/-- A node that was written and read back. -/
def Node.reloaded (n : Node α) : Node α where
  left := n.left % 2 ^ 64
  right := n.right % 2 ^ 64
  height := n.height % 2 ^ 64
  parent := n.parent % 2 ^ 64
  val := n.val

theorem deserialize_node [LawfulSerial α] {n : Node α} (whole : intact n.val = true) :
    deserialize (serialize n) = .ok n.reloaded := by
  have word (val : Nat) (rest : ByteString) :
      varintDecode .uint64 (Serial.write (UInt64.ofNat val) ++ rest) = (.ok (val % 2 ^ 64), rest) := by
    rw [← UInt64.toNat_ofNat']
    exact varintDecode_encode (UInt64.ofNat val).toNat_lt rest
  have value := LawfulSerial.read_write n.val [] whole
  rw [List.append_nil] at value
  simp only [deserialize, serialize, Serial.read, Serial.write, List.append_assoc] at word value ⊢
  simp only [Exec.bind_of_ok (word _ _), Exec.bind_of_ok value]
  rfl

theorem status_of_deserialize {raw : ByteString} {n : Node α} (read : deserialize raw = .ok n) : n.status = .unchanged := by
  have run : (Serial.read : Decoder (Node α)) raw = (.ok n, ((Serial.read : Decoder (Node α)) raw).2) := by
    rw [← read]
    rfl
  obtain ⟨left, _, _, run⟩ := Exec.bind_ok run
  obtain ⟨right, _, _, run⟩ := Exec.bind_ok run
  obtain ⟨height, _, _, run⟩ := Exec.bind_ok run
  obtain ⟨parent, _, _, run⟩ := Exec.bind_ok run
  obtain ⟨val, _, _, run⟩ := Exec.bind_ok run
  cases (Prod.mk.inj run).1
  rfl

theorem status_of_stored {s : StoredSet α} {id : Nat} {n : Node α} (found : s.stored id = some n) : n.status = .unchanged := by
  obtain ⟨raw, _, decoded⟩ := Option.bind_eq_some_iff.mp found
  cases result : (deserialize raw : Except Stop (Node α)) with
  | error e => simp [result, Except.toOption] at decoded
  | ok m =>
    rw [result] at decoded
    cases decoded
    exact status_of_deserialize result

theorem save_other {baseKey : ByteString} (records : Records) {id : Nat} (n : Node α) {key : ByteString}
    (other : key ≠ nodeKey baseKey id) : save baseKey records id n key = records key := by
  cases status : n.status with
  | unchanged => simp [save, status]
  | changed => simp [save, status, other]
  | erased => simp [save, status, other]

/-- What the storage holds of a node that the cache holds. -/
def savedNode (n : Node α) (kept : Option ByteString) : Option ByteString :=
  match n.status with
  | .unchanged => kept
  | .changed => some (serialize n)
  | .erased => none

theorem save_self (baseKey : ByteString) (records : Records) (id : Nat) (n : Node α) :
    save baseKey records id n (nodeKey baseKey id) = savedNode n (records (nodeKey baseKey id)) := by
  cases status : n.status <;> simp [save, savedNode, status]

theorem saved_other {baseKey key : ByteString} (other : ∀ id, key ≠ nodeKey baseKey id) (entries : List (Sigma fun _ : Nat => Node α))
    (records : Records) : entries.foldl (fun records e => save baseKey records e.1 e.2) records key = records key := by
  induction entries generalizing records with
  | nil => rfl
  | cons e entries ih => exact (ih _).trans (save_other records e.2 (other e.1))

/-- Each node of the cache is saved once, under its own key. -/
theorem saved_node {baseKey : ByteString} {entries : List (Sigma fun _ : Nat => Node α)} (nodup : entries.NodupKeys)
    (records : Records) (id : Nat) :
    entries.foldl (fun records e => save baseKey records e.1 e.2) records (nodeKey baseKey id) =
      match entries.dlookup id with
      | none => records (nodeKey baseKey id)
      | some n => savedNode n (records (nodeKey baseKey id)) := by
  induction entries generalizing records with
  | nil => rfl
  | cons e entries ih =>
    obtain ⟨i, n⟩ := e
    obtain ⟨absent, nodup⟩ := List.nodupKeys_cons.mp nodup
    rw [List.foldl_cons, ih nodup]
    by_cases same : id = i
    · subst same
      rw [List.dlookup_eq_none.mpr absent, List.dlookup_cons_eq]
      exact save_self baseKey records id n
    · rw [List.dlookup_cons_ne _ _ same, save_other records n fun key => same (nodeKey_injective key)]

theorem destroy_details (s : StoredSet α) : s.destroy s.baseKey = some s.details := by
  unfold destroy
  rw [saved_other fun id => (nodeKey_ne s.baseKey id).symm]
  exact Function.update_self _ _ _

theorem destroy_node (s : StoredSet α) (id : Nat) :
    s.destroy (nodeKey s.baseKey id) =
      match s.cache.lookup id with
      | none => s.storage (nodeKey s.baseKey id)
      | some n => savedNode n (s.storage (nodeKey s.baseKey id)) := by
  unfold destroy
  rw [saved_node s.cache.nodupKeys, Function.update_of_ne (nodeKey_ne s.baseKey id)]
  rfl

omit [Serial α] in
theorem fits_reloaded {strict : Prop} {left right height parent : Nat} {v : α} {n : Node α}
    (fits : Node.Fits strict left v right height parent n) (smallLeft : left < 2 ^ 64) (smallRight : right < 2 ^ 64)
    (shallow : height < 2 ^ 64) (smallParent : parent < 2 ^ 64) : Node.Fits strict left v right height parent n.reloaded := by
  obtain ⟨rfl, rfl, val, rfl, link⟩ := fits
  refine ⟨Nat.mod_eq_of_lt smallLeft, Nat.mod_eq_of_lt smallRight, val, Nat.mod_eq_of_lt shallow, fun asked => ?_⟩
  rw [Node.reloaded, link asked]
  exact Nat.mod_eq_of_lt smallParent

omit [Serial α] in
/-- Records that a flush has left hold the tree on their own. -/
theorem Held.reload {old : Nat → Option (Node α)} {strict : Prop} {h h' : Heap α} {p bound : Nat} {t : SearchTree Nat α}
    (held : Held old strict h p t) (small : bound < 2 ^ 64) (parent : p ≤ bound) (known : ∀ id ∈ t.ids, id ≤ bound)
    (shallow : t.height ≤ bound) (clean : ∀ id n, h'.node id = some n → n.status = .unchanged)
    (unchanged : ∀ id n, h.node id = some n → n.status = .unchanged → h'.node id = old id)
    (changed : ∀ id n, h.node id = some n → n.status = .changed → h'.node id = some n.reloaded) :
    Held h'.node strict h' p t := by
  induction t generalizing p with
  | nil => trivial
  | node id l v r hl hr =>
    obtain ⟨named, ⟨n, found, fits, live, saved⟩, leftHeld, rightHeld⟩ := held
    simp only [SearchTree.ids_node, List.mem_append, List.mem_cons] at known
    simp only [SearchTree.height_node] at shallow
    have knownLeft (i : Nat) (mem : i ∈ l.ids) : i ≤ bound := known i (Or.inl mem)
    have knownRight (i : Nat) (mem : i ∈ r.ids) : i ≤ bound := known i (Or.inr (Or.inr mem))
    have here : id ≤ bound := known id (Or.inr (Or.inl rfl))
    obtain ⟨m, found', fits'⟩ : ∃ m, h'.node id = some m ∧
        Node.Fits strict l.top v r.top (max l.height r.height + 1) p m := by
      cases status : n.status with
      | unchanged =>
        obtain ⟨m, kept, fits⟩ := saved status
        exact ⟨m, (unchanged id n found status).trans kept, fits⟩
      | changed =>
        exact ⟨n.reloaded, changed id n found status, fits_reloaded fits ((top_known knownLeft).trans_lt small)
          ((top_known knownRight).trans_lt small) (shallow.trans_lt small) (parent.trans_lt small)⟩
      | erased => exact (live status).elim
    have status := clean id m found'
    refine ⟨named, ⟨m, found', fits', ?_, fun _ => ⟨m, found', fits'⟩⟩, ?_, ?_⟩
    · rw [status]
      nofun
    · exact hl leftHeld here knownLeft (by omega)
    · exact hr rightHeld here knownRight (by omega)

section

variable [LinearOrder α] [LawfulSerial α] {strict : Prop}

omit [LinearOrder α] [LawfulSerial α] in
theorem construct_details (s : StoredSet α) (counter : s.nonceNode < 2 ^ 64) (root : s.nonceRoot < 2 ^ 64) (size : s.setSize < 2 ^ 64) :
    construct s.destroy s.baseKey = .ok (α := StoredSet α)
      { storage := s.destroy, baseKey := s.baseKey, nonceNode := s.nonceNode, nonceRoot := s.nonceRoot, setSize := s.setSize } := by
  have last := varintDecode_encode (T := .uint64) size []
  rw [List.append_nil] at last
  rw [construct, destroy_details, details, List.append_assoc]
  simp only [Exec.bind_of_ok (varintDecode_encode (T := .uint64) counter _),
    Exec.bind_of_ok (varintDecode_encode (T := .uint64) root _), Exec.bind_of_ok last]
  rfl

theorem construct_destroy {s : StoredSet α} {t : SearchTree Nat α} (intact : ∀ val : α, Serial.intact val = true)
    (whole : Whole s.stored strict s.heap t) :
    ∃ s', construct s.destroy s.baseKey = .ok s' ∧ s'.baseKey = s.baseKey ∧ s'.storage = s.destroy ∧
      Whole s'.stored strict s'.heap t := by
  let s' : StoredSet α :=
    { storage := s.destroy, baseKey := s.baseKey, nonceNode := s.nonceNode, nonceRoot := s.nonceRoot, setSize := s.setSize }
  have counter : s.nonceNode < 2 ^ 64 := whole.room
  have root : s.nonceRoot < 2 ^ 64 := by
    have known := top_known whole.known
    rw [← whole.root] at known
    exact Nat.lt_of_le_of_lt known counter
  have size : s.setSize < 2 ^ 64 := by
    have known := whole.length_le
    rw [← whole.counted] at known
    exact Nat.lt_of_le_of_lt known counter
  have built := construct_details s counter root size
  have reads (id : Nat) (n : Node α) (found : s.heap.node id = some n) (raw : Option ByteString)
      (saved : s.cache.lookup id = some n → savedNode n (s.storage (nodeKey s.baseKey id)) = raw)
      (kept : n.status = .unchanged → s.storage (nodeKey s.baseKey id) = raw) : s.destroy (nodeKey s.baseKey id) = raw := by
    rw [destroy_node]
    cases cached : s.cache.lookup id with
    | none =>
      have stored : s.stored id = some n := by simpa [heap, cached] using found
      exact kept (status_of_stored stored)
    | some m =>
      obtain rfl : m = n := by simpa [heap, cached] using found
      exact saved cached
  refine ⟨s', built, rfl, rfl, ?_⟩
  have node : s'.heap.node = s'.stored := by
    funext id
    simp [heap, s']
  refine ⟨whole.root, ?_, whole.apart, whole.known, fun id beyond => ?_, whole.room, whole.ordered, whole.counted⟩
  · rw [← node]
    refine whole.held.reload counter (Nat.zero_le _) whole.known whole.height_le (fun id n found => ?_) (fun id n found status => ?_)
      fun id n found status => ?_
    · rw [node] at found
      exact status_of_stored found
    · have same := reads id n found _ (fun _ => by rw [savedNode, status]) fun _ => rfl
      rw [node]
      exact congrArg (Option.bind · _) same
    · have saved := reads id n found (some (serialize n)) (fun _ => by rw [savedNode, status]) fun same => by
        rw [same] at status
        cases status
      rw [node]
      change (s.destroy (nodeKey s.baseKey id)).bind _ = _
      rw [saved, Option.bind_some, deserialize_node (intact n.val)]
      rfl
  · have absent := whole.fresh id beyond
    simp only [heap, Option.or_eq_none_iff] at absent
    have raw : s.destroy (nodeKey s.baseKey id) = s.storage (nodeKey s.baseKey id) := by rw [destroy_node, absent.1]
    rw [node]
    exact (congrArg (Option.bind · _) raw).trans absent.2

/-- Keys that no set uses yet. -/
def Unused (records : Records) (baseKey : ByteString) : Prop :=
  records baseKey = none ∧ ∀ id, records (nodeKey baseKey id) = none

omit [LawfulSerial α] in
theorem construct_unused (strict : Prop) {records : Records} {baseKey : ByteString} (unused : Unused records baseKey) :
    ∃ s : StoredSet α, construct records baseKey = .ok s ∧ s.baseKey = baseKey ∧ s.storage = records ∧
      Whole s.stored strict s.heap .nil := by
  refine ⟨{ storage := records, baseKey }, by rw [construct, unused.1], rfl, rfl, ?_⟩
  refine ⟨rfl, trivial, List.nodup_nil, nofun, fun id _ => ?_, Nat.two_pow_pos 64, List.Pairwise.nil, rfl⟩
  simp [heap, stored, unused.2 id]

end

end BandChain.StoredSet
