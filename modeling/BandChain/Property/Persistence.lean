import BandChain.Store.Session
import BandChain.Store.Sturdy

/-!
What the flushes of a `Set` leave in the storage, after any calls and iterator steps in any number of
sessions, and whatever they threw.
-/

namespace BandChain.StoredSet

/-- The start of an iterator, or a step of one. -/
inductive Walk where
  | begin
  | last
  | next (it : Nat)
  | prev (it : Nat)

inductive Use (α : Type) where
  | event (e : Event α)
  | walk (w : Walk)

section

variable {α : Type} [Serial α]

def Walk.exec : Walk → Exec Stop (StoredSet α) Nat
  | .begin => StoredSet.begin
  | .last => StoredSet.last
  | .next it => StoredSet.next it
  | .prev it => StoredSet.prev it

variable [LinearOrder α] [Inhabited α]

def Session.use (baseKey : ByteString) (session : Session α) : Use α → Session α
  | .event e => (session.step baseKey e).2
  | .walk w =>
    match session.set baseKey with
    | .error _ => session
    | .ok s => .loaded (w.exec s).2

def Session.uses (baseKey : ByteString) : Session α → List (Use α) → Session α
  | session, [] => session
  | session, u :: us => (session.use baseKey u).uses baseKey us

/-- The counter has a number for the node that an insertion makes. -/
def Numbered (s : StoredSet α) (val : α) : Prop := (contains val s).1 = .ok false → s.nonceNode + 1 < 2 ^ 64

instance (s : StoredSet α) (val : α) : Decidable (Numbered s val) := inferInstanceAs (Decidable (_ → _))

def Use.Fit (baseKey : ByteString) (session : Session α) : Use α → Prop
  | .event e => session.Fit baseKey Numbered (fun _ _ => True) e
  | .walk _ => True

/-- Every insertion of a history finds a number where it needs one. -/
def Session.Through (baseKey : ByteString) : Session α → List (Use α) → Prop
  | _, [] => True
  | session, u :: us => u.Fit baseKey session ∧ Session.Through baseKey (session.use baseKey u) us

/-- A flush of a set that is loaded leaves its records; those of a set that is not are the first ones, or
what a flush has left. -/
structure Session.Persists (records : Records) (session : Session α) : Prop where
  loaded : ∀ s, session = .loaded s → s.Persists s.destroy
  stored : ∀ kept, session = .stored kept → kept = records ∨ ∃ s : StoredSet α, s.Persists kept

section

variable (baseKey : ByteString)

instance decidableUseFit (session : Session α) : (u : Use α) → Decidable (u.Fit baseKey session)
  | .event e => inferInstanceAs (Decidable (session.Fit baseKey Numbered (fun _ _ => True) e))
  | .walk _ => .isTrue trivial

instance decidableThrough : (session : Session α) → (us : List (Use α)) → Decidable (session.Through baseKey us)
  | _, [] => .isTrue trivial
  | session, u :: us =>
    have := decidableThrough (session.use baseKey u) us
    inferInstanceAs (Decidable (_ ∧ _))

end

/-! ### What every history keeps -/

/-- A sturdy set over some records. -/
def Stands (baseKey : ByteString) (records : Records) (s : StoredSet α) : Prop :=
  s.baseKey = baseKey ∧ s.storage = records ∧ ∃ t, Sturdy s.stored s.heap t

variable {baseKey : ByteString} {records : Records} {s s' : StoredSet α}

omit [LinearOrder α] [Inhabited α] in
theorem Stands.of_heap (stands : Stands baseKey records s) {t : SearchTree Nat α} (sturdy : Sturdy s.stored s'.heap t)
    (storage : s'.storage = s.storage) (base : s'.baseKey = s.baseKey) : Stands baseKey records s' := by
  refine ⟨base.trans stands.1, storage.trans stands.2.1, t, ?_⟩
  unfold stored
  rwa [storage, base]

omit [LinearOrder α] [Inhabited α] in
theorem Stands.looks (stands : Stands baseKey records s) {β : Type} {x : Exec Stop (StoredSet α) β} (keeps : x.Keeps (Looks s)) :
    Stands baseKey records (x s).2 := by
  obtain ⟨heap, storage, base⟩ := keeps.after ⟨rfl, rfl, rfl⟩
  obtain ⟨t, sturdy⟩ := stands.2.2
  rw [← heap] at sturdy
  exact stands.of_heap sturdy storage base

omit [LinearOrder α] [Inhabited α] in
theorem Stands.walk (stands : Stands baseKey records s) (w : Walk) : Stands baseKey records (w.exec s).2 := by
  refine stands.looks ?_
  cases w with
  | begin => exact end_looks .left
  | last => exact end_looks .right
  | next it => exact advance_looks .right it
  | prev it => exact advance_looks .left it

omit [LinearOrder α] [Inhabited α] in
theorem Stands.unnumbered (stands : Stands baseKey records s) (tidy : Tidy α records baseKey) : s.storage (nodeKey s.baseKey 0) = none := by
  obtain ⟨rfl, rfl, t, sturdy⟩ := stands
  by_contra record
  obtain ⟨raw, record⟩ := Option.ne_none_iff_exists'.mp record
  obtain ⟨n, read⟩ := tidy.decoded 0 raw record
  have absent := (Option.or_eq_none_iff.mp (sturdy.fresh 0 (Or.inl rfl))).2
  cases absent.symm.trans (stored_of_record record read)

/-- Every call ends in a sturdy set, also where it throws. -/
theorem Stands.call (stands : Stands baseKey records s) (tidy : Tidy α records baseKey) (c : Call α)
    (fit : (Event.call c).Fit Numbered (fun _ _ => True) s) : Stands baseKey records (c.exec s).2 := by
  cases c with
  | insert val =>
    obtain ⟨t, sturdy⟩ := stands.2.2
    have room : meets val t = false → s.nonceNode + 1 < 2 ^ 64 := by
      intro new
      obtain ⟨s', ran, _⟩ := sturdy.contains_runs val s rfl
      exact fit (by rw [ran, new])
    obtain ⟨s', storage, base, ⟨b, ran, u, sturdy'⟩ | ⟨ran, u, sturdy'⟩⟩ := sturdy.insert_ends room s rfl (stands.unnumbered tidy)
    · have run : (Call.insert val).exec s = (.ok (.bool b), s') := Exec.bind_of_ok ran
      rw [run]
      exact stands.of_heap sturdy' storage base
    · have run : (Call.insert val).exec s = (.error (.throw (.error .nodeNotFound)), s') := Exec.bind_of_error ran
      rw [run]
      exact stands.of_heap sturdy' storage base
  | erase val =>
    obtain ⟨t, sturdy⟩ := stands.2.2
    obtain ⟨b, h, runs, u, sturdy'⟩ := sturdy.erase_runs val
    obtain ⟨s', ran, seen, storage, base⟩ := runs s rfl
    have run : (Call.erase val).exec s = (.ok (.bool b), s') := Exec.bind_of_ok ran
    rw [← seen] at sturdy'
    rw [run]
    exact stands.of_heap sturdy' storage base
  | contains val => exact stands.looks ((contains_looks val).bind fun _ => Exec.Keeps.pure _)
  | find val =>
    refine stands.looks ((find_looks val).bind fun it => ?_)
    split
    · exact Exec.Keeps.pure _
    · exact (value_looks it).bind fun _ => Exec.Keeps.pure _
  | maxValue => exact stands.looks (maxValue_looks.bind fun _ => Exec.Keeps.pure _)
  | size => exact stands.looks ((get_looks.bind fun _ => Exec.Keeps.pure _).bind fun _ => Exec.Keeps.pure _)

/-- The set that the next call works on stands, and so does the one after a reset. -/
structure Sound (first : Records) (baseKey : ByteString) (session : Session α) : Prop where
  tidy : Tidy α session.records baseKey
  current : ∃ s, session.set baseKey = .ok s ∧ Stands baseKey session.records s
  kept : ∃ s : StoredSet α, construct session.records baseKey = .ok s ∧ Stands baseKey session.records s
  flushed : session.records = first ∨ ∃ s : StoredSet α, s.Persists session.records

omit [LinearOrder α] [Inhabited α] in
theorem Sound.start (clean : ∀ key, baseKey <+: key → records key = none) :
    Sound records baseKey (.stored records : Session α) := by
  have nodes (id : Nat) : records (nodeKey baseKey id) = none := clean _ (List.prefix_append _ _)
  let s : StoredSet α := { storage := records, baseKey }
  have built : construct records baseKey = .ok s := by rw [construct, clean baseKey (List.prefix_refl _)]
  have empty (id : Nat) : s.heap.node id = none := by simp [heap, stored, s, nodes id]
  have sturdy : Sturdy s.stored s.heap .nil :=
    ⟨rfl, trivial, List.nodup_nil, fun _ mem => absurd mem List.not_mem_nil, fun id _ => empty id, Nat.two_pow_pos 64, rfl,
      fun id n _ found => by cases (empty id).symm.trans found⟩
  have stands : Stands baseKey records s := ⟨rfl, rfl, .nil, sturdy⟩
  refine ⟨⟨fun key below record => (record (clean key below)).elim, fun id raw record => ?_⟩, ⟨s, built, stands⟩, ⟨s, built, stands⟩,
    Or.inl rfl⟩
  cases (nodes id).symm.trans record

omit [LinearOrder α] [Inhabited α] in
theorem Sound.loaded {first : Records} {session : Session α} (sound : Sound first baseKey session)
    (stands : Stands baseKey session.records s) : Sound first baseKey (.loaded s) := by
  have same : (Session.loaded s).records = session.records := stands.2.1
  refine ⟨?_, ⟨s, rfl, ?_⟩, ?_, ?_⟩
  · rw [same]
    exact sound.tidy
  · rwa [same]
  · rw [same]
    exact sound.kept
  · rw [same]
    exact sound.flushed

variable [LawfulSerial α]

theorem Sound.use (intact : ∀ val : α, Serial.intact val = true) {first : Records} {session : Session α}
    (sound : Sound first baseKey session) {u : Use α} (fit : u.Fit baseKey session) : Sound first baseKey (session.use baseKey u) := by
  obtain ⟨s, built, stands⟩ := sound.current
  cases u with
  | walk w =>
    simp only [Session.use, built]
    exact sound.loaded (stands.walk w)
  | event e =>
    cases e with
    | call c =>
      have stands' := stands.call sound.tidy c (fit s built)
      rcases ran : c.exec s with ⟨e | answer, s'⟩
      · rw [ran] at stands'
        simp only [Session.use, Session.step, built, ran]
        exact sound.loaded stands'
      · rw [ran] at stands'
        simp only [Session.use, Session.step, built, ran]
        exact sound.loaded stands'
    | reset => exact ⟨sound.tidy, sound.kept, sound.kept, sound.flushed⟩
    | flush =>
      cases session with
      | stored records => exact sound
      | loaded s =>
        cases built
        have tidy := sound.tidy
        obtain ⟨rfl, storage, t, sturdy⟩ := stands
        obtain ⟨counter, root, size⟩ := sturdy.small
        have again : ∃ s', construct s.destroy s.baseKey = .ok s' ∧ Stands s.baseKey s.destroy s' :=
          ⟨s.reloaded, construct_details s counter root size, rfl, rfl, t, sturdy.reload tidy intact⟩
        exact ⟨sturdy.tidy tidy intact, again, again, Or.inr ⟨s, sturdy.persists tidy intact⟩⟩

theorem Sound.uses (intact : ∀ val : α, Serial.intact val = true) {first : Records} {session : Session α}
    (sound : Sound first baseKey session) {us : List (Use α)} (through : session.Through baseKey us) :
    Sound first baseKey (session.uses baseKey us) := by
  induction us generalizing session with
  | nil => exact sound
  | cons u us ih => exact ih (sound.use intact through.1) through.2

/-- After any history, a flush leaves the records of the nodes that hang from the root, as they are. -/
theorem flush_persists (intact : ∀ val : α, Serial.intact val = true) (clean : ∀ key, baseKey <+: key → records key = none)
    {us : List (Use α)} (through : (Session.stored records).Through baseKey us) :
    ((Session.stored records).uses baseKey us).Persists records := by
  have sound := (Sound.start (α := α) clean).uses intact through
  refine ⟨fun s ended => ?_, fun kept ended => ?_⟩
  · rw [ended] at sound
    obtain ⟨_, built, rfl, _, t, sturdy⟩ := sound.current
    cases built
    exact sturdy.persists sound.tidy intact
  · rw [ended] at sound
    exact sound.flushed

end

/-- The last insertion throws, and the node of the one before it is kept. -/
theorem flush_persists_stuck :
    (emptySession.uses (ascii "test/set/s/")
      ((tipped ++ insertions [3, 2, 4, 1, 10, 4, 5]).map Use.event ++ [.walk .begin, .event .flush])).Persists fun _ => none :=
  flush_persists (fun _ => rfl) (fun _ _ => rfl) (by decide +kernel)

/-! ### The end of the numbers -/

/-- An element comes and goes, and takes a number with it. -/
def turn : List (Use UInt16) := [.event (.call (.insert 0)), .event (.call (.erase 0)), .event .flush]

/-- What that leaves. -/
def spent (baseKey : ByteString) : Nat → Records
  | 0 => fun _ => none
  | n + 1 => Function.update (fun _ => none) baseKey (some (varintEncode (n + 1) ++ varintEncode 0 ++ varintEncode 0))

theorem construct_spent (baseKey : ByteString) {n : Nat} (small : n < 2 ^ 64) :
    construct (spent baseKey n) baseKey = .ok (α := StoredSet UInt16) { storage := spent baseKey n, baseKey, nonceNode := n } := by
  cases n with
  | zero => rfl
  | succ n =>
    have zero : (0 : Nat) < 2 ^ 64 := Nat.two_pow_pos 64
    have last := varintDecode_encode (T := .uint64) zero []
    rw [List.append_nil] at last
    simp only [construct, spent, Function.update_self, List.append_assoc, Exec.bind_of_ok (varintDecode_encode (T := .uint64) small _),
      Exec.bind_of_ok (varintDecode_encode (T := .uint64) zero _), Exec.bind_of_ok last]
    rfl

/-- The node of the element, and the set that holds it alone. -/
def lone (baseKey : ByteString) (records : Records) (n : Nat) : StoredSet UInt16 where
  storage := records
  baseKey := baseKey
  nonceNode := n
  nonceRoot := n
  setSize := 1
  cache := AList.insert n { left := 0, right := 0, height := 1, parent := 0, val := 0, status := .changed } ∅

theorem insert_spent (baseKey : ByteString) (n : Nat) :
    (Call.insert (0 : UInt16)).exec { storage := spent baseKey n, baseKey, nonceNode := n } =
      (.ok (.bool true), lone baseKey (spent baseKey n) ((n + 1) % 2 ^ 64)) := rfl

theorem erase_lone (baseKey : ByteString) (records : Records) {n : Nat} (named : n ≠ 0) :
    (Call.erase (0 : UInt16)).exec (lone baseKey records n) =
      (.ok (.bool true), {
        storage := records, baseKey, nonceNode := n
        cache := AList.insert n { left := 0, right := 0, height := 1, parent := 0, val := 0, status := .erased } ∅ }) := by
  simp [Call.exec, lone, erase, rounds, deleteNode, getNode, spliceNode, modifyNode, leaveErased, named, Exec.bind_apply,
    AList.lookup_insert, -AList.insert_empty, AList.insert_insert]

theorem uses_turn {baseKey : ByteString} {n : Nat} (small : n + 1 < 2 ^ 64) :
    (Session.stored (spent baseKey n)).uses baseKey turn = .stored (spent baseKey (n + 1)) := by
  have built := construct_spent baseKey (show n < 2 ^ 64 by omega)
  have inserted := insert_spent baseKey n
  rw [Nat.mod_eq_of_lt small] at inserted
  have erased := erase_lone baseKey (spent baseKey n) (Nat.succ_ne_zero n)
  simp only [turn, Session.uses, Session.use, Session.step, Session.set, built, inserted, erased, Session.stored.injEq]
  funext key
  by_cases base : key = baseKey
  · subst base
    rw [destroy_details]
    simp [spent, details]
  · have absent (n : Nat) : spent baseKey n key = none := by cases n <;> simp [spent, base]
    rw [absent]
    by_cases node : ∃ id, key = nodeKey baseKey id
    · obtain ⟨id, rfl⟩ := node
      rw [destroy_node]
      by_cases same : id = n + 1
      · subst same
        rw [AList.lookup_insert]
        rfl
      · rw [AList.lookup_insert_ne same]
        exact absent n
    · unfold destroy
      rw [saved_other fun id same => node ⟨id, same⟩, Function.update_of_ne base]
      exact absent n

theorem uses_append {α : Type} [Serial α] [LinearOrder α] [Inhabited α] (baseKey : ByteString) (session : Session α) (us vs : List (Use α)) :
    session.uses baseKey (us ++ vs) = (session.uses baseKey us).uses baseKey vs := by
  induction us generalizing session with
  | nil => rfl
  | cons u us ih => exact ih (session.use baseKey u)

theorem uses_turns {baseKey : ByteString} {n : Nat} (small : n < 2 ^ 64) :
    (emptySession.uses baseKey (List.replicate n turn).flatten) = .stored (spent baseKey n) := by
  induction n with
  | zero => rfl
  | succ n ih =>
    rw [List.replicate_succ', List.flatten_append, uses_append, ih (by omega), List.flatten_singleton]
    exact uses_turn small

theorem unreachable_of_root {α : Type} [Serial α] {s : StoredSet α} (root : s.nonceRoot = 0) (id : Nat) : ¬ Reachable s id := by
  intro reachable
  induction reachable with
  | root some => exact some root
  | child _ _ _ _ ih => exact ih

/-- After the last number comes 0: the node is stored, and nothing leads to it. -/
theorem lone_zero_leaks (baseKey : ByteString) (records : Records) : ¬ (lone baseKey records 0).Persists (lone baseKey records 0).destroy := by
  intro persists
  have record : (lone baseKey records 0).destroy (nodeKey baseKey 0) ≠ none := by
    have saved := destroy_node (lone baseKey records 0) 0
    rw [lone, AList.lookup_insert] at saved
    rw [lone, saved]
    nofun
  rcases (persists.keys _ (List.prefix_append _ _)).mp record with same | ⟨id, reachable, _⟩
  · exact nodeKey_ne baseKey 0 same
  · exact unreachable_of_root rfl id reachable

theorem uses_wrapped (baseKey : ByteString) {n : Nat} (last : n + 1 = 2 ^ 64) :
    emptySession.uses baseKey ((List.replicate n turn).flatten ++ [.event (.call (.insert 0))]) =
      .loaded (lone baseKey (spent baseKey n) 0) := by
  have built := construct_spent baseKey (show n < 2 ^ 64 by omega)
  have inserted := insert_spent baseKey n
  rw [last, Nat.mod_self] at inserted
  rw [uses_append, uses_turns (by omega)]
  simp only [Session.uses, Session.use, Session.step, Session.set, built, inserted]

theorem flush_leaks_wrapped :
    ¬ (emptySession.uses (ascii "test/set/s/")
      ((List.replicate (2 ^ 64 - 1) turn).flatten ++ [.event (.call (.insert 0))])).Persists fun _ => none := by
  intro persists
  exact lone_zero_leaks _ _ (persists.loaded _ (uses_wrapped _ (Nat.sub_add_cancel (Nat.two_pow_pos 64))))

end BandChain.StoredSet
