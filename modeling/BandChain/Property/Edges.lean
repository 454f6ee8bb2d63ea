import BandChain.Store.GraphSet

/-! Which edges a `GraphStoreSet` tells apart. -/

namespace BandChain.GraphStoreSet

open OrderedSet (Orders Sorted)

/-- The edges added and not deleted since. -/
def current (edges : Set Edge) : List Call → Set Edge
  | [] => edges
  | .add e :: calls => current (Insert.insert e edges) calls
  | .delete e :: calls => current (edges \ {e}) calls

/-- The edges that some calls name. -/
def named (calls : List Call) : Set Edge := { e | e ∈ calls.map Call.edge }

/-- The comparison orders the edges that the calls name, and the calls leave the current edges in the store, each once. -/
def Exact (calls : List Call) : Prop :=
  Orders Edge.lt (named calls) ∧ (∀ e, e ∈ (({} : GraphStoreSet).run calls).edges ↔ e ∈ current ∅ calls) ∧
    (({} : GraphStoreSet).run calls).edges.Nodup

/-- No edge has an object before its subject, and of two edges with one subject and one predicate, the one with the smaller
label has the subject for its object. -/
structure Discerned (E : Set Edge) : Prop where
  object : ∀ e ∈ E, ¬ e.object < e.subject
  label : ∀ a ∈ E, ∀ b ∈ E, a ≠ b → a.subject = b.subject → a.predicate = b.predicate →
    (a.object = a.subject ∧ a.label < b.label) ∨ (b.object = b.subject ∧ b.label < a.label)

theorem lt_iff {a b : Edge} : a.lt b = true ↔
    a.subject < b.subject ∨ a.subject = b.subject ∧
      (a.predicate < b.predicate ∨ a.predicate = b.predicate ∧
        (a.object < b.subject ∨ a.object = b.subject ∧ a.label < b.label)) := by
  rw [Edge.lt, decide_eq_true_eq]
  simp only [List.cons_lt_cons_iff, List.not_lt_nil, and_false, or_false]

/-- Edges of one subject and one predicate. -/
theorem lt_iff_of_same {a b : Edge} (subject : a.subject = b.subject) (predicate : a.predicate = b.predicate)
    (above : ¬ a.object < a.subject) : a.lt b = true ↔ a.object = a.subject ∧ a.label < b.label := by
  rw [lt_iff, ← subject, ← predicate]
  simp [List.lt_irrefl, above]

theorem irrefl_of_object {e : Edge} (above : ¬ e.object < e.subject) : e.lt e = false := by
  rw [← Bool.not_eq_true, lt_iff_of_same rfl rfl above]
  exact fun ⟨_, less⟩ => List.lt_irrefl _ less

theorem Discerned.orders {E : Set Edge} (discerned : Discerned E) : Orders Edge.lt E := by
  have irrefl (a : Edge) (used : a ∈ E) : a.lt a = false := irrefl_of_object (discerned.object a used)
  have trans : ∀ a ∈ E, ∀ b ∈ E, ∀ c ∈ E, a.lt b = true → b.lt c = true → a.lt c = true := by
    intro a usedA b usedB c _ first second
    have aboveA := discerned.object a usedA
    rw [lt_iff] at first second ⊢
    rcases first with subjects | ⟨subject, first⟩
    · rcases second with subjects' | ⟨subject', _⟩
      · exact Or.inl (List.lt_trans subjects subjects')
      · exact Or.inl (subject' ▸ subjects)
    · rcases second with subjects' | ⟨subject', second⟩
      · exact Or.inl (subject ▸ subjects')
      refine Or.inr ⟨subject.trans subject', ?_⟩
      rcases first with predicates | ⟨predicate, first⟩
      · rcases second with predicates' | ⟨predicate', _⟩
        · exact Or.inl (List.lt_trans predicates predicates')
        · exact Or.inl (predicate' ▸ predicates)
      · rcases second with predicates' | ⟨predicate', second⟩
        · exact Or.inl (predicate ▸ predicates')
        refine Or.inr ⟨predicate.trans predicate', ?_⟩
        rcases first with below | ⟨object, less⟩
        · exact (aboveA (subject ▸ below)).elim
        rcases second with below | ⟨_, less'⟩
        · exact (discerned.object b usedB (subject' ▸ below)).elim
        · exact Or.inr ⟨object.trans subject', List.lt_trans less less'⟩
  have asymm : ∀ a ∈ E, ∀ b ∈ E, a.lt b = true → b.lt a = false := by
    intro a usedA b usedB first
    rw [← Bool.not_eq_true]
    intro second
    have self := trans a usedA b usedB a usedA first second
    rw [irrefl a usedA] at self
    cases self
  refine ⟨irrefl, asymm, trans, fun a usedA b usedB => ⟨fun ⟨notLess, notMore⟩ => ?_, ?_⟩⟩
  · by_contra differ
    rw [← Bool.not_eq_true, lt_iff] at notLess notMore
    rcases Std.lt_trichotomy a.subject b.subject with less | subject | more
    · exact notLess (Or.inl less)
    · rcases Std.lt_trichotomy a.predicate b.predicate with less | predicate | more
      · exact notLess (Or.inr ⟨subject, Or.inl less⟩)
      · rcases discerned.label a usedA b usedB differ subject predicate with ⟨object, less⟩ | ⟨object, less⟩
        · exact notLess (Or.inr ⟨subject, Or.inr ⟨predicate, Or.inr ⟨object.trans subject, less⟩⟩⟩)
        · exact notMore (Or.inr ⟨subject.symm, Or.inr ⟨predicate.symm, Or.inr ⟨object.trans subject.symm, less⟩⟩⟩)
      · exact notMore (Or.inr ⟨subject.symm, Or.inl more⟩)
    · exact notMore (Or.inl more)
  · rintro rfl
    exact ⟨irrefl a usedA, irrefl a usedA⟩

theorem discerned_of_orders {E : Set Edge} (orders : Orders Edge.lt E) : Discerned E := by
  have object : ∀ e ∈ E, ¬ e.object < e.subject := by
    intro e used below
    have self : e.lt e = true := lt_iff.mpr (Or.inr ⟨rfl, Or.inr ⟨rfl, Or.inl below⟩⟩)
    rw [orders.irrefl e used] at self
    cases self
  refine ⟨object, fun a usedA b usedB differ subject predicate => ?_⟩
  by_contra neither
  obtain ⟨notLess, notMore⟩ := not_or.mp neither
  refine differ ((orders.incomparable a usedA b usedB).mp ⟨?_, ?_⟩)
  · rwa [← Bool.not_eq_true, lt_iff_of_same subject predicate (object a usedA)]
  · rwa [← Bool.not_eq_true, lt_iff_of_same subject.symm predicate.symm (object b usedB)]

/-- A run over edges that are told apart. -/
theorem run_current {E : Set Edge} (orders : Orders Edge.lt E) (g : GraphStoreSet) (edges : Set Edge) (sorted : Sorted Edge.lt E g.edges)
    (same : ∀ e, e ∈ g.edges ↔ e ∈ edges) {calls : List Call} (used : ∀ e ∈ named calls, e ∈ E) :
    Sorted Edge.lt E (g.run calls).edges ∧ ∀ e, e ∈ (g.run calls).edges ↔ e ∈ current edges calls := by
  induction calls generalizing g edges with
  | nil => exact ⟨sorted, same⟩
  | cons call calls ih =>
    have here := used call.edge List.mem_cons_self
    have later : ∀ e ∈ named calls, e ∈ E := fun e mem => used e (List.mem_cons_of_mem _ mem)
    cases call with
    | add e =>
      refine ih (g.step (.add e)) _ (sorted.insert orders here) (fun a => ?_) later
      exact (OrderedSet.mem_insert orders here sorted a).trans (or_congr_right (same a))
    | delete e =>
      refine ih (g.step (.delete e)) _ sorted.erase (fun a => ?_) later
      exact (OrderedSet.mem_erase orders here sorted a).trans (and_congr_left' (same a))

/-- Calls that name edges that are told apart leave the current ones in the store, each once. -/
theorem stored_of_orders {calls : List Call} (orders : Orders Edge.lt (named calls)) :
    (∀ e, e ∈ (({} : GraphStoreSet).run calls).edges ↔ e ∈ current ∅ calls) ∧ (({} : GraphStoreSet).run calls).edges.Nodup := by
  obtain ⟨sorted, same⟩ := run_current orders {} ∅ Sorted.nil (fun e => by simp) (fun _ => id)
  exact ⟨same, sorted.nodup orders⟩

theorem edges_exact_iff (calls : List Call) : Exact calls ↔ Discerned (named calls) := by
  constructor
  · intro exact
    exact discerned_of_orders exact.1
  · intro discerned
    have orders := discerned.orders
    exact ⟨orders, stored_of_orders orders⟩

/-- Two edges of one subject and one predicate, neither to the subject itself. -/
def forked : List Call :=
  [.add ⟨ascii "alice", ascii "knows", ascii "bob", []⟩, .add ⟨ascii "alice", ascii "knows", ascii "carol", []⟩]

/-- The second edge is taken for the first. -/
theorem forked_not_exact : ¬ Exact forked := by
  intro exact
  have stored := (exact.2.1 ⟨ascii "alice", ascii "knows", ascii "carol", []⟩).mpr (by simp [forked, current])
  revert stored
  decide +kernel

end BandChain.GraphStoreSet
