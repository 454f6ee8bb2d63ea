import BandChain.Listener.Steady
import BandChain.Listener.Typed

/-! The chain is initialized by its first genesis, and nothing is accepted before it. -/

namespace BandChain

variable {K : Type} {L : Layout K}

def Call.isGenesis : Call → Bool
  | .initChain _ => true
  | .beginBlock _ _ | .checkTransaction _ | .applyTransaction _ _ | .commitBlock => false

namespace Node

variable {σ : Type} [Storage σ] [Sha256] {n : Node σ}

theorem step_down (down : n.down = true) (call : Call) : n.step call = n := by rw [Node.step, if_pos down]

theorem run_down (down : n.down = true) (calls : List Call) : n.run calls = n := by
  induction calls with
  | nil => rfl
  | cons call calls ih =>
    rw [Node.run, List.foldl_cons, step_down down]
    exact ih

/-- A node that is up was up all along. -/
theorem up_of_run {calls : List Call} (up : (n.run calls).down = false) : n.down = false := by
  by_contra down
  rw [run_down (by simpa using down)] at up
  exact down up

theorem run_append (n : Node σ) (calls more : List Call) : n.run (calls ++ more) = (n.run calls).run more := List.foldl_append ..

/-- The history of a node that is up has all its calls. -/
theorem history_calls {calls : List Call} (up : (n.run calls).down = false) :
    (n.run calls).history.map Record.call = n.history.map Record.call ++ calls := by
  induction calls generalizing n with
  | nil => exact (List.append_nil _).symm
  | cons call calls ih =>
    have later := ih (n := n.step call) up
    have before : n.down = false := up_of_run (show (n.run (call :: calls)).down = false from up)
    change ((n.step call).run calls).history.map Record.call = _
    rw [later, Node.step_up before, List.map_append, List.append_assoc]
    rfl

end Node

section

variable [DecidableEq K] [Sha256] {o o' : Overlay L} {blk : BlockMsg}

/-- Genesis founds the chain, and no other call does. -/
theorem founded_effect {call : Call} {outcome : Except Stop ByteString} {notices : List Notice} {block : BlockMsg}
    (steady : o.Steady) (effect : Effect o blk call outcome o' notices block) (alive : outcome ≠ .error .crash) :
    o'.Founded ↔ o.Founded ∨ call.isGenesis = true := by
  have plain (other : call.isGenesis = false) (same : o'.applyCache = o.applyCache) : o'.Founded ↔ o.Founded ∨ call.isGenesis = true := by
    rw [Overlay.Founded, same, other]
    simp [Overlay.Founded]
  have validated {mode : PrimaryMode} {hdr : HeaderMsg} {data : ByteString} {result : Except Stop Unit} {o₁ : Overlay L}
      (ran : PrimaryListener.validateTransaction mode hdr data o = (result, o₁)) : o₁.applyCache = o.applyCache := by
    cases result with
    | error e =>
      rw [PrimaryListener.validate_error ran]
      rfl
    | ok _ =>
      obtain ⟨_, _, _, _, rfl⟩ := PrimaryListener.validate_ok ran
      rfl
  have both (before : o.Founded) (after : o'.Founded) : o'.Founded ↔ o.Founded ∨ call.isGenesis = true :=
    iff_of_true after (Or.inl before)
  cases effect with
  | genesis ran =>
    rcases init_cases steady with ⟨_, refused⟩ | ⟨clear, nothing, seeded⟩
    · cases refused.symm.trans ran
    · obtain ⟨_, rfl⟩ := Prod.mk.inj (seeded.symm.trans ran)
      exact iff_of_true (seeded_facts steady clear nothing).2.2.2.flushed (Or.inr rfl)
  | genesisRefused ran =>
    rcases init_cases steady with ⟨founded, refused⟩ | ⟨_, _, seeded⟩
    · obtain ⟨_, rfl⟩ := Prod.mk.inj (refused.symm.trans ran)
      exact iff_of_true founded (Or.inr rfl)
    · cases seeded.symm.trans ran
  | begun | unchecked _ | malformed _ => exact plain rfl rfl
  | checked _ ran | refused _ ran | undecoded _ ran _ => exact plain rfl (validated ran)
  | @failed _ _ e _ _ _ _ _ _ _ _ _ accepted _ ran =>
    obtain ⟨steady₁, founded₁⟩ := steady_validate steady accepted
    have before : o.Founded := by
      rw [Overlay.Founded, ← validated accepted]
      exact founded₁ rfl
    cases e with
    | crash => exact (alive rfl).elim
    | throw e => exact both before (steady_process_throw steady₁ (founded₁ rfl) ran).2
  | applied _ accepted _ ran =>
    obtain ⟨steady₁, founded₁⟩ := steady_validate steady accepted
    have before : o.Founded := by
      rw [Overlay.Founded, ← validated accepted]
      exact founded₁ rfl
    exact both before (steady_process_ok steady₁ (founded₁ rfl) ran).2
  | committed ran =>
    obtain ⟨_, rfl⟩ := Prod.mk.inj ((PrimaryListener.commit_apply _ steady.selected).symm.trans ran)
    rcases steady.founded with founded | ⟨_, nothing⟩
    · exact both founded founded.flushed
    · exact plain rfl (Overlay.flushed_of_none nothing)

/-- The storage of a live node is in order, and founded exactly if genesis was called. -/
def Initiated (n : Node (Overlay L)) : Prop := n.down = false → ∃ o, n.manager.primary = some o ∧ o.Steady ∧ o.Typed ∧
  (o.Founded ↔ ∃ r ∈ n.history, r.call.isGenesis = true)

omit [DecidableEq K] [Sha256] in
theorem initiated_start : Initiated (L := L) (Node.start {}) := fun _ =>
  ⟨_, rfl, Overlay.steady_empty, Overlay.typed_empty, iff_of_false nofun (by rintro ⟨_, ⟨⟩, _⟩)⟩

theorem Initiated.step {n : Node (Overlay L)} (initiated : Initiated n) (call : Call) : Initiated (n.step call) := by
  by_cases down : n.down = true
  · rwa [Node.step_down down]
  · have up : n.down = false := by simpa using down
    obtain ⟨o, primary, steady, typed, founded⟩ := initiated up
    obtain ⟨outcome, o', notices, block, effect, after⟩ := step_effect up primary call
    rw [after]
    intro alive
    have alive := crashed_eq_false.mp alive
    refine ⟨o', rfl, steady_effect steady effect alive, typed_effect steady typed effect alive, ?_⟩
    rw [founded_effect steady effect alive, founded, Node.moved]
    simp only [List.mem_append, List.mem_singleton, or_and_right, exists_or, exists_eq_left]

theorem Initiated.run {n : Node (Overlay L)} (initiated : Initiated n) (calls : List Call) : Initiated (n.run calls) := by
  induction calls generalizing n with
  | nil => exact initiated
  | cons call calls ih => exact ih (initiated.step call)

/-- A live node after the calls: its storage `s`, the store `o` that stands for it, and how a call ends there. -/
structure LiveAt (calls : List Call) (s : StorageMap L) (o : Overlay L) : Prop where
  primary : ((Node.start ({} : StorageMap L)).run calls).manager.primary = some s
  related : Parallel s o
  steady : o.Steady
  typed : o.Typed
  founded : o.Founded ↔ ∃ call ∈ calls, call.isGenesis = true
  effect : ∀ call : Call, ∃ outcome o' notices block,
    Effect o ((Node.start ({} : Overlay L)).run calls).manager.block call outcome o' notices block ∧
      (call.exec ((Node.start ({} : StorageMap L)).run calls).manager).1 = outcome ∧
      (outcome ≠ .error .crash →
        ∃ s', (call.exec ((Node.start ({} : StorageMap L)).run calls).manager).2.primary = some s' ∧ Parallel s' o')

theorem live_at {calls : List Call} (up : ((Node.start ({} : StorageMap L)).run calls).down = false) :
    ∃ (s : StorageMap L) (o : Overlay L), LiveAt calls s o := by
  have twin := (twin_start (L := L)).run calls
  have up' := twin.down.symm.trans up
  obtain ⟨o, held, steady, typed, founded⟩ := (initiated_start (L := L)).run calls up'
  obtain ⟨s, stored, related⟩ := twin.storage up held
  refine ⟨s, o, stored, related, steady, typed, ?_, fun call => ?_⟩
  · have known : ((Node.start ({} : Overlay L)).run calls).history.map Record.call = [] ++ calls := Node.history_calls up'
    rw [List.nil_append] at known
    rw [founded]
    conv => rhs; rw [← known]
    simp only [List.mem_map, exists_exists_and_eq_and]
  · obtain ⟨outcome, o', notices, block', effect⟩ := exists_effect o ((Node.start ({} : Overlay L)).run calls).manager.block call
    have same := twin.sameRecord up call
    rw [effect.exec held] at same
    refine ⟨outcome, o', notices, block', effect, same.outcome, fun alive => ?_⟩
    exact (same.after fun crash => alive (same.outcome.symm.trans crash)).storage rfl

end

end BandChain
