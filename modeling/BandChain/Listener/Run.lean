import BandChain.Listener.Refine
import Mathlib.Data.List.Forall2

/-! Runs: a node on a `StorageMap` and the same node on the overlay see the same outcomes, and the overlay's
run goes from effect to effect. -/

namespace BandChain

variable {K : Type} {L : Layout K}

/-- The manager after a call that left the process running has a primary listener on a related storage. -/
structure SameRecord (r : Record (StorageMap L)) (r' : Record (Overlay L)) : Prop where
  call : r.call = r'.call
  outcome : r.outcome = r'.outcome
  after : r.outcome ≠ .error .crash → Alike Parallel r.after r'.after

/-- Two nodes that made the same calls. -/
structure Twin (m : Node (StorageMap L)) (n : Node (Overlay L)) : Prop where
  down : m.down = n.down
  manager : m.down = false → Alike Parallel m.manager n.manager
  history : List.Forall₂ SameRecord m.history n.history

theorem twin_start : Twin (L := L) (Node.start {}) (Node.start {}) where
  down := rfl
  manager := fun _ => ⟨rfl, rfl, Or.inr ⟨_, _, rfl, rfl,
    (settled_of_empty rfl rfl rfl rfl rfl fun _ => rfl).between, Overlay.steady_empty⟩⟩
  history := .nil

theorem Node.step_up {σ : Type} [Storage σ] [Sha256] {n : Node σ} (up : n.down = false) (call : Call) :
    n.step call =
      { manager := (call.exec n.manager).2
        history := n.history ++ [⟨call, (call.exec n.manager).1, (call.exec n.manager).2⟩]
        down := crashed (call.exec n.manager).1 } := by
  rw [Node.step, up]
  rfl

theorem crashed_eq_false {outcome : Except Stop ByteString} : crashed outcome = false ↔ outcome ≠ .error .crash := by
  rcases outcome with (_ | _) | _ <;> simp [crashed]

namespace Twin

variable [DecidableEq K] [Sha256] {m : Node (StorageMap L)} {n : Node (Overlay L)}

theorem sameRecord (twin : Twin m n) (up : m.down = false) (call : Call) :
    SameRecord ⟨call, (call.exec m.manager).1, (call.exec m.manager).2⟩
      ⟨call, (call.exec n.manager).1, (call.exec n.manager).2⟩ := by
  have both := sim_call call _ _ (twin.manager up)
  rcases left : call.exec m.manager with ⟨e | bytes, m'⟩
  · rw [left] at both
    obtain ⟨n', right, post⟩ := both.of_error
    rw [right]
    exact ⟨rfl, rfl, fun alive => post fun crash => alive (by rw [crash])⟩
  · rw [left] at both
    obtain ⟨n', right, post⟩ := both.of_ok
    rw [right]
    exact ⟨rfl, rfl, fun _ => post⟩

theorem step (twin : Twin m n) (call : Call) : Twin (m.step call) (n.step call) := by
  by_cases down : m.down = true
  · have other : n.down = true := twin.down ▸ down
    rw [Node.step, if_pos down, Node.step, if_pos other]
    exact twin
  · have up : m.down = false := by simpa using down
    have same := twin.sameRecord up call
    rw [Node.step_up up, Node.step_up (twin.down ▸ up)]
    exact ⟨congrArg crashed same.outcome, fun alive => same.after (crashed_eq_false.mp alive),
      List.rel_append twin.history (.cons same .nil)⟩

theorem run (twin : Twin m n) (calls : List Call) : Twin (m.run calls) (n.run calls) := by
  induction calls generalizing m n with
  | nil => exact twin
  | cons call calls ih => exact ih (twin.step call)

end Twin

section

variable [DecidableEq K] [Sha256] {n : Node (Overlay L)} {o : Overlay L}

def Node.moved (n : Node (Overlay L)) (call : Call) (outcome : Except Stop ByteString) (o' : Overlay L)
    (notices : List Notice) (block : BlockMsg) : Node (Overlay L) where
  manager := n.manager.moved o' notices block
  history := n.history ++ [⟨call, outcome, n.manager.moved o' notices block⟩]
  down := crashed outcome

theorem step_of_effect {call : Call} {outcome : Except Stop ByteString} {o' : Overlay L} {notices : List Notice}
    {block : BlockMsg} (up : n.down = false) (primary : n.manager.primary = some o)
    (effect : Effect o n.manager.block call outcome o' notices block) :
    n.step call = n.moved call outcome o' notices block := by
  rw [Node.step_up up, effect.exec primary]
  rfl

theorem step_effect (up : n.down = false) (primary : n.manager.primary = some o) (call : Call) :
    ∃ outcome o' notices block, Effect o n.manager.block call outcome o' notices block ∧
      n.step call = n.moved call outcome o' notices block := by
  obtain ⟨outcome, o', notices, block, effect⟩ := exists_effect o n.manager.block call
  exact ⟨outcome, o', notices, block, effect, step_of_effect up primary effect⟩

/-- A live node has a primary listener on a storage in order. -/
def Sound (n : Node (Overlay L)) : Prop := n.down = false → ∃ o, n.manager.primary = some o ∧ o.Steady

omit [DecidableEq K] [Sha256] in
theorem sound_start : Sound (L := L) (Node.start {}) := fun _ => ⟨_, rfl, Overlay.steady_empty⟩

theorem Sound.step (sound : Sound n) (call : Call) : Sound (n.step call) := by
  by_cases down : n.down = true
  · rwa [Node.step, if_pos down]
  · have up : n.down = false := by simpa using down
    obtain ⟨o, primary, steady⟩ := sound up
    obtain ⟨outcome, o', notices, block, effect, after⟩ := step_effect up primary call
    rw [after]
    intro alive
    exact ⟨o', rfl, steady_effect steady effect (crashed_eq_false.mp alive)⟩

theorem Sound.run (sound : Sound n) (calls : List Call) : Sound (n.run calls) := by
  induction calls generalizing n with
  | nil => exact sound
  | cons call calls ih => exact ih (sound.step call)

end

/-- The storages that a run reaches: between two calls, and inside a call after the header is validated. -/
inductive Reached [DecidableEq K] [Sha256] : StorageMap L → Prop where
  | between {calls : List Call} {s : StorageMap L} (up : ((Node.start ({} : StorageMap L)).run calls).down = false)
      (primary : ((Node.start ({} : StorageMap L)).run calls).manager.primary = some s) : Reached s
  | validated {s : StorageMap L} (before : Reached s) (mode : PrimaryMode) (hdr : HeaderMsg) (data : ByteString) :
      Reached (PrimaryListener.validateTransaction mode hdr data s).2

theorem Reached.parallel [DecidableEq K] [Sha256] {s : StorageMap L} (reached : Reached s) : ∃ o, Parallel s o := by
  induction reached with
  | @between calls s up primary =>
    have alike := (twin_start.run calls).manager up
    rcases alike.primary with ⟨none, _⟩ | ⟨s', o, some, _, related⟩
    · rw [none] at primary
      cases primary
    · rw [some] at primary
      cases primary
      exact ⟨o, related⟩
  | @validated s before mode hdr data ih =>
    obtain ⟨o, related⟩ := ih
    have both := parallel_validate mode hdr data s o related
    rcases left : PrimaryListener.validateTransaction mode hdr data s with ⟨e | _, s'⟩
    · rw [left] at both
      obtain ⟨o', right, survived⟩ := both.of_error
      exact ⟨o', survived (PrimaryListener.validate_throws right)⟩
    · rw [left] at both
      obtain ⟨o', _, related', _⟩ := both.of_ok
      exact ⟨o', related'⟩

/-! ### Runs whose steps all meet a condition -/

namespace Node

variable {σ : Type} [Storage σ] [Sha256]

theorem run_concat (n : Node σ) (calls : List Call) (call : Call) : n.run (calls ++ [call]) = (n.run calls).step call :=
  List.foldl_concat ..

/-- Every call of the run is made to a node that it is fit for. -/
def Along (P : Node σ → Call → Prop) : Node σ → List Call → Prop
  | _, [] => True
  | n, call :: calls => (n.down = false → P n call) ∧ (n.step call).Along P calls

/-- What every fit step keeps, the run keeps. -/
theorem Along.run {P : Node σ → Call → Prop} {I : Node σ → Prop} {n : Node σ} {calls : List Call} (along : n.Along P calls)
    (start : I n)
    (step : ∀ n call, I n → (n.down = false → P n call) → I (n.step call)) :
    I (n.run calls) := by
  induction calls generalizing n with
  | nil => exact start
  | cons call calls ih => exact ih along.2 (step n call start along.1)

/-- `I` holds before and after every call of the run. -/
def Always (I : Node σ → Prop) : Node σ → List Call → Prop
  | n, [] => I n
  | n, call :: calls => I n ∧ (n.step call).Always I calls

/-- What a call keeps exactly if it is fit, holds throughout exactly the runs of fit calls. -/
theorem always_iff_along {I J : Node σ → Prop} {P : Node σ → Call → Prop} {n : Node σ} {calls : List Call} (holds : I n) (start : J n)
    (step : ∀ n call, J n → J (n.step call))
    (exact : ∀ n call, J n → I n → (I (n.step call) ↔ (n.down = false → P n call))) : n.Always I calls ↔ n.Along P calls := by
  induction calls generalizing n with
  | nil => exact iff_of_true holds trivial
  | cons call calls ih =>
    have one := exact n call start holds
    constructor
    · intro always
      have next : I (n.step call) := by
        cases calls with
        | nil => exact always.2
        | cons => exact always.2.1
      exact ⟨one.mp next, (ih next (step n call start)).mp always.2⟩
    · intro along
      have next := one.mpr along.1
      exact ⟨holds, (ih next (step n call start)).mpr along.2⟩

end Node

theorem Alike.storage {m : ListenerManager (StorageMap L)} {n : ListenerManager (Overlay L)} (alike : Alike Parallel m n)
    {o : Overlay L} (primary : n.primary = some o) : ∃ s, m.primary = some s ∧ Parallel s o := by
  rcases alike.primary with ⟨_, none⟩ | ⟨s, o', some, some', related⟩
  · rw [none] at primary
    cases primary
  · rw [some'] at primary
    obtain rfl := Option.some.inj primary
    exact ⟨s, some, related⟩

/-- The storage of a live node, and the store it stands for. -/
theorem Twin.storage {m : Node (StorageMap L)} {n : Node (Overlay L)} (twin : Twin m n) (up : m.down = false)
    {o : Overlay L} (primary : n.manager.primary = some o) : ∃ s, m.manager.primary = some s ∧ Parallel s o :=
  (twin.manager up).storage primary

theorem storage_of_live [DecidableEq K] [Sha256] {calls : List Call}
    (up : ((Node.start ({} : StorageMap L)).run calls).down = false) :
    ∃ s o, ((Node.start ({} : StorageMap L)).run calls).manager.primary = some s ∧ Parallel s o := by
  have twin := (twin_start (L := L)).run calls
  obtain ⟨o, primary, _⟩ := (sound_start (L := L)).run calls (twin.down.symm.trans up)
  obtain ⟨s, stored, related⟩ := twin.storage up primary
  exact ⟨s, o, stored, related⟩

/-! ### A node to run on given inputs -/

/-- The source's node, after the calls. -/
def textNode (calls : List Call) : Node (StorageMap Layout.text) :=
  letI := zeroSha256
  (Node.start {}).run calls

def textStorage (calls : List Call) : StorageMap Layout.text := (textNode calls).manager.primary.getD {}

theorem primary_of_live [DecidableEq K] [Sha256] {calls : List Call} (up : ((Node.start ({} : StorageMap L)).run calls).down = false) :
    ((Node.start ({} : StorageMap L)).run calls).manager.primary =
      some (((Node.start ({} : StorageMap L)).run calls).manager.primary.getD {}) := by
  obtain ⟨s, _, stored, _⟩ := storage_of_live up
  rw [stored, Option.getD_some]

theorem textNode_primary {calls : List Call} (up : (textNode calls).down = false) :
    (textNode calls).manager.primary = some (textStorage calls) :=
  let _ := zeroSha256
  primary_of_live up

theorem textStorage_reached {calls : List Call} (up : (textNode calls).down = false) :
    @Reached _ Layout.text _ zeroSha256 (textStorage calls) :=
  let _ := zeroSha256
  .between up (textNode_primary up)

/-- The same, where every cell has a key of its own. -/
def freeNode (calls : List Call) : Node (StorageMap Layout.free) :=
  letI := zeroSha256
  (Node.start {}).run calls

def freeStorage (calls : List Call) : StorageMap Layout.free := (freeNode calls).manager.primary.getD {}

theorem freeNode_primary {calls : List Call} (up : (freeNode calls).down = false) :
    (freeNode calls).manager.primary = some (freeStorage calls) :=
  let _ := zeroSha256
  primary_of_live up

theorem pending_of_keys {stored : Option (StorageMap L)} {s : StorageMap L} (same : stored = some s)
    (keys : stored.map (fun s => s.cache.keys) = some []) (c : Cell) : s.pending c = none := by
  subst same
  exact StorageMap.pending_of_empty (AList.ext (List.map_eq_nil_iff.mp (Option.some.inj keys))) c

/-- The call that applies a message of `user`, without signature. -/
def applyMsg (user : Ident) (nonce : UInt64) (msg : Msg) : Call :=
  .applyTransaction (ListenerManager.writeTx user default nonce msg) []

end BandChain
