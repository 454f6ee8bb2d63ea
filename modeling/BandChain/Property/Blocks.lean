import BandChain.Listener.Run
import Mathlib.Data.List.Induction

/-! What the listeners are told of the block a call belongs to. -/

namespace BandChain

def Notice.block? : Notice → Option BlockMsg
  | .init _ => none
  | .begin blk => some blk
  | .handle blk _ _ _ => some blk
  | .commit blk => some blk

/-- A block as its `beginBlock` call makes it: which call it is, counted from 1, and its arguments. -/
structure Begun where
  count : Nat
  timestamp : UInt64
  proposer : Address
  deriving DecidableEq

/-- The block that is open after one more call. -/
def Begun.after (open? : Option Begun) : Call → Option Begun
  | .beginBlock timestamp proposer => some { count := (open?.map Begun.count).getD 0 + 1, timestamp, proposer }
  | .initChain _ | .checkTransaction _ | .applyTransaction _ _ | .commitBlock => open?

def Begun.open? (calls : List Call) : Option Begun := calls.foldl Begun.after none

/-- The record of a block says what its `beginBlock` call said. -/
def Begun.Describes (begun : Begun) (blk : BlockMsg) : Prop :=
  blk.height.toNat = begun.count ∧ blk.timestamp = begun.timestamp ∧ blk.proposer = begun.proposer

instance (begun : Begun) (blk : BlockMsg) : Decidable (begun.Describes blk) := inferInstanceAs (Decidable (_ ∧ _ ∧ _))

section

variable {σ : Type} [Storage σ] [Sha256]

/-- The field `block`, which a call hands to the primary listener, and every block in what the call
tells the other listeners, describe the block that is open. -/
def Node.TellsBlock (n : Node σ) (call : Call) : Prop :=
  ∀ begun, Begun.open? (n.history.map Record.call ++ [call]) = some begun →
    begun.Describes (n.step call).manager.block ∧
      ∀ told, (n.step call).manager.notices = n.manager.notices ++ told →
        ∀ notice ∈ told, ∀ blk, notice.block? = some blk → begun.Describes blk

/-- The field is `blk`, and what was told since is told of it. -/
def Telling (notices : List Notice) (blk : BlockMsg) (m : ListenerManager σ) : Prop :=
  m.block = blk ∧ ∃ told, m.notices = notices ++ told ∧ ∀ notice ∈ told, ∀ b, notice.block? = some b → b = blk

variable {notices : List Notice} {blk : BlockMsg}

omit [Storage σ] [Sha256] in
theorem keeps_onPrimary {α : Type} (call : Exec Stop σ α) (otherwise : Except Stop α) :
    Exec.Keeps (Telling notices blk) (ListenerManager.onPrimary call otherwise) := by
  intro m telling
  unfold ListenerManager.onPrimary
  rcases m.primary with _ | s
  · cases otherwise <;> exact telling
  · cases ran : (call s).1 with
    | error e =>
      simp only [ran]
      exact telling
    | ok a =>
      simp only [ran]
      exact telling

omit [Storage σ] [Sha256] in
theorem keeps_notify {notice : Notice} (about : ∀ b, notice.block? = some b → b = blk) :
    Exec.Keeps (σ := ListenerManager σ) (Telling notices blk) (ListenerManager.notify notice) := by
  rintro m ⟨same, told, extended, all⟩
  refine ⟨same, told ++ [notice], by simp [extended], fun other mem => ?_⟩
  rcases List.mem_append.mp mem with mem | mem
  · exact all other mem
  · rw [List.mem_singleton.mp mem]
    exact about

omit [Storage σ] [Sha256] in
theorem keeps_get {α : Type} {f : ListenerManager σ → Exec Stop (ListenerManager σ) α}
    (rest : ∀ m, m.block = blk → Exec.Keeps (Telling notices blk) (f m)) : Exec.Keeps (Telling notices blk) (Exec.get >>= f) :=
  fun m telling => rest m telling.1 m telling

def Call.block (m : ListenerManager σ) : Call → BlockMsg
  | .beginBlock timestamp _ => { timestamp, height := 0 + 1 }
  | .initChain _ | .checkTransaction _ | .applyTransaction _ _ | .commitBlock => m.block

theorem telling_exec (call : Call) (m : ListenerManager σ) :
    Telling m.notices (call.block m) (call.exec m).2 := by
  have start (block : BlockMsg) : Telling m.notices block { m with block } := ⟨rfl, [], by simp, nofun⟩
  cases call with
  | initChain raw =>
    refine Exec.Keeps.after (Exec.Keeps.bind (Exec.Keeps.bind (keeps_onPrimary _ _) fun _ => ?_) fun _ => .pure _) (start m.block)
    exact keeps_notify nofun
  | beginBlock timestamp proposer =>
    have body : Exec.Keeps (Telling m.notices { timestamp, height := 0 + 1 })
        (do
          ListenerManager.onPrimary (PrimaryListener.begin { timestamp, height := 0 + 1 }) (.ok ())
          ListenerManager.notify (.begin { timestamp, height := 0 + 1 }) : Exec Stop (ListenerManager σ) Unit) := by
      refine (keeps_onPrimary _ _).bind fun _ => keeps_notify fun b same => ?_
      exact (Option.some.inj same).symm
    exact (body.bind fun _ => .pure []).after (start { timestamp, height := 0 + 1 })
  | checkTransaction raw =>
    refine Exec.Keeps.after (Exec.Keeps.bind ?_ fun _ => .pure _) (start m.block)
    refine keeps_get fun m' _ => ?_
    split
    · exact .stop _
    · exact (Exec.Keeps.ofExcept _).bind fun _ => keeps_onPrimary _ _
  | applyTransaction raw rawResult =>
    refine Exec.Keeps.after ((Exec.Keeps.ofExcept _).bind fun header => (Exec.Keeps.ofExcept _).bind fun typed =>
      (keeps_onPrimary _ _).bind fun _ => (Exec.Keeps.ofExcept _).bind fun msg => keeps_get fun m' here => ?_) (start m.block)
    refine (keeps_onPrimary _ _).bind fun _ => (keeps_notify fun b same => ?_).bind fun _ => .pure _
    exact (Option.some.inj same).symm.trans here
  | commitBlock =>
    refine Exec.Keeps.after (Exec.Keeps.bind (keeps_get fun m' here => ?_) fun _ => .pure _) (start m.block)
    refine (keeps_onPrimary _ _).bind fun _ => keeps_notify fun b same => ?_
    exact (Option.some.inj same).symm.trans here

/-! ### Runs -/

omit [Storage σ] [Sha256] in
theorem Begun.open?_concat (calls : List Call) (call : Call) :
    Begun.open? (calls ++ [call]) = Begun.after (Begun.open? calls) call := by
  rw [Begun.open?, List.foldl_append]
  rfl

theorem step_telling {n : Node σ} (up : n.down = false) (call : Call) :
    Telling n.manager.notices (call.block n.manager) (n.step call).manager := by
  rw [Node.step_up up]
  exact telling_exec call n.manager

theorem tells_iff {n : Node σ} (up : n.down = false) (call : Call) :
    n.TellsBlock call ↔ ∀ begun, Begun.after (Begun.open? (n.history.map Record.call)) call = some begun →
      begun.Describes (call.block n.manager) := by
  obtain ⟨field, told, extended, about⟩ := step_telling up call
  unfold Node.TellsBlock
  rw [Begun.open?_concat, field]
  constructor
  · exact fun tells begun opened => (tells begun opened).1
  · refine fun describes begun opened => ⟨describes begun opened, fun told' same notice mem b block => ?_⟩
    rw [extended] at same
    obtain rfl := List.append_cancel_left same
    rw [about notice mem b block]
    exact describes begun opened

end

end BandChain
