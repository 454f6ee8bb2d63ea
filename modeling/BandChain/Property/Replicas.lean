import BandChain.Property.Isolation
import BandChain.Property.Requests

/-! Replicas that are given the same blocks agree, whatever else each of them is asked between the blocks. -/

namespace BandChain

open Abci (Abort)
open TendermintApplication (processAll)

namespace Abci.Request

/-- The requests that a block is made of. -/
def isConsensus : Abci.Request → Bool
  | initChain _ _ | beginBlock _ _ | deliverTx _ | endBlock | commit => true
  | echo _ | flush | info _ | setOption | query _ _ | checkTx _ | notSet => false

/-- Blocks follow one another, and no transaction is checked inside a block. -/
def Scheduled : (inBlock : Bool) → List Abci.Request → Prop
  | _, [] => True
  | inBlock, initChain _ _ :: reqs | inBlock, checkTx _ :: reqs => inBlock = false ∧ Scheduled false reqs
  | inBlock, beginBlock _ _ :: reqs => inBlock = false ∧ Scheduled true reqs
  | inBlock, deliverTx _ :: reqs => inBlock = true ∧ Scheduled true reqs
  | inBlock, commit :: reqs => inBlock = true ∧ Scheduled false reqs
  | inBlock, echo _ :: reqs | inBlock, flush :: reqs | inBlock, info _ :: reqs | inBlock, setOption :: reqs | inBlock, query _ _ :: reqs
  | inBlock, endBlock :: reqs | inBlock, notSet :: reqs => Scheduled inBlock reqs

end Abci.Request

/-- The responses to the requests that a block is made of. -/
def onConsensus (reqs : List Abci.Request) (responses : List Abci.Response) : List Abci.Response :=
  ((reqs.zip responses).filter fun asked => asked.1.isConsensus).map Prod.snd

variable {K : Type} [DecidableEq K] {L : Layout K} [Sha256]

/-! ### Inside a block -/

section

variable {calls : List Call}

/-- No check lingers, and in check mode no nonce waits. -/
structure InBlock (n : Node (StorageMap L)) : Prop where
  unchecked : ¬ Lingers CheckPassed n.history
  still : ∀ s, n.manager.primary = some s → s.currentCache = some .check → ∀ u, s.pending (.nonce u) = none

theorem history_concat (up : ((Node.start ({} : StorageMap L)).run calls).down = false) (call : Call) :
    ∃ r, ((Node.start ({} : StorageMap L)).run (calls ++ [call])).history = ((Node.start ({} : StorageMap L)).run calls).history ++ [r] ∧
      r.call = call ∧ r.after = ((Node.start ({} : StorageMap L)).run (calls ++ [call])).manager := by
  rw [Node.run_concat, Node.step_up up]
  exact ⟨_, rfl, rfl, rfl⟩

/-- What lingers is in the storage now. -/
theorem waits_of_lingers {P : Record (StorageMap L) → Prop} (up : ((Node.start ({} : StorageMap L)).run calls).down = false)
    (lingers : Lingers P ((Node.start ({} : StorageMap L)).run calls).history) :
    ∃ s, ((Node.start ({} : StorageMap L)).run calls).manager.primary = some s ∧ ∃ u, s.pending (.nonce u) ≠ none := by
  rcases List.eq_nil_or_concat calls with rfl | ⟨before, call, rfl⟩
  · exact lingers.elim
  rw [List.concat_eq_append] at up lingers ⊢
  rw [Node.run_append] at up
  obtain ⟨r, history, _, after⟩ := history_concat (Node.up_of_run up) call
  rw [history, lingers_append] at lingers
  rw [← after]
  exact lingers.1

theorem inBlock_begun (timestamp : UInt64) (proposer : Address) (up : ((Node.start ({} : StorageMap L)).run calls).down = false) :
    InBlock ((Node.start ({} : StorageMap L)).run (calls ++ [.beginBlock timestamp proposer])) := by
  obtain ⟨_, _, live⟩ := live_at up
  obtain ⟨_, o', _, _, effect, _, after⟩ := live.effect (.beginBlock timestamp proposer)
  cases effect
  obtain ⟨s', stored, related⟩ := after (by simp)
  have manager : ((Node.start ({} : StorageMap L)).run (calls ++ [.beginBlock timestamp proposer])).manager.primary = some s' := by
    rw [Node.run_concat, Node.step_up up]
    exact stored
  have clear (u : Ident) : s'.pending (.nonce u) = none := congrFun (congrArg Overlay.pending related.1.toLinked.overlay) (.nonce u)
  obtain ⟨r, history, _, last⟩ := history_concat up (.beginBlock timestamp proposer)
  constructor
  · rw [history, lingers_append, Record.Waits, last, manager]
    rintro ⟨⟨s, same, u, held⟩, _⟩
    obtain rfl := Option.some.inj same
    exact held (clear u)
  · rintro s same _ u
    obtain rfl := Option.some.inj (manager.symm.trans same)
    exact clear u

theorem InBlock.delivered (inside : InBlock ((Node.start ({} : StorageMap L)).run calls)) (raw rawResult : ByteString)
    (up : ((Node.start ({} : StorageMap L)).run (calls ++ [.applyTransaction raw rawResult])).down = false) :
    InBlock ((Node.start ({} : StorageMap L)).run (calls ++ [.applyTransaction raw rawResult])) := by
  have before : ((Node.start ({} : StorageMap L)).run calls).down = false := by
    rw [Node.run_append] at up
    exact Node.up_of_run up
  obtain ⟨s, o, live⟩ := live_at before
  obtain ⟨outcome, o', _, _, effect, ended, after⟩ := live.effect (.applyTransaction raw rawResult)
  rw [Node.run_concat, Node.step_up before, crashed_eq_false, ended] at up
  obtain ⟨s', stored, related⟩ := after up
  have manager : ((Node.start ({} : StorageMap L)).run (calls ++ [.applyTransaction raw rawResult])).manager.primary = some s' := by
    rw [Node.run_concat, Node.step_up before]
    exact stored
  obtain ⟨r, history, same, _⟩ := history_concat before (.applyTransaction raw rawResult)
  refine ⟨?_, fun t held => ?_⟩
  · rw [history, lingers_append, CheckPassed, same]
    rintro ⟨_, ⟨check, _⟩ | lingers⟩
    · cases check
    · exact inside.unchecked lingers
  obtain rfl := Option.some.inj (manager.symm.trans held)
  obtain rfl := related.1.toLinked.overlay
  change s'.overlay.currentCache = some .check → ∀ u, s'.overlay.pending (.nonce u) = none
  generalize s'.overlay = o' at effect ⊢
  intro checks u
  cases effect with
  | malformed _ =>
    have same := live.storage_eq
    exact (congrFun (congrArg Overlay.pending same) _).symm.trans
      (inside.still s live.primary ((congrArg Overlay.currentCache same).trans checks) u)
  | refused _ ran =>
    rw [PrimaryListener.validate_error ran] at checks
    cases checks
  | undecoded _ ran _ =>
    obtain ⟨_, _, _, _, rfl⟩ := PrimaryListener.validate_ok ran
    cases checks
  | @failed _ _ e _ _ _ _ _ _ _ _ _ _ _ ran =>
    cases e with
    | crash => exact (up rfl).elim
    | throw e =>
      obtain ⟨_, _, rfl⟩ := PrimaryListener.process_throw ran
      rfl
  | applied _ _ _ ran =>
    obtain ⟨_, _, _, rfl⟩ := PrimaryListener.process_ok ran
    rfl

/-- Inside a block, transactions are applied and blocks committed without regard to what was checked. -/
theorem InBlock.unmixed (inside : InBlock ((Node.start ({} : StorageMap L)).run calls))
    (up : ((Node.start ({} : StorageMap L)).run calls).down = false) {call : Call} (other : call.isCheck = false) :
    Unmixed ((Node.start ({} : StorageMap L)).run calls) call := by
  intro s primary
  cases call with
  | initChain _ | beginBlock _ _ => trivial
  | checkTransaction _ => cases other
  | applyTransaction _ _ => exact fun _ _ => inside.unchecked
  | commitBlock =>
    rcases mode : s.currentCache with _ | _ | _
    · trivial
    · intro lingers
      obtain ⟨s', primary', u, held⟩ := waits_of_lingers up lingers
      obtain rfl := Option.some.inj (primary.symm.trans primary')
      exact held (inside.still s primary mode u)
    · exact inside.unchecked

/-- The calls of scheduled requests are unmixed. -/
theorem along_of_scheduled [Memory] {inBlock : Bool} {reqs : List Abci.Request} {responses : List Abci.Response}
    {s s' : TendermintApplication (StorageMap L)} (mirrors : Mirrors s ((Node.start {}).run calls))
    (inside : inBlock = true → InBlock ((Node.start ({} : StorageMap L)).run calls)) (scheduled : Abci.Request.Scheduled inBlock reqs)
    (returned : processAll (bandLogging (StorageMap L)) reqs s = (.ok responses, s')) :
    ((Node.start ({} : StorageMap L)).run calls).Along Unmixed (reqs.flatMap Abci.Request.calls) := by
  induction reqs generalizing calls inBlock s responses with
  | nil => trivial
  | cons req reqs ih =>
    obtain ⟨res, t, first, body⟩ := Exec.bind_ok returned
    obtain ⟨rest, _, others, last⟩ := Exec.bind_ok body
    obtain ⟨_, rfl⟩ := Prod.mk.inj last
    obtain ⟨moved, _⟩ := mirrors.step first
    rw [← Node.run_append] at moved
    have silent (quiet : req.calls = []) (scheduled : Abci.Request.Scheduled inBlock reqs) :
        ((Node.start ({} : StorageMap L)).run calls).Along Unmixed ((req :: reqs).flatMap Abci.Request.calls) := by
      rw [quiet, List.append_nil] at moved
      rw [List.flatMap_cons, quiet]
      exact ih moved inside scheduled others
    have makes {call : Call} (one : req.calls = [call]) {inBlock' : Bool} (fit : Unmixed ((Node.start ({} : StorageMap L)).run calls) call)
        (inside : inBlock' = true → InBlock ((Node.start ({} : StorageMap L)).run (calls ++ [call])))
        (scheduled : Abci.Request.Scheduled inBlock' reqs) :
        ((Node.start ({} : StorageMap L)).run calls).Along Unmixed ((req :: reqs).flatMap Abci.Request.calls) := by
      rw [one] at moved
      rw [List.flatMap_cons, one, List.singleton_append]
      refine ⟨fun _ => fit, ?_⟩
      rw [← Node.run_concat]
      exact ih moved inside scheduled others
    cases req with
    | echo _ | flush | info _ | setOption | query _ _ | endBlock | notSet => exact silent rfl scheduled
    | initChain _ _ | checkTx _ => exact makes rfl (fun _ _ => trivial) (fun opened : false = true => by cases opened) scheduled.2
    | beginBlock seconds proposerAddress =>
      obtain ⟨proposer, _, read, _⟩ := Exec.bind_ok first
      have one : Abci.Request.calls (.beginBlock seconds proposerAddress) = [.beginBlock seconds.toUInt64 proposer] := by
        rw [Abci.Request.calls, (Exec.ofExcept_ok read).2]
      exact makes one (fun _ _ => trivial) (fun _ => inBlock_begun _ _ mirrors.up) scheduled.2
    | deliverTx tx =>
      have inside := inside scheduled.1
      exact makes rfl (inside.unmixed mirrors.up rfl) (fun _ => inside.delivered _ _ moved.up) scheduled.2
    | commit => exact makes rfl ((inside scheduled.1).unmixed mirrors.up rfl) (fun opened : false = true => by cases opened) scheduled.2

/-! ### Two replicas -/

variable {m m' : Node (StorageMap L)}

/-- A call that is no check ends the same way in the shadow. -/
theorem Shadow.outcome (shadow : Shadow m m') (up : m.down = false) {call : Call} (other : call.isCheck = false) (fit : Unmixed m call) :
    (call.exec m.manager).1 = (call.exec m'.manager).1 := by
  have after := (shadow.step_other other fun _ => fit).records
  rw [Node.step_up up, Node.step_up (shadow.down ▸ up), List.filter_append, List.filter_cons_of_pos (by simp [other]), List.filter_nil,
    ← List.forall₂_reverse_iff, List.reverse_append, List.reverse_append] at after
  cases after with
  | cons same _ => exact same.outcome

omit [DecidableEq K] in
theorem Shadow.begun (shadow : Shadow m m') : m.begun = m'.begun := by
  have calls : (m.history.filter fun r => !r.call.isCheck).map Record.call = m'.history.map Record.call := by
    rw [← List.forall₂_eq_eq_eq, List.forall₂_map_left_iff, List.forall₂_map_right_iff]
    exact shadow.records.imp fun _ _ isolated => isolated.call
  have count (l : List (Record (StorageMap L))) :
      (l.filter fun r => r.call.isBegin).length = ((l.map Record.call).filter Call.isBegin).length := by
    rw [List.filter_map, List.length_map]
    rfl
  have kept : (m.history.filter fun r => !r.call.isCheck).filter (fun r => r.call.isBegin) = m.history.filter fun r => r.call.isBegin := by
    rw [List.filter_filter]
    exact List.filter_congr fun r _ => by cases r.call <;> rfl
  rw [Node.begun, Node.begun, ← kept, count, count, calls]

/-- A replica, and its shadow that is asked only what the blocks are made of. -/
theorem Shadow.consensus [Memory] (shadow : Shadow m m') {reqs : List Abci.Request} {responses : List Abci.Response}
    {s s' : TendermintApplication (StorageMap L)} (mirrors : Mirrors s m) (apart : m.Along Unmixed (reqs.flatMap Abci.Request.calls))
    (returned : processAll (bandLogging (StorageMap L)) reqs s = (.ok responses, s')) :
    Shadow (m.run (reqs.flatMap Abci.Request.calls)) (m'.run ((reqs.filter Abci.Request.isConsensus).flatMap Abci.Request.calls)) ∧
      (onConsensus reqs responses).map some = Abci.Request.answers m' (reqs.filter Abci.Request.isConsensus) := by
  induction reqs generalizing m m' s responses with
  | nil =>
    obtain ⟨same, _⟩ := Prod.mk.inj returned
    obtain rfl := Except.ok.inj same
    exact ⟨shadow, rfl⟩
  | cons req reqs ih =>
    obtain ⟨res, t, first, body⟩ := Exec.bind_ok returned
    obtain ⟨rest, _, others, last⟩ := Exec.bind_ok body
    obtain ⟨made, rfl⟩ := Prod.mk.inj last
    obtain rfl := Except.ok.inj made
    obtain ⟨moved, answered⟩ := mirrors.step first
    have asked (consensus : req.isConsensus = true) (same : req.answer m = req.answer m')
        (shadow : Shadow (m.run req.calls) (m'.run req.calls)) (apart : (m.run req.calls).Along Unmixed (reqs.flatMap Abci.Request.calls)) :
        Shadow (m.run ((req :: reqs).flatMap Abci.Request.calls))
            (m'.run (((req :: reqs).filter Abci.Request.isConsensus).flatMap Abci.Request.calls)) ∧
          (onConsensus (req :: reqs) (res :: rest)).map some =
            Abci.Request.answers m' ((req :: reqs).filter Abci.Request.isConsensus) := by
      obtain ⟨whole, answers⟩ := ih shadow moved apart others
      rw [List.filter_cons_of_pos consensus, List.flatMap_cons, List.flatMap_cons, Node.run_append, Node.run_append]
      refine ⟨whole, ?_⟩
      have kept : onConsensus (req :: reqs) (res :: rest) = res :: onConsensus reqs rest := by
        rw [onConsensus, List.zip_cons_cons, List.filter_cons, if_pos consensus]
        rfl
      rw [kept, List.map_cons, Abci.Request.answers, ← answers, ← same, answered]
    have one {call : Call} (makes : req.calls = [call]) (other : call.isCheck = false) :
        Shadow (m.run req.calls) (m'.run req.calls) ∧ (m.run req.calls).Along Unmixed (reqs.flatMap Abci.Request.calls) := by
      rw [List.flatMap_cons, makes, List.singleton_append] at apart
      rw [makes]
      exact ⟨shadow.step_other other apart.1, apart.2⟩
    cases req with
    | echo _ | flush | info _ | setOption | query _ _ | notSet => exact ih shadow moved apart others
    | checkTx tx => exact ih (shadow.step_check tx) moved apart.2 others
    | endBlock => exact asked rfl rfl shadow apart
    | initChain _ appStateBytes =>
      obtain ⟨shadow, apart⟩ := one rfl rfl
      exact asked rfl rfl shadow apart
    | beginBlock seconds proposerAddress =>
      obtain ⟨proposer, _, read, _⟩ := Exec.bind_ok first
      have makes : Abci.Request.calls (.beginBlock seconds proposerAddress) = [.beginBlock seconds.toUInt64 proposer] := by
        rw [Abci.Request.calls, (Exec.ofExcept_ok read).2]
      obtain ⟨shadow, apart⟩ := one makes rfl
      exact asked rfl rfl shadow apart
    | deliverTx tx =>
      have same := shadow.outcome mirrors.up rfl (apart.1 mirrors.up)
      obtain ⟨shadow, apart⟩ := one rfl rfl
      refine asked rfl ?_ shadow apart
      rw [Abci.Request.answer, Abci.Request.answer, same]
    | commit =>
      obtain ⟨shadow, apart⟩ := one rfl rfl
      exact asked rfl rfl shadow apart

/-- A replica's responses to the blocks, and where they lead, are those of a node that is asked nothing else. -/
theorem replica [Memory] {reqs : List Abci.Request} {responses : List Abci.Response} {s : TendermintApplication (StorageMap L)}
    (returned : processAll (bandLogging (StorageMap L)) reqs { manager := { primary := some {} } } = (.ok responses, s))
    (scheduled : Abci.Request.Scheduled false reqs) :
    let n := (Node.start ({} : StorageMap L)).run ((reqs.filter Abci.Request.isConsensus).flatMap Abci.Request.calls)
    (onConsensus reqs responses).map some =
        Abci.Request.answers (Node.start ({} : StorageMap L)) (reqs.filter Abci.Request.isConsensus) ∧
      s.manager.primary.map StorageMap.applyCache = n.manager.primary.map StorageMap.applyCache ∧
      s.lastBlockHeight = UInt64.ofNat n.begun := by
  have start : Mirrors ({ manager := { primary := some {} } } : TendermintApplication (StorageMap L))
      ((Node.start ({} : StorageMap L)).run []) := mirrors_start _
  have apart := along_of_scheduled start (fun opened : false = true => by cases opened) scheduled returned
  obtain ⟨shadow, answers⟩ := shadow_start.consensus start apart returned
  obtain ⟨mirrors, _⟩ := start.run returned
  refine ⟨answers, ?_, ?_⟩
  · obtain ⟨_, _, o, o', twin, twin', primary, primary', _, related⟩ := shadow.related mirrors.up
    obtain ⟨t, stored, parallel⟩ := twin.storage mirrors.up primary
    obtain ⟨t', stored', parallel'⟩ := twin'.storage (shadow.down ▸ mirrors.up) primary'
    have same : t.overlay.applyCache = t'.overlay.applyCache := by
      rw [parallel.1.toLinked.overlay, parallel'.1.toLinked.overlay, related.applyCache]
    have manager : s.manager.primary = some t := (congrArg ListenerManager.primary mirrors.manager).trans stored
    rw [manager, stored', Option.map_some, Option.map_some]
    exact congrArg some same
  · rw [mirrors.height]
    exact congrArg UInt64.ofNat shadow.begun

/-- Two processes, each on its own machine, that answered the same blocks one after the other, with no transaction checked inside a block,
gave the same responses to them and hold the same applied state, whatever each of them was asked between the blocks. -/
theorem replicas_agree {memory memory' : Memory} {reqs reqs' : List Abci.Request} {responses responses' : List Abci.Response}
    {s s' : TendermintApplication (StorageMap L)}
    (returned : @processAll _ memory (bandLogging (StorageMap L)) reqs { manager := { primary := some {} } } = (.ok responses, s))
    (returned' : @processAll _ memory' (bandLogging (StorageMap L)) reqs' { manager := { primary := some {} } } = (.ok responses', s'))
    (scheduled : Abci.Request.Scheduled false reqs) (scheduled' : Abci.Request.Scheduled false reqs')
    (same : reqs.filter Abci.Request.isConsensus = reqs'.filter Abci.Request.isConsensus) :
    onConsensus reqs responses = onConsensus reqs' responses' ∧
      s.manager.primary.map StorageMap.applyCache = s'.manager.primary.map StorageMap.applyCache ∧
      s.lastBlockHeight = s'.lastBlockHeight := by
  obtain ⟨answers, applied, height⟩ := @replica _ _ _ _ memory _ _ _ returned scheduled
  obtain ⟨answers', applied', height'⟩ := @replica _ _ _ _ memory' _ _ _ returned' scheduled'
  rw [← same] at answers' applied' height'
  exact ⟨(Option.some_injective _).list_map (answers.trans answers'.symm), applied.trans applied'.symm, height.trans height'.symm⟩

omit [Sha256] in
/-- One replica checks the transaction before the block, the other, which has less memory, is queried after it. -/
theorem replicas_agree_mint :
    let _ := zeroSha256
    let small : Memory := ⟨2 ^ 32, by decide⟩
    let blocks : List Abci.Request := [.beginBlock 5 (List.replicate 20 0), .deliverTx mintOnce, .endBlock, .commit]
    let reqs : List Abci.Request := .initChain [] [] :: .checkTx mintOnce :: blocks
    let reqs' : List Abci.Request := .initChain [] [] :: blocks ++ [.query [] [], .checkTx mintOnce]
    let start : TendermintApplication (StorageMap Layout.text) := { manager := { primary := some {} } }
    ∃ responses responses' s s', @processAll _ roomyMemory (bandLogging _) reqs start = (.ok responses, s) ∧
      @processAll _ small (bandLogging _) reqs' start = (.ok responses', s') ∧ onConsensus reqs responses = onConsensus reqs' responses' ∧
      s.manager.primary.map StorageMap.applyCache = s'.manager.primary.map StorageMap.applyCache ∧
      s.lastBlockHeight = s'.lastBlockHeight := by
  intro _ small blocks reqs reqs' start
  have ok : (@processAll _ roomyMemory (bandLogging _) reqs start).1.isOk = true := by decide +kernel
  have ok' : (@processAll _ small (bandLogging _) reqs' start).1.isOk = true := by decide +kernel
  obtain ⟨responses, s, returned⟩ := @served_of_ok _ roomyMemory _ _ _ ok
  obtain ⟨responses', s', returned'⟩ := @served_of_ok _ small _ _ _ ok'
  exact ⟨responses, responses', s, s', returned, returned',
    replicas_agree returned returned' ⟨rfl, rfl, rfl, rfl, rfl, trivial⟩ ⟨rfl, rfl, rfl, rfl, rfl, trivial⟩ rfl⟩

end

end BandChain
