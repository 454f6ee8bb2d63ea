import BandChain.Net.Abci
import BandChain.Property.Answers
import BandChain.Property.Connections
import BandChain.Property.Genesis

/-! The requests of Tendermint, as calls of the node: what is answered, and which requests the process survives. -/

namespace BandChain

open Abci (Abort Validator)
open Incremental (Drains)
open TendermintApplication (onManager process processAll raw rawKeys tmVersion)
open TmApp (nextRequest)

/-- The fields of the response to a transaction, from how its call ended. -/
def ResponseTx.of : Except Stop ByteString → ResponseTx
  | .ok data => { data }
  | .error (.throw e) => { code := 1, info := e.info.getD [] }
  | .error .crash => {}

def Call.isBegin : Call → Bool
  | .beginBlock _ _ => true
  | .initChain _ | .checkTransaction _ | .applyTransaction _ _ | .commitBlock => false

/-- How many blocks were begun. -/
def Node.begun {σ : Type} (n : Node σ) : Nat := (n.history.filter fun r => r.call.isBegin).length

namespace Abci.Request

/-- The calls that a request makes. -/
def calls : Abci.Request → List Call
  | initChain _ appStateBytes => [.initChain appStateBytes]
  | beginBlock seconds proposerAddress =>
    match raw 20 proposerAddress with
    | .ok proposer => [.beginBlock seconds.toUInt64 proposer]
    | .error _ => []
  | checkTx tx => [.checkTransaction tx]
  | deliverTx tx => [.applyTransaction tx []]
  | commit => [.commitBlock]
  | echo _ | flush | info _ | setOption | query _ _ | endBlock | notSet => []

variable {σ : Type} [Storage σ] [Sha256]

/-- What a node answers, and `none` where it never does. -/
def answer (n : Node σ) : Abci.Request → Option Abci.Response
  | echo message => some (.echo message)
  | flush => some .flush
  | info _ => some (.info (ascii "band-logging") (ascii "n/a") (UInt64.ofNat n.begun).toInt64 [])
  | initChain _ _ => some .initChain
  | query _ _ => some (.query 0 [] ListenerManager.abi (UInt64.ofNat n.begun).toInt64)
  | beginBlock _ _ => some .beginBlock
  | checkTx tx => some (.checkTx (.of ((Call.checkTransaction tx).exec n.manager).1))
  | deliverTx tx => some (.deliverTx (.of ((Call.applyTransaction tx []).exec n.manager).1))
  | endBlock => some (.endBlock [])
  | commit => some (.commit [])
  | setOption | notSet => none

/-- The answers to requests, each from the node that the requests before it led to. -/
def answers (n : Node σ) : List Abci.Request → List (Option Abci.Response)
  | [] => []
  | req :: reqs => req.answer n :: answers (n.run req.calls) reqs

end Abci.Request

section

variable {σ : Type}

theorem onManager_ok {α : Type} {call : Exec Stop (ListenerManager σ) α} {s s' : TendermintApplication σ} {a : α}
    (ran : onManager call s = (.ok a, s')) : ∃ m, call s.manager = (.ok a, m) ∧ s' = { s with manager := m } := by
  unfold onManager at ran
  rcases called : call s.manager with ⟨_ | b, m⟩ <;> rw [called] at ran
  · cases ran
  · obtain ⟨same, rfl⟩ := Prod.mk.inj ran
    obtain rfl := Except.ok.inj same
    exact ⟨m, rfl, rfl⟩

theorem onManager_of_ok {α : Type} {call : Exec Stop (ListenerManager σ) α} {s : TendermintApplication σ} {a : α}
    {m : ListenerManager σ} (called : call s.manager = (.ok a, m)) : onManager call s = (.ok a, { s with manager := m }) := by
  rw [onManager, called]

theorem answering_cases [Memory] {call : Exec Stop (ListenerManager σ) ResponseTx} {m m' : ListenerManager σ} {res : ResponseTx}
    (answered : TmApp.answering call m = (.ok res, m')) :
    call m = (.ok res, m') ∨ ∃ e info, call m = (.error (.throw e), m') ∧ e.caught = some info ∧ res = { code := 1, info } := by
  unfold TmApp.answering at answered
  rcases called : call m with ⟨(e | _) | res', m''⟩ <;> rw [called] at answered
  · cases caught : e.caught with
    | none =>
      simp only [caught] at answered
      cases answered
    | some info =>
      simp only [caught] at answered
      obtain ⟨same, rfl⟩ := Prod.mk.inj answered
      exact Or.inr ⟨e, info, rfl, caught, (Except.ok.inj same).symm⟩
  · cases answered
  · exact Or.inl answered

variable [Storage σ] [Sha256]

/-- The application and the node are in the same state. -/
structure Mirrors (s : TendermintApplication σ) (n : Node σ) : Prop where
  manager : s.manager = n.manager
  up : n.down = false
  height : s.lastBlockHeight = UInt64.ofNat n.begun

/-- A call that did not end the process takes the node with it. -/
theorem Mirrors.call {s : TendermintApplication σ} {n : Node σ} (mirrors : Mirrors s n) {call : Call} {outcome : Except Stop ByteString}
    {m : ListenerManager σ} (called : call.exec s.manager = (outcome, m)) (alive : outcome ≠ .error .crash) :
    Mirrors { s with manager := m, lastBlockHeight := s.lastBlockHeight + if call.isBegin then 1 else 0 } (n.run [call]) := by
  rw [mirrors.manager] at called
  have after : n.run [call] = n.step call := rfl
  rw [after, Node.step_up mirrors.up, called]
  refine ⟨rfl, crashed_eq_false.mpr alive, ?_⟩
  rw [Node.begun, List.filter_append, List.length_append, UInt64.ofNat_add, mirrors.height, Node.begun]
  cases begins : call.isBegin <;> simp [begins]

theorem Mirrors.silent {s : TendermintApplication σ} {n : Node σ} (mirrors : Mirrors s n) : Mirrors s (n.run []) := mirrors

/-- A call without a result. -/
theorem Mirrors.ran {s s' : TendermintApplication σ} {n : Node σ} (mirrors : Mirrors s n) (call : Call)
    {run : Exec Stop (ListenerManager σ) Unit} (same : call.exec = do run; return []) (silent : call.isBegin = false)
    (returned : onManager run s = (.ok (), s')) : Mirrors s' (n.run [call]) := by
  obtain ⟨m, called, rfl⟩ := onManager_ok returned
  have ended : call.exec s.manager = (.ok [], m) := by
    rw [same, Exec.bind_of_ok called]
    rfl
  have after := mirrors.call ended (by simp)
  rwa [silent, if_neg Bool.false_ne_true, UInt64.add_zero] at after

/-- A call whose exceptions are answered. -/
theorem Mirrors.answered [Memory] {s s' : TendermintApplication σ} {n : Node σ} (mirrors : Mirrors s n) (call : Call)
    {run : Exec Stop (ListenerManager σ) ResponseTx} (silent : call.isBegin = false)
    (same : run = do return { data := ← call.exec }) {res : ResponseTx}
    (returned : onManager (TmApp.answering run) s = (.ok res, s')) :
    Mirrors s' (n.run [call]) ∧ res = .of (call.exec n.manager).1 := by
  obtain ⟨m, answered, rfl⟩ := onManager_ok returned
  have moved {outcome : Except Stop ByteString} (ended : call.exec s.manager = (outcome, m)) (alive : outcome ≠ .error .crash) :
      Mirrors { s with manager := m } (n.run [call]) := by
    have after := mirrors.call ended alive
    rwa [silent, if_neg Bool.false_ne_true, UInt64.add_zero] at after
  rw [← mirrors.manager]
  rcases answering_cases answered with called | ⟨e, info, called, caught, rfl⟩ <;> rw [same] at called
  · obtain ⟨data, m', ended, last⟩ := Exec.bind_ok called
    obtain ⟨made, rfl⟩ := Prod.mk.inj last
    rw [ended]
    exact ⟨moved ended (by simp), (Except.ok.inj made).symm⟩
  · rcases Exec.bind_error called with ended | ⟨_, _, _, last⟩
    · rw [ended]
      refine ⟨moved ended (by simp), ?_⟩
      rw [ResponseTx.of, Exn.info_of_caught caught, Option.getD_some]
    · cases last

theorem doInfo_eq (version : ByteString) (s : TendermintApplication σ) :
    TendermintApplication.doInfo (bandLogging σ) version s =
      if version = tmVersion then (.ok (.info (ascii "band-logging") (ascii "n/a") s.lastBlockHeight.toInt64 []), s)
      else (.error (.version version), s) := by
  unfold TendermintApplication.doInfo
  rw [Exec.bind_of_ok (Exec.get_apply s)]
  by_cases same : version = tmVersion
  · rw [if_neg (not_not_intro same), if_pos same]
    by_cases fresh : s.lastBlockHeight = 0
    · rw [if_neg (not_not_intro fresh), fresh]
      rfl
    · rw [if_pos fresh]
      rfl
  · rw [if_pos same, if_neg same]
    rfl

theorem endBlock_eq (m : ListenerManager σ) :
    (bandLogging σ).endBlock m =
      if m.primary.isNone = true then (.error (.throw (.failure .noPrimary)), m) else (.ok [], m) := by
  have told : ListenerManager.endBlock m =
      if m.primary.isNone = true then (.error (.throw (.failure .noPrimary)), m) else (.ok (), m) := by
    rw [ListenerManager.endBlock, Exec.bind_of_ok (Exec.get_apply m)]
    split <;> rfl
  by_cases alone : m.primary.isNone = true
  · rw [if_pos alone] at told ⊢
    exact Exec.bind_of_error told
  · rw [if_neg alone] at told ⊢
    exact Exec.bind_of_ok told

theorem check_eq (tx : ByteString) :
    (do (bandLogging σ).check tx; return {} : Exec Stop (ListenerManager σ) ResponseTx) =
      do return { data := ← (Call.checkTransaction tx).exec } := by
  funext m
  rcases checked : ListenerManager.checkTransaction tx m with ⟨_ | _, m'⟩
  · exact (Exec.bind_of_error checked).trans (Exec.bind_of_error (Exec.bind_of_error checked)).symm
  · have ended : (Call.checkTransaction tx).exec m = (.ok [], m') := Exec.bind_of_ok checked
    exact (Exec.bind_of_ok checked).trans (Exec.bind_of_ok (f := fun data => pure ({ data } : ResponseTx)) ended).symm

variable [Memory]

/-- What a request that returned did. -/
theorem Mirrors.step {s s' : TendermintApplication σ} {n : Node σ} {req : Abci.Request} {res : Abci.Response}
    (mirrors : Mirrors s n) (returned : process (bandLogging σ) req s = (.ok res, s')) :
    Mirrors s' (n.run req.calls) ∧ some res = req.answer n := by
  cases req with
  | echo message | flush =>
    obtain ⟨same, rfl⟩ := Prod.mk.inj returned
    exact ⟨mirrors, congrArg some (Except.ok.inj same).symm⟩
  | setOption | notSet => cases returned
  | info version =>
    have returned := (doInfo_eq version s).symm.trans returned
    split at returned
    · obtain ⟨made, rfl⟩ := Prod.mk.inj returned
      refine ⟨mirrors, ?_⟩
      rw [← Except.ok.inj made, Abci.Request.answer, mirrors.height]
    · cases returned
  | initChain validators appStateBytes =>
    obtain ⟨_, _, keys, body⟩ := Exec.bind_ok returned
    obtain ⟨rfl, _⟩ := Exec.ofExcept_ok keys
    obtain ⟨_, _, ran, last⟩ := Exec.bind_ok body
    obtain ⟨made, rfl⟩ := Prod.mk.inj last
    exact ⟨mirrors.ran (.initChain appStateBytes) rfl rfl ran, congrArg some (Except.ok.inj made).symm⟩
  | query path data =>
    obtain ⟨made, rfl⟩ := Prod.mk.inj returned
    refine ⟨mirrors, ?_⟩
    rw [← Except.ok.inj made, Abci.Request.answer, ← mirrors.height]
  | beginBlock seconds proposerAddress =>
    obtain ⟨proposer, _, length, body⟩ := Exec.bind_ok returned
    obtain ⟨rfl, sized⟩ := Exec.ofExcept_ok length
    obtain ⟨_, _, ran, last⟩ := Exec.bind_ok body
    obtain ⟨m, called, rfl⟩ := onManager_ok ran
    obtain ⟨made, rfl⟩ := Prod.mk.inj last
    refine ⟨?_, congrArg some (Except.ok.inj made).symm⟩
    have ended : (Call.beginBlock seconds.toUInt64 proposer).exec s.manager = (.ok [], m) := Exec.bind_of_ok called
    rw [Abci.Request.calls, sized]
    exact mirrors.call ended (by simp)
  | checkTx tx =>
    obtain ⟨_, _, ran, last⟩ := Exec.bind_ok returned
    obtain ⟨made, rfl⟩ := Prod.mk.inj last
    have ⟨after, same⟩ := mirrors.answered (.checkTransaction tx) rfl (check_eq tx) ran
    refine ⟨after, ?_⟩
    rw [← Except.ok.inj made, same]
    rfl
  | deliverTx tx =>
    obtain ⟨_, _, ran, last⟩ := Exec.bind_ok returned
    obtain ⟨made, rfl⟩ := Prod.mk.inj last
    have ⟨after, same⟩ := mirrors.answered (.applyTransaction tx []) rfl rfl ran
    refine ⟨after, ?_⟩
    rw [← Except.ok.inj made, same]
    rfl
  | endBlock =>
    obtain ⟨_, _, ran, last⟩ := Exec.bind_ok returned
    obtain ⟨made, rfl⟩ := Prod.mk.inj last
    obtain ⟨m, called, rfl⟩ := onManager_ok ran
    have called := (endBlock_eq s.manager).symm.trans called
    split at called
    · cases called
    · obtain ⟨nothing, rfl⟩ := Prod.mk.inj called
      obtain rfl := Except.ok.inj nothing
      exact ⟨mirrors, congrArg some (Except.ok.inj made).symm⟩
  | commit =>
    obtain ⟨_, _, ran, last⟩ := Exec.bind_ok returned
    obtain ⟨made, rfl⟩ := Prod.mk.inj last
    exact ⟨mirrors.ran .commitBlock rfl rfl ran, congrArg some (Except.ok.inj made).symm⟩

theorem Mirrors.run {s s' : TendermintApplication σ} {n : Node σ} {reqs : List Abci.Request} {responses : List Abci.Response}
    (mirrors : Mirrors s n) (returned : processAll (bandLogging σ) reqs s = (.ok responses, s')) :
    Mirrors s' (n.run (reqs.flatMap Abci.Request.calls)) ∧ responses.map some = Abci.Request.answers n reqs := by
  induction reqs generalizing s n responses with
  | nil =>
    obtain ⟨same, rfl⟩ := Prod.mk.inj returned
    obtain rfl := Except.ok.inj same
    exact ⟨mirrors, rfl⟩
  | cons req reqs ih =>
    obtain ⟨res, t, first, body⟩ := Exec.bind_ok returned
    obtain ⟨rest, _, others, last⟩ := Exec.bind_ok body
    obtain ⟨made, rfl⟩ := Prod.mk.inj last
    obtain rfl := Except.ok.inj made
    obtain ⟨moved, answered⟩ := mirrors.step first
    obtain ⟨whole, answers⟩ := ih moved others
    refine ⟨?_, ?_⟩
    · rw [List.flatMap_cons, Node.run_append]
      exact whole
    · rw [List.map_cons, Abci.Request.answers, answered, answers]

omit [Storage σ] [Sha256] [Memory] in
theorem mirrors_start (storage : σ) : Mirrors { manager := { primary := some storage } } (Node.start storage) := ⟨rfl, rfl, rfl⟩

/-- A chain with one block, and a transaction in it that is not read. -/
def blockRequests : List Abci.Request :=
  [.info tmVersion, .initChain [] [], .beginBlock 5 (List.replicate 20 0), .checkTx [], .deliverTx [], .endBlock, .commit, .query [] []]

/-- Requests that were all answered left the application as their calls leave a node: same manager, a process that goes on, and as many
blocks counted as were begun. Every answer is that of the node which the requests before it led to. -/
theorem requests_refine (storage : σ) {reqs : List Abci.Request} {responses : List Abci.Response} {s : TendermintApplication σ}
    (returned : processAll (bandLogging σ) reqs { manager := { primary := some storage } } = (.ok responses, s)) :
    ((Node.start storage).run (reqs.flatMap Abci.Request.calls)).down = false ∧
      s.manager = ((Node.start storage).run (reqs.flatMap Abci.Request.calls)).manager ∧
      s.lastBlockHeight = UInt64.ofNat ((Node.start storage).run (reqs.flatMap Abci.Request.calls)).begun ∧
      responses.map some = Abci.Request.answers (Node.start storage) reqs := by
  obtain ⟨mirrors, answers⟩ := (mirrors_start storage).run returned
  exact ⟨mirrors.up, mirrors.manager, mirrors.height, answers⟩

omit [Storage σ] [Sha256] in
theorem served_of_ok {app : Application σ} {reqs : List Abci.Request} {s : TendermintApplication σ}
    (ok : (processAll app reqs s).1.isOk = true) : ∃ responses s', processAll app reqs s = (.ok responses, s') := by
  rcases returned : processAll app reqs s with ⟨_ | responses, s'⟩
  · rw [returned] at ok
    cases ok
  · exact ⟨responses, s', rfl⟩

omit [Storage σ] [Sha256] [Memory] in
/-- A block with a transaction that is not read. -/
theorem requests_refine_block :
    let _ := zeroSha256
    let _ := roomyMemory
    ∃ responses s, processAll (bandLogging (StorageMap Layout.text)) blockRequests { manager := { primary := some {} } } = (.ok responses, s) ∧
      s.manager = (textNode (blockRequests.flatMap Abci.Request.calls)).manager ∧
      responses.map some = Abci.Request.answers (textNode []) blockRequests := by
  let _ := zeroSha256
  let _ := roomyMemory
  have ok : (processAll (bandLogging (StorageMap Layout.text)) blockRequests { manager := { primary := some {} } }).1.isOk = true := by
    decide +kernel
  obtain ⟨responses, s, returned⟩ := served_of_ok ok
  obtain ⟨_, manager, _, answers⟩ := requests_refine ({} : StorageMap Layout.text) returned
  exact ⟨responses, s, returned, manager, answers⟩

end

/-! ### The requests that are answered -/

section

variable {σ : Type}

def Abci.Request.isInitChain : Abci.Request → Bool
  | initChain _ _ => true
  | _ => false

/-- Where the requests before it led to this storage, the process survives the request. -/
def Abci.Request.Survived [Sha256] [Memory] {K : Type} {L : Layout K} (before : List Abci.Request) (s : StorageMap L) : Abci.Request → Prop
  | info version => version = tmVersion
  | initChain validators _ => (∀ validator ∈ validators, validator.pubKey.length = 32) ∧ ∀ req ∈ before, req.isInitChain = false
  | beginBlock _ proposerAddress => proposerAddress.length = 20
  | checkTx tx => ¬ Oversized tx
  | deliverTx tx => ¬ Oversized tx ∧ ¬ Lethal L s.pending s.applyCache tx
  | setOption | notSet => False
  | echo _ | flush | query _ _ | endBlock | commit => True

theorem returns_onManager {α : Type} {call : Exec Stop (ListenerManager σ) α} {s : TendermintApplication σ} :
    Exec.Returns (onManager call) s ↔ Exec.Returns call s.manager := by
  constructor
  · rintro ⟨a, _, ran⟩
    obtain ⟨m, called, _⟩ := onManager_ok ran
    exact ⟨a, m, called⟩
  · rintro ⟨a, m, called⟩
    exact ⟨a, _, onManager_of_ok called⟩

theorem raw_ok {size : Nat} {rawString : ByteString} : (∃ bytes, raw size rawString = .ok bytes) ↔ rawString.length = size := by
  unfold raw
  split
  · exact iff_of_true ⟨_, rfl⟩ ‹_›
  · refine iff_of_false ?_ ‹_›
    rintro ⟨_, wrong⟩
    cases wrong

theorem rawKeys_ok {validators : List Validator} :
    (∃ keys, rawKeys validators = .ok keys) ↔ ∀ validator ∈ validators, validator.pubKey.length = 32 := by
  induction validators with
  | nil => exact iff_of_true ⟨[], rfl⟩ (by simp)
  | cons validator validators ih =>
    rw [List.forall_mem_cons, ← ih, ← raw_ok]
    rw [rawKeys]
    rcases raw 32 validator.pubKey with e | key
    · refine iff_of_false ?_ ?_
      · rintro ⟨_, wrong⟩
        cases wrong
      · rintro ⟨⟨_, wrong⟩, _⟩
        cases wrong
    · rcases rawKeys validators with e | keys
      · exact iff_of_false (fun ⟨_, wrong⟩ => by cases wrong) (fun ⟨_, ⟨_, wrong⟩⟩ => by cases wrong)
      · exact iff_of_true ⟨_, rfl⟩ ⟨⟨_, rfl⟩, ⟨_, rfl⟩⟩

/-- A request that makes one call with what it reads of its fields. -/
theorem returns_called {α : Type} {fields : Except Abort α} {run : α → Exec Stop (ListenerManager σ) Unit} {s : TendermintApplication σ}
    {rest : Exec Abort (TendermintApplication σ) Abci.Response} (goes : ∀ t, Exec.Returns rest t) :
    Exec.Returns (do let a ← Exec.ofExcept fields; onManager (run a); rest) s ↔
      ∃ a, fields = .ok a ∧ Exec.Returns (run a) s.manager := by
  rw [Exec.returns_bind]
  constructor
  · rintro ⟨a, _, took, body⟩
    obtain ⟨rfl, read⟩ := Exec.ofExcept_ok took
    obtain ⟨_, t, called, _⟩ := Exec.returns_bind.mp body
    exact ⟨a, read, returns_onManager.mp ⟨_, t, called⟩⟩
  · rintro ⟨a, read, called⟩
    obtain ⟨_, t, ran⟩ := returns_onManager.mpr called
    exact ⟨a, s, by rw [read, Exec.ofExcept_apply], Exec.returns_bind.mpr ⟨_, t, ran, goes t⟩⟩

end

section

variable {K : Type} [DecidableEq K] {L : Layout K} [Sha256] [Memory]

omit [DecidableEq K] [Sha256] [Memory] in
theorem isInitChain_iff {reqs : List Abci.Request} :
    (∀ call ∈ reqs.flatMap Abci.Request.calls, call.isGenesis = false) ↔ ∀ req ∈ reqs, req.isInitChain = false := by
  have each (req : Abci.Request) : (∀ call ∈ req.calls, call.isGenesis = false) ↔ req.isInitChain = false := by
    cases req with
    | beginBlock seconds proposerAddress =>
      rw [Abci.Request.calls]
      split <;> simp [Call.isGenesis, Abci.Request.isInitChain]
    | _ => simp [Abci.Request.calls, Call.isGenesis, Abci.Request.isInitChain]
  simp only [List.mem_flatMap, forall_exists_index, and_imp]
  exact ⟨fun all req mem => (each req).mp fun call called => all call req mem called,
    fun all call req mem called => (each req).mpr (all req mem) call called⟩

theorem Mirrors.survived {reqs : List Abci.Request} {s : TendermintApplication (StorageMap L)}
    (mirrors : Mirrors s ((Node.start {}).run (reqs.flatMap Abci.Request.calls))) {storage : StorageMap L}
    (primary : s.manager.primary = some storage) (req : Abci.Request) :
    Exec.Returns (process (bandLogging (StorageMap L)) req) s ↔ req.Survived reqs storage := by
  obtain ⟨storage', o, live⟩ := live_at mirrors.up
  have stored := primary
  rw [mirrors.manager] at stored
  obtain rfl := Option.some.inj (stored.symm.trans live.primary)
  have overlay := live.storage_eq
  have ends (call : Call) {run : Exec Stop (ListenerManager (StorageMap L)) Unit} (same : call.exec = do run; return []) :
      Exec.Returns run s.manager ↔
        ∃ data, (call.exec ((Node.start ({} : StorageMap L)).run (reqs.flatMap Abci.Request.calls)).manager).1 = .ok data := by
    rw [← Exec.returns_iff, ← mirrors.manager, same]
    exact Exec.returns_map.symm
  have answers (call : Call) {run : Exec Stop (ListenerManager (StorageMap L)) ResponseTx} (same : run = do return { data := ← call.exec }) :
      Exec.Returns (onManager (TmApp.answering run)) s ↔
        ¬ Fatal (call.exec ((Node.start ({} : StorageMap L)).run (reqs.flatMap Abci.Request.calls)).manager).1 := by
    rw [returns_onManager, Exec.returns_iff, answering_ok, same, fatal_return, mirrors.manager]
  cases req with
  | echo _ | flush | query _ _ => exact iff_of_true ⟨_, _, rfl⟩ trivial
  | setOption | notSet => exact iff_of_false (fun ⟨_, _, wrong⟩ => by cases wrong) id
  | info version =>
    have told := doInfo_eq version s
    by_cases same : version = tmVersion
    · rw [if_pos same] at told
      exact iff_of_true ⟨_, _, told⟩ same
    · rw [if_neg same] at told
      exact iff_of_false (fun ⟨_, _, answered⟩ => by cases told.symm.trans answered) same
  | initChain validators appStateBytes =>
    have first : Exec.Returns (ListenerManager.initChain appStateBytes) s.manager ↔ ∀ req ∈ reqs, req.isInitChain = false := by
      obtain ⟨accepted, refused⟩ := live.genesis appStateBytes
      rw [ends (.initChain appStateBytes) rfl, ← isInitChain_iff]
      refine ⟨fun ⟨_, founds⟩ => ?_, fun never => ⟨_, accepted never⟩⟩
      by_contra again
      simp only [not_forall, exists_prop, Bool.not_eq_false] at again
      cases founds.symm.trans (refused again).1
    refine (returns_called fun _ => Exec.returns_pure).trans (Iff.trans ?_ (and_congr rawKeys_ok first))
    exact ⟨fun ⟨keys, read, ran⟩ => ⟨⟨keys, read⟩, ran⟩, fun ⟨⟨keys, read⟩, ran⟩ => ⟨keys, read, ran⟩⟩
  | beginBlock seconds proposerAddress =>
    refine (returns_called fun _ => ⟨_, _, rfl⟩).trans (Iff.trans ?_ raw_ok)
    refine exists_congr fun proposer => and_iff_left ?_
    obtain ⟨_, _, _, _, effect, ended, _⟩ := live.effect (.beginBlock seconds.toUInt64 proposer)
    refine (ends (.beginBlock seconds.toUInt64 proposer) rfl).mpr ?_
    cases effect
    exact ⟨_, ended⟩
  | checkTx tx =>
    obtain ⟨_, _, _, _, effect, ended, _⟩ := live.effect (.checkTransaction tx)
    refine Exec.returns_map.trans ((answers (.checkTransaction tx) (check_eq tx)).trans (not_congr ?_))
    rw [ended]
    exact fatal_check effect
  | deliverTx tx =>
    obtain ⟨_, _, _, _, effect, ended, _⟩ := live.effect (.applyTransaction tx [])
    refine Exec.returns_map.trans ((answers (.applyTransaction tx []) rfl).trans ?_)
    rw [ended, fatal_apply live.steady live.typed effect, ← overlay, not_or]
    rfl
  | endBlock =>
    have told := endBlock_eq s.manager
    rw [if_neg (by rw [primary]; exact Bool.false_ne_true)] at told
    exact iff_of_true ⟨_, _, (Exec.bind_of_ok (onManager_of_ok told))⟩ trivial
  | commit =>
    obtain ⟨_, _, _, _, effect, ended, _⟩ := live.effect .commitBlock
    refine iff_of_true ?_ trivial
    have ran : Exec.Returns ListenerManager.commitBlock s.manager := by
      refine (ends .commitBlock rfl).mpr ?_
      cases effect with
      | committed ran =>
        obtain ⟨rfl, _⟩ := Prod.mk.inj ((PrimaryListener.commit_apply _ live.steady.selected).symm.trans ran)
        exact ⟨_, ended⟩
    exact Exec.returns_map.mpr (returns_onManager.mpr ran)

/-- In every state that requests lead the process to, it answers the next one exactly if the version, the lengths of keys and addresses
and the number of genesis requests are right, and a transaction is neither oversized nor lethal. -/
theorem requests_survived {reqs : List Abci.Request} {responses : List Abci.Response} {s : TendermintApplication (StorageMap L)}
    (returned : processAll (bandLogging (StorageMap L)) reqs { manager := { primary := some {} } } = (.ok responses, s)) {storage : StorageMap L}
    (primary : s.manager.primary = some storage) (req : Abci.Request) :
    (∃ res s', process (bandLogging (StorageMap L)) req s = (.ok res, s')) ↔ req.Survived reqs storage :=
  ((mirrors_start ({} : StorageMap L)).run returned).1.survived primary req

omit [Sha256] [Memory] in
theorem requests_survived_block :
    let _ := zeroSha256
    let _ := roomyMemory
    ∃ responses s storage, processAll (bandLogging (StorageMap Layout.text)) blockRequests { manager := { primary := some {} } } =
        (.ok responses, s) ∧ s.manager.primary = some storage ∧
      ∀ req, (∃ res s', process (bandLogging (StorageMap Layout.text)) req s = (.ok res, s')) ↔ req.Survived blockRequests storage := by
  let _ := zeroSha256
  let _ := roomyMemory
  have ok : (processAll (bandLogging (StorageMap Layout.text)) blockRequests { manager := { primary := some {} } }).1.isOk = true := by
    decide +kernel
  obtain ⟨responses, s, returned⟩ := served_of_ok ok
  obtain ⟨mirrors, _⟩ := (mirrors_start ({} : StorageMap Layout.text)).run returned
  have primary := mirrors.manager ▸ primary_of_live mirrors.up
  exact ⟨responses, s, _, returned, primary, requests_survived returned primary⟩

/-! ### Over sockets -/

omit [DecidableEq K] [Sha256] in
/-- Frames that were all handled are requests that were all answered. -/
theorem answerAll_requests {σ : Type} [Storage σ] {parse : ByteString → Abci.Request} {serialize : Abci.Response → ByteString}
    {app : Application σ} {payloads replies : List ByteString} {s s' : TendermintApplication σ}
    (answered : answerAll (TendermintApplication.handle parse serialize app) payloads s = (.ok replies, s')) :
    ∃ responses, processAll app (payloads.map parse) s = (.ok responses, s') ∧ replies = responses.map serialize := by
  induction payloads generalizing s replies with
  | nil =>
    obtain ⟨same, rfl⟩ := Prod.mk.inj answered
    obtain rfl := Except.ok.inj same
    exact ⟨[], rfl, rfl⟩
  | cons payload payloads ih =>
    obtain ⟨reply, t, handled, body⟩ := Exec.bind_ok answered
    obtain ⟨rest, _, others, last⟩ := Exec.bind_ok body
    obtain ⟨made, rfl⟩ := Prod.mk.inj last
    obtain rfl := Except.ok.inj made
    obtain ⟨responses, processed, rfl⟩ := ih others
    unfold TendermintApplication.handle at handled
    rcases first : process app (parse payload) s with ⟨_ | res, u⟩ <;> rw [first] at handled
    · cases handled
    · obtain ⟨wrote, rfl⟩ := Prod.mk.inj handled
      obtain rfl := Except.ok.inj wrote
      exact ⟨res :: responses, (Exec.bind_of_ok first).trans (Exec.bind_of_ok processed), rfl⟩

/-- The requests of a log. -/
def requestsOf (parse : ByteString → Abci.Request) (log : List Handled) : List Abci.Request := log.map fun h => parse h.request

theorem mirrors_log {parse : ByteString → Abci.Request} {serialize : Abci.Response → ByteString} {log : List Handled}
    {s : TendermintApplication (StorageMap L)}
    (answered : answerAll (TendermintApplication.handle parse serialize (bandLogging (StorageMap L))) (log.map fun h => h.request)
      { manager := { primary := some {} } } = (.ok (log.map fun h => h.reply), s)) :
    Mirrors s ((Node.start {}).run ((requestsOf parse log).flatMap Abci.Request.calls)) ∧
      log.map (fun h => some h.reply) =
        (Abci.Request.answers (Node.start ({} : StorageMap L)) (requestsOf parse log)).map (Option.map serialize) := by
  obtain ⟨responses, processed, replies⟩ := answerAll_requests answered
  rw [List.map_map] at processed
  obtain ⟨mirrors, answers⟩ := (mirrors_start ({} : StorageMap L)).run processed
  refine ⟨mirrors, ?_⟩
  rw [requestsOf, ← Function.comp_def parse, ← answers, List.map_map]
  calc log.map (fun h => some h.reply) = (log.map fun h => h.reply).map some := by rw [List.map_map]; rfl
    _ = responses.map (Option.map serialize ∘ some) := by rw [replies, List.map_map]; rfl

/-- Whatever bytes arrive on however many connections in whatever order, a process that is up is a node that made the calls of all
requests in one order; on every connection the requests are those that arrived there and the replies are the node's answers, in the same
order. It ends only where a connection is not accepted, or at a request that is not survived or cannot be taken off what arrived. -/
theorem sockets_serve_node (parse : ByteString → Abci.Request) (serialize : Abci.Response → ByteString) (events : List NetEvent) :
    let handle := TendermintApplication.handle parse serialize (bandLogging (StorageMap L))
    let app : TendermintApplication (StorageMap L) := { manager := { primary := some {} } }
    let server := ({ app } : Server _).run handle events
    let node := fun log => (Node.start ({} : StorageMap L)).run ((requestsOf parse log).flatMap Abci.Request.calls)
    (server.down = false → ∃ log, server.Handles handle app log ∧ (node log).down = false ∧ server.app.manager = (node log).manager ∧
      log.map (fun h => some h.reply) =
        (Abci.Request.answers (Node.start ({} : StorageMap L)) (requestsOf parse log)).map (Option.map serialize)) ∧
    (server.down = true → .acceptFailed ∈ events ∨ ∃ log i c left tail storage, server.connections[i]? = some c ∧
      Drains nextRequest c.received (((forConnection i log).map fun h => h.request) ++ left) tail ∧
      (node log).down = false ∧ (node log).manager.primary = some storage ∧
      ((∃ r more, left = r :: more ∧ ¬ (parse r).Survived (requestsOf parse log) storage) ∨ (left = [] ∧ TmApp.Overrun tail))) := by
  intro handle app server node
  have start : ({ app } : Server _).Handles handle app [] := Server.handles_start app
  constructor
  · intro up
    cases start.run rfl events with
    | @on log _ handles =>
      obtain ⟨mirrors, replies⟩ := mirrors_log handles.answered
      exact ⟨_, handles, mirrors.up, mirrors.manager, replies⟩
    | unaccepted down _ | stopped down _ => cases up.symm.trans down
  · intro down
    cases start.run rfl events with
    | on up _ => cases up.symm.trans down
    | unaccepted _ refused => exact Or.inl refused
    | @stopped log _ stopped =>
      obtain ⟨s, i, c, left, tail, held, drains, answered, ends⟩ := stopped
      obtain ⟨mirrors, _⟩ := mirrors_log answered
      have primary := primary_of_live mirrors.up
      refine Or.inr ⟨_, i, c, left, tail, _, held, drains, mirrors.up, primary, ?_⟩
      cases left with
      | nil => exact Or.inr ⟨rfl, ends⟩
      | cons r more =>
        refine Or.inl ⟨r, more, rfl, fun survived => ?_⟩
        obtain ⟨e, failed⟩ := ends
        obtain ⟨res, s', returned⟩ := (mirrors.survived (mirrors.manager ▸ primary) (parse r)).mpr survived
        have handled : handle r s = (.ok (serialize res), s') := by
          simp only [handle, TendermintApplication.handle, returned]
        rw [handled] at failed
        cases failed

end

end BandChain
