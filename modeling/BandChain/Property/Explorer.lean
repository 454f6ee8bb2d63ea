import BandChain.Net.Explorer
import BandChain.Property.Replay
import BandChain.Property.Requests
import BandChain.Property.Wiki

/-!
What the explorer writes: which rows stay in its database and which edges its graph server is told of, and how they
compare with what the chain has executed.
-/

namespace BandChain

open TendermintApplication (onManager)
open Transaction (Op durable Thinned)

/-! ### What listeners are told -/

/-- The response that can be read from no bytes. -/
def Msg.settled : Msg → Option Response
  | createAccount _ => some .createAccount
  | createToken _ => some .createToken
  | mintToken _ => some .mintToken
  | transferToken _ => some .transferToken
  | buyToken _ | sellToken _ => none
  | addWikiEdge _ => some .addWikiEdge
  | removeWikiEdge _ => some .removeWikiEdge

/-- The header and the message of a transaction. -/
def readTx [Sha256] (tx : ByteString) : Option (HeaderMsg × Msg) :=
  match ListenerManager.parseTx tx with
  | .error _ => none
  | .ok (hdr, _, type, body) => (ListenerManager.consume (Msg.read type) body).toOption.map fun (msg, _) => (hdr, msg)

namespace Abci.Request

/-- The block that is current after a request. -/
def block (blk : BlockMsg) : Abci.Request → BlockMsg
  | beginBlock seconds _ => { timestamp := seconds.toUInt64, height := 1 }
  | echo _ | flush | info _ | setOption | initChain _ _ | query _ _ | checkTx _ | deliverTx _ | endBlock | commit | notSet => blk

/-- What the listeners of an explorer are told by a request: every transaction that can be read, unless it is a trade. -/
def told [Sha256] (blk : BlockMsg) : Abci.Request → List Notice
  | beginBlock seconds proposerAddress => [.begin (block blk (beginBlock seconds proposerAddress))]
  | deliverTx tx =>
    match readTx tx with
    | some (hdr, msg) => msg.settled.toList.map fun res => .handle blk hdr msg res
    | none => []
  | commit => [.commit blk]
  | echo _ | flush | info _ | setOption | initChain _ _ | query _ _ | checkTx _ | endBlock | notSet => []

def toldAll [Sha256] (blk : BlockMsg) : List Abci.Request → List Notice
  | [] => []
  | req :: reqs => req.told blk ++ toldAll (req.block blk) reqs

end Abci.Request

section

variable {σ : Type}

/-- What a request that returned did to the manager. -/
def Application.Does (app : Application σ) (m m' : ListenerManager σ) : Abci.Request → Prop
  | .initChain validators appStateBytes => ∃ keys, TendermintApplication.rawKeys validators = .ok keys ∧
      app.init keys appStateBytes m = (.ok (), m')
  | .query path data => (app.query path data m).2 = m'
  | .beginBlock seconds _ => ∃ proposer, app.beginBlock seconds.toUInt64 proposer m = (.ok (), m')
  | .checkTx tx => (app.check tx m).2 = m'
  | .deliverTx tx => (app.apply tx m).2 = m'
  | .endBlock => (app.endBlock m).2 = m'
  | .commit => app.commitBlock m = (.ok (), m')
  | .echo _ | .flush | .info _ => m' = m
  | .setOption | .notSet => False

theorem doInfo_after (app : Application σ) (version : ByteString) (s : TendermintApplication σ) :
    (TendermintApplication.doInfo app version s).2 = s := by
  unfold TendermintApplication.doInfo
  rw [Exec.bind_of_ok (Exec.get_apply s)]
  split
  · rfl
  · split <;> rfl

theorem answering_after [Memory] (call : Exec Stop (ListenerManager σ) ResponseTx) (m : ListenerManager σ) :
    (TmApp.answering call m).2 = (call m).2 := by
  unfold TmApp.answering
  rcases call m with ⟨(e | _) | res, m'⟩
  · cases caught : e.caught <;> simp only [caught]
  · rfl
  · rfl

theorem bind_after {α : Type} (call : Exec Stop (ListenerManager σ) α) (f : α → ResponseTx) (m : ListenerManager σ) :
    ((do return f (← call) : Exec Stop (ListenerManager σ) ResponseTx) m).2 = (call m).2 := by
  rcases ran : call m with ⟨_ | a, m'⟩
  · rw [Exec.bind_of_error ran]
  · rw [Exec.bind_of_ok ran]
    rfl

/-- One case for each type of request. -/
theorem process_does [Memory] {app : Application σ} {req : Abci.Request} {s s' : TendermintApplication σ} {res : Abci.Response}
    (returned : TendermintApplication.process app req s = (.ok res, s')) : app.Does s.manager s'.manager req := by
  cases req with
  | echo _ | flush =>
    obtain ⟨_, rfl⟩ := Prod.mk.inj returned
    rfl
  | setOption | notSet => cases returned
  | info version =>
    have after := doInfo_after app version s
    rw [show TendermintApplication.doInfo app version s = _ from returned] at after
    exact congrArg TendermintApplication.manager after
  | initChain validators appStateBytes =>
    obtain ⟨keys, _, read, body⟩ := Exec.bind_ok returned
    obtain ⟨rfl, sized⟩ := Exec.ofExcept_ok read
    obtain ⟨_, _, ran, last⟩ := Exec.bind_ok body
    obtain ⟨m, called, rfl⟩ := onManager_ok ran
    obtain ⟨_, rfl⟩ := Prod.mk.inj last
    exact ⟨keys, sized, called⟩
  | query path data =>
    have body : TendermintApplication.doQuery app path data s = (.ok res, s') := returned
    unfold TendermintApplication.doQuery at body
    rcases asked : app.query path data s.manager with ⟨_ | _, m⟩ <;> rw [asked] at body <;> obtain ⟨_, rfl⟩ := Prod.mk.inj body
    · exact congrArg Prod.snd asked
    · exact congrArg Prod.snd asked
  | beginBlock seconds proposerAddress =>
    obtain ⟨proposer, _, sized, body⟩ := Exec.bind_ok returned
    obtain ⟨rfl, _⟩ := Exec.ofExcept_ok sized
    obtain ⟨_, _, ran, last⟩ := Exec.bind_ok body
    obtain ⟨m, called, rfl⟩ := onManager_ok ran
    obtain ⟨_, rfl⟩ := Prod.mk.inj last
    exact ⟨proposer, called⟩
  | checkTx tx =>
    obtain ⟨_, _, ran, last⟩ := Exec.bind_ok returned
    obtain ⟨m, answered, rfl⟩ := onManager_ok ran
    obtain ⟨_, rfl⟩ := Prod.mk.inj last
    have after := congrArg Prod.snd answered
    rw [answering_after] at after
    exact (bind_after (app.check tx) (fun _ => {}) s.manager).symm.trans after
  | deliverTx tx =>
    obtain ⟨_, _, ran, last⟩ := Exec.bind_ok returned
    obtain ⟨m, answered, rfl⟩ := onManager_ok ran
    obtain ⟨_, rfl⟩ := Prod.mk.inj last
    have after := congrArg Prod.snd answered
    rw [answering_after] at after
    exact (bind_after (app.apply tx) (fun data => { data }) s.manager).symm.trans after
  | endBlock =>
    obtain ⟨_, _, ran, last⟩ := Exec.bind_ok returned
    obtain ⟨m, called, rfl⟩ := onManager_ok ran
    obtain ⟨_, rfl⟩ := Prod.mk.inj last
    exact congrArg Prod.snd called
  | commit =>
    obtain ⟨_, _, ran, last⟩ := Exec.bind_ok returned
    obtain ⟨m, called, rfl⟩ := onManager_ok ran
    obtain ⟨_, rfl⟩ := Prod.mk.inj last
    exact called

end

/-! ### The manager of an explorer -/

section

variable {σ : Type} [Storage σ] [Sha256]

omit [Sha256] in
/-- No trade can be read from an empty result. -/
theorem response_of_nothing (msg : Msg) : (Response.read msg.type []).1.toOption = msg.settled := by
  cases msg <;> rfl

theorem applyTransaction_alone {m : ListenerManager σ} (alone : m.primary = none) (tx : ByteString) :
    (ListenerManager.applyTransaction tx [] m).2 = m.told (Abci.Request.told m.block (.deliverTx tx)) m.block := by
  have answered {α : Type} {x r : Except Stop α} (same : x = r) : Exec.ofExcept x m = (r, m) := by
    rw [same, Exec.ofExcept_apply]
  have quiet (none : Abci.Request.told m.block (.deliverTx tx) = []) :
      m.told (Abci.Request.told m.block (.deliverTx tx)) m.block = m := by
    rw [none, ListenerManager.told, List.append_nil]
  have passed {α : Type} (call : Exec Stop σ α) (otherwise : Except Stop α) := onPrimary_none alone call otherwise
  rcases header : ListenerManager.parseHeader tx with e | ⟨hdr, data, buf⟩
  · have unread : readTx tx = none := by simp only [readTx, ListenerManager.parseTx, header]
    have ended : ListenerManager.applyTransaction tx [] m = (.error e, m) := Exec.bind_of_error (answered header)
    rw [ended, quiet (by simp only [Abci.Request.told, unread])]
  rcases typed : ListenerManager.consume (Serial.read (α := MsgType)) buf with e | ⟨type, body⟩
  · have unread : readTx tx = none := by simp only [readTx, ListenerManager.parseTx, header, typed]
    have ended : ListenerManager.applyTransaction tx [] m = (.error e, m) :=
      (Exec.bind_of_ok (answered header)).trans (Exec.bind_of_error (answered typed))
    rw [ended, quiet (by simp only [Abci.Request.told, unread])]
  rcases read : ListenerManager.consume (Msg.read type) body with e | ⟨msg, rest⟩
  · have unread : readTx tx = none := by
      simp only [readTx, ListenerManager.parseTx, header, typed, read]
      rfl
    have ended : ListenerManager.applyTransaction tx [] m = (.error e, m) :=
      (Exec.bind_of_ok (answered header)).trans ((Exec.bind_of_ok (answered typed)).trans ((Exec.bind_of_ok (passed _ _)).trans
        (Exec.bind_of_error (answered read))))
    rw [ended, quiet (by simp only [Abci.Request.told, unread])]
  have whole : readTx tx = some (hdr, msg) := by
    simp only [readTx, ListenerManager.parseTx, header, typed, read]
    rfl
  have response := response_of_nothing msg
  rw [Msg.type_of_read (ListenerManager.consume_ok read)] at response
  have start : ListenerManager.applyTransaction tx [] m = (do
      let res ← ListenerManager.onPrimary (PrimaryListener.process m.block hdr msg) (Response.read type []).1
      ListenerManager.notify (.handle m.block hdr msg res)
      return res.write : Exec Stop (ListenerManager σ) ByteString) m :=
    (Exec.bind_of_ok (answered header)).trans ((Exec.bind_of_ok (answered typed)).trans ((Exec.bind_of_ok (passed _ _)).trans
      ((Exec.bind_of_ok (answered read)).trans (Exec.bind_of_ok (Exec.get_apply m)))))
  rcases result : (Response.read type []).1 with e | res <;> rw [result] at response
  · have ended : ListenerManager.applyTransaction tx [] m = (.error e, m) :=
      start.trans (Exec.bind_of_error ((passed _ _).trans (by rw [result])))
    rw [ended, quiet]
    simp only [Abci.Request.told, whole, ← response]
    rfl
  · have ended : ListenerManager.applyTransaction tx [] m = (.ok res.write, m.told [.handle m.block hdr msg res] m.block) :=
      start.trans (Exec.bind_of_ok ((passed _ _).trans (by rw [result])))
    rw [ended]
    simp only [Abci.Request.told, whole, ← response]
    rfl

/-- What a request does to the manager of an explorer. -/
theorem explorer_does {m m' : ListenerManager σ} {req : Abci.Request} (alone : m.primary = none)
    (does : (bandExplorer σ).Does m m' req) : m' = m.told (req.told m.block) (req.block m.block) := by
  have unchanged : m = m.told [] m.block := by rw [ListenerManager.told, List.append_nil]
  have passed {α : Type} (m' : ListenerManager σ) (same : m'.primary = m.primary) (call : Exec Stop σ α) (otherwise : Except Stop α) :=
    onPrimary_none (same.trans alone) call otherwise
  cases req with
  | echo _ | flush | info _ => exact Eq.trans does unchanged
  | setOption | notSet => cases does
  | initChain _ _ =>
    obtain ⟨_, _, ran⟩ := does
    obtain ⟨_, rfl⟩ := Prod.mk.inj ran
    exact unchanged
  | query _ _ | checkTx _ | endBlock =>
    obtain rfl := does
    exact unchanged
  | beginBlock seconds proposerAddress =>
    obtain ⟨proposer, ran⟩ := does
    have opened := passed { m with block := { timestamp := seconds.toUInt64, height := 0 + 1 } } rfl
      (PrimaryListener.begin { timestamp := seconds.toUInt64, height := 0 + 1 }) (.ok ())
    have told : (bandExplorer σ).beginBlock seconds.toUInt64 proposer m = _ :=
      (Exec.bind_of_ok (Exec.modify_apply _ m)).trans (Exec.bind_of_ok opened)
    rw [told] at ran
    obtain ⟨_, rfl⟩ := Prod.mk.inj ran
    rfl
  | deliverTx tx =>
    have after : ((bandExplorer σ).apply tx m).2 = m' := does
    rcases ran : ListenerManager.applyTransaction tx [] m with ⟨_ | _, m''⟩ <;>
      have same := applyTransaction_alone alone tx <;> rw [ran] at same
    · rw [show (bandExplorer σ).apply tx m = _ from Exec.bind_of_error ran] at after
      exact after.symm.trans same
    · rw [show (bandExplorer σ).apply tx m = _ from Exec.bind_of_ok ran] at after
      exact after.symm.trans same
  | commit =>
    have told : (bandExplorer σ).commitBlock m = _ :=
      (Exec.bind_of_ok (Exec.get_apply m)).trans (Exec.bind_of_ok (passed _ rfl (PrimaryListener.commit m.block) (.ok ())))
    have ran : (bandExplorer σ).commitBlock m = (.ok (), m') := does
    rw [told] at ran
    obtain ⟨_, rfl⟩ := Prod.mk.inj ran
    rfl

end

/-! ### The listeners -/

/-- The statements for a notice. `begin` drops the transaction that is open, and with it what it has inserted. -/
def ExplorerListener.statements : Notice → List (Op Values)
  | .init _ => []
  | .begin _ => [.begin]
  | .commit _ => [.commit]
  | .handle blk hdr msg res => (rows (.handle blk hdr msg res)).map fun row => .insert row.toBase

section

variable {δ : Type} {services : Services δ}

/-- `tx` holds a transaction where the database has one open. -/
def Outside.Tracked (services : Services δ) (out : Outside δ) : Prop := out.tx = (services.database.view out.database).opened.isSome

/-- What `out'` has after `out` when the listeners were told `notices`. -/
structure Wrote (services : Services δ) (out out' : Outside δ) (notices : List Notice) : Prop where
  view : services.database.view out'.database =
    (services.database.view out.database).run (notices.flatMap ExplorerListener.statements)
  sent : out'.sent = out.sent ++ (notices.flatMap CayleyListener.calls).map CayleyListener.text
  tracked : out'.Tracked services

/-- What stays of the notices: of the table only the rows that stay whatever comes. -/
structure Left (services : Services δ) (out out' : Outside δ) (notices : List Notice) : Prop where
  rows : (services.database.view out'.database).rows =
    ((services.database.view out.database).run (notices.flatMap ExplorerListener.statements)).rows
  sent : out'.sent = out.sent ++ (notices.flatMap CayleyListener.calls).map CayleyListener.text

theorem Wrote.nothing {out : Outside δ} (tracked : out.Tracked services) : Wrote services out out [] where
  view := rfl
  sent := (List.append_nil _).symm
  tracked := tracked

theorem Wrote.left {out out' : Outside δ} {notices : List Notice} (wrote : Wrote services out out' notices) :
    Left services out out' notices where
  rows := congrArg Transaction.Table.rows wrote.view
  sent := wrote.sent

theorem Wrote.andLeft {out out' out'' : Outside δ} {notices more : List Notice} (first : Wrote services out out' notices)
    (second : Left services out' out'' more) : Left services out out'' (notices ++ more) where
  rows := by
    rw [List.flatMap_append, Transaction.Table.run_append, ← first.view]
    exact second.rows
  sent := by
    rw [List.flatMap_append, List.map_append, ← List.append_assoc, ← first.sent]
    exact second.sent

/-- A notice was written, or the listener it failed in has left nothing of it or all. -/
def Told (services : Services δ) (notice : Notice) (out : Outside δ) (result : Except Fault Unit × Outside δ) : Prop :=
  match result with
  | (.ok _, out') => Wrote services out out' [notice]
  | (.error _, out') => Left services out out' [] ∨ Left services out out' [notice]

theorem execute_of_true {op : Op Values} {out : Outside δ} {database : δ} (told : services.database.execute op out.database = (true, database)) :
    services.execute op out = (.ok (), { out with database }) := by
  rw [Services.execute, told]

theorem execute_of_false {op : Op Values} {out : Outside δ} {database : δ}
    (told : services.database.execute op out.database = (false, database)) :
    services.execute op out = (.error .refused, { out with database }) := by
  rw [Services.execute, told]

/-- A statement that failed was done or not. -/
theorem left_of_refused (lawful : services.database.Lawful) {notice : Notice} {op : Op Values}
    (one : ExplorerListener.statements notice = [op]) (calls : CayleyListener.calls notice = []) {out out' : Outside δ}
    (refused : services.database.execute op out.database = (false, out'.database)) (sent : out'.sent = out.sent) :
    Left services out out' [] ∨ Left services out out' [notice] := by
  have quiet (notices : List Notice) (calls : notices.flatMap CayleyListener.calls = []) :
      out'.sent = out.sent ++ (notices.flatMap CayleyListener.calls).map CayleyListener.text := by
    rw [calls, sent, List.map_nil, List.append_nil]
  refine (lawful.refused refused).imp (fun same => ⟨same, quiet [] rfl⟩) fun done => ⟨?_, quiet [notice] ?_⟩
  · rw [List.flatMap_cons, one]
    exact done
  · rw [List.flatMap_cons, calls]
    rfl

theorem begin_told (lawful : services.database.Lawful) {out : Outside δ} (tracked : out.Tracked services) (blk : BlockMsg) :
    Told services (.begin blk) out (ExplorerListener.begin services out) := by
  obtain ⟨out₁, reset, view, clear, sent⟩ : ∃ out₁, ExplorerListener.resetTx services out = (.ok (), out₁) ∧
      (services.database.view out₁.database).rows = (services.database.view out.database).rows ∧
      (services.database.view out₁.database).opened = none ∧ out₁.sent = out.sent := by
    refine ⟨_, Exec.modify_apply _ out, ?_⟩
    by_cases held : out.tx = true
    · rw [if_pos held]
      have gone := lawful.rollback (Prod.mk.eta.symm : services.database.execute .rollback out.database = _)
      dsimp only
      rw [gone]
      exact ⟨rfl, rfl, rfl⟩
    · rw [if_neg held]
      rw [tracked] at held
      exact ⟨rfl, Option.not_isSome_iff_eq_none.mp held, rfl⟩
  have start : ExplorerListener.begin services out = _ := Exec.bind_of_ok reset
  rcases told : services.database.execute .begin out₁.database with ⟨_ | _, database⟩
  · rw [start, Exec.bind_of_error (execute_of_false told)]
    refine Or.inl ⟨?_, sent.trans (List.append_nil _).symm⟩
    exact ((lawful.refused told).elim id id).trans view
  · rw [start, Exec.bind_of_ok (execute_of_true told), Exec.modify_apply]
    have begun := lawful.begin told clear
    refine ⟨?_, sent.trans (List.append_nil _).symm, ?_⟩
    · rw [begun]
      exact congrArg (fun rows => ({ rows, opened := some [] } : Transaction.Table Values)) view
    · rw [Outside.Tracked, begun]
      rfl

theorem commit_told (lawful : services.database.Lawful) {out : Outside δ} (tracked : out.Tracked services) (blk : BlockMsg) :
    Told services (.commit blk) out (ExplorerListener.commit services out) := by
  have start : ExplorerListener.commit services out = _ := Exec.bind_of_ok (Exec.get_apply out)
  by_cases held : out.tx = true
  · rw [start, if_pos held]
    rcases told : services.database.execute .commit out.database with ⟨_ | _, database⟩
    · rw [Exec.bind_of_error (execute_of_false told)]
      exact left_of_refused lawful rfl rfl told rfl
    · rw [Exec.bind_of_ok (execute_of_true told), Exec.modify_apply]
      rw [tracked] at held
      have committed := lawful.commit told fun none => by rw [none] at held; cases held
      refine ⟨committed, (List.append_nil _).symm, ?_⟩
      rw [Outside.Tracked, committed]
      rfl
  · rw [start, if_neg held]
    exact Or.inl ⟨rfl, (List.append_nil _).symm⟩

/-- A notice of a message with one row and no edge. -/
theorem row_told (lawful : services.database.Lawful) {out : Outside δ} (tracked : out.Tracked services) {notice : Notice}
    {row : TokenTransaction} (one : ExplorerListener.statements notice = [.insert row.toBase]) (calls : CayleyListener.calls notice = []) :
    Told services notice out ([row].forM (fun row => services.execute (.insert row.toBase)) out) := by
  rcases told : services.database.execute (.insert row.toBase) out.database with ⟨_ | _, database⟩
  · have ended : [row].forM (fun row => services.execute (.insert row.toBase)) out = _ := Exec.bind_of_error (execute_of_false told)
    rw [ended]
    exact left_of_refused lawful one calls told rfl
  · have ended : [row].forM (fun row => services.execute (.insert row.toBase)) out = _ := Exec.bind_of_ok (execute_of_true told)
    rw [ended]
    have inserted := lawful.insert told
    refine ⟨?_, ?_, ?_⟩
    · rw [List.flatMap_cons, one]
      exact inserted
    · rw [List.flatMap_cons, calls]
      exact (List.append_nil _).symm
    · unfold Outside.Tracked at tracked ⊢
      rw [inserted, tracked, Transaction.Table.step]
      split <;> simp_all

/-- A notice of a message with no row and one edge. -/
theorem edge_told {out : Outside δ} (tracked : out.Tracked services) {notice : Notice} {call : GraphStoreSet.Call}
    (none : ExplorerListener.statements notice = []) (one : CayleyListener.calls notice = [call]) :
    Told services notice out ([call].forM (fun call => services.request (CayleyListener.text call)) out) := by
  have view : services.database.view out.database =
      (services.database.view out.database).run ([notice].flatMap ExplorerListener.statements) := by
    rw [List.flatMap_cons, none]
    rfl
  have sends : ([notice].flatMap CayleyListener.calls).map CayleyListener.text = [CayleyListener.text call] := by
    rw [List.flatMap_cons, one]
    rfl
  rcases delivered : services.deliver out.sent (CayleyListener.text call) with _ | _ | _
  · have requested : services.request (CayleyListener.text call) out = (.error .unanswered, out) := by
      rw [Services.request, delivered]
    have ended : [call].forM (fun call => services.request (CayleyListener.text call)) out = _ := Exec.bind_of_error requested
    rw [ended]
    exact Or.inl ⟨rfl, (List.append_nil _).symm⟩
  · have requested : services.request (CayleyListener.text call) out =
        (.error .unanswered, { out with sent := out.sent ++ [CayleyListener.text call] }) := by
      rw [Services.request, delivered]
    have ended : [call].forM (fun call => services.request (CayleyListener.text call)) out = _ := Exec.bind_of_error requested
    rw [ended]
    exact Or.inr ⟨congrArg Transaction.Table.rows view, by rw [sends]⟩
  · have requested : services.request (CayleyListener.text call) out =
        (.ok (), { out with sent := out.sent ++ [CayleyListener.text call] }) := by
      rw [Services.request, delivered]
    have ended : [call].forM (fun call => services.request (CayleyListener.text call)) out = _ := Exec.bind_of_ok requested
    rw [ended]
    exact ⟨view, by rw [sends], tracked⟩

/-- One statement, or one request to the graph server, or neither. -/
inductive Brief : Notice → Prop where
  | begin (blk : BlockMsg) : Brief (.begin blk)
  | commit (blk : BlockMsg) : Brief (.commit blk)
  | silent {blk hdr msg res} (rows : ExplorerListener.rows (.handle blk hdr msg res) = [])
      (calls : CayleyListener.calls (.handle blk hdr msg res) = []) : Brief (.handle blk hdr msg res)
  | row {blk hdr msg res} (row : TokenTransaction) (one : ExplorerListener.rows (.handle blk hdr msg res) = [row])
      (calls : CayleyListener.calls (.handle blk hdr msg res) = []) : Brief (.handle blk hdr msg res)
  | edge {blk hdr msg res} (call : GraphStoreSet.Call) (rows : ExplorerListener.rows (.handle blk hdr msg res) = [])
      (one : CayleyListener.calls (.handle blk hdr msg res) = [call]) : Brief (.handle blk hdr msg res)

/-- Where one of the listeners has nothing to do. -/
theorem tell_left {notice : Notice} (calls : CayleyListener.calls notice = []) (out : Outside δ) :
    Explorer.tell services notice out = ExplorerListener.tell services notice out := by
  unfold Explorer.tell CayleyListener.tell
  rw [calls]
  rcases told : ExplorerListener.tell services notice out with ⟨_ | _, out'⟩
  · exact Exec.bind_of_error told
  · exact Exec.bind_of_ok told

theorem Brief.tell (lawful : services.database.Lawful) {notice : Notice} (brief : Brief notice) {out : Outside δ}
    (tracked : out.Tracked services) : Told services notice out (Explorer.tell services notice out) := by
  cases brief with
  | begin blk =>
    have left : Explorer.tell services (.begin blk) out = _ := tell_left rfl out
    exact left ▸ begin_told lawful tracked blk
  | commit blk =>
    have left : Explorer.tell services (.commit blk) out = _ := tell_left rfl out
    exact left ▸ commit_told lawful tracked blk
  | silent rows calls =>
    rw [tell_left calls, ExplorerListener.tell, rows]
    refine ⟨?_, ?_, tracked⟩
    · rw [List.flatMap_cons, ExplorerListener.statements, rows]
      rfl
    · rw [List.flatMap_cons, calls]
      exact (List.append_nil _).symm
  | row row one calls =>
    rw [tell_left calls, ExplorerListener.tell, one]
    exact row_told lawful tracked (by rw [ExplorerListener.statements, one, List.map_cons, List.map_nil]) calls
  | @edge blk hdr msg res call rows one =>
    have quiet : ExplorerListener.tell services (.handle blk hdr msg res) out = (.ok (), out) := by
      rw [ExplorerListener.tell, rows]
      rfl
    rw [Explorer.tell, Exec.bind_of_ok quiet, CayleyListener.tell, one]
    exact edge_told tracked (by rw [ExplorerListener.statements, rows, List.map_nil]) one

end

/-- Every request that was sent is read as it was meant. -/
theorem receive_texts (calls : List GraphStoreSet.Call) : (calls.map CayleyListener.text).mapM GraphServer.receive = some calls := by
  have host : (13 : UInt8) ∉ ascii "localhost" := by decide
  induction calls with
  | nil => rfl
  | cons call calls ih =>
    rw [List.map_cons, List.mapM_cons, CayleyListener.text, receive_callText host, ih]
    rfl

section

variable [Sha256]

/-- A request tells at most one notice. -/
theorem told_brief (req : Abci.Request) (blk : BlockMsg) : req.told blk = [] ∨ ∃ notice, req.told blk = [notice] ∧ Brief notice := by
  cases req with
  | echo _ | flush | info _ | setOption | initChain _ _ | query _ _ | checkTx _ | endBlock | notSet => exact Or.inl rfl
  | beginBlock seconds proposerAddress => exact Or.inr ⟨_, rfl, .begin _⟩
  | commit => exact Or.inr ⟨_, rfl, .commit _⟩
  | deliverTx tx =>
    rcases read : readTx tx with _ | ⟨hdr, msg⟩
    · exact Or.inl (by simp only [Abci.Request.told, read])
    · have told : Abci.Request.told blk (.deliverTx tx) = msg.settled.toList.map fun res => .handle blk hdr msg res := by
        simp only [Abci.Request.told, read]
      rw [told]
      cases msg with
      | buyToken _ | sellToken _ => exact Or.inl rfl
      | createAccount _ | createToken _ => exact Or.inr ⟨_, rfl, .silent rfl rfl⟩
      | mintToken _ | transferToken _ => exact Or.inr ⟨_, rfl, .row _ rfl rfl⟩
      | addWikiEdge _ | removeWikiEdge _ => exact Or.inr ⟨_, rfl, .edge _ rfl rfl⟩

variable {σ δ : Type} [Storage σ] [Memory] {services : Services δ}

/-- A request is answered and all of it written, or the process ends and its one notice was written or not. -/
theorem explorer_step (lawful : services.database.Lawful) {req : Abci.Request} {s s' : Explorer σ δ}
    {outcome : Except Explorer.Abort Abci.Response} (alone : s.app.manager.primary = none) (tracked : s.outside.Tracked services)
    (ran : Explorer.process services req s = (outcome, s')) :
    (outcome.isOk = true → s'.app.manager.primary = none ∧ s'.app.manager.block = req.block s.app.manager.block ∧
        Wrote services s.outside s'.outside (req.told s.app.manager.block)) ∧
      (outcome.isOk = false →
        Left services s.outside s'.outside [] ∨ Left services s.outside s'.outside (req.told s.app.manager.block)) := by
  unfold Explorer.process at ran
  rcases processed : TendermintApplication.process (bandExplorer σ) req s.app with ⟨e | res, app⟩ <;> rw [processed] at ran
  · obtain ⟨rfl, rfl⟩ := Prod.mk.inj ran
    exact ⟨(fun ok => by cases ok), fun _ => Or.inl (Wrote.nothing tracked).left⟩
  have moved := explorer_does alone (process_does processed)
  have told : app.manager.notices.drop s.app.manager.notices.length = req.told s.app.manager.block := by
    rw [moved, ListenerManager.told, List.drop_left]
  have settled : app.manager.primary = none ∧ app.manager.block = req.block s.app.manager.block := by
    rw [moved]
    exact ⟨alone, rfl⟩
  simp only [told] at ran
  rcases told_brief req s.app.manager.block with none | ⟨notice, one, brief⟩
  · rw [none] at ran ⊢
    obtain ⟨rfl, rfl⟩ := Prod.mk.inj ran
    exact ⟨fun _ => ⟨settled.1, settled.2, Wrote.nothing tracked⟩, fun failed => by cases failed⟩
  · rw [one] at ran ⊢
    have ends := brief.tell lawful tracked
    rcases written : Explorer.tell services notice s.outside with ⟨e | _, outside⟩ <;> rw [written] at ends
    · have stopped : [notice].forM (Explorer.tell services) s.outside = (.error e, outside) := Exec.bind_of_error written
      rw [stopped] at ran
      obtain ⟨rfl, rfl⟩ := Prod.mk.inj ran
      exact ⟨(fun ok => by cases ok), fun _ => ends⟩
    · have ended : [notice].forM (Explorer.tell services) s.outside = (.ok (), outside) := Exec.bind_of_ok written
      rw [ended] at ran
      obtain ⟨rfl, rfl⟩ := Prod.mk.inj ran
      exact ⟨fun _ => ⟨settled.1, settled.2, ends⟩, fun failed => by cases failed⟩

/-- `done` are answered, and the first of `rest` is not. -/
def Explorer.Cut (services : Services δ) (s : Explorer σ δ) (done rest : List Abci.Request) : Prop :=
  ∃ responses mid, Explorer.processAll services done s = (.ok responses, mid) ∧
    ∀ req ∈ rest.head?, ∃ e s', Explorer.process services req mid = (.error e, s')

theorem Explorer.Cut.cons {req : Abci.Request} {res : Abci.Response} {done rest : List Abci.Request} {s t : Explorer σ δ}
    (first : Explorer.process services req s = (.ok res, t)) (cut : Explorer.Cut services t done rest) :
    Explorer.Cut services s (req :: done) rest := by
  obtain ⟨responses, mid, answered, fails⟩ := cut
  exact ⟨res :: responses, mid, (Exec.bind_of_ok first).trans (Exec.bind_of_ok answered), fails⟩

theorem explorer_run (lawful : services.database.Lawful) {reqs : List Abci.Request} {s s' : Explorer σ δ}
    {outcome : Except Explorer.Abort (List Abci.Response)} (alone : s.app.manager.primary = none) (tracked : s.outside.Tracked services)
    (ran : Explorer.processAll services reqs s = (outcome, s')) :
    ∃ done rest n, reqs = done ++ rest ∧ n ≤ 1 ∧ (outcome.isOk = true ↔ rest = []) ∧ Explorer.Cut services s done rest ∧
      Left services s.outside s'.outside (Abci.Request.toldAll s.app.manager.block (done ++ rest.take n)) := by
  induction reqs generalizing s outcome with
  | nil =>
    obtain ⟨rfl, rfl⟩ := Prod.mk.inj ran
    exact ⟨[], [], 0, rfl, Nat.zero_le 1, iff_of_true rfl rfl, ⟨[], s, rfl, nofun⟩, (Wrote.nothing tracked).left⟩
  | cons req reqs ih =>
    rcases first : Explorer.process services req s with ⟨e | res, t⟩
    · obtain ⟨rfl, rfl⟩ := Prod.mk.inj ((Exec.bind_of_error first).symm.trans ran)
      have ended : ((.error e : Except Explorer.Abort (List Abci.Response)).isOk = true ↔ req :: reqs = []) :=
        iff_of_false Bool.false_ne_true (List.cons_ne_nil _ _)
      have cut : Explorer.Cut services s [] (req :: reqs) := by
        refine ⟨[], s, rfl, fun req' mem => ?_⟩
        obtain rfl := Option.some.inj mem
        exact ⟨e, t, first⟩
      rcases (explorer_step lawful alone tracked first).2 rfl with nothing | all
      · exact ⟨[], req :: reqs, 0, rfl, Nat.zero_le 1, ended, cut, nothing⟩
      · refine ⟨[], req :: reqs, 1, rfl, Nat.le_refl 1, ended, cut, ?_⟩
        rw [List.nil_append, List.take_succ_cons, List.take_zero, Abci.Request.toldAll, Abci.Request.toldAll, List.append_nil]
        exact all
    · obtain ⟨alone', block, wrote⟩ := (explorer_step lawful alone tracked first).1 rfl
      have body := (Exec.bind_of_ok first).symm.trans ran
      have later {outcome' : Except Explorer.Abort (List Abci.Response)}
          (others : Explorer.processAll services reqs t = (outcome', s')) (same : outcome.isOk = outcome'.isOk) :
          ∃ done rest n, req :: reqs = done ++ rest ∧ n ≤ 1 ∧ (outcome.isOk = true ↔ rest = []) ∧ Explorer.Cut services s done rest ∧
            Left services s.outside s'.outside (Abci.Request.toldAll s.app.manager.block (done ++ rest.take n)) := by
        obtain ⟨done, rest, n, rfl, few, ended, cut, more⟩ := ih alone' wrote.tracked others
        rw [block] at more
        exact ⟨req :: done, rest, n, rfl, few, same ▸ ended, cut.cons first, wrote.andLeft more⟩
      rcases others : Explorer.processAll services reqs t with ⟨e | responses, t'⟩
      · obtain ⟨rfl, rfl⟩ := Prod.mk.inj ((Exec.bind_of_error others).symm.trans body)
        exact later others rfl
      · obtain ⟨rfl, rfl⟩ := Prod.mk.inj ((Exec.bind_of_ok others).symm.trans body)
        exact later others rfl

/-- Of an explorer that was given `reqs`: it answered all, unless the process has ended at one. Their rows stay where their block was
committed, or where they are outside of a block, and nothing else does; their edges were sent to the graph server, each once and in
order. Of the request at which the process has ended, that is left as well, or is not. -/
theorem explorer_table (lawful : services.database.Lawful) {database : δ} (clear : (services.database.view database).opened = none)
    (reqs : List Abci.Request) :
    ∃ done rest n, reqs = done ++ rest ∧ n ≤ 1 ∧
      ((Explorer.processAll services reqs ({ outside := { database } } : Explorer σ δ)).1.isOk = true ↔ rest = []) ∧
      Explorer.Cut services ({ outside := { database } } : Explorer σ δ) done rest ∧
      (services.database.view (Explorer.processAll services reqs ({ outside := { database } } : Explorer σ δ)).2.outside.database).rows =
        (services.database.view database).rows ++
          durable false ((Abci.Request.toldAll {} (done ++ rest.take n)).flatMap ExplorerListener.statements) ∧
      (Explorer.processAll services reqs ({ outside := { database } } : Explorer σ δ)).2.outside.sent.mapM GraphServer.receive =
        some ((Abci.Request.toldAll {} (done ++ rest.take n)).flatMap CayleyListener.calls) := by
  rcases ran : Explorer.processAll services reqs ({ outside := { database } } : Explorer σ δ) with ⟨outcome, s⟩
  have tracked : ({ database } : Outside δ).Tracked services := by
    rw [Outside.Tracked, clear]
    rfl
  obtain ⟨done, rest, n, parts, few, ended, cut, left⟩ := explorer_run lawful rfl tracked ran
  refine ⟨done, rest, n, parts, few, ended, cut, ?_, ?_⟩
  · exact left.rows.trans (Transaction.rows_of_clear clear _)
  · rw [left.sent]
    exact receive_texts _

end

/-! A block with a mint and an edge. The answer to the edge that is sent after the block is lost. -/

def likes : WikiEdgeMsg where
  subject := ⟨ascii "alice", by decide +kernel⟩
  predicate := ⟨ascii "likes", by decide +kernel⟩
  object := ⟨ascii "bob", by decide +kernel⟩
  label := default

def mintAndLike : List Abci.Request :=
  let deliver (nonce : UInt64) (msg : Msg) : Abci.Request :=
    .deliverTx (ListenerManager.writeTx ListenerManager.genesis.account default nonce msg)
  [.initChain [] [], .beginBlock 5 (List.replicate 20 0), deliver 1 (.mintToken ⟨ListenerManager.genesis.token, 7⟩),
   deliver 2 (.addWikiEdge likes), .endBlock, .commit, deliver 3 (.removeWikiEdge likes), .flush]

/-- A database that accepts everything, and a graph server that answers the first request. -/
def answersOnce : Services (Transaction.Table Values) where
  database := Transaction.Table.database (fun _ _ => true) (fun _ _ => false)
  deliver sent _ := if sent = [] then .answered else .unanswered

theorem explorer_table_like :
    let _ := zeroSha256
    let _ := roomyMemory
    ∃ explorer, Explorer.processAll answersOnce mintAndLike ({ outside := { database := {} } } : Explorer (StorageMap Layout.text) _) = explorer ∧
      explorer.1.isOk = false ∧ (answersOnce.database.view explorer.2.outside.database).rows.length = 1 ∧
      explorer.2.outside.sent.length = 2 ∧ ∃ done rest n, mintAndLike = done ++ rest ∧ n ≤ 1 ∧ (explorer.1.isOk = true ↔ rest = []) ∧
        Explorer.Cut answersOnce ({ outside := { database := {} } } : Explorer (StorageMap Layout.text) _) done rest ∧
        (answersOnce.database.view explorer.2.outside.database).rows = (answersOnce.database.view {}).rows ++
          durable false ((Abci.Request.toldAll {} (done ++ rest.take n)).flatMap ExplorerListener.statements) ∧
        explorer.2.outside.sent.mapM GraphServer.receive =
          some ((Abci.Request.toldAll {} (done ++ rest.take n)).flatMap CayleyListener.calls) := by
  intro _ _
  have lawful : answersOnce.database.Lawful := Transaction.Table.lawful (fun _ _ => true) (fun _ _ => false)
  have clear : (answersOnce.database.view {}).opened = none := rfl
  refine ⟨_, rfl, ?_, ?_, ?_, explorer_table lawful clear mintAndLike⟩ <;> decide +kernel

/-! ### Against the chain -/

def Notice.isTrade : Notice → Bool
  | .handle _ _ (.buyToken _) _ | .handle _ _ (.sellToken _) _ => true
  | .handle _ _ _ _ | .init _ | .begin _ | .commit _ => false

/-- The statements for notices that are not of trades. -/
def statementsOf (notices : List Notice) : List (Op Values) :=
  (notices.filter fun notice => !notice.isTrade).flatMap ExplorerListener.statements

section

variable {σ : Type}

/-- What the listeners of the chain are told between two states is among what those of an explorer are told. -/
structure Among (m m' : ListenerManager σ) (told : List Notice) (block : BlockMsg) : Prop where
  block : m'.block = block
  notices : ∃ more, m'.notices = m.notices ++ more ∧ Thinned (statementsOf more) (told.flatMap ExplorerListener.statements) ∧
    (more.flatMap CayleyListener.calls).Sublist (told.flatMap CayleyListener.calls)

namespace Among

variable {m m' : ListenerManager σ}

/-- The listeners were told nothing. -/
theorem nothing {told : List Notice} (still : m'.notices = m.notices ∧ m'.block = m.block)
    (rows : Thinned [] (told.flatMap ExplorerListener.statements)) : Among m m' told m.block where
  block := still.2
  notices := ⟨[], by rw [still.1, List.append_nil], rows, List.nil_sublist _⟩

/-- They were told something that is neither a row nor an edge. -/
theorem silent {notice : Notice} (current : m'.block = m.block) (told : m'.notices = m.notices ++ [notice])
    (statements : statementsOf [notice] = []) (calls : CayleyListener.calls notice = []) : Among m m' [] m.block where
  block := current
  notices := by
    refine ⟨[notice], told, statements ▸ Thinned.nil, ?_⟩
    rw [List.flatMap_cons, calls]
    exact List.nil_sublist _

/-- They were told the same. -/
theorem same {notice : Notice} {block : BlockMsg} (current : m'.block = block) (told : m'.notices = m.notices ++ [notice])
    (other : notice.isTrade = false) : Among m m' [notice] block where
  block := current
  notices := by
    have kept : statementsOf [notice] = [notice].flatMap ExplorerListener.statements := by
      simp only [statementsOf, List.filter_cons, other, Bool.not_false, if_true, List.filter_nil]
    exact ⟨[notice], told, kept ▸ Thinned.refl _, List.Sublist.refl _⟩

theorem trans {m'' : ListenerManager σ} {told more : List Notice} {block block' : BlockMsg} (first : Among m m' told block)
    (second : Among m' m'' more block') : Among m m'' (told ++ more) block' where
  block := second.block
  notices := by
    obtain ⟨notices, added, rows, edges⟩ := first.notices
    obtain ⟨notices', added', rows', edges'⟩ := second.notices
    refine ⟨notices ++ notices', by rw [added', added, List.append_assoc], ?_, ?_⟩
    · rw [statementsOf, List.filter_append, List.flatMap_append, List.flatMap_append]
      exact rows.append rows'
    · rw [List.flatMap_append, List.flatMap_append]
      exact edges.append edges'

end Among

theorem onPrimary_still {α : Type} {call : Exec Stop σ α} {otherwise outcome : Except Stop α} {m m' : ListenerManager σ}
    (ran : ListenerManager.onPrimary call otherwise m = (outcome, m')) : m'.notices = m.notices ∧ m'.block = m.block := by
  unfold ListenerManager.onPrimary at ran
  split at ran <;> obtain ⟨_, rfl⟩ := Prod.mk.inj ran <;> exact ⟨rfl, rfl⟩

/-- The rows of a transaction that the chain refuses. -/
theorem inserts_thinned (msg : Msg) (hdr : HeaderMsg) (blk : BlockMsg) :
    Thinned [] ((msg.settled.toList.map fun res => Notice.handle blk hdr msg res).flatMap ExplorerListener.statements) := by
  cases msg with
  | mintToken _ | transferToken _ => exact .without _ .nil
  | createAccount _ | createToken _ | buyToken _ | sellToken _ | addWikiEdge _ | removeWikiEdge _ => exact .nil

/-- What the listeners are told of a message does not depend on its result, unless it is a trade. -/
theorem handled_among {m m' : ListenerManager σ} {hdr : HeaderMsg} {msg : Msg} {res : Response} (current : m'.block = m.block)
    (told : m'.notices = m.notices ++ [.handle m.block hdr msg res]) :
    Among m m' (msg.settled.toList.map fun res => .handle m.block hdr msg res) m.block where
  block := current
  notices := by
    refine ⟨_, told, ?_, ?_⟩ <;> cases msg <;>
      first | exact Thinned.nil | exact Thinned.refl _ | exact List.Sublist.refl _

variable [Storage σ] [Sha256]

/-- A transaction that the chain executes is told to the explorer's listeners too, unless it is a trade. -/
theorem applyTransaction_among (tx : ByteString) (m : ListenerManager σ) :
    Among m (ListenerManager.applyTransaction tx [] m).2 (Abci.Request.told m.block (.deliverTx tx)) m.block := by
  have thin : Thinned [] ((Abci.Request.told m.block (.deliverTx tx)).flatMap ExplorerListener.statements) := by
    rcases read : readTx tx with _ | ⟨hdr, msg⟩
    · simp only [Abci.Request.told, read]
      exact .nil
    · simp only [Abci.Request.told, read]
      exact inserts_thinned msg hdr m.block
  have stopped {m' : ListenerManager σ} {e : Stop} (still : m'.notices = m.notices ∧ m'.block = m.block)
      (ended : ListenerManager.applyTransaction tx [] m = (.error e, m')) :
      Among m (ListenerManager.applyTransaction tx [] m).2 (Abci.Request.told m.block (.deliverTx tx)) m.block := by
    rw [ended]
    exact .nothing still thin
  have answered {α : Type} {x r : Except Stop α} (m : ListenerManager σ) (same : x = r) : Exec.ofExcept x m = (r, m) := by
    rw [same, Exec.ofExcept_apply]
  rcases header : ListenerManager.parseHeader tx with e | ⟨hdr, data, buf⟩
  · exact stopped ⟨rfl, rfl⟩ (Exec.bind_of_error (answered m header))
  rcases typed : ListenerManager.consume (Serial.read (α := MsgType)) buf with e | ⟨type, body⟩
  · exact stopped ⟨rfl, rfl⟩ ((Exec.bind_of_ok (answered m header)).trans (Exec.bind_of_error (answered m typed)))
  rcases validated : ListenerManager.onPrimary (PrimaryListener.validateTransaction .apply hdr data) (.ok ()) m with ⟨e | _, m₁⟩
  · exact stopped (onPrimary_still validated) ((Exec.bind_of_ok (answered m header)).trans ((Exec.bind_of_ok (answered m typed)).trans
      (Exec.bind_of_error validated)))
  have still := onPrimary_still validated
  rcases read : ListenerManager.consume (Msg.read type) body with e | ⟨msg, rest⟩
  · exact stopped still ((Exec.bind_of_ok (answered m header)).trans ((Exec.bind_of_ok (answered m typed)).trans
      ((Exec.bind_of_ok validated).trans (Exec.bind_of_error (answered m₁ read)))))
  have start : ListenerManager.applyTransaction tx [] m = (do
      let res ← ListenerManager.onPrimary (PrimaryListener.process m₁.block hdr msg) (Response.read type []).1
      ListenerManager.notify (.handle m₁.block hdr msg res)
      return res.write : Exec Stop (ListenerManager σ) ByteString) m₁ :=
    (Exec.bind_of_ok (answered m header)).trans ((Exec.bind_of_ok (answered m typed)).trans ((Exec.bind_of_ok validated).trans
      ((Exec.bind_of_ok (answered m₁ read)).trans (Exec.bind_of_ok (Exec.get_apply m₁)))))
  rcases processed : ListenerManager.onPrimary (PrimaryListener.process m₁.block hdr msg) (Response.read type []).1 m₁ with ⟨e | res, m₂⟩
  · have last := onPrimary_still processed
    exact stopped ⟨last.1.trans still.1, last.2.trans still.2⟩ (start.trans (Exec.bind_of_error processed))
  · have last := onPrimary_still processed
    have whole : readTx tx = some (hdr, msg) := by
      simp only [readTx, ListenerManager.parseTx, header, typed, read]
      rfl
    have ended : ListenerManager.applyTransaction tx [] m =
        (.ok res.write, { m₂ with notices := m₂.notices ++ [.handle m₁.block hdr msg res] }) :=
      start.trans (Exec.bind_of_ok processed)
    simp only [ended, Abci.Request.told, whole]
    have told : m₂.notices ++ [.handle m₁.block hdr msg res] = m.notices ++ [.handle m.block hdr msg res] := by
      rw [last.1, still.1, still.2]
    exact handled_among (last.2.trans still.2) told

theorem checkTransaction_still (tx : ByteString) (m : ListenerManager σ) :
    (ListenerManager.checkTransaction tx m).2.notices = m.notices ∧ (ListenerManager.checkTransaction tx m).2.block = m.block := by
  let Still (m' : ListenerManager σ) : Prop := m'.notices = m.notices ∧ m'.block = m.block
  have asked {α : Type} (call : Exec Stop σ α) (otherwise : Except Stop α) :
      Exec.Keeps Still (ListenerManager.onPrimary call otherwise) := by
    intro m' still
    rcases ran : ListenerManager.onPrimary call otherwise m' with ⟨_ | _, m''⟩ <;>
      exact ⟨(onPrimary_still ran).1.trans still.1, (onPrimary_still ran).2.trans still.2⟩
  have looking {α : Type} {f : ListenerManager σ → Exec Stop (ListenerManager σ) α} (rest : ∀ m, Exec.Keeps Still (f m)) :
      Exec.Keeps Still (Exec.get >>= f) := fun m' => rest m' m'
  have kept : Exec.Keeps Still (ListenerManager.checkTransaction tx) := by
    refine looking fun m' => ?_
    split
    · exact Exec.Keeps.stop _
    · exact (Exec.Keeps.ofExcept _).bind fun _ => asked _ _
  exact kept.after ⟨rfl, rfl⟩

/-- What a request does to the manager of a node. -/
theorem chain_does {m m' : ListenerManager σ} {req : Abci.Request} (does : (bandLogging σ).Does m m' req) :
    Among m m' (req.told m.block) (req.block m.block) := by
  have still {told : ListenerManager σ} (same : told = m) : Among m told [] m.block := by
    subst same
    exact .nothing ⟨rfl, rfl⟩ .nil
  cases req with
  | echo _ | flush | info _ => exact still does
  | setOption | notSet => cases does
  | initChain _ _ =>
    obtain ⟨_, _, ran⟩ := does
    obtain ⟨_, m₁, created, told⟩ := Exec.bind_ok ran
    obtain ⟨_, rfl⟩ := Prod.mk.inj told
    obtain ⟨notices, block⟩ := onPrimary_still created
    have told : m₁.notices ++ [.init ListenerManager.genesis] = m.notices ++ [.init ListenerManager.genesis] := by rw [notices]
    exact .silent block told rfl rfl
  | query _ _ =>
    obtain rfl := does
    exact still rfl
  | checkTx tx =>
    have after : (ListenerManager.checkTransaction tx m).2 = m' := does
    rw [← after]
    exact .nothing (checkTransaction_still tx m) .nil
  | endBlock =>
    have after : ((bandLogging σ).endBlock m).2 = m' := does
    rw [endBlock_eq] at after
    refine still (after.symm.trans ?_)
    split <;> rfl
  | beginBlock seconds proposerAddress =>
    obtain ⟨proposer, ran⟩ := does
    obtain ⟨_, m₁, opened, body⟩ := Exec.bind_ok ran
    obtain ⟨_, m₂, begun, told⟩ := Exec.bind_ok body
    obtain ⟨_, rfl⟩ := Prod.mk.inj opened
    obtain ⟨_, rfl⟩ := Prod.mk.inj told
    obtain ⟨notices, block⟩ := onPrimary_still begun
    exact .same block (congrArg (· ++ _) notices) rfl
  | deliverTx tx =>
    have after : (ListenerManager.applyTransaction tx [] m).2 = m' := does
    rw [← after]
    exact applyTransaction_among tx m
  | commit =>
    obtain ⟨_, m₁, looked, body⟩ := Exec.bind_ok does
    obtain ⟨same, rfl⟩ := Prod.mk.inj looked
    obtain rfl := Except.ok.inj same
    obtain ⟨_, m₂, committed, told⟩ := Exec.bind_ok body
    obtain ⟨_, rfl⟩ := Prod.mk.inj told
    obtain ⟨notices, block⟩ := onPrimary_still committed
    exact .same block (congrArg (· ++ _) notices) rfl

theorem chain_run [Memory] {reqs : List Abci.Request} {responses : List Abci.Response} {s s' : TendermintApplication σ}
    (returned : TendermintApplication.processAll (bandLogging σ) reqs s = (.ok responses, s')) :
    ∃ block, Among s.manager s'.manager (Abci.Request.toldAll s.manager.block reqs) block := by
  induction reqs generalizing s responses with
  | nil =>
    obtain ⟨_, rfl⟩ := Prod.mk.inj returned
    exact ⟨_, .nothing ⟨rfl, rfl⟩ .nil⟩
  | cons req reqs ih =>
    obtain ⟨res, t, first, body⟩ := Exec.bind_ok returned
    obtain ⟨rest, _, others, last⟩ := Exec.bind_ok body
    obtain ⟨_, rfl⟩ := Prod.mk.inj last
    have step := chain_does (process_does first)
    obtain ⟨block, more⟩ := ih others
    rw [step.block] at more
    exact ⟨block, step.trans more⟩

/-- A chain and an explorer that answered the same requests: the rows for mints and transfers that the chain has executed in committed
blocks are among those that the explorer's database gained, in order, and so are its edges among those that the graph server was sent. -/
theorem explorer_covers [Memory] {δ : Type} {services : Services δ} (lawful : services.database.Lawful) {database : δ}
    (clear : (services.database.view database).opened = none) {storage : σ} {reqs : List Abci.Request}
    {responses responses' : List Abci.Response} {s : TendermintApplication σ} {e : Explorer σ δ}
    (chain : TendermintApplication.processAll (bandLogging σ) reqs { manager := { primary := some storage } } = (.ok responses, s))
    (explorer : Explorer.processAll services reqs { outside := { database } } = (.ok responses', e)) :
    (∃ gained, (services.database.view e.outside.database).rows = (services.database.view database).rows ++ gained ∧
        (durable false (statementsOf s.manager.notices)).Sublist gained) ∧
      ((s.manager.notices.flatMap CayleyListener.calls).map CayleyListener.text).Sublist e.outside.sent := by
  obtain ⟨_, among⟩ := chain_run chain
  obtain ⟨more, added, rows, edges⟩ := among.notices
  obtain rfl : s.manager.notices = more := added
  have tracked : ({ database } : Outside δ).Tracked services := by
    rw [Outside.Tracked, clear]
    rfl
  obtain ⟨done, rest, n, parts, _, ended, _, left⟩ := explorer_run lawful rfl tracked explorer
  obtain rfl := ended.mp rfl
  obtain rfl : reqs = done := parts.trans (List.append_nil _)
  rw [List.take_nil, List.append_nil] at left
  refine ⟨⟨_, left.rows.trans (Transaction.rows_of_clear clear _), rows.durable false⟩, ?_⟩
  rw [left.sent]
  exact edges.map _

omit [Storage σ] [Sha256] in
/-- Of a mint, a purchase, an edge and the edge once more, the chain refuses the last and the explorer leaves out the second. -/
theorem explorer_covers_mint :
    let _ := zeroSha256
    let _ := roomyMemory
    let deliver (nonce : UInt64) (msg : Msg) : Abci.Request :=
      .deliverTx (ListenerManager.writeTx ListenerManager.genesis.account default nonce msg)
    let band := ListenerManager.genesis.token
    let services : Services _ := ⟨Transaction.Table.database (fun _ _ => true) (fun _ _ => false), fun _ _ => .answered⟩
    let reqs : List Abci.Request := [.initChain [] [], .beginBlock 5 (List.replicate 20 0), deliver 1 (.mintToken ⟨band, 7⟩),
      deliver 2 (.buyToken ⟨band, 3⟩), deliver 3 (.addWikiEdge likes), deliver 3 (.addWikiEdge likes), .endBlock, .commit]
    let chain := TendermintApplication.processAll (bandLogging (StorageMap Layout.text)) reqs { manager := { primary := some {} } }
    let explorer := Explorer.processAll services reqs ({ outside := { database := {} } } : Explorer (StorageMap Layout.text) _)
    (durable false (statementsOf chain.2.manager.notices)).length = 1 ∧
      (chain.2.manager.notices.flatMap CayleyListener.calls).length = 1 ∧ explorer.2.outside.sent.length = 2 ∧
      (∃ gained, explorer.2.outside.database.rows = [] ++ gained ∧
        (durable false (statementsOf chain.2.manager.notices)).Sublist gained) ∧
      ((chain.2.manager.notices.flatMap CayleyListener.calls).map CayleyListener.text).Sublist explorer.2.outside.sent := by
  intro _ _ deliver band services reqs chain explorer
  have ok : chain.1.isOk = true := by decide +kernel
  have ok' : explorer.1.isOk = true := by decide +kernel
  have row : (durable false (statementsOf chain.2.manager.notices)).length = 1 := by decide +kernel
  have edges : (chain.2.manager.notices.flatMap CayleyListener.calls).length = 1 := by decide +kernel
  have sent : explorer.2.outside.sent.length = 2 := by decide +kernel
  refine ⟨row, edges, sent, ?_⟩
  obtain ⟨responses, s, returned⟩ := served_of_ok ok
  rcases returned' : explorer with ⟨_ | responses', e⟩
  · rw [returned'] at ok'
    cases ok'
  have ended : chain.2 = s := congrArg Prod.snd returned
  rw [ended]
  have lawful : services.database.Lawful := Transaction.Table.lawful (fun _ _ => true) (fun _ _ => false)
  exact explorer_covers lawful rfl returned returned'

end

end BandChain
