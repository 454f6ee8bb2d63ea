import BandChain.Net.Civil

/-! When `do_check_tx` and `do_deliver_tx` return a response. -/

namespace BandChain

open Exec (Fails)

variable {K : Type} {L : Layout K} [Memory]

/-- The header names an account and a nonce above the account's own, which may wait in the cache. -/
def Admits (L : Layout K) (pending : (c : Cell) → Option c.Val) (applied : K → Option ByteString) (hdr : HeaderMsg) : Prop :=
  applied (L.key (.contract (.account hdr.user))) = some (ContractKey.account hdr.user).prefixedKey ∧
    ∃ stored : UInt256,
      (match pending (.nonce hdr.user) with
        | some nonce => Except.ok nonce
        | none => decoded (applied (L.key (.data (.nonce hdr.user))))) = .ok stored ∧ stored.val < hdr.nonce.toNat

/-- `applyTransaction` gets as far as a string of the body that is oversized, or a trade in a token without a curve. -/
def Lethal [Sha256] (L : Layout K) (pending : (c : Cell) → Option c.Val) (applied : K → Option ByteString) (tx : ByteString) : Prop :=
  ∃ hdr data type body, ListenerManager.parseTx tx = .ok (hdr, data, type, body) ∧ Admits L pending applied hdr ∧
    (type.Oversized body ∨ ∃ msg rest, Msg.read type body = (.ok msg, rest) ∧ msg.Bare L applied)

theorem fatal_map {α β : Type} {x : Except Stop α} {f : α → β} : Fatal (x.map f) ↔ Fatal x := by
  cases x with
  | error e => exact fatal_error.trans fatal_error.symm
  | ok a => exact iff_of_false not_fatal_ok not_fatal_ok

theorem fatal_return {σ α β : Type} {x : Exec Stop σ α} {f : α → β} {s : σ} : Fatal ((do return f (← x)) s).1 ↔ Fatal (x s).1 := by
  rw [Exec.bind_apply]
  rcases x s with ⟨e | a, t⟩
  · exact fatal_error.trans fatal_error.symm
  · exact iff_of_false not_fatal_ok not_fatal_ok

theorem answering_ok {σ : Type} (call : Exec Stop (ListenerManager σ) ResponseTx) (m : ListenerManager σ) :
    (∃ res, (TmApp.answering call m).1 = .ok res) ↔ ¬ Fatal (call m).1 := by
  unfold TmApp.answering
  rcases call m with ⟨(e | _) | res, m'⟩
  · cases caught : e.caught with
    | none =>
      simp only [caught]
      exact iff_of_false (fun ⟨_, wrong⟩ => by cases wrong) (not_not_intro ⟨_, rfl, caught⟩)
    | some info =>
      simp only [caught]
      refine iff_of_true ⟨_, rfl⟩ ?_
      rintro ⟨_, same, uncaught⟩
      cases same
      cases caught.symm.trans uncaught
  · exact iff_of_false (fun ⟨_, wrong⟩ => by cases wrong) (not_not_intro ⟨.crash, rfl, trivial⟩)
  · exact iff_of_true ⟨res, rfl⟩ not_fatal_ok

variable [DecidableEq K] {o : Overlay L}

omit [Memory] in
theorem validate_iff {hdr : HeaderMsg} (data : ByteString) :
    (∃ o', PrimaryListener.validateTransaction .apply hdr data o = (.ok (), o')) ↔ Admits L o.pending o.applyCache hdr := by
  have current := Overlay.on_currentCache o .apply
  have value : (o.on .apply).value (.nonce hdr.user) = match o.pending (.nonce hdr.user) with
      | some nonce => Except.ok nonce
      | none => decoded (o.applyCache (L.key (.data (.nonce hdr.user)))) := by
    cases pending : o.pending (.nonce hdr.user) with
    | none => exact Overlay.value_eq_decoded (c := .nonce hdr.user) current pending fun _ => rfl
    | some nonce => exact Overlay.value_of_pending (c := .nonce hdr.user) (o := o.on .apply) pending rfl
  constructor
  · rintro ⟨o', ran⟩
    obtain ⟨found, stored, read, larger, _⟩ := PrimaryListener.validate_ok ran
    exact ⟨(Overlay.hasContract_true current).mp found, stored, value.symm.trans read, larger⟩
  · rintro ⟨found, stored, read, larger⟩
    have loaded := Overlay.load_of_found ((Overlay.hasContract_true current).mpr found)
    have read' : Storage.read (.nonce hdr.user) (o.on .apply) = (.ok stored, o.on .apply) := Prod.ext (value.trans read) rfl
    refine ⟨(o.on .apply).write (.nonce hdr.user) (UInt256.ofUInt64 hdr.nonce), ?_⟩
    rw [PrimaryListener.validate_eq]
    refine (Exec.bind_of_ok loaded).trans ((Exec.bind_of_ok read').trans ?_)
    refine (congrFun (if_neg (Nat.not_le.mpr larger)) _).trans ?_
    exact Overlay.assign_of_intact (c := .nonce hdr.user) rfl _

section

variable [Sha256] {tx : ByteString} {outcome : Except Stop ByteString} {o' : Overlay L} {notices : List Notice}
  {blk block : BlockMsg}

theorem fatal_check (effect : Effect o blk (.checkTransaction tx) outcome o' notices block) : Fatal outcome ↔ Oversized tx := by
  rw [← fatal_parseHeader]
  cases effect with
  | unchecked malformed =>
    rw [malformed]
    exact fatal_error.trans fatal_error.symm
  | @checked _ _ _ hdr data _ parsed ran =>
    have refused := fatal_validate .check hdr data o
    rw [ran] at refused
    rw [parsed, fatal_map]
    exact iff_of_false refused not_fatal_ok

theorem fatal_apply {rawResult : ByteString} (steady : o.Steady) (typed : o.Typed)
    (effect : Effect o blk (.applyTransaction tx rawResult) outcome o' notices block) :
    Fatal outcome ↔ Oversized tx ∨ Lethal L o.pending o.applyCache tx := by
  rw [← fatal_parseTx]
  -- Where the bytes parse, what follows depends on their parts.
  have reached {hdr : HeaderMsg} {data body : ByteString} {type : MsgType}
      (parsed : ListenerManager.parseTx tx = .ok (hdr, data, type, body)) :
      (Fatal (ListenerManager.parseTx tx) ∨ Lethal L o.pending o.applyCache tx) ↔ Admits L o.pending o.applyCache hdr ∧
        (type.Oversized body ∨ ∃ msg rest, Msg.read type body = (.ok msg, rest) ∧ msg.Bare L o.applyCache) := by
    rw [or_iff_right (by rw [parsed]; exact not_fatal_ok)]
    constructor
    · rintro ⟨_, _, _, _, again, reached⟩
      cases parsed.symm.trans again
      exact reached
    · exact fun reached => ⟨hdr, data, type, body, parsed, reached⟩
  have processed {hdr : HeaderMsg} {data body rest : ByteString} {type : MsgType} {msg : Msg} {o₁ : Overlay L}
      (parsed : ListenerManager.parseTx tx = .ok (hdr, data, type, body))
      (validated : PrimaryListener.validateTransaction .apply hdr data o = (.ok (), o₁))
      (decoded : ListenerManager.consume (Msg.read type) body = .ok (msg, rest)) :
      Fatal (PrimaryListener.process blk hdr msg o₁).1 ↔ Fatal (ListenerManager.parseTx tx) ∨ Lethal L o.pending o.applyCache tx := by
    have read := ListenerManager.consume_ok decoded
    have sized : ¬ type.Oversized body := fun oversized => by
      obtain ⟨_, _, failed, _⟩ := (msg_fails _ _).mpr oversized
      cases read.symm.trans failed
    have same : o₁.applyCache = o.applyCache := by
      obtain ⟨_, _, _, _, rfl⟩ := PrimaryListener.validate_ok validated
      rfl
    rw [reached parsed, and_iff_right ((validate_iff _).mp ⟨_, validated⟩), or_iff_right sized,
      fatal_process blk hdr (Msg.intact_of_read read) (steady_validate steady validated).1.nonceOnly (typed_validate typed validated), same]
    constructor
    · exact fun bare => ⟨msg, rest, read, bare⟩
    · rintro ⟨_, _, again, bare⟩
      cases read.symm.trans again
      exact bare
  cases effect with
  | malformed malformed =>
    rw [malformed, or_iff_left]
    · exact fatal_error.trans fatal_error.symm
    · rintro ⟨_, _, _, _, parsed, _⟩
      cases malformed.symm.trans parsed
  | @refused _ _ _ _ hdr data _ _ parsed ran =>
    have refused := fatal_validate .apply hdr data o
    rw [ran] at refused
    rw [reached parsed, ← validate_iff data, ran]
    refine iff_of_false (fun failed => refused (fatal_error.mpr (fatal_error.mp failed))) ?_
    rintro ⟨⟨_, wrong⟩, _⟩
    cases wrong
  | @undecoded _ _ _ _ hdr data type buf parsed ran undecoded =>
    have unread : ¬ ∃ msg rest, Msg.read type buf = (.ok msg, rest) ∧ msg.Bare L o.applyCache := by
      rintro ⟨msg, rest, read, _⟩
      unfold ListenerManager.consume at undecoded
      rw [read] at undecoded
      cases undecoded
    have oversized := fatal_consume.trans (msg_fails type buf)
    rw [undecoded] at oversized
    rw [reached parsed, and_iff_right ((validate_iff data).mp ⟨_, ran⟩), or_iff_left unread, ← oversized]
    exact fatal_error.trans fatal_error.symm
  | failed parsed validated decoded ran =>
    rw [← processed parsed validated decoded, ran]
    exact fatal_error.trans fatal_error.symm
  | applied parsed validated decoded ran =>
    rw [← processed parsed validated decoded, ran]
    exact iff_of_false not_fatal_ok not_fatal_ok

end

/-- In every state that a run reaches, the node answers the transactions whose strings it can hold, except that
`do_deliver_tx` does not survive a trade in a token without a curve. -/
theorem answers_iff [Sha256] {calls : List Call} (up : ((Node.start ({} : StorageMap L)).run calls).down = false) {s : StorageMap L}
    (primary : ((Node.start ({} : StorageMap L)).run calls).manager.primary = some s) (tx : ByteString) :
    ((∃ res, (TmApp.doCheckTx tx ((Node.start ({} : StorageMap L)).run calls).manager).1 = .ok res) ↔ ¬ Oversized tx) ∧
      ((∃ res, (TmApp.doDeliverTx tx ((Node.start ({} : StorageMap L)).run calls).manager).1 = .ok res) ↔
        ¬ Oversized tx ∧ ¬ Lethal L s.pending s.applyCache tx) := by
  have twin := (twin_start (L := L)).run calls
  obtain ⟨o, held, steady, typed⟩ := (orderly_start (L := L)).run calls (twin.down.symm.trans up)
  obtain ⟨s', stored, related⟩ := twin.storage up held
  obtain rfl := Option.some.inj (primary.symm.trans stored)
  have overlay : s.overlay = o := related.1.toLinked.overlay
  have effect (call : Call) : ∃ o' notices block, Effect o ((Node.start ({} : Overlay L)).run calls).manager.block call
      (call.exec ((Node.start ({} : StorageMap L)).run calls).manager).1 o' notices block := by
    obtain ⟨result, o', notices, block, effect⟩ := exists_effect o ((Node.start ({} : Overlay L)).run calls).manager.block call
    have same : (call.exec ((Node.start ({} : StorageMap L)).run calls).manager).1 = _ := (twin.sameRecord up call).outcome
    rw [effect.exec held] at same
    exact ⟨o', notices, block, same ▸ effect⟩
  constructor
  · obtain ⟨_, _, _, checked⟩ := effect (.checkTransaction tx)
    rw [TmApp.doCheckTx, answering_ok, ← fatal_check checked]
    exact not_congr (fatal_return.trans fatal_return.symm)
  · obtain ⟨_, _, _, applied⟩ := effect (.applyTransaction tx [])
    have lethal := fatal_apply steady typed applied
    rw [← overlay] at lethal
    rw [TmApp.doDeliverTx, answering_ok, ← not_or]
    exact not_congr (fatal_return.trans lethal)

omit [Memory]

/-- A transaction that starts with a string of `2 ^ 64 - 1` characters. -/
def hugeUser : ByteString := varintEncode (2 ^ 64 - 1)

theorem answers_iff_hugeUser :
    let _ := zeroSha256
    let _ := roomyMemory
    ((∃ res, (TmApp.doCheckTx hugeUser (textNode [.initChain []]).manager).1 = .ok res) ↔ ¬ Oversized hugeUser) ∧
      ((∃ res, (TmApp.doDeliverTx hugeUser (textNode [.initChain []]).manager).1 = .ok res) ↔
        ¬ Oversized hugeUser ∧ ¬ Lethal Layout.text (textStorage [.initChain []]).pending (textStorage [.initChain []]).applyCache hugeUser) :=
  let _ := zeroSha256
  let _ := roomyMemory
  have up : (textNode [.initChain []]).down = false := by decide +kernel
  answers_iff (L := Layout.text) up (textNode_primary up) hugeUser

/-- No machine has a string of that length: `std::string::resize` throws a `length_error`, which nobody catches. -/
theorem huge_user_unanswered :
    ¬ ∃ memory : Memory, ∀ tx,
      ∃ res, (@TmApp.doDeliverTx (StorageMap Layout.text) _ zeroSha256 memory tx (textNode [.initChain []]).manager).1 = .ok res := by
  let _ := zeroSha256
  rintro ⟨memory, all⟩
  have thrown : (ListenerManager.applyTransaction hugeUser [] (textNode [.initChain []]).manager).1 =
      .error (.throw (.resize (2 ^ 64 - 1))) := by
    decide +kernel
  have uncaught : (Stop.throw (.resize (2 ^ 64 - 1))).Uncaught := if_neg (Nat.not_le.mpr memory.below_npos)
  exact (answering_ok _ _).mp (all hugeUser) (fatal_return.mpr ⟨_, thrown, uncaught⟩)

end BandChain
