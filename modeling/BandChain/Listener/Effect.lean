import BandChain.Listener.Footprint
import BandChain.Listener.Manager

/-! What each call did to the overlay, by the ways it can end. -/

namespace BandChain

variable {K : Type} {L : Layout K}

namespace Overlay

def on (o : Overlay L) (mode : PrimaryMode) : Overlay L := { o with currentCache := some mode }

def dropped (o : Overlay L) : Overlay L := { o with pending := fun _ => none }

noncomputable def committed (o : Overlay L) : Overlay L := { checkCache := o.flushed, applyCache := o.flushed }

/-- A write waits for a flush only where a mode is selected. -/
def Selected (o : Overlay L) : Prop := (∃ c, o.pending c ≠ none) → o.currentCache ≠ none

@[simp] theorem on_currentCache (o : Overlay L) (mode : PrimaryMode) : (o.on mode).currentCache = some mode := rfl

@[simp] theorem on_checkCache (o : Overlay L) (mode : PrimaryMode) : (o.on mode).checkCache = o.checkCache := rfl

@[simp] theorem on_applyCache (o : Overlay L) (mode : PrimaryMode) : (o.on mode).applyCache = o.applyCache := rfl

@[simp] theorem on_pending (o : Overlay L) (mode : PrimaryMode) : (o.on mode).pending = o.pending := rfl

@[simp] theorem dropped_checkCache (o : Overlay L) : o.dropped.checkCache = o.checkCache := rfl

@[simp] theorem dropped_applyCache (o : Overlay L) : o.dropped.applyCache = o.applyCache := rfl

@[simp] theorem dropped_pending (o : Overlay L) (c : Cell) : o.dropped.pending c = none := rfl

@[simp] theorem committed_checkCache (o : Overlay L) : o.committed.checkCache = o.flushed := rfl

@[simp] theorem committed_applyCache (o : Overlay L) : o.committed.applyCache = o.flushed := rfl

@[simp] theorem committed_currentCache (o : Overlay L) : o.committed.currentCache = none := rfl

@[simp] theorem committed_pending (o : Overlay L) (c : Cell) : o.committed.pending c = none := rfl

end Overlay

variable [DecidableEq K] {o o' : Overlay L} {blk : BlockMsg} {hdr : HeaderMsg} {msg : Msg}

namespace PrimaryListener

/-! ### The primary listener -/

theorem begin_apply (blk : BlockMsg) (o : Overlay L) : begin blk o = (.ok (), o.dropped) := rfl

theorem commit_apply (blk : BlockMsg) (selected : o.Selected) : commit blk o = (.ok (), o.committed) :=
  Overlay.flush_apply selected

theorem validate_eq (mode : PrimaryMode) (hdr : HeaderMsg) (data : ByteString) (o : Overlay L) :
    validateTransaction mode hdr data o =
      (do Storage.load (.account hdr.user); Account.setNonce hdr.user hdr.nonce) (o.on mode) := by
  cases mode <;> rfl

theorem validate_ok {mode : PrimaryMode} {data : ByteString} (h : validateTransaction mode hdr data o = (.ok (), o')) :
    (o.on mode).hasContract (.account hdr.user) = .ok true ∧
      ∃ stored : UInt256, (o.on mode).value (.nonce hdr.user) = .ok stored ∧ stored.val < hdr.nonce.toNat ∧
        o' = (o.on mode).write (.nonce hdr.user) (UInt256.ofUInt64 hdr.nonce) := by
  rw [validate_eq] at h
  obtain ⟨_, _, loaded, h⟩ := Exec.bind_ok h
  obtain ⟨rfl, found⟩ := Overlay.load_ok loaded
  exact ⟨found, setNonce_ok h⟩

theorem validate_error {mode : PrimaryMode} {data : ByteString} {e : Stop}
    (h : validateTransaction mode hdr data o = (.error e, o')) : o' = o.on mode := by
  rw [validate_eq] at h
  rcases Exec.bind_error h with failed | ⟨_, _, loaded, h⟩
  · exact (Overlay.load_error failed).1.symm
  · obtain ⟨rfl, _⟩ := Overlay.load_ok loaded
    exact (setNonce_error h).1.symm

omit [DecidableEq K] in
theorem value_nonce_throws {mode : PrimaryMode} {a : Ident} {e : Stop} (current : o.currentCache = some mode)
    (h : o.value (.nonce a) = .error e) : e ≠ .crash := by
  rcases pending : o.pending (.nonce a) with _ | n
  · rw [Overlay.value_eq_decoded current pending fun _ => rfl] at h
    rcases stored : o.map mode (L.key (.data (.nonce a))) with _ | raw
    · rw [stored] at h
      cases h
    · rw [stored] at h
      exact @deserialize_uint256_throws raw e h
  · rw [Overlay.value_of_pending pending rfl] at h
    cases h

theorem validate_throws {mode : PrimaryMode} {data : ByteString} {e : Stop}
    (h : validateTransaction mode hdr data o = (.error e, o')) : e ≠ .crash := by
  rw [validate_eq] at h
  have current := Overlay.on_currentCache o mode
  by_cases found : (o.on mode).hasContract (.account hdr.user) = .ok true
  · rcases Exec.bind_error h with failed | ⟨_, _, loaded, h⟩
    · exact ((Overlay.load_error failed).2 found).elim
    · obtain ⟨rfl, _⟩ := Overlay.load_ok loaded
      rcases Exec.bind_error h with read | ⟨stored, _, read, h⟩
      · exact value_nonce_throws current (Prod.mk.inj read).1
      · obtain ⟨rfl, _⟩ := Overlay.read_ok read
        split at h
        · cases h; simp
        · rw [show Storage.assign _ _ (o.on mode) = _ from Overlay.assign_of_intact (c := .nonce hdr.user) rfl (o.on mode)] at h
          cases h
  · obtain ⟨e', loaded⟩ := Overlay.load_of_missing current found
    rw [show (do Storage.load (.account hdr.user); Account.setNonce hdr.user hdr.nonce : Exec Stop (Overlay L) Unit) (o.on mode) =
      (.error (.throw e'), o.on mode) from Exec.bind_of_error loaded] at h
    cases h
    simp

theorem handle_current (blk : BlockMsg) (hdr : HeaderMsg) (msg : Msg) (current : o.currentCache = some .apply) :
    (handle blk hdr msg o).2.currentCache = some .apply :=
  (keeps_handle (P := fun o : Overlay L => o.currentCache = some .apply) blk (fun _ _ _ _ _ => id)
    (fun o k _ selected _ => (Overlay.mark_currentCache o k).trans selected)).after current

theorem process_eq (blk : BlockMsg) (hdr : HeaderMsg) (msg : Msg) (o : Overlay L) :
    process blk hdr msg o = match handle blk hdr msg (o.on .apply) with
      | (.ok res, o₁) => (.ok res, o₁.committed)
      | (.error (.throw e), o₁) => (.error (.throw e), o₁.dropped)
      | (.error .crash, o₁) => (.error .crash, o₁) := by
  have current := handle_current blk hdr msg (Overlay.on_currentCache o .apply)
  unfold process scopeExit
  rw [Exec.bind_of_ok (show Storage.switchToApply o = (.ok (), o.on .apply) from rfl), Exec.bind_apply]
  rcases ran : handle blk hdr msg (o.on .apply) with ⟨(_ | _) | res, o₁⟩
  · rfl
  · rfl
  · rw [ran] at current
    have flushed : Storage.flush o₁ = (.ok (), o₁.committed) := Overlay.flush_apply fun _ => by rw [current]; simp
    simp only [Exec.bind_of_ok flushed, Exec.pure_apply]
    rfl

theorem process_ok {res : Response} (h : process blk hdr msg o = (.ok res, o')) :
    ∃ o₁, handle blk hdr msg (o.on .apply) = (.ok res, o₁) ∧ o₁.currentCache = some .apply ∧ o' = o₁.committed := by
  have current := handle_current blk hdr msg (Overlay.on_currentCache o .apply)
  rw [process_eq] at h
  rcases ran : handle blk hdr msg (o.on .apply) with ⟨(_ | _) | res', o₁⟩ <;> rw [ran] at h current
  · cases h
  · cases h
  · obtain ⟨same, rfl⟩ := Prod.mk.inj h
    exact ⟨o₁, by rw [Except.ok.inj same], current, rfl⟩

theorem process_throw {e : Exn} (h : process blk hdr msg o = (.error (.throw e), o')) :
    ∃ o₁, handle blk hdr msg (o.on .apply) = (.error (.throw e), o₁) ∧ o' = o₁.dropped := by
  rw [process_eq] at h
  rcases ran : handle blk hdr msg (o.on .apply) with ⟨(e' | _) | res', o₁⟩ <;> rw [ran] at h
  · obtain ⟨same, rfl⟩ := Prod.mk.inj h
    cases same
    exact ⟨o₁, rfl, rfl⟩
  · cases h
  · cases h

end PrimaryListener

/-! ### The manager -/

namespace ListenerManager

/-- The parts of a transaction that are read before the storage is asked. -/
def parseTx [Sha256] (raw : ByteString) : Except Stop (HeaderMsg × ByteString × MsgType × ByteString) :=
  match parseHeader raw with
  | .error e => .error e
  | .ok (hdr, data, buf) =>
    match consume (Serial.read (α := MsgType)) buf with
    | .error e => .error e
    | .ok (msgType, buf) => .ok (hdr, data, msgType, buf)

theorem consume_ok {α : Type} {read : Decoder α} {a : α} {buf rest : ByteString}
    (consumed : consume read buf = .ok (a, rest)) : read buf = (.ok a, rest) := by
  unfold consume at consumed
  split at consumed
  · rename_i ran
    obtain ⟨rfl, rfl⟩ := Prod.mk.inj (Except.ok.inj consumed)
    exact ran
  · cases consumed

theorem consume_write {α : Type} [Serial α] [LawfulSerial α] {val : α} (whole : intact val = true) (rest : ByteString) :
    consume Serial.read (Serial.write val ++ rest) = .ok (val, rest) := by
  rw [consume, LawfulSerial.read_write val rest whole]

theorem consume_throws {α : Type} {read : Decoder α} (throws : Exec.Stops (· ≠ .crash) read) {buf : ByteString} {e : Stop}
    (h : consume read buf = .error e) : e ≠ .crash := by
  unfold consume at h
  split at h
  · cases h
  · rename_i failed
    obtain rfl := Except.error.inj h
    exact throws.of_error trivial failed

theorem parseHeader_throws [Sha256] {raw : ByteString} {e : Stop} (h : parseHeader raw = .error e) : e ≠ .crash := by
  unfold parseHeader at h
  rcases user : consume (Serial.read (α := Ident)) raw with e | ⟨a, buf⟩ <;> rw [user] at h
  · cases h
    exact consume_throws Str.read_throws user
  rcases sig : consume (Serial.read (α := Signature)) buf with e | ⟨b, buf⟩ <;>
    simp only [bind, Except.bind, sig] at h
  · cases h
    exact consume_throws (readSpan_throws _) sig
  rcases nonce : consume (Serial.read (α := UInt64)) buf with e | ⟨c, buf⟩ <;> rw [nonce] at h
  · cases h
    exact consume_throws ((varintDecode_throws .uint64).bind fun _ => .pure _) nonce
  · cases h

theorem parseTx_write [Sha256] (user : Ident) (sig : Signature) (nonce : UInt64) (type : MsgType) (left : ByteString) :
    ∃ hash data, parseTx (Serial.write user ++ Serial.write sig ++ Serial.write nonce ++ (Serial.write type ++ left)) =
      .ok ({ user, sig, nonce, hash }, data, type, left) := by
  rw [List.append_assoc, List.append_assoc, parseTx, parseHeader]
  simp only [consume_write (rfl : intact user = true), consume_write (rfl : intact sig = true), consume_write (rfl : intact nonce = true),
    consume_write (rfl : intact type = true), bind, Except.bind, pure, Except.pure]
  exact ⟨_, _, rfl⟩

end ListenerManager

/-- The ways a call to a manager with a primary listener ends, by what happened to the storage. -/
inductive Effect [Sha256] (o : Overlay L) (block : BlockMsg) :
    Call → Except Stop ByteString → Overlay L → List Notice → BlockMsg → Prop where
  | genesis {raw o'} (ran : PrimaryListener.init ListenerManager.genesis o = (.ok (), o')) :
      Effect o block (.initChain raw) (.ok []) o' [.init ListenerManager.genesis] block
  | genesisRefused {raw e o'} (ran : PrimaryListener.init ListenerManager.genesis o = (.error e, o')) :
      Effect o block (.initChain raw) (.error e) o' [] block
  | begun {timestamp proposer} :
      Effect o block (.beginBlock timestamp proposer) (.ok []) o.dropped [.begin { timestamp, height := 0 + 1 }]
        { timestamp, height := 0 + 1 }
  | unchecked {raw e} (malformed : ListenerManager.parseHeader raw = .error e) :
      Effect o block (.checkTransaction raw) (.error e) o [] block
  | checked {raw outcome o' hdr data buf} (parsed : ListenerManager.parseHeader raw = .ok (hdr, data, buf))
      (ran : PrimaryListener.validateTransaction .check hdr data o = (outcome, o')) :
      Effect o block (.checkTransaction raw) (outcome.map fun _ => []) o' [] block
  | malformed {raw rawResult e} (malformed : ListenerManager.parseTx raw = .error e) :
      Effect o block (.applyTransaction raw rawResult) (.error e) o [] block
  | refused {raw rawResult e o' hdr data type buf} (parsed : ListenerManager.parseTx raw = .ok (hdr, data, type, buf))
      (ran : PrimaryListener.validateTransaction .apply hdr data o = (.error e, o')) :
      Effect o block (.applyTransaction raw rawResult) (.error e) o' [] block
  | undecoded {raw rawResult e o' hdr data type buf} (parsed : ListenerManager.parseTx raw = .ok (hdr, data, type, buf))
      (ran : PrimaryListener.validateTransaction .apply hdr data o = (.ok (), o'))
      (undecoded : ListenerManager.consume (Msg.read type) buf = .error e) :
      Effect o block (.applyTransaction raw rawResult) (.error e) o' [] block
  | failed {raw rawResult e o₁ o' hdr data type buf msg rest}
      (parsed : ListenerManager.parseTx raw = .ok (hdr, data, type, buf))
      (validated : PrimaryListener.validateTransaction .apply hdr data o = (.ok (), o₁))
      (decoded : ListenerManager.consume (Msg.read type) buf = .ok (msg, rest))
      (ran : PrimaryListener.process block hdr msg o₁ = (.error e, o')) :
      Effect o block (.applyTransaction raw rawResult) (.error e) o' [] block
  | applied {raw rawResult o₁ o' hdr data type buf msg rest res}
      (parsed : ListenerManager.parseTx raw = .ok (hdr, data, type, buf))
      (validated : PrimaryListener.validateTransaction .apply hdr data o = (.ok (), o₁))
      (decoded : ListenerManager.consume (Msg.read type) buf = .ok (msg, rest))
      (ran : PrimaryListener.process block hdr msg o₁ = (.ok res, o')) :
      Effect o block (.applyTransaction raw rawResult) (.ok res.write) o' [.handle block hdr msg res] block
  | committed {outcome o'} (ran : PrimaryListener.commit block o = (outcome, o')) :
      Effect o block .commitBlock (outcome.map fun _ => []) o' (if outcome = .ok () then [.commit block] else []) block

section

variable [Sha256] {m : ListenerManager (Overlay L)}

omit [DecidableEq K] [Sha256] in
theorem onPrimary_ran {α : Type} {call : Exec Stop (Overlay L) α} {outcome : Except Stop α} (otherwise : Except Stop α)
    (primary : m.primary = some o) (ran : call o = (outcome, o')) :
    ListenerManager.onPrimary call otherwise m = (outcome, { m with primary := some o' }) := by
  rw [ListenerManager.onPrimary, primary]
  simp only [ran]

omit [DecidableEq K] [Sha256] in
theorem answer {α : Type} {x r : Except Stop α} (h : x = r) (m : ListenerManager (Overlay L)) :
    Exec.ofExcept x m = (r, m) := by rw [h, Exec.ofExcept_apply]

omit [DecidableEq K] in
theorem parseTx_ok {raw data buf : ByteString} {hdr : HeaderMsg} {type : MsgType}
    (parsed : ListenerManager.parseTx raw = .ok (hdr, data, type, buf)) :
    ∃ buf', ListenerManager.parseHeader raw = .ok (hdr, data, buf') ∧
      ListenerManager.consume (Serial.read (α := MsgType)) buf' = .ok (type, buf) := by
  unfold ListenerManager.parseTx at parsed
  split at parsed
  · cases parsed
  · rename_i _ _ buf' header
    split at parsed
    · cases parsed
    · rename_i _ _ typed
      simp only [Except.ok.injEq, Prod.mk.injEq] at parsed
      obtain ⟨rfl, rfl, rfl, rfl⟩ := parsed
      exact ⟨buf', header, typed⟩

def ListenerManager.moved (m : ListenerManager (Overlay L)) (o' : Overlay L) (notices : List Notice) (block : BlockMsg) :
    ListenerManager (Overlay L) :=
  { primary := some o', notices := m.notices ++ notices, block }

omit [DecidableEq K] [Sha256] in
theorem moved_silent (m : ListenerManager (Overlay L)) (o' : Overlay L) :
    { m with primary := some o' } = m.moved o' [] m.block := by
  rw [ListenerManager.moved, List.append_nil]

omit [DecidableEq K] [Sha256] in
theorem moved_self (primary : m.primary = some o) : m = m.moved o [] m.block := by
  rw [ListenerManager.moved, List.append_nil, ← primary]

/-- A transaction up to the validation of its header. -/
theorem applyTransaction_validated {raw rawResult data buf : ByteString} {hdr : HeaderMsg} {type : MsgType}
    {outcome : Except Stop Unit} (primary : m.primary = some o)
    (parsed : ListenerManager.parseTx raw = .ok (hdr, data, type, buf))
    (ran : PrimaryListener.validateTransaction .apply hdr data o = (outcome, o')) :
    ListenerManager.applyTransaction raw rawResult m = match outcome with
      | .error e => (.error e, { m with primary := some o' })
      | .ok _ => (do
        let (msg, _) ← Exec.ofExcept (ListenerManager.consume (Msg.read type) buf)
        let block := (← Exec.get).block
        let res ← ListenerManager.onPrimary (PrimaryListener.process block hdr msg) (Response.read type rawResult).1
        ListenerManager.notify (.handle block hdr msg res)
        return res.write : Exec Stop (ListenerManager (Overlay L)) ByteString) { m with primary := some o' } := by
  obtain ⟨buf', header, typed⟩ := parseTx_ok parsed
  have validated := onPrimary_ran (.ok ()) primary ran
  cases outcome with
  | error e =>
    exact (Exec.bind_of_ok (answer header m)).trans ((Exec.bind_of_ok (answer typed m)).trans (Exec.bind_of_error validated))
  | ok _ =>
    exact (Exec.bind_of_ok (answer header m)).trans ((Exec.bind_of_ok (answer typed m)).trans (Exec.bind_of_ok validated))

theorem checkTransaction_start {raw : ByteString} (primary : m.primary = some o) :
    ListenerManager.checkTransaction raw m = (do
      let (hdr, data, _) ← Exec.ofExcept (ListenerManager.parseHeader raw)
      ListenerManager.onPrimary (PrimaryListener.validateTransaction .check hdr data) (.ok ())) m := by
  have present : m.primary.isNone = false := by rw [primary]; rfl
  unfold ListenerManager.checkTransaction
  rw [Exec.bind_of_ok (Exec.get_apply m), present]
  rfl

theorem Effect.exec {call : Call} {outcome : Except Stop ByteString} {notices : List Notice} {block : BlockMsg}
    (primary : m.primary = some o) (effect : Effect o m.block call outcome o' notices block) :
    call.exec m = (outcome, m.moved o' notices block) := by
  cases effect with
  | genesis ran => exact Exec.bind_of_ok (Exec.bind_of_ok (onPrimary_ran _ primary ran))
  | genesisRefused ran =>
    rw [← moved_silent]
    exact Exec.bind_of_error (Exec.bind_of_error (onPrimary_ran _ primary ran))
  | @begun timestamp proposer =>
    exact Exec.bind_of_ok (Exec.bind_of_ok (onPrimary_ran (m := { m with block := { timestamp, height := 0 + 1 } })
      _ primary (PrimaryListener.begin_apply { timestamp, height := 0 + 1 } o)))
  | unchecked malformed =>
    rw [← moved_self primary]
    exact Exec.bind_of_error ((checkTransaction_start primary).trans (Exec.bind_of_error (answer malformed m)))
  | @checked raw outcome o' hdr data buf parsed ran =>
    rw [← moved_silent]
    have checked := (checkTransaction_start primary).trans
      ((Exec.bind_of_ok (answer parsed m)).trans (onPrimary_ran _ primary ran))
    cases outcome with
    | error e => exact Exec.bind_of_error checked
    | ok _ => exact Exec.bind_of_ok checked
  | @malformed raw _ _ malformed =>
    rw [← moved_self primary]
    rcases header : ListenerManager.parseHeader raw with e | ⟨hdr, data, buf⟩ <;>
      rw [ListenerManager.parseTx, header] at malformed
    · cases malformed
      exact Exec.bind_of_error (answer header m)
    · rcases typed : ListenerManager.consume (Serial.read (α := MsgType)) buf with e | ⟨type, buf'⟩ <;>
        simp only [typed] at malformed
      · cases malformed
        exact (Exec.bind_of_ok (answer header m)).trans (Exec.bind_of_error (answer typed m))
      · cases malformed
  | refused parsed ran =>
    rw [← moved_silent]
    exact applyTransaction_validated primary parsed ran
  | undecoded parsed ran undecoded =>
    rw [← moved_silent]
    exact (applyTransaction_validated primary parsed ran).trans (Exec.bind_of_error (answer undecoded _))
  | @failed _ _ _ o₁ _ _ _ _ _ _ _ parsed validated decoded ran =>
    rw [← moved_silent]
    exact (applyTransaction_validated primary parsed validated).trans ((Exec.bind_of_ok (answer decoded _)).trans
      ((Exec.bind_of_ok (Exec.get_apply _)).trans (Exec.bind_of_error
        (onPrimary_ran (m := { m with primary := some o₁ }) _ rfl ran))))
  | @applied _ _ o₁ _ _ _ _ _ _ _ _ parsed validated decoded ran =>
    exact (applyTransaction_validated primary parsed validated).trans ((Exec.bind_of_ok (answer decoded _)).trans
      ((Exec.bind_of_ok (Exec.get_apply _)).trans (Exec.bind_of_ok
        (onPrimary_ran (m := { m with primary := some o₁ }) _ rfl ran))))
  | @committed outcome o' ran =>
    have flushed := onPrimary_ran (.ok ()) primary ran
    cases outcome with
    | error e =>
      rw [if_neg (by simp), ← moved_silent]
      exact Exec.bind_of_error ((Exec.bind_of_ok (Exec.get_apply m)).trans (Exec.bind_of_error flushed))
    | ok _ =>
      rw [if_pos rfl]
      exact Exec.bind_of_ok ((Exec.bind_of_ok (Exec.get_apply m)).trans (Exec.bind_of_ok flushed))

/-- A call that fails tells the listeners nothing. -/
theorem Effect.untold {call : Call} {outcome : Except Stop ByteString} {notices : List Notice}
    {block' : BlockMsg} {e : Stop} (effect : Effect o blk call outcome o' notices block') (failed : outcome = .error e) :
    notices = [] := by
  cases effect with
  | genesis _ | begun | applied _ _ _ _ => cases failed
  | genesisRefused _ | unchecked _ | checked _ _ | malformed _ | refused _ _ | undecoded _ _ _ | failed _ _ _ _ => rfl
  | @committed outcome _ ran =>
    cases outcome with
    | error e => exact if_neg (by simp)
    | ok _ => cases failed

theorem exists_effect (o : Overlay L) (block : BlockMsg) (call : Call) :
    ∃ outcome o' notices block', Effect o block call outcome o' notices block' := by
  cases call with
  | initChain raw =>
    rcases ran : PrimaryListener.init ListenerManager.genesis o with ⟨e | _, o'⟩
    · exact ⟨_, _, _, _, .genesisRefused ran⟩
    · exact ⟨_, _, _, _, .genesis ran⟩
  | beginBlock timestamp proposer => exact ⟨_, _, _, _, .begun⟩
  | checkTransaction raw =>
    rcases parsed : ListenerManager.parseHeader raw with e | ⟨hdr, data, buf⟩
    · exact ⟨_, _, _, _, .unchecked parsed⟩
    · exact ⟨_, _, _, _, .checked parsed rfl⟩
  | applyTransaction raw rawResult =>
    rcases parsed : ListenerManager.parseTx raw with e | ⟨hdr, data, type, buf⟩
    · exact ⟨_, _, _, _, .malformed parsed⟩
    rcases validated : PrimaryListener.validateTransaction .apply hdr data o with ⟨e | _, o₁⟩
    · exact ⟨_, _, _, _, .refused parsed validated⟩
    rcases decoded : ListenerManager.consume (Msg.read type) buf with e | ⟨msg, rest⟩
    · exact ⟨_, _, _, _, .undecoded parsed validated decoded⟩
    rcases ran : PrimaryListener.process block hdr msg o₁ with ⟨e | res, o₂⟩
    · exact ⟨_, _, _, _, .failed parsed validated decoded ran⟩
    · exact ⟨_, _, _, _, .applied parsed validated decoded ran⟩
  | commitBlock => exact ⟨_, _, _, _, .committed rfl⟩

end

end BandChain
