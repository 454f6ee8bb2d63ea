import BandChain.Listener.Run

/-!
Signatures make no difference to a node: `Account::verifySignature` is never called. Transactions that differ only in the signature are
answered alike, and do the same.
-/

namespace BandChain

open Exec (Lockstep)

/-- The same sender, and the same bytes after the signature. -/
def Resigned (raw raw' : ByteString) : Prop := ∃ (user : Ident) (sig sig' : Signature) (rest : ByteString),
  ListenerManager.consume Serial.read raw = .ok (user, sig.rawdata ++ rest) ∧
    ListenerManager.consume Serial.read raw' = .ok (user, sig'.rawdata ++ rest)

inductive Call.Resigned : Call → Call → Prop where
  | same (call : Call) : Resigned call call
  | check {raw raw' : ByteString} (resigned : BandChain.Resigned raw raw') : Resigned (.checkTransaction raw) (.checkTransaction raw')
  | apply {raw raw' : ByteString} (resigned : BandChain.Resigned raw raw') (rawResult : ByteString) :
      Resigned (.applyTransaction raw rawResult) (.applyTransaction raw' rawResult)

/-- Two headers that a listener can tell apart only by the signature and the hash. -/
structure HeaderMsg.Resigned (hdr hdr' : HeaderMsg) : Prop where
  user : hdr.user = hdr'.user
  nonce : hdr.nonce = hdr'.nonce

inductive Notice.Resigned : Notice → Notice → Prop where
  | same (notice : Notice) : Resigned notice notice
  | handle (blk : BlockMsg) {hdr hdr' : HeaderMsg} (resigned : hdr.Resigned hdr') (msg : Msg) (res : Response) :
      Resigned (.handle blk hdr msg res) (.handle blk hdr' msg res)

/-- Both parse, to headers that differ in the signature and the hash only, or neither does. -/
inductive Raw.Alike [Sha256] (raw raw' : ByteString) : Prop where
  | broken {e : Stop} (failed : ListenerManager.parseHeader raw = .error e) (failed' : ListenerManager.parseHeader raw' = .error e)
  | sound {hdr hdr' : HeaderMsg} {data data' buf : ByteString} (parsed : ListenerManager.parseHeader raw = .ok (hdr, data, buf))
      (parsed' : ListenerManager.parseHeader raw' = .ok (hdr', data', buf)) (resigned : hdr.Resigned hdr')

theorem alike_refl [Sha256] (raw : ByteString) : Raw.Alike raw raw := by
  rcases parsed : ListenerManager.parseHeader raw with e | ⟨hdr, data, buf⟩
  · exact .broken parsed parsed
  · exact .sound parsed parsed ⟨rfl, rfl⟩

theorem alike_of_resigned [Sha256] {raw raw' : ByteString} (resigned : Resigned raw raw') : Raw.Alike raw raw' := by
  obtain ⟨user, sig, sig', rest, named, named'⟩ := resigned
  have signed (sig : Signature) : ListenerManager.consume Serial.read (sig.rawdata ++ rest) = .ok (sig, rest) :=
    ListenerManager.consume_write rfl rest
  rcases nonced : ListenerManager.consume (Serial.read (α := UInt64)) rest with e | ⟨nonce, buf⟩
  · have fails {raw : ByteString} {sig : Signature} (named : ListenerManager.consume Serial.read raw = .ok (user, sig.rawdata ++ rest)) :
        ListenerManager.parseHeader raw = .error e := by
      simp only [ListenerManager.parseHeader, named, signed, nonced, bind, Except.bind]
    exact .broken (fails named) (fails named')
  · have parses {raw : ByteString} {sig : Signature} (named : ListenerManager.consume Serial.read raw = .ok (user, sig.rawdata ++ rest)) :
        ∃ hdr data, ListenerManager.parseHeader raw = .ok (hdr, data, buf) ∧ hdr.user = user ∧ hdr.nonce = nonce := by
      refine ⟨{ user, sig, nonce, hash := sha256 raw }, raw.drop (raw.length - rest.length), ?_, rfl, rfl⟩
      simp only [ListenerManager.parseHeader, named, signed, nonced, bind, Except.bind]
      rfl
    obtain ⟨hdr, data, parsed, user_eq, nonce_eq⟩ := parses named
    obtain ⟨hdr', data', parsed', user_eq', nonce_eq'⟩ := parses named'
    exact .sound parsed parsed' ⟨user_eq.trans user_eq'.symm, nonce_eq.trans nonce_eq'.symm⟩

variable {σ : Type} [Storage σ] {hdr hdr' : HeaderMsg}

theorem validate_resigned (resigned : hdr.Resigned hdr') (mode : PrimaryMode) (data data' : ByteString) :
    PrimaryListener.validateTransaction (σ := σ) mode hdr data = PrimaryListener.validateTransaction mode hdr' data' := by
  cases mode <;> simp only [PrimaryListener.validateTransaction, resigned.user, resigned.nonce]

theorem process_resigned (resigned : hdr.Resigned hdr') (blk : BlockMsg) (msg : Msg) :
    PrimaryListener.process (σ := σ) blk hdr msg = PrimaryListener.process blk hdr' msg := by
  have handled : PrimaryListener.handle (σ := σ) blk hdr msg = PrimaryListener.handle blk hdr' msg := by
    cases msg <;> simp only [PrimaryListener.handle, resigned.user]
  rw [PrimaryListener.process, PrimaryListener.process, handled]

/-- Managers that were told the same, signatures apart. -/
structure Resembles (m m' : ListenerManager σ) : Prop where
  primary : m.primary = m'.primary
  block : m.block = m'.block
  notices : List.Forall₂ Notice.Resigned m.notices m'.notices

section

variable {α : Type}

omit [Storage σ] in
theorem resembles_onPrimary (call : Exec Stop σ α) (otherwise : Except Stop α) :
    Lockstep Resembles (ListenerManager.onPrimary call otherwise) (ListenerManager.onPrimary call otherwise) := by
  intro m m' resembles
  have same := resembles.primary
  rcases primary : m.primary with _ | s <;> rw [primary] at same
  · rw [ListenerManager.onPrimary, ListenerManager.onPrimary, primary, ← same]
    cases otherwise with
    | error e => exact .error resembles
    | ok a => exact .ok resembles
  · rw [ListenerManager.onPrimary, ListenerManager.onPrimary, primary, ← same]
    rcases ran : call s with ⟨e | a, s'⟩
    · simp only [ran]
      exact .error ⟨rfl, resembles.block, resembles.notices⟩
    · simp only [ran]
      exact .ok ⟨rfl, resembles.block, resembles.notices⟩

omit [Storage σ] in
theorem resembles_notify {notice notice' : Notice} (resigned : notice.Resigned notice') :
    Lockstep (Resembles (σ := σ)) (ListenerManager.notify notice) (ListenerManager.notify notice') :=
  fun _ _ resembles => .ok ⟨resembles.primary, resembles.block, List.rel_append resembles.notices (.cons resigned .nil)⟩

omit [Storage σ] in
theorem resembles_get {f g : ListenerManager σ → Exec Stop (ListenerManager σ) α} (rest : ∀ m m', Resembles m m' → Lockstep Resembles (f m) (g m')) :
    Lockstep Resembles (Exec.get >>= f) (Exec.get >>= g) := fun m m' resembles => rest m m' resembles m m' resembles

end

variable [Sha256]

omit [Storage σ] in
theorem resembles_parse {α : Type} {raw raw' : ByteString} (alike : Raw.Alike raw raw')
    {f : HeaderMsg × ByteString × ByteString → Exec Stop (ListenerManager σ) α}
    (rest : ∀ (hdr hdr' : HeaderMsg) (data data' buf : ByteString), hdr.Resigned hdr' →
      Lockstep Resembles (f (hdr, data, buf)) (f (hdr', data', buf))) :
    Lockstep Resembles (Exec.ofExcept (ListenerManager.parseHeader raw) >>= f) (Exec.ofExcept (ListenerManager.parseHeader raw') >>= f) := by
  cases alike with
  | broken failed failed' =>
    rw [failed, failed']
    exact fun _ _ resembles => .error resembles
  | sound parsed parsed' resigned =>
    rw [parsed, parsed']
    exact rest _ _ _ _ _ resigned

theorem resembles_check {raw raw' : ByteString} (alike : Raw.Alike raw raw') :
    Lockstep (Resembles (σ := σ)) (ListenerManager.checkTransaction raw) (ListenerManager.checkTransaction raw') := by
  apply resembles_get
  intro m m' resembles
  rw [resembles.primary]
  by_cases none : m'.primary.isNone = true
  · simp only [if_pos none]
    exact fun _ _ resembles => .error resembles
  · simp only [if_neg none]
    apply resembles_parse alike
    intro hdr hdr' data data' _ resigned
    change Lockstep _ (ListenerManager.onPrimary (PrimaryListener.validateTransaction .check hdr data) _) _
    rw [validate_resigned resigned .check data data']
    exact resembles_onPrimary _ _

theorem resembles_apply {raw raw' : ByteString} (alike : Raw.Alike raw raw') (rawResult : ByteString) :
    Lockstep (Resembles (σ := σ)) (ListenerManager.applyTransaction raw rawResult) (ListenerManager.applyTransaction raw' rawResult) := by
  apply resembles_parse alike
  intro hdr hdr' data data' _ resigned
  apply Lockstep.bind (.ofExcept _)
  intro (msgType, buf)
  apply Lockstep.bind
  · rw [validate_resigned resigned .apply data data']
    exact resembles_onPrimary _ _
  intro _
  apply Lockstep.bind (.ofExcept _)
  intro (msg, _)
  apply resembles_get
  intro m m' resembles
  apply Lockstep.bind
  · rw [process_resigned resigned, resembles.block]
    exact resembles_onPrimary _ _
  intro res
  have told : Notice.Resigned (.handle m.block hdr msg res) (.handle m'.block hdr' msg res) := by
    rw [resembles.block]
    exact .handle _ resigned _ _
  exact Lockstep.bind (resembles_notify told) fun _ => Lockstep.pure _

theorem resembles_call {call call' : Call} (resigned : call.Resigned call') :
    Lockstep (Resembles (σ := σ)) call.exec call'.exec := by
  cases resigned with
  | check resigned => exact (resembles_check (alike_of_resigned resigned)).bind fun _ => Lockstep.pure _
  | apply resigned rawResult => exact resembles_apply (alike_of_resigned resigned) rawResult
  | same =>
    cases call with
    | initChain raw =>
      exact Lockstep.bind (Lockstep.bind (resembles_onPrimary _ _) fun _ => resembles_notify (.same _)) fun _ => Lockstep.pure _
    | beginBlock timestamp proposer =>
      have told : Lockstep (Resembles (σ := σ)) (ListenerManager.beginBlock timestamp proposer)
          (ListenerManager.beginBlock timestamp proposer) := by
        refine Lockstep.bind (fun _ _ resembles => .ok ⟨resembles.primary, rfl, resembles.notices⟩) fun _ => ?_
        exact Lockstep.bind (resembles_onPrimary _ _) fun _ => resembles_notify (.same _)
      exact told.bind fun _ => Lockstep.pure _
    | checkTransaction raw => exact (resembles_check (alike_refl raw)).bind fun _ => Lockstep.pure _
    | applyTransaction raw rawResult => exact resembles_apply (alike_refl raw) rawResult
    | commitBlock =>
      have told : Lockstep (Resembles (σ := σ)) ListenerManager.commitBlock ListenerManager.commitBlock := by
        refine resembles_get fun m m' resembles => ?_
        rw [resembles.block]
        exact Lockstep.bind (resembles_onPrimary _ _) fun _ => resembles_notify (.same _)
      exact told.bind fun _ => Lockstep.pure _

/-- Two nodes that were told the same, signatures apart. -/
structure Node.Resembles (n n' : Node σ) : Prop where
  down : n.down = n'.down
  outcomes : n.history.map Record.outcome = n'.history.map Record.outcome
  manager : BandChain.Resembles n.manager n'.manager

theorem Node.Resembles.step {n n' : Node σ} (resembles : n.Resembles n') {call call' : Call} (resigned : call.Resigned call') :
    (n.step call).Resembles (n'.step call') := by
  by_cases down : n.down = true
  · rw [Node.step, if_pos down, Node.step, if_pos (resembles.down.symm.trans down)]
    exact resembles
  · have up : n.down = false := by simpa using down
    obtain ⟨answers, after⟩ := (resembles_call resigned n.manager n'.manager resembles.manager).alike
    rw [Node.step_up up, Node.step_up (resembles.down.symm.trans up)]
    refine ⟨congrArg crashed answers, ?_, after⟩
    rw [List.map_append, List.map_append, resembles.outcomes]
    exact congrArg (fun answer => _ ++ [answer]) answers

theorem Node.Resembles.run {calls calls' : List Call} (resigned : List.Forall₂ Call.Resigned calls calls') {n n' : Node σ}
    (resembles : n.Resembles n') : (n.run calls).Resembles (n'.run calls') := by
  induction resigned generalizing n n' with
  | nil => exact resembles
  | cons resigned _ ih => exact ih (resembles.step resigned)

/-- Runs over the same storage that differ in the signatures of their transactions only: every call is answered alike, the storage ends
up the same, and so does what the listeners are told, the signatures and the hashes apart. -/
theorem signatures_immaterial {calls calls' : List Call} (resigned : List.Forall₂ Call.Resigned calls calls') (storage : σ) :
    ((Node.start storage).run calls).history.map Record.outcome = ((Node.start storage).run calls').history.map Record.outcome ∧
      ((Node.start storage).run calls).manager.primary = ((Node.start storage).run calls').manager.primary ∧
      List.Forall₂ Notice.Resigned ((Node.start storage).run calls).manager.notices ((Node.start storage).run calls').manager.notices := by
  have start : (Node.start storage).Resembles (Node.start storage) := ⟨rfl, rfl, rfl, rfl, .nil⟩
  have resembles := start.run resigned
  exact ⟨resembles.outcomes, resembles.manager.primary, resembles.manager.notices⟩

omit [Sha256] in
theorem resigned_writeTx (user : Ident) (sig sig' : Signature) (nonce : UInt64) (msg : Msg) :
    Resigned (ListenerManager.writeTx user sig nonce msg) (ListenerManager.writeTx user sig' nonce msg) := by
  have named (sig : Signature) : ListenerManager.consume Serial.read (ListenerManager.writeTx user sig nonce msg) =
      .ok (user, sig.rawdata ++ (Serial.write nonce ++ (Serial.write msg.type ++ msg.write))) := by
    rw [ListenerManager.writeTx]
    simp only [List.append_assoc]
    exact ListenerManager.consume_write rfl _
  exact ⟨user, sig, sig', _, named sig, named sig'⟩

omit [Sha256] in
/-- BandGod mints with a signature of zeros, and with one of ones. -/
theorem signatures_immaterial_forged :
    let _ := zeroSha256
    let forged : Signature := ⟨List.replicate 64 1, by decide⟩
    let calls (sig : Signature) : List Call := [.initChain [], .applyTransaction (ListenerManager.writeTx ListenerManager.genesis.account
      sig 1 (.mintToken ⟨ListenerManager.genesis.token, 7⟩)) []]
    List.Forall₂ Call.Resigned (calls default) (calls forged) ∧
      ((Node.start ({} : StorageMap Layout.text)).run (calls default)).manager.primary =
        ((Node.start ({} : StorageMap Layout.text)).run (calls forged)).manager.primary := by
  intro _ forged calls
  have resigned : List.Forall₂ Call.Resigned (calls default) (calls forged) :=
    .cons (.same _) (.cons (.apply (resigned_writeTx _ _ _ _ _) _) .nil)
  refine ⟨resigned, ?_⟩
  generalize calls default = honest, calls forged = changed at resigned
  exact (signatures_immaterial resigned ({} : StorageMap Layout.text)).2.1

end BandChain
