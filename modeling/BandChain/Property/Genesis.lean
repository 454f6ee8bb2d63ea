import BandChain.Listener.Genesis

/-! The first genesis is accepted and no later one, and no transaction is accepted before it. -/

namespace BandChain

variable {K : Type} [DecidableEq K] {L : Layout K} [Sha256]

def Call.isTransaction : Call → Bool
  | .checkTransaction _ | .applyTransaction _ _ => true
  | .initChain _ | .beginBlock _ _ | .commitBlock => false

omit [DecidableEq K] in
theorem parseTx_throws {raw : ByteString} {e : Stop} (h : ListenerManager.parseTx raw = .error e) : e ≠ .crash := by
  have type_throws : Exec.Stops (· ≠ .crash) (Serial.read (α := MsgType)) :=
    (varintDecode_throws .uint16).bind fun n => .ofExcept fun e failed => by
      unfold MsgType.fromIntegral at failed
      split at failed
      all_goals cases failed
      simp
  unfold ListenerManager.parseTx at h
  split at h
  · rename_i header
    cases h
    exact ListenerManager.parseHeader_throws header
  · split at h
    · rename_i typed
      cases h
      exact ListenerManager.consume_throws type_throws typed
    · cases h

section

variable {calls : List Call} {s : StorageMap L} {o : Overlay L}

theorem LiveAt.storage_eq (live : LiveAt calls s o) : s.overlay = o := live.related.1.toLinked.overlay

/-- Genesis ends by whether it was called before, and changes nothing when it is refused. -/
theorem LiveAt.genesis (live : LiveAt calls s o) (raw : ByteString) :
    ((∀ call ∈ calls, call.isGenesis = false) →
      ((Call.initChain raw).exec ((Node.start ({} : StorageMap L)).run calls).manager).1 = .ok []) ∧
    ((∃ call ∈ calls, call.isGenesis = true) →
      ((Call.initChain raw).exec ((Node.start ({} : StorageMap L)).run calls).manager).1 =
        .error (.throw (.error (.contractExists (ContractKey.account ListenerManager.genesis.account).prefixedKey))) ∧
      ∃ s', ((Call.initChain raw).exec ((Node.start ({} : StorageMap L)).run calls).manager).2.primary = some s' ∧
        s'.overlay = s.overlay.on .apply) := by
  obtain ⟨outcome, o', notices, block, effect, ended, after⟩ := live.effect (.initChain raw)
  constructor
  · intro never
    rcases init_cases live.steady with ⟨founded, _⟩ | ⟨_, _, seeded⟩
    · obtain ⟨call, mem, called⟩ := live.founded.mp founded
      cases (never call mem).symm.trans called
    · cases effect with
      | genesis _ => exact ended
      | genesisRefused ran => cases seeded.symm.trans ran
  · intro called
    rcases init_cases live.steady with ⟨_, refused⟩ | ⟨clear, _, _⟩
    · cases effect with
      | genesis ran => cases refused.symm.trans ran
      | genesisRefused ran =>
        obtain ⟨same, rfl⟩ := Prod.mk.inj (refused.symm.trans ran)
        obtain rfl := Except.error.inj same
        obtain ⟨s', stored, related⟩ := after (by simp)
        refine ⟨ended, s', stored, ?_⟩
        rw [live.storage_eq]
        exact related.1.toLinked.overlay
    · have founded := live.founded.mpr called
      rw [Overlay.Founded, clear] at founded
      cases founded

/-- Before genesis, no header is valid. -/
theorem LiveAt.unfounded (live : LiveAt calls s o) (never : ∀ call ∈ calls, call.isGenesis = false) {mode : PrimaryMode} {hdr : HeaderMsg}
    {data : ByteString} {o' : Overlay L} (ran : PrimaryListener.validateTransaction mode hdr data o = (.ok (), o')) : False := by
  have founded := (steady_validate live.steady ran).2 rfl
  obtain ⟨_, _, _, _, rfl⟩ := PrimaryListener.validate_ok ran
  obtain ⟨call, mem, called⟩ := live.founded.mp founded
  cases (never call mem).symm.trans called

/-- Before genesis, a transaction is refused when its header is validated, at the latest. -/
theorem LiveAt.refused (live : LiveAt calls s o) (never : ∀ call ∈ calls, call.isGenesis = false) {call : Call}
    (transaction : call.isTransaction = true) :
    ∃ e, (call.exec ((Node.start ({} : StorageMap L)).run calls).manager).1 = .error (.throw e) := by
  obtain ⟨outcome, o', notices, block, effect, ended, _⟩ := live.effect call
  have thrown {e : Stop} (alive : e ≠ .crash) : ∃ exn, e = .throw exn := by
    cases e with
    | throw exn => exact ⟨exn, rfl⟩
    | crash => exact (alive rfl).elim
  rw [ended]
  cases effect with
  | genesis _ | genesisRefused _ | begun | committed _ => cases transaction
  | unchecked malformed =>
    obtain ⟨exn, rfl⟩ := thrown (ListenerManager.parseHeader_throws malformed)
    exact ⟨exn, rfl⟩
  | @checked _ result _ _ _ _ parsed ran =>
    cases result with
    | ok _ => exact (live.unfounded never ran).elim
    | error e =>
      obtain ⟨exn, rfl⟩ := thrown (PrimaryListener.validate_throws ran)
      exact ⟨exn, rfl⟩
  | malformed malformed =>
    obtain ⟨exn, rfl⟩ := thrown (parseTx_throws malformed)
    exact ⟨exn, rfl⟩
  | refused parsed ran =>
    obtain ⟨exn, rfl⟩ := thrown (PrimaryListener.validate_throws ran)
    exact ⟨exn, rfl⟩
  | undecoded _ ran _ | failed _ ran _ _ | applied _ ran _ _ => exact (live.unfounded never ran).elim

end

/-- In every state that a run reaches, genesis is accepted exactly if it was not called before; where it is refused, it leaves what
is stored and what waits for a flush; and before it every transaction is refused: an exception ends the call. -/
theorem genesis_once {calls : List Call} (up : ((Node.start ({} : StorageMap L)).run calls).down = false) {s : StorageMap L}
    (primary : ((Node.start ({} : StorageMap L)).run calls).manager.primary = some s) (raw : ByteString) :
    (((Call.initChain raw).exec ((Node.start ({} : StorageMap L)).run calls).manager).1 = .ok [] ↔
      ∀ call ∈ calls, call.isGenesis = false) ∧
    (((Call.initChain raw).exec ((Node.start ({} : StorageMap L)).run calls).manager).1 ≠ .ok [] →
      ∃ s', ((Call.initChain raw).exec ((Node.start ({} : StorageMap L)).run calls).manager).2.primary = some s' ∧
        s'.checkCache = s.checkCache ∧ s'.applyCache = s.applyCache ∧ s'.pending = s.pending) ∧
    ((∀ call ∈ calls, call.isGenesis = false) → ∀ call : Call, call.isTransaction = true →
      ∃ e, (call.exec ((Node.start ({} : StorageMap L)).run calls).manager).1 = .error (.throw e)) := by
  obtain ⟨s', o, live⟩ := live_at up
  obtain rfl := Option.some.inj (primary.symm.trans live.primary)
  obtain ⟨accepted, refused⟩ := live.genesis raw
  have cases_on : (∀ call ∈ calls, call.isGenesis = false) ∨ ∃ call ∈ calls, call.isGenesis = true := by
    by_cases called : ∃ call ∈ calls, call.isGenesis = true
    · exact Or.inr called
    · exact Or.inl fun call mem => by simpa using fun is => called ⟨call, mem, is⟩
  refine ⟨⟨fun succeeds => cases_on.resolve_right fun called => ?_, accepted⟩, fun fails => ?_, fun never call => live.refused never⟩
  · rw [(refused called).1] at succeeds
    cases succeeds
  · obtain ⟨_, s', stored, same⟩ := refused (cases_on.resolve_left fun never => fails (accepted never))
    exact ⟨s', stored, congrArg Overlay.checkCache same, congrArg Overlay.applyCache same, congrArg Overlay.pending same⟩

omit [Sha256] in
theorem genesis_once_again :
    let _ := zeroSha256
    (((Call.initChain []).exec (textNode [.initChain []]).manager).1 = .ok [] ↔
        ∀ call ∈ [Call.initChain []], call.isGenesis = false) ∧
      (((Call.initChain []).exec (textNode [.initChain []]).manager).1 ≠ .ok [] →
        ∃ s', ((Call.initChain []).exec (textNode [.initChain []]).manager).2.primary = some s' ∧
          s'.checkCache = (textStorage [.initChain []]).checkCache ∧ s'.applyCache = (textStorage [.initChain []]).applyCache ∧
            s'.pending = (textStorage [.initChain []]).pending) :=
  let _ := zeroSha256
  have up : (textNode [.initChain []]).down = false := by decide +kernel
  have all := genesis_once (L := Layout.text) up (textNode_primary up) []
  ⟨all.1, all.2.1⟩

end BandChain
