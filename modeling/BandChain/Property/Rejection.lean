import BandChain.Property.Nonce

/-! What a rejected transaction leaves of its nonce. -/

namespace BandChain

variable {K : Type} {L : Layout K}

/-- The nonce an account should have: the header nonce of its latest applied transaction, or 0. -/
def latestNonce [Sha256] {σ : Type} (u : Ident) (history : List (Record σ)) : UInt256 :=
  ((appliedNonces u history).getLast?.map UInt256.ofUInt64).getD 0

/-- Every account that exists has the nonce it should have. -/
def NoncesUsed [Sha256] {σ : Type} (L : Layout K) (applied : K → Option ByteString) (history : List (Record σ)) : Prop :=
  ∀ u : Ident, applied (L.key (.contract (.account u))) = some (ContractKey.account u).prefixedKey →
    applied (L.key (.data (.nonce u))) = some (serialize (latestNonce u history))

/-- A nonce that waits where a call would write it is that of the call's own transaction. A transaction whose body
does not decode leaves one. -/
def Unspoiled [Sha256] (pending : (c : Cell) → Option c.Val) : Call → Prop
  | .initChain _ | .beginBlock _ _ | .checkTransaction _ => True
  | .applyTransaction raw _ => ∀ hdr data type buf parts, ListenerManager.parseTx raw = .ok (hdr, data, type, buf) →
      ListenerManager.consume (Msg.read type) buf = .ok parts → ∀ u, pending (.nonce u) ≠ none → u = hdr.user
  | .commitBlock => ∀ u, pending (.nonce u) = none

variable [DecidableEq K] [Sha256] {o o' : Overlay L} {blk : BlockMsg} {hdr : HeaderMsg} {msg : Msg} {u : Ident}
  {history : List (Record (Overlay L))}

section

omit [DecidableEq K]

theorem latestNonce_append (u : Ident) (r : Record (Overlay L)) :
    latestNonce u (history ++ [r]) =
      match r.appliedRaw.bind (headerNonce u) with
      | some nonce => UInt256.ofUInt64 nonce
      | none => latestNonce u history := by
  rw [latestNonce, appliedNonces, appliedRaws_append, List.filterMap_append]
  rcases applied : r.appliedRaw with _ | raw
  · simp [latestNonce, appliedNonces]
  · rcases nonce : headerNonce u raw with _ | k <;> simp [latestNonce, appliedNonces, nonce]

theorem latestNonce_of_clear (floors : ∀ k ∈ appliedNonces u history, o.Floor u k.toNat)
    (clear : o.applyCache (L.key (.contract (.account u))) = none) : latestNonce u history = 0 := by
  rcases nonces : appliedNonces u history with _ | ⟨k, rest⟩
  · rw [latestNonce, nonces]
    rfl
  · exact ((floors k (by rw [nonces]; exact List.mem_cons_self)).taken clear).elim

theorem latestNonce_silent {r : Record (Overlay L)} (silent : r.appliedRaw = none) :
    latestNonce u (history ++ [r]) = latestNonce u history := by
  rw [latestNonce_append, silent]
  rfl

theorem NoncesUsed.silent {r : Record (Overlay L)} {applied applied' : K → Option ByteString}
    (used : NoncesUsed L applied history) (silent : r.appliedRaw = none)
    (accounts : ∀ {x : Slot} {a : Ident}, x.owner = .account a → applied' (L.key x) = applied (L.key x)) :
    NoncesUsed L applied' (history ++ [r]) := by
  intro u marked
  rw [accounts (x := .contract (.account u)) rfl] at marked
  rw [accounts (x := .data (.nonce u)) rfl, latestNonce_silent silent]
  exact used u marked

end

/-- The nonce that a flush leaves for a user, where nothing waits but what the handler of `hdr` leaves. -/
theorem used_handle {res : Response} {raw data buf : ByteString} {r : Record (Overlay L)} (steady : o.Steady)
    (current : o.currentCache = some .apply) (found : o.applyCache (L.key (.contract (.account hdr.user))) ≠ none)
    (waiting : o.pending (.nonce hdr.user) = some (UInt256.ofUInt64 hdr.nonce))
    (alone : ∀ u, u ≠ hdr.user → o.pending (.nonce u) = none)
    (floors : ∀ u, ∀ k ∈ appliedNonces u history, o.Floor u k.toNat) (used : NoncesUsed L o.applyCache history)
    (header : ListenerManager.parseHeader raw = .ok (hdr, data, buf)) (applied : r.appliedRaw = some raw)
    (ran : PrimaryListener.handle blk hdr msg o = (.ok res, o')) : NoncesUsed L o'.flushed (history ++ [r]) := by
  have after := (handle_separate blk).of_ok (s := o) ⟨steady.nonceOnly, current⟩ ran
  have latest : latestNonce hdr.user (history ++ [r]) = UInt256.ofUInt64 hdr.nonce := by
    rw [latestNonce_append, applied, Option.bind_some, headerNonce_self header]
  have others {u : Ident} (other : u ≠ hdr.user) : latestNonce u (history ++ [r]) = latestNonce u history := by
    rw [latestNonce_append, applied, Option.bind_some, headerNonce_ne header other]
  intro u marked
  have marked' := Overlay.marker_of_flushed after.1 marked
  rw [Overlay.flushed_nonce after.2 after.1]
  rcases handle_accounts current ran with same | ⟨m, _, absent, rfl⟩
  · rw [same.nonces]
    rw [same.applied (x := .contract (.account u)) rfl] at marked'
    by_cases own : u = hdr.user
    · subst own
      simp only [waiting, latest]
    · simp only [alone u own, others own]
      rw [same.applied (x := .data (.nonce u)) rfl]
      exact used u marked'
  · have clear := (Overlay.hasContract_false current).mp absent
    by_cases new : u = m.user
    · subst new
      have own : m.user ≠ hdr.user := fun same => found (same ▸ clear)
      have zero : (o.withAccount m.user m.vk).pending (.nonce m.user) = some (0 : UInt256) := by
        rw [Overlay.withAccount, Overlay.write_pending_self]
      rw [zero, others own, latestNonce_of_clear (floors m.user) clear]
    · have kept : (o.withAccount m.user m.vk).pending (.nonce u) = o.pending (.nonce u) :=
        Overlay.withAccount_pending_ne _ _ (by simpa using new)
      rw [kept]
      rw [Overlay.withAccount_applyCache current] at marked' ⊢
      rw [Function.update_of_ne fun same => by cases L.marker_inj same; exact new rfl] at marked'
      by_cases own : u = hdr.user
      · subst own
        simp only [waiting, latest]
      · simp only [alone u own, others own]
        have stored := used u marked'
        rw [Function.update_of_ne]
        · exact stored
        · intro same
          rw [same, clear] at stored
          cases stored

theorem used_applied {res : Response} {raw data buf data' : ByteString} {r : Record (Overlay L)} {o₁ : Overlay L}
    (steady : o.Steady) (floors : ∀ u, ∀ k ∈ appliedNonces u history, o.Floor u k.toNat)
    (used : NoncesUsed L o.applyCache history) (alone : ∀ u, o.pending (.nonce u) ≠ none → u = hdr.user)
    (header : ListenerManager.parseHeader raw = .ok (hdr, data', buf)) (applied : r.appliedRaw = some raw)
    (validated : PrimaryListener.validateTransaction .apply hdr data o = (.ok (), o₁))
    (ran : PrimaryListener.process blk hdr msg o₁ = (.ok res, o')) : NoncesUsed L o'.applyCache (history ++ [r]) := by
  obtain ⟨o₂, handled, _, rfl⟩ := PrimaryListener.process_ok ran
  have steady₁ := (steady_validate steady validated).1
  have floors₁ := fun u k member => (floor_validate steady (floors u k member) validated).on .apply
  obtain ⟨found, _, _, _, rfl⟩ := PrimaryListener.validate_ok validated
  refine used_handle (steady₁.on .apply) rfl ?_ ?_ (fun u other => ?_) floors₁ used header applied handled
  · simp only [Overlay.on_applyCache, Overlay.write_applyCache, (steady.founded_of_found found).1]
    simp
  · simp
  · rw [Overlay.on_pending, Overlay.write_pending_ne _ _ _ (by simpa using other)]
    by_contra held
    exact other (alone u held)

theorem used_init {outcome : Except Stop Unit} {r : Record (Overlay L)} (steady : o.Steady)
    (floors : ∀ u, ∀ k ∈ appliedNonces u history, o.Floor u k.toNat) (used : NoncesUsed L o.applyCache history)
    (silent : r.appliedRaw = none) (ran : PrimaryListener.init ListenerManager.genesis o = (outcome, o')) :
    NoncesUsed L o'.applyCache (history ++ [r]) := by
  rcases init_cases steady with ⟨_, refused⟩ | ⟨clear, nothing, seeded⟩
  · obtain ⟨_, rfl⟩ := Prod.mk.inj (ran.symm.trans refused)
    exact used.silent silent fun _ => rfl
  · obtain ⟨_, rfl⟩ := Prod.mk.inj (ran.symm.trans seeded)
    obtain ⟨current, separate, _, _⟩ := seeded_facts steady clear nothing
    intro u marked
    have marked' := Overlay.marker_of_flushed separate marked
    have start := Overlay.on_currentCache o .apply
    have tokens := Overlay.sameAccounts_withToken ((Overlay.withAccount_current (o.on .apply) ListenerManager.genesis.account
      ListenerManager.genesis.verifyKey).trans start) ListenerManager.genesis.token ListenerManager.genesis.token Curve.linear
    have root : u = ListenerManager.genesis.account := by
      by_contra other
      have held := (tokens.applied (x := .contract (.account u)) rfl).symm.trans marked'
      rw [Overlay.withAccount_applyCache start, Function.update_of_ne fun same => by
        cases L.marker_inj same; exact other rfl, Overlay.on_applyCache, clear] at held
      cases held
    rw [Overlay.committed_applyCache, Overlay.flushed_nonce current separate, latestNonce_silent silent,
      latestNonce_of_clear (floors u) (clear _), root, Overlay.seeded, tokens.nonces]
    simp only [Overlay.withAccount, Overlay.write_pending_self]

theorem used_effect {call : Call} {outcome : Except Stop ByteString} {notices : List Notice} {block : BlockMsg}
    (steady : o.Steady) (floors : ∀ u, ∀ k ∈ appliedNonces u history, o.Floor u k.toNat)
    (used : NoncesUsed L o.applyCache history) (unspoiled : Unspoiled o.pending call)
    (effect : Effect o blk call outcome o' notices block) (alive : outcome ≠ .error .crash)
    (after : ListenerManager (Overlay L)) : NoncesUsed L o'.applyCache (history ++ [⟨call, outcome, after⟩]) := by
  have validation {mode : PrimaryMode} {hdr : HeaderMsg} {data : ByteString} {outcome : Except Stop Unit} {o₁ : Overlay L}
      (ran : PrimaryListener.validateTransaction mode hdr data o = (outcome, o₁)) : o₁.applyCache = o.applyCache := by
    cases outcome with
    | error e => rw [PrimaryListener.validate_error ran, Overlay.on_applyCache]
    | ok _ =>
      obtain ⟨_, _, _, _, rfl⟩ := PrimaryListener.validate_ok ran
      rw [Overlay.write_applyCache, Overlay.on_applyCache]
  cases effect with
  | genesis ran => exact used_init steady floors used rfl ran
  | genesisRefused ran => exact used_init steady floors used rfl ran
  | begun => exact used.silent rfl fun _ => rfl
  | unchecked _ => exact used.silent rfl fun _ => rfl
  | checked _ ran => exact used.silent rfl fun _ => by rw [validation ran]
  | malformed _ => exact used.silent rfl fun _ => rfl
  | refused _ ran => exact used.silent rfl fun _ => by rw [validation ran]
  | undecoded _ ran _ => exact used.silent rfl fun _ => by rw [validation ran]
  | @failed _ _ e _ _ _ _ _ _ _ _ parsed validated _ ran =>
    cases e with
    | crash => exact (alive rfl).elim
    | throw e =>
      obtain ⟨o₂, handled, rfl⟩ := PrimaryListener.process_throw ran
      refine used.silent rfl fun account => ?_
      rw [Overlay.dropped_applyCache, handle_throw_accounts (Overlay.on_currentCache _ .apply) handled account,
        Overlay.on_applyCache, validation validated]
  | applied parsed validated decoded ran =>
    obtain ⟨_, header, _⟩ := parseTx_ok parsed
    exact used_applied steady floors used (unspoiled _ _ _ _ _ parsed decoded) header rfl validated ran
  | committed ran =>
    obtain ⟨_, rfl⟩ := Prod.mk.inj ((PrimaryListener.commit_apply _ steady.selected).symm.trans ran)
    have nothing : ∀ c, o.pending c = none := by
      intro c
      by_contra held
      obtain ⟨u, rfl⟩ := steady.nonceOnly c held
      exact held (unspoiled u)
    refine used.silent rfl fun _ => ?_
    rw [Overlay.committed_applyCache, Overlay.flushed_of_none nothing]

/-- What holds of the overlay while no step is spoiled. -/
structure Accountable (n : Node (Overlay L)) : Prop where
  guarded : Guarded n
  used : n.down = false → ∀ o, n.manager.primary = some o → NoncesUsed L o.applyCache n.history

theorem Accountable.step {n : Node (Overlay L)} (h : Accountable n) (call : Call)
    (unspoiled : n.down = false → ∀ o, n.manager.primary = some o → Unspoiled o.pending call) :
    Accountable (n.step call) := by
  refine ⟨h.guarded.step call, ?_⟩
  by_cases down : n.down = true
  · rw [Node.step, if_pos down]
    exact h.used
  have up : n.down = false := by simpa using down
  obtain ⟨o, primary, steady, floors⟩ := h.guarded.floors up
  obtain ⟨outcome, o', notices, block, effect, after⟩ := step_effect up primary call
  rw [after]
  intro alive o₁ same
  obtain rfl := Option.some.inj same
  exact used_effect steady floors (h.used up o primary) (unspoiled up o primary) effect (crashed_eq_false.mp alive) _

/-- In a run where no call writes the nonce of a rejected transaction, every account has the nonce of its latest
applied transaction. -/
theorem nonce_of_applied {calls : List Call}
    (unspoiled : (Node.start ({} : StorageMap L)).Along
      (fun n call => ∀ s, n.manager.primary = some s → Unspoiled s.pending call) calls)
    (up : ((Node.start ({} : StorageMap L)).run calls).down = false) :
    ∃ s, ((Node.start ({} : StorageMap L)).run calls).manager.primary = some s ∧
      NoncesUsed L s.applyCache ((Node.start ({} : StorageMap L)).run calls).history := by
  obtain ⟨n, twin, accountable⟩ := unspoiled.run (I := fun m => ∃ n : Node (Overlay L), Twin m n ∧ Accountable n)
    ⟨_, twin_start, guarded_start, fun _ o primary u marked => by
      cases primary
      cases marked⟩
    (by
      rintro m call ⟨n, twin, accountable⟩ fit
      refine ⟨n.step call, twin.step call, accountable.step call fun up o primary => ?_⟩
      have up' := twin.down.trans up
      obtain ⟨s, stored, related⟩ := twin.storage up' primary
      rw [← related.1.overlay]
      exact fit up' s stored)
  obtain ⟨o, primary, _⟩ := accountable.guarded.floors (twin.down.symm.trans up)
  obtain ⟨s, stored, related⟩ := twin.storage up primary
  refine ⟨s, stored, ?_⟩
  have maps : s.applyCache = o.applyCache := congrArg Overlay.applyCache related.1.overlay
  have used := accountable.used (twin.down.symm.trans up) o primary
  unfold NoncesUsed latestNonce appliedNonces at used ⊢
  rw [maps, twin.appliedRaws]
  exact used

/-- A block with one transaction, of the genesis account. -/
def mintBlock : List Call :=
  [.initChain [], .beginBlock 0 default,
    applyMsg ListenerManager.genesis.account 1 (.mintToken ⟨ListenerManager.genesis.token, 7⟩), .commitBlock]

omit [Sha256] in
theorem nonce_of_mintBlock :
    letI := zeroSha256
    ∃ s, (textNode mintBlock).manager.primary = some s ∧
      NoncesUsed Layout.text s.applyCache (textNode mintBlock).history := by
  unfold textNode
  refine @nonce_of_applied _ Layout.text _ zeroSha256 mintBlock ?_ (by decide +kernel)
  simp only [mintBlock, Node.Along]
  refine ⟨fun _ _ _ => trivial, fun _ _ _ => trivial, fun _ s stored => ?_, fun _ s stored => ?_, trivial⟩
  · intro _ _ _ _ _ _ _ u held
    exact (held (pending_of_keys stored (by decide +kernel) _)).elim
  · intro u
    exact pending_of_keys stored (by decide +kernel) _

/-- A transaction of the genesis account with nonce 5 whose last byte is missing. -/
def truncated : Call :=
  .applyTransaction (ListenerManager.writeTx ListenerManager.genesis.account default 5
    (.mintToken ⟨ListenerManager.genesis.token, 7⟩)).dropLast []

def truncatedBlock : List Call := [.initChain [], .beginBlock 0 default, truncated, .commitBlock]

omit [Sha256] in
/-- The commit stores the nonce that was rejected. -/
theorem truncated_uses_nonce :
    letI := zeroSha256
    (textNode truncatedBlock).down = false ∧ appliedRaws (textNode truncatedBlock).history = [] ∧
      (textNode truncatedBlock).manager.primary = some (textStorage truncatedBlock) ∧
      ¬ NoncesUsed Layout.text (textStorage truncatedBlock).applyCache (textNode truncatedBlock).history := by
  have up : (textNode truncatedBlock).down = false := by decide +kernel
  refine ⟨up, by decide +kernel, textNode_primary up, fun used => ?_⟩
  have stored := used ListenerManager.genesis.account (by decide +kernel)
  revert stored
  decide +kernel

end BandChain
