import BandChain.Listener.Overwrites
import BandChain.Property.Accounting
import BandChain.Property.Atomicity

/-! Whose balances a transaction can change. -/

namespace BandChain

variable {K : Type} [DecidableEq K] {L : Layout K}

namespace StorageMap

/-- `storage.load<Token>(t).balances[u]`. -/
def balance (s : StorageMap L) (t u : Ident) : Option UInt256 := (Storage.look (.balances t u) s.applying).toOption

end StorageMap

/-- The tokens that a message names, and the base of the token it names. -/
def Msg.Concerns (s : StorageMap L) : Msg → Ident → Prop
  | createToken msg, t => t = msg.createdToken ∨ t = msg.baseToken
  | mintToken msg, t => t = msg.token ∨ s.baseOf msg.token = some t
  | transferToken msg, t => t = msg.token ∨ s.baseOf msg.token = some t
  | buyToken msg, t => t = msg.token ∨ s.baseOf msg.token = some t
  | sellToken msg, t => t = msg.token ∨ s.baseOf msg.token = some t
  | createAccount _, _ | addWikiEdge _, _ | removeWikiEdge _, _ => False

/-- From `s` to `s'` no user but the sender lost anything, and nothing moved but of the tokens that the message concerns. -/
structure OwnOnly (s s' : StorageMap L) (hdr : HeaderMsg) (msg : Msg) : Prop where
  others : ∀ t u, Storage.Loads t s.applying → u ≠ hdr.user →
    ∃ n n', s.balance t u = some n ∧ s'.balance t u = some n' ∧ n.val ≤ n'.val
  elsewhere : ∀ t, ¬ msg.Concerns s t → ∀ u, s'.balance t u = s.balance t u

/-- No balance that the entry sets takes along a token or another user's balance, and the marker of a new token no balance. -/
structure Unaliased (s : StorageMap L) (hdr : HeaderMsg) (msg : Msg) (e : Ledger.Entry Ident Ident) : Prop where
  markers : ∀ t, Storage.Loads t s.applying → ¬ L.Overwrites e t
  cells : ∀ t u t' u', Storage.Loads t s.applying → e.Writes t' u' → ¬ (t' = t ∧ u' = u) →
    L.key (.data (.balances t' u')) = L.key (.data (.balances t u)) →
      (u ≠ hdr.user → 0 ≤ e.change t' u') ∧ (¬ msg.Concerns s t → e.change t' u' = 0)
  created : ∀ t u x b, Storage.Loads t s.applying → e = .create x b →
    L.key (.data (.balances t u)) = L.key (.contract (.token x)) → t = b

variable {o o' p q : Overlay L} {s s' : StorageMap L} {hdr : HeaderMsg} {msg : Msg} {e : Ledger.Entry Ident Ident} {t u : Ident}

theorem Parallel.balance_of_found (related : Parallel s o) (found : (o.on .apply).hasContract (.token t) = .ok true) :
    s.balance t u = ((o.on .apply).value (.balances t u)).toOption :=
  congrArg Except.toOption ((sim_look related.live _).trans (look_of_found found))

theorem Parallel.balance_of_missing (related : Parallel s o) (missing : (o.on .apply).hasContract (.token t) ≠ .ok true) :
    s.balance t u = none := by
  rw [StorageMap.balance, sim_look related.live]
  rcases looked : Storage.look (.balances t u) (o.on .apply) with e | n
  · rfl
  · exact (missing (found_of_look looked)).elim

omit [DecidableEq K] in
/-- A message sets balances of tokens that it concerns, and lowers only the sender's. -/
theorem posting_own (posting : s.posting hdr msg = some e) (writes : e.Writes t u) :
    (u ≠ hdr.user → 0 ≤ e.change t u) ∧ msg.Concerns s t := by
  cases msg with
  | createAccount _ | addWikiEdge _ | removeWikiEdge _ => cases posting
  | createToken _ =>
    cases posting
    exact writes.elim
  | mintToken m =>
    cases posting
    exact ⟨fun other => (other writes.2).elim, Or.inl writes.1⟩
  | transferToken m =>
    cases posting
    obtain ⟨rfl, either⟩ := writes
    refine ⟨fun other => ?_, Or.inl rfl⟩
    obtain rfl := either.resolve_left other
    simp [Ledger.Entry.change, Ledger.post, Ledger.transfer, Ledger.credit, Ledger.blank, other]
  | buyToken m | sellToken m =>
    simp only [StorageMap.posting, Option.bind_eq_bind, Option.bind_eq_some_iff] at posting
    obtain ⟨base, named, _, _, _, _, _, _, _, _, entered⟩ := posting
    cases entered
    obtain ⟨token, user⟩ := writes
    refine ⟨fun other => (other user).elim, ?_⟩
    rcases token with same | same
    · exact Or.inl same
    · exact Or.inr (same ▸ named)

instance : Nontrivial Ident := ⟨⟨default, ListenerManager.genesis.token, by decide⟩⟩

omit [DecidableEq K] in
theorem concerns_of_created {x b : Ident} (posting : s.posting hdr msg = some (.create x b)) : msg.Concerns s t ↔ t = x ∨ t = b := by
  cases msg with
  | createToken _ =>
    cases posting
    rfl
  | createAccount _ | mintToken _ | transferToken _ | addWikiEdge _ | removeWikiEdge _ => cases posting
  | buyToken _ | sellToken _ =>
    simp only [StorageMap.posting, Option.bind_eq_bind, Option.bind_eq_some_iff] at posting
    obtain ⟨_, _, _, _, _, _, _, _, _, _, entered⟩ := posting
    cases entered

theorem ownOnly_of_moves
    (moves : ∀ t u, Storage.Loads t s.applying → ∃ n n', s.balance t u = some n ∧ s'.balance t u = some n' ∧
      (u ≠ hdr.user → n.val ≤ n'.val) ∧ (¬ msg.Concerns s t → n'.val = n.val))
    (missing : ∀ t u, ¬ Storage.Loads t s.applying → ¬ msg.Concerns s t → s'.balance t u = s.balance t u) : OwnOnly s s' hdr msg := by
  constructor
  · intro t u loads other
    obtain ⟨n, n', held, held', grows, _⟩ := moves t u loads
    exact ⟨n, n', held, held', grows other⟩
  · intro t apart u
    by_cases loads : Storage.Loads t s.applying
    · obtain ⟨n, n', held, held', _, stays⟩ := moves t u loads
      rw [held, held', UInt256.ext (stays apart)]
    · exact missing t u loads apart

section

variable (related : Parallel s o) (related' : Parallel s' o') (numbered : (o.on .apply).Numbered)

include related

theorem Parallel.balance_of_value {n : UInt256} (found : (o.on .apply).hasContract (.token t) = .ok true)
    (value : (o.on .apply).value (.balances t u) = .ok n) : s.balance t u = some n := by
  rw [related.balance_of_found found, value]
  rfl

include numbered in
theorem Parallel.balance (found : (o.on .apply).hasContract (.token t) = .ok true) :
    ∃ n : UInt256, (o.on .apply).value (.balances t u) = .ok n ∧ s.balance t u = some n := by
  have clear : (o.on .apply).Clear := fun _ _ contract => related.2.nonceOnly.token contract
  obtain ⟨n, stored⟩ := numbered t u
  have value := (clear.value rfl t u).trans stored
  exact ⟨n, value, related.balance_of_value found value⟩

include related' numbered

/-- A message that makes no entry changes no balance. -/
theorem ownOnly_of_tokenwise (same : (o.on .apply).Tokenwise (o'.on .apply)) : OwnOnly s s' hdr msg := by
  apply ownOnly_of_moves
  · intro t u loads
    have found := (loads_iff related.live).mp loads
    obtain ⟨n, value, held⟩ := related.balance (u := u) numbered found
    have held' := related'.balance_of_value ((same.hasContract t).trans found) ((same.value rfl).trans value)
    exact ⟨n, n, held, held', fun _ => Nat.le_refl _, fun _ => rfl⟩
  · intro t u missing _
    have before : (o.on .apply).hasContract (.token t) ≠ .ok true := fun found => missing ((loads_iff related.live).mpr found)
    rw [related.balance_of_missing before, related'.balance_of_missing ((same.hasContract t).symm ▸ before)]

variable (made : Entered (o.on .apply) e p q) (after : o'.on .apply = q.rewound) (posting : s.posting hdr msg = some e)

include made after posting

theorem ownOnly_iff_of_old (old : ∀ t b, e ≠ .create t b) : OwnOnly s s' hdr msg ↔ Unaliased s hdr msg e := by
  have steady := related.2
  have lost {t : Ident} (gone : ¬ ((o.on .apply).hasContract (.token t) = .ok true ∧ ¬ L.Overwrites e t)) (u : Ident) :
      s'.balance t u = none := by
    refine related'.balance_of_missing fun found' => gone ?_
    rw [after] at found'
    exact (made.found_iff steady old).mp found'
  have kept {t u : Ident} {n : UInt256} (found : (o.on .apply).hasContract (.token t) = .ok true) (missed : ¬ L.Overwrites e t)
      (value : q.rewound.value (.balances t u) = .ok n) : s'.balance t u = some n := by
    rw [← after] at value
    refine related'.balance_of_value ?_ value
    rw [after]
    exact (made.found_iff steady old).mpr ⟨found, missed⟩
  constructor
  · intro own
    have survives (t : Ident) (loads : Storage.Loads t s.applying) : ¬ L.Overwrites e t := by
      intro hit
      obtain ⟨u, other⟩ : ∃ u, u ≠ hdr.user := exists_ne _
      obtain ⟨_, _, _, held', _⟩ := own.others t u loads other
      rw [lost (fun both => both.2 hit) u] at held'
      cases held'
    refine ⟨survives, fun t u t' u' loads writes _ same => ?_, fun _ _ x b _ is _ => (old x b is).elim⟩
    have found := (loads_iff related.live).mp loads
    obtain ⟨n, n', before, later, changed⟩ := made.read_written steady numbered old writes same
    have held := related.balance_of_value found before
    have held' := kept found (survives t loads) later
    constructor
    · intro other
      obtain ⟨_, _, known, known', grows⟩ := own.others t u loads other
      cases held.symm.trans known
      cases held'.symm.trans known'
      omega
    · intro apart
      have stays := own.elsewhere t apart u
      rw [held, held'] at stays
      cases stays
      omega
  · intro alone
    apply ownOnly_of_moves
    · intro t u loads
      have found := (loads_iff related.live).mp loads
      by_cases hit : ∃ t' u', e.Writes t' u' ∧ L.key (.data (.balances t' u')) = L.key (.data (.balances t u))
      · obtain ⟨t', u', writes, same⟩ := hit
        obtain ⟨n, n', before, later, changed⟩ := made.read_written steady numbered old writes same
        refine ⟨n, n', related.balance_of_value found before, kept found (alone.markers t loads) later, ?_⟩
        have bounds : (u ≠ hdr.user → 0 ≤ e.change t' u') ∧ (¬ msg.Concerns s t → e.change t' u' = 0) := by
          by_cases own : t' = t ∧ u' = u
          · obtain ⟨rfl, rfl⟩ := own
            obtain ⟨grows, concerned⟩ := posting_own posting writes
            exact ⟨grows, fun apart => (apart concerned).elim⟩
          · exact alone.cells t u t' u' loads writes own same
        constructor
        · intro other
          have grows := bounds.1 other
          omega
        · intro apart
          have stays := bounds.2 apart
          omega
      · have missed (t' u' : Ident) (writes : e.Writes t' u') (same : L.key (.data (.balances t' u')) = L.key (.data (.balances t u))) : False :=
          hit ⟨t', u', writes, same⟩
        obtain ⟨n, value, held⟩ := related.balance (u := u) numbered found
        have later := (made.read_unwritten steady old missed).trans value
        exact ⟨n, n, held, kept found (alone.markers t loads) later, fun _ => Nat.le_refl _, fun _ => rfl⟩
    · intro t u missing _
      have before : (o.on .apply).hasContract (.token t) ≠ .ok true := fun found => missing ((loads_iff related.live).mpr found)
      rw [related.balance_of_missing before, lost fun both => before both.1]

omit made posting in
theorem ownOnly_iff_of_created {x b : Ident} (made : Entered (o.on .apply) (.create x b) p q)
    (posting : s.posting hdr msg = some (.create x b)) : OwnOnly s s' hdr msg ↔ Unaliased s hdr msg (.create x b) := by
  have steady := related.2
  have found_iff (t : Ident) : (o'.on .apply).hasContract (.token t) = .ok true ↔ t = x ∨ (o.on .apply).hasContract (.token t) = .ok true := by
    rw [after]
    exact (made.found_created steady).2
  have kept {t u : Ident} {n : UInt256} (found : (o.on .apply).hasContract (.token t) = .ok true)
      (value : q.rewound.value (.balances t u) = .ok n) : s'.balance t u = some n := by
    rw [← after] at value
    exact related'.balance_of_value ((found_iff t).mpr (Or.inr found)) value
  constructor
  · intro own
    refine ⟨fun t _ hit => ?_, fun _ _ _ _ _ writes => writes.elim, fun t u x' b' loads is same => ?_⟩
    · obtain ⟨_, _, writes, _⟩ := hit
      exact writes
    cases is
    have found := (loads_iff related.live).mp loads
    obtain ⟨before, later⟩ := made.read_marker steady same
    by_contra other
    have apart : ¬ msg.Concerns s t := by
      rw [concerns_of_created posting]
      rintro (rfl | same)
      · cases found.symm.trans (made.found_created (t := t) steady).1
      · exact other same
    have stays := own.elsewhere t apart u
    rw [related.balance_of_value found before, kept found later] at stays
    cases stays
  · intro alone
    apply ownOnly_of_moves
    · intro t u loads
      have found := (loads_iff related.live).mp loads
      by_cases same : L.key (.data (.balances t u)) = L.key (.contract (.token x))
      · obtain ⟨before, later⟩ := made.read_marker steady same
        refine ⟨0, 116, related.balance_of_value found before, kept found later, fun _ => Nat.zero_le _, fun apart => ?_⟩
        exact (apart ((concerns_of_created posting).mpr (Or.inr (alone.created t u x b loads rfl same)))).elim
      · obtain ⟨n, value, held⟩ := related.balance (u := u) numbered found
        have later := (made.read_created steady same).trans value
        exact ⟨n, n, held, kept found later, fun _ => Nat.le_refl _, fun _ => rfl⟩
    · intro t u missing apart
      have before : (o.on .apply).hasContract (.token t) ≠ .ok true := fun found => missing ((loads_iff related.live).mpr found)
      rw [related.balance_of_missing before, related'.balance_of_missing fun found' => ?_]
      rcases (found_iff t).mp found' with new | found
      · exact apart ((concerns_of_created posting).mpr (Or.inl new))
      · exact before found

end

/-- After a transaction that went through, no user but the sender has lost anything, and nothing has moved but of the tokens that
the message concerns, exactly if the keys that its entry writes meet no others. -/
theorem own_only_iff [Sha256] {calls : List Call} {call : Call} {bytes : ByteString} {notices notices' : List Notice}
    (run : Leads calls s notices) (handed : Handed s call hdr msg)
    (applied : (call.exec ((Node.start ({} : StorageMap L)).run calls).manager).1 = .ok bytes) (run' : Leads (calls ++ [call]) s' notices') :
    OwnOnly s s' hdr msg ↔ ∀ e, s.posting hdr msg = some e → Unaliased s hdr msg e := by
  have twin := (twin_start (L := L)).run calls
  obtain ⟨o, primary, _, typed, _⟩ := (booked_start (L := L)).run calls (twin.down ▸ run.up)
  obtain ⟨s₁, stored, related⟩ := twin.storage run.up primary
  cases run.primary.symm.trans stored
  obtain rfl := related.1.overlay
  have outcome : (call.exec _).1 = (call.exec _).1 := (twin.sameRecord run.up call).outcome
  obtain ⟨o', primary', made⟩ := step_applied related typed (twin.down ▸ run.up) primary (related.handed_iff.mp handed) (outcome ▸ applied)
  have last : ((Node.start ({} : StorageMap L)).run calls).step call = (Node.start {}).run (calls ++ [call]) := (Node.run_concat ..).symm
  obtain ⟨s₂, stored', related'⟩ := (twin.step call).storage (last ▸ run'.up) primary'
  rw [last] at stored'
  cases run'.primary.symm.trans stored'
  rcases made with ⟨silent, same⟩ | ⟨e, p, q, posting, made, after⟩
  · refine iff_of_true (ownOnly_of_tokenwise related related' run.numbered same) fun e posting => ?_
    cases silent.symm.trans posting
  · have only : OwnOnly s s' hdr msg ↔ Unaliased s hdr msg e := by
      by_cases new : ∃ x b, e = .create x b
      · obtain ⟨x, b, rfl⟩ := new
        exact ownOnly_iff_of_created related related' run.numbered after made posting
      · exact ownOnly_iff_of_old related related' run.numbered made after posting fun x b is => new ⟨x, b, is⟩
    rw [only, posting]
    simp

open ListenerManager (genesis)

/-- A client's message comes to the handlers as it was written. -/
theorem handed_applyMsg {σ : Type} [Storage σ] [Sha256] {s : σ} {user : Ident} {nonce : UInt64}
    (parsed : ListenerManager.parseTx (ListenerManager.writeTx user default nonce msg) =
      .ok (hdr, Serial.write nonce ++ Serial.write msg.type ++ msg.write, msg.type, msg.write))
    (valid : (PrimaryListener.validateTransaction .apply hdr (Serial.write nonce ++ Serial.write msg.type ++ msg.write) s).1 = .ok ())
    (decoded : ListenerManager.consume (Msg.read msg.type) msg.write = .ok (msg, [])) : Handed s (applyMsg user nonce msg) hdr msg :=
  ⟨_, _, _, _, _, _, rfl, parsed, valid, decoded⟩

def allowance : Msg := .mintToken ⟨genesis.token, 7⟩

theorem own_only_iff_allowance :
    OwnOnly (textStorage [.initChain []]) (textStorage [.initChain [], applyMsg genesis.account 1 allowance])
        (plainHeader genesis.account 1) allowance ↔
      ∀ e, (textStorage [.initChain []]).posting (plainHeader genesis.account 1) allowance = some e →
        Unaliased (textStorage [.initChain []]) (plainHeader genesis.account 1) allowance e := by
  let _ := zeroSha256
  have applied : ((applyMsg genesis.account 1 allowance).exec (textNode [.initChain []]).manager).1 = .ok Response.mintToken.write := by
    decide +kernel
  exact own_only_iff (textNode_leads (by decide +kernel))
    (handed_applyMsg (by decide +kernel) (by decide +kernel) (by decide +kernel)) applied (textNode_leads (by decide +kernel))

/-- The token whose balance of the genesis account lies where `band` has that of `shadowed`. -/
def shadow : Ident := ⟨ascii "band/balances/v", by decide +kernel⟩

def shadowed : Ident := ⟨ascii "v/balances/bandgod", by decide +kernel⟩

/-- Seven `band` are sent to `shadowed`. -/
def gift : List Call := [.initChain [], applyMsg genesis.account 1 (.createToken ⟨genesis.token, shadow, Curve.linear⟩),
  applyMsg genesis.account 2 allowance, applyMsg genesis.account 3 (.transferToken ⟨genesis.token, shadowed, 7⟩)]

/-- The sender takes them away again, as seven of `shadow`. -/
def theft : Msg := .transferToken ⟨shadow, default, 7⟩

theorem theft_not_own :
    @Leads _ Layout.text _ zeroSha256 gift (textStorage gift) (textNode gift).manager.notices ∧
      @Handed _ _ zeroSha256 (textStorage gift) (applyMsg genesis.account 4 theft) (plainHeader genesis.account 4) theft ∧
      (@Call.exec _ _ zeroSha256 (applyMsg genesis.account 4 theft) (textNode gift).manager).1 = .ok Response.transferToken.write ∧
      ¬ OwnOnly (textStorage gift) (textStorage (gift ++ [applyMsg genesis.account 4 theft])) (plainHeader genesis.account 4) theft := by
  let _ := zeroSha256
  refine ⟨textNode_leads (by decide +kernel), handed_applyMsg (by decide +kernel) (by decide +kernel) (by decide +kernel),
    by decide +kernel, fun own => ?_⟩
  have loads : Storage.Loads genesis.token (textStorage gift).applying := by
    unfold Storage.Loads
    decide +kernel
  have before : (textStorage gift).balance genesis.token shadowed = some 7 := by decide +kernel
  have after : (textStorage (gift ++ [applyMsg genesis.account 4 theft])).balance genesis.token shadowed = some 0 := by decide +kernel
  obtain ⟨n, n', held, held', grows⟩ := own.others genesis.token shadowed loads (by decide +kernel)
  cases before.symm.trans held
  cases after.symm.trans held'
  exact absurd grows (by decide)

end BandChain
