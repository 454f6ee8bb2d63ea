import BandChain.Listener.Effect

/-! What holds of the overlay between any two calls of a run. -/

namespace BandChain

variable {K : Type} {L : Layout K}

open ListenerManager (genesis)

/-- The account that `initChain` creates. -/
abbrev root : ContractKey := .account genesis.account

theorem root_plain : (47 : UInt8) ∉ root.ident.rawdata := by decide

theorem band_plain : (47 : UInt8) ∉ (ContractKey.token genesis.token).ident.rawdata := by decide

/-- The text of a marker is not that of a number: its first byte would be the only one. -/
theorem serialize_ne_prefixedKey (k : ContractKey) (n : UInt256) : serialize n ≠ k.prefixedKey := by
  obtain ⟨first, second, rest, text, ascii⟩ : ∃ first second rest, k.prefixedKey = first :: second :: rest ∧
      first.toNat < 128 := by
    cases k <;> exact ⟨_, _, _, rfl, by decide⟩
  intro same
  rw [text] at same
  rcases varintEncode_head n.val with ⟨b, single⟩ | ⟨b, tail, several, high⟩
  · exact absurd ((single.symm.trans same)) (by simp)
  · obtain ⟨rfl, _⟩ := List.cons.inj (several.symm.trans same)
    omega

namespace Overlay

def Founded (o : Overlay L) : Prop := o.applyCache (L.key (.contract root)) = some root.prefixedKey

/-- A nonce is stored for every account. -/
def Recorded (o : Overlay L) : Prop := ∀ a : Ident,
  o.applyCache (L.key (.contract (.account a))) = some (ContractKey.account a).prefixedKey →
    ∃ n : UInt256, o.applyCache (L.key (.data (.nonce a))) = some (serialize n)

structure Steady (o : Overlay L) : Prop where
  agree : o.Agree
  nonceOnly : o.NonceOnly
  selected : o.Selected
  recorded : o.Recorded
  founded : o.Founded ∨ (∀ k, o.applyCache k = none) ∧ ∀ c, o.pending c = none

theorem steady_empty : Steady ({} : Overlay L) where
  agree := fun _ => rfl
  nonceOnly := fun _ held => (held rfl).elim
  selected := fun ⟨_, held⟩ => (held rfl).elim
  recorded := fun _ held => by cases held
  founded := Or.inr ⟨fun _ => rfl, fun _ => rfl⟩

theorem NonceOnly.separate {o : Overlay L} (only : o.NonceOnly) : o.Separate := by
  intro c d first _ same
  obtain ⟨a, rfl⟩ := only c first
  exact (L.nonce_inj same.symm).symm

theorem Founded.flushed {o : Overlay L} (founded : o.Founded) : o.committed.Founded := by
  refine (flushed_untouched fun c same => ?_).trans founded
  cases L.key_plain root_plain same

theorem Steady.on {o : Overlay L} (h : o.Steady) (mode : PrimaryMode) : (o.on mode).Steady :=
  { h with selected := fun _ => by simp }

theorem Steady.dropped {o : Overlay L} (h : o.Steady) : o.dropped.Steady where
  agree := h.agree
  nonceOnly := fun _ held => (held rfl).elim
  selected := fun ⟨_, held⟩ => (held rfl).elim
  recorded := h.recorded
  founded := h.founded.imp_right fun ⟨clear, _⟩ => ⟨clear, fun _ => rfl⟩

/-- A flush of apply mode will leave a nonce for every account. -/
def Ready (o : Overlay L) : Prop := ∀ a : Ident,
  o.applyCache (L.key (.contract (.account a))) = some (ContractKey.account a).prefixedKey →
    (∃ n : UInt256, o.applyCache (L.key (.data (.nonce a))) = some (serialize n)) ∨ o.pending (.nonce a) ≠ none

/-- An account that exists after a flush existed before it. -/
theorem marker_of_flushed {o : Overlay L} (separate : o.Separate) {a : Ident}
    (held : o.flushed (L.key (.contract (.account a))) = some (ContractKey.account a).prefixedKey) :
    o.applyCache (L.key (.contract (.account a))) = some (ContractKey.account a).prefixedKey := by
  by_cases current : o.currentCache = some .apply
  · rw [← held]
    refine (flushed_untouched fun c same => ?_).symm
    rcases L.key_account same with wrong | ⟨b, is, _⟩
    · cases wrong
    obtain rfl := Slot.data.inj is
    by_contra present
    obtain ⟨v, pending⟩ := Option.ne_none_iff_exists'.mp present
    rw [← same, flushed_pending current separate pending] at held
    exact serialize_ne_prefixedKey _ _ (Option.some.inj held)
  · rwa [flushed_of_check current] at held

theorem recorded_committed {o : Overlay L} (current : o.currentCache = some .apply) (separate : o.Separate)
    (ready : o.Ready) : o.committed.Recorded := by
  intro a held
  rcases pending : o.pending (.nonce a) with _ | v
  · have kept : o.flushed (L.key (.data (.nonce a))) = o.applyCache (L.key (.data (.nonce a))) :=
      flushed_untouched fun c same => by rw [L.nonce_inj same, pending]
    rcases ready a (marker_of_flushed separate held) with ⟨n, stored⟩ | waiting
    · exact ⟨n, kept.trans stored⟩
    · exact (waiting pending).elim
  · exact ⟨v, flushed_pending current separate pending⟩

theorem steady_committed {o : Overlay L} (recorded : o.committed.Recorded) (founded : o.Founded) :
    o.committed.Steady where
  agree := fun _ => rfl
  nonceOnly := fun _ held => (held rfl).elim
  selected := fun ⟨_, held⟩ => (held rfl).elim
  recorded := recorded
  founded := Or.inl founded.flushed

theorem Steady.committed {o : Overlay L} (h : o.Steady) : o.committed.Steady := by
  rcases h.founded with founded | ⟨clear, nothing⟩
  · apply steady_committed _ founded
    by_cases current : o.currentCache = some .apply
    · exact recorded_committed current h.nonceOnly.separate fun a held => Or.inl (h.recorded a held)
    · intro a
      simp only [committed_applyCache, flushed_of_check current]
      exact h.recorded a
  · have same : o.flushed = o.applyCache := flushed_of_none nothing
    refine ⟨fun _ => rfl, fun _ held => (held rfl).elim, fun ⟨_, held⟩ => (held rfl).elim, ?_, Or.inr ⟨?_, fun _ => rfl⟩⟩
    · intro a
      simp only [committed_applyCache, same]
      exact h.recorded a
    · intro k
      rw [committed_applyCache, same, clear]

theorem Steady.write_nonce {o : Overlay L} (h : o.Steady) (founded : o.Founded) {mode : PrimaryMode}
    (current : o.currentCache = some mode) (a : Ident) (n : UInt256) : (o.write (.nonce a) n).Steady where
  agree := h.agree
  nonceOnly := by
    intro c held
    by_cases same : c = .nonce a
    · exact ⟨a, same⟩
    · rw [write_pending_ne _ _ _ same] at held
      exact h.nonceOnly c held
  selected := fun _ => by simp [current]
  recorded := h.recorded
  founded := Or.inl founded

/-- Where an account is found, the chain has been initialized. -/
theorem Steady.founded_of_found {o : Overlay L} (h : o.Steady) {mode : PrimaryMode} {a : Ident}
    (found : (o.on mode).hasContract (.account a) = .ok true) :
    o.applyCache (L.key (.contract (.account a))) = some (ContractKey.account a).prefixedKey ∧ o.Founded := by
  have marked : o.applyCache (L.key (.contract (.account a))) = some (ContractKey.account a).prefixedKey := by
    rw [hasContract_of_current (on_currentCache o mode), existence_true] at found
    cases mode with
    | apply => exact found
    | check => exact (h.agree (x := .contract (.account a)) rfl).symm.trans found
  refine ⟨marked, h.founded.resolve_right fun ⟨clear, _⟩ => ?_⟩
  rw [clear] at marked
  cases marked

end Overlay

open Overlay (Steady)

variable [DecidableEq K] {o o' : Overlay L} {blk : BlockMsg} {hdr : HeaderMsg} {msg : Msg}

theorem steady_validate {mode : PrimaryMode} {data : ByteString} {outcome : Except Stop Unit} (steady : o.Steady)
    (ran : PrimaryListener.validateTransaction mode hdr data o = (outcome, o')) :
    o'.Steady ∧ (outcome = .ok () → o'.Founded) := by
  cases outcome with
  | error e =>
    rw [PrimaryListener.validate_error ran]
    exact ⟨steady.on mode, fun h => by cases h⟩
  | ok _ =>
    obtain ⟨found, stored, _, _, rfl⟩ := PrimaryListener.validate_ok ran
    have founded := (steady.founded_of_found found).2
    exact ⟨(steady.on mode).write_nonce founded (Overlay.on_currentCache o mode) _ _, fun _ => founded⟩

theorem founded_mark {k : ContractKey} (current : o.currentCache = some .apply) (founded : o.Founded) :
    (o.mark k).Founded := by
  rw [Overlay.Founded, Overlay.mark_apply current]
  by_cases same : root = k
  · rw [← same]
    exact Function.update_self ..
  · exact (Function.update_of_ne (fun keys => same (L.marker_inj keys)) ..).trans founded

theorem handle_founded (blk : BlockMsg) (hdr : HeaderMsg) (msg : Msg) (current : o.currentCache = some .apply) (founded : o.Founded) :
    (PrimaryListener.handle blk hdr msg o).2.Founded := by
  have kept : Exec.Keeps (fun o : Overlay L => o.currentCache = some .apply ∧ o.Founded)
      (PrimaryListener.handle blk hdr msg) :=
    keeps_handle blk (fun _ _ _ _ _ => id)
      (fun o k _ h _ => ⟨(Overlay.mark_currentCache o k).trans h.1, founded_mark h.1 h.2⟩)
  exact (kept.after ⟨current, founded⟩).2

theorem mark_token_account (current : o.currentCache = some .apply) (t : Ident) {x : Slot} {a : Ident}
    (account : x.owner = .account a) : (o.mark (.token t)).applyCache (L.key x) = o.applyCache (L.key x) := by
  rw [Overlay.mark_apply current]
  exact Function.update_of_ne (L.key_ne_of_kinds account (y := .contract (.token t)) rfl) ..

theorem ready_withAccount {u : Ident} (verifyKey : VerifyKey) (current : o.currentCache = some .apply)
    (recorded : o.Recorded) (absent : o.hasContract (.account u) = .ok false) : (o.withAccount u verifyKey).Ready := by
  intro a held
  rw [Overlay.withAccount_applyCache current] at held ⊢
  by_cases same : a = u
  · subst same
    right
    simp [Overlay.withAccount]
  · left
    have other : L.key (.contract (.account a)) ≠ L.key (.contract (.account u)) := by
      intro keys
      cases L.marker_inj keys
      exact same rfl
    rw [Function.update_of_ne other] at held
    obtain ⟨n, stored⟩ := recorded a held
    have apart : L.key (.data (.nonce a)) ≠ L.key (.contract (.account u)) := by
      intro keys
      rw [keys, (Overlay.hasContract_false current).mp absent] at stored
      cases stored
    exact ⟨n, (Function.update_of_ne apart ..).trans stored⟩

namespace Overlay

/-- What belongs to accounts is the same, verify keys apart. -/
structure SameAccounts (o o' : Overlay L) : Prop where
  applied : ∀ {x : Slot} {a : Ident}, x.owner = .account a → o'.applyCache (L.key x) = o.applyCache (L.key x)
  nonces : ∀ u, o'.pending (.nonce u) = o.pending (.nonce u)

omit [DecidableEq K] in
theorem SameAccounts.ready (same : o.SameAccounts o') (ready : o.Ready) : o'.Ready := by
  intro a held
  rw [same.applied (x := .contract (.account a)) rfl] at held
  rw [same.applied (x := .data (.nonce a)) rfl, same.nonces]
  exact ready a held

omit [DecidableEq K] in
theorem sameAccounts_write {c : Cell} (v : c.Val) (other : ∀ u, c ≠ .nonce u) : o.SameAccounts (o.write c v) where
  applied := fun _ => rfl
  nonces := fun u => write_pending_ne _ _ _ (other u).symm

theorem sameAccounts_withToken (current : o.currentCache = some .apply) (t base : Ident) (curve : Curve) :
    o.SameAccounts (o.withToken t base curve) where
  applied := fun account => by
    rw [withToken]
    exact mark_token_account current t account
  nonces := fun u => withToken_pending_ne _ _ _ (by simp)

end Overlay

/-- A handler that returned left the accounts alone, or created one. -/
theorem handle_accounts {res : Response} (current : o.currentCache = some .apply)
    (ran : PrimaryListener.handle blk hdr msg o = (.ok res, o')) :
    o.SameAccounts o' ∨ ∃ m : CreateAccountMsg, msg = .createAccount m ∧ o.hasContract (.account m.user) = .ok false ∧
      o' = o.withAccount m.user m.vk := by
  have unmarked (untouched : ∀ c, msg.Touches hdr c → ∀ u, c ≠ .nonce u) (none : msg.created = none) :
      o.SameAccounts o' := by
    have kept : Exec.Keeps (fun o₁ : Overlay L => o.SameAccounts o₁) (PrimaryListener.handle blk hdr msg) := by
      apply keeps_handle blk
      · intro o₁ c v touched _ same
        have wrote := Overlay.sameAccounts_write (o := o₁) v (untouched c touched)
        exact ⟨fun account => (wrote.applied account).trans (same.applied account),
          fun u => (wrote.nonces u).trans (same.nonces u)⟩
      · intro _ _ created
        rw [none] at created
        cases created
    have after := kept.after (s := o) ⟨fun _ => rfl, fun _ => rfl⟩
    rwa [ran] at after
  cases msg with
  | createAccount m =>
    rcases handle_createAccount ran with ⟨_, wrong, _⟩ | ⟨_, absent, rfl⟩
    · cases wrong
    · exact Or.inr ⟨m, rfl, absent, rfl⟩
  | createToken m =>
    obtain ⟨_, _, _, _, rfl⟩ := handle_createToken_ok ran
    exact Or.inl (Overlay.sameAccounts_withToken current _ _ _)
  | mintToken _ | transferToken _ | buyToken _ | sellToken _ | addWikiEdge _ | removeWikiEdge _ =>
    refine Or.inl (unmarked (fun c touched u => ?_) rfl)
    rintro rfl
    simp [Msg.Touches] at touched

/-- A handler that threw left what belongs to accounts. -/
theorem handle_throw_accounts {e : Exn} (current : o.currentCache = some .apply)
    (ran : PrimaryListener.handle blk hdr msg o = (.error (.throw e), o')) {x : Slot} {a : Ident}
    (account : x.owner = .account a) : o'.applyCache (L.key x) = o.applyCache (L.key x) := by
  obtain ⟨_, _, ⟨_, same⟩ | ⟨_, t, _, _, same⟩⟩ := handle_throw current ran
  · rw [same]
  · rw [same]
    exact Function.update_of_ne (L.key_ne_of_kinds account (y := .contract (.token t)) rfl) ..

theorem handle_ready {res : Response} (current : o.currentCache = some .apply) (recorded : o.Recorded)
    (ran : PrimaryListener.handle blk hdr msg o = (.ok res, o')) : o'.Ready := by
  rcases handle_accounts current ran with same | ⟨m, _, absent, rfl⟩
  · exact same.ready fun a held => Or.inl (recorded a held)
  · exact ready_withAccount m.vk current recorded absent

theorem steady_process_ok {res : Response} (steady : o.Steady) (founded : o.Founded)
    (ran : PrimaryListener.process blk hdr msg o = (.ok res, o')) : o'.Steady ∧ o'.Founded := by
  obtain ⟨o₁, handled, current, rfl⟩ := PrimaryListener.process_ok ran
  have separate := (handle_separate blk).of_ok (s := o.on .apply) ⟨steady.nonceOnly, rfl⟩ handled
  have founded₁ := handle_founded blk hdr msg (Overlay.on_currentCache o .apply) founded
  rw [handled] at founded₁
  have ready := handle_ready (Overlay.on_currentCache o .apply) steady.recorded handled
  exact ⟨Overlay.steady_committed (Overlay.recorded_committed current separate.1 ready) founded₁, founded₁.flushed⟩

theorem steady_process_throw {e : Exn} (steady : o.Steady) (founded : o.Founded)
    (ran : PrimaryListener.process blk hdr msg o = (.error (.throw e), o')) : o'.Steady ∧ o'.Founded := by
  obtain ⟨o₁, handled, rfl⟩ := PrimaryListener.process_throw ran
  have founded₁ := handle_founded blk hdr msg (Overlay.on_currentCache o .apply) founded
  rw [handled] at founded₁
  have checked := (handle_throw (Overlay.on_currentCache o .apply) handled).2.1
  have accounts {x : Slot} {a : Ident} (account : x.owner = .account a) : o₁.applyCache (L.key x) = o.applyCache (L.key x) :=
    handle_throw_accounts (Overlay.on_currentCache o .apply) handled account
  refine ⟨⟨?_, fun _ held => (held rfl).elim, fun ⟨_, held⟩ => (held rfl).elim, ?_, Or.inl founded₁⟩, founded₁⟩
  · intro x a account
    simp only [Overlay.dropped_checkCache, Overlay.dropped_applyCache, checked, accounts account]
    exact steady.agree account
  · intro a held
    simp only [Overlay.dropped_applyCache] at held ⊢
    rw [accounts (x := .contract (.account a)) rfl] at held
    rw [accounts (x := .data (.nonce a)) rfl]
    exact steady.recorded a held

/-! ### Genesis -/

def Overlay.seeded (o : Overlay L) : Overlay L :=
  ((o.on .apply).withAccount genesis.account genesis.verifyKey).withToken genesis.token genesis.token Curve.linear

/-- Genesis succeeds once, on the empty store; later it is refused before anything is written. -/
theorem init_cases (steady : o.Steady) :
    (o.Founded ∧ PrimaryListener.init genesis o =
        (.error (.throw (.error (.contractExists root.prefixedKey))), o.on .apply)) ∨
      ((∀ k, o.applyCache k = none) ∧ (∀ c, o.pending c = none) ∧
        PrimaryListener.init genesis o = (.ok (), o.seeded.committed)) := by
  have switch : Storage.switchToApply o = (.ok (), o.on .apply) := rfl
  have current := Overlay.on_currentCache o .apply
  rcases steady.founded with founded | ⟨clear, nothing⟩
  · have present : (o.on .apply).hasContract root = .ok true := (Overlay.hasContract_true current).mpr founded
    have placed : Overlay.place root (o.on .apply) =
        (.error (.throw (.error (.contractExists root.prefixedKey))), o.on .apply) := by
      have got := Overlay.getContract_apply (o.on .apply) root
      rw [present] at got
      exact Exec.bind_of_ok got
    exact Or.inl ⟨founded, (Exec.bind_of_ok switch).trans (Exec.bind_of_error (Exec.bind_of_error placed))⟩
  · refine Or.inr ⟨clear, nothing, ?_⟩
    have absent : (o.on .apply).hasContract root = .ok false := (Overlay.hasContract_false current).mpr (clear _)
    have account : Storage.create root (Account.init genesis.account genesis.verifyKey) (o.on .apply) =
        (.ok (), (o.on .apply).withAccount genesis.account genesis.verifyKey) :=
      (Exec.bind_of_ok (Overlay.place_of_absent absent)).trans (account_init_apply ..)
    have current' := (Overlay.withAccount_current (o.on .apply) genesis.account genesis.verifyKey).trans current
    have tokenAbsent : ((o.on .apply).withAccount genesis.account genesis.verifyKey).hasContract (.token genesis.token) =
        .ok false := by
      refine (Overlay.hasContract_false current').mpr ?_
      have other : L.key (.contract (.token genesis.token)) ≠ L.key (.contract root) := fun same => by
        cases L.marker_inj same
      rw [Overlay.withAccount_applyCache current]
      exact (Function.update_of_ne other ..).trans (clear _)
    have token : Storage.create (.token genesis.token) (Token.init genesis.token genesis.token Curve.linear)
        ((o.on .apply).withAccount genesis.account genesis.verifyKey) = (.ok (), o.seeded) :=
      (Exec.bind_of_ok (Overlay.place_of_absent tokenAbsent)).trans
        (token_init_apply (Overlay.hasContract_mark_self current' _) rfl)
    have current'' : o.seeded.currentCache = some .apply := (Overlay.withToken_current ..).trans current'
    have flushed : Storage.flush o.seeded = (.ok (), o.seeded.committed) :=
      Overlay.flush_apply fun _ => by rw [current'']; simp
    exact (Exec.bind_of_ok switch).trans ((Exec.bind_of_ok account).trans ((Exec.bind_of_ok token).trans flushed))

omit [DecidableEq K] in
theorem separate_of_no_balances (none : ∀ t w, o.pending (.balances t w) = none) : o.Separate := by
  intro c d first _ same
  rcases L.cell_eq same with same | ⟨_, _, _, _, rfl, _⟩
  · exact same
  · exact (first (none ..)).elim

theorem seeded_facts (steady : o.Steady) (clear : ∀ k, o.applyCache k = none) (nothing : ∀ c, o.pending c = none) :
    o.seeded.currentCache = some .apply ∧ o.seeded.Separate ∧ o.seeded.Ready ∧ o.seeded.Founded := by
  have current := Overlay.on_currentCache o .apply
  have current' := (Overlay.withAccount_current (o.on .apply) genesis.account genesis.verifyKey).trans current
  have absent : (o.on .apply).hasContract root = .ok false := (Overlay.hasContract_false current).mpr (clear _)
  refine ⟨(Overlay.withToken_current ..).trans current', separate_of_no_balances fun t w => ?_, ?_, ?_⟩
  · rw [Overlay.seeded, Overlay.withToken_pending_ne _ _ _ (by simp), Overlay.withAccount_pending_ne _ _ (by simp)]
    exact nothing _
  · exact (Overlay.sameAccounts_withToken current' _ _ _).ready
      (ready_withAccount genesis.verifyKey current steady.recorded absent)
  · have founded : ((o.on .apply).withAccount genesis.account genesis.verifyKey).Founded := by
      rw [Overlay.Founded, Overlay.withAccount_applyCache current]
      exact Function.update_self ..
    exact founded_mark current' founded

theorem steady_init {outcome : Except Stop Unit} (steady : o.Steady)
    (ran : PrimaryListener.init genesis o = (outcome, o')) : o'.Steady := by
  rcases init_cases steady with ⟨_, refused⟩ | ⟨clear, nothing, seeded⟩
  · obtain ⟨_, rfl⟩ := Prod.mk.inj (ran.symm.trans refused)
    exact steady.on .apply
  · obtain ⟨_, rfl⟩ := Prod.mk.inj (ran.symm.trans seeded)
    obtain ⟨current, separate, ready, founded⟩ := seeded_facts steady clear nothing
    exact Overlay.steady_committed (Overlay.recorded_committed current separate ready) founded

/-- Every call that leaves the process running keeps the invariant. -/
theorem steady_effect [Sha256] {call : Call} {outcome : Except Stop ByteString} {notices : List Notice} {block : BlockMsg}
    (steady : o.Steady) (effect : Effect o blk call outcome o' notices block) (alive : outcome ≠ .error .crash) :
    o'.Steady := by
  cases effect with
  | genesis ran => exact steady_init steady ran
  | genesisRefused ran => exact steady_init steady ran
  | begun => exact steady.dropped
  | unchecked _ => exact steady
  | checked _ ran => exact (steady_validate steady ran).1
  | malformed _ => exact steady
  | refused _ ran => exact (steady_validate steady ran).1
  | undecoded _ ran _ => exact (steady_validate steady ran).1
  | @failed _ _ e _ _ _ _ _ _ _ _ _ validated _ ran =>
    obtain ⟨steady, founded⟩ := steady_validate steady validated
    cases e with
    | crash => exact (alive rfl).elim
    | throw e => exact (steady_process_throw steady (founded rfl) ran).1
  | applied _ validated _ ran =>
    obtain ⟨steady, founded⟩ := steady_validate steady validated
    exact (steady_process_ok steady (founded rfl) ran).1
  | committed ran =>
    obtain ⟨_, rfl⟩ := Prod.mk.inj ((PrimaryListener.commit_apply _ steady.selected).symm.trans ran)
    exact steady.committed

end BandChain
