import BandChain.Contract.Ledger
import BandChain.Listener.Typed

/-! What every call writes in the ledger, by what the listeners are told of it. -/

namespace BandChain

/-- What a handler that returned wrote in the ledger. -/
def Msg.entry (hdr : HeaderMsg) : Msg → Response → Option (Ledger.Entry Ident Ident)
  | .createToken msg, _ => some (.create msg.createdToken msg.baseToken)
  | .mintToken msg, _ => some (.mint msg.token hdr.user msg.value.val)
  | .transferToken msg, _ => some (.transfer msg.token hdr.user msg.dest msg.value.val)
  | .buyToken msg, .buyToken res => some (.buy msg.token res.baseToken hdr.user msg.value.val res.spent.val)
  | .sellToken msg, .sellToken res => some (.sell msg.token res.baseToken hdr.user msg.value.val res.received.val)
  | _, _ => none

def Notice.entry : Notice → Option (Ledger.Entry Ident Ident)
  | .init genesis => some (.create genesis.token genesis.token)
  | .handle _ hdr msg res => msg.entry hdr res
  | .begin _ | .commit _ => none

def entries (notices : List Notice) : List (Ledger.Entry Ident Ident) := notices.filterMap Notice.entry

variable {K : Type} [DecidableEq K] {L : Layout K} {o o' o₁ : Overlay L} {blk : BlockMsg} {hdr : HeaderMsg} {msg : Msg}

/-- A store in apply mode, and the store after an entry was made in it. -/
inductive Posted (o : Overlay L) : Ledger.Entry Ident Ident → Overlay L → Prop
  | created {t base curve} (absent : o.hasContract (.token t) = .ok false)
      (based : (o.mark (.token t)).hasContract (.token base) = .ok true) (whole : intact curve = true) :
      Posted o (.create t base) (o.withToken t base curve)
  | minted {t u v} (found : o.hasContract (.token t) = .ok true) (p : Minted o t u v) : Posted o (.mint t u v.val) p.after
  | transferred {t src dst v} (found : o.hasContract (.token t) = .ok true) (p : Transferred o t src dst v) :
      Posted o (.transfer t src dst v.val) p.after
  | bought {t u v} (found : o.hasContract (.token t) = .ok true) (p : Purchase o t u v) :
      Posted o (.buy t p.baseToken u v.val p.spent.val) p.after
  | sold {t u v} (found : o.hasContract (.token t) = .ok true) (p : Sale o t u v) :
      Posted o (.sell t p.baseToken u v.val p.received.val) p.after

namespace Overlay

/-- Two stores in apply mode with the same tokens. -/
structure Tokenwise (o o' : Overlay L) : Prop where
  current : o.currentCache = some .apply
  current' : o'.currentCache = some .apply
  slots : ∀ {x : Slot} {t : Ident}, x.owner = .token t → o'.applyCache (L.key x) = o.applyCache (L.key x)
  pending : ∀ {c : Cell} {t : Ident}, c.contract = .token t → o'.pending c = o.pending c

namespace Tokenwise

omit [DecidableEq K] in
theorem refl (current : o.currentCache = some .apply) : o.Tokenwise o := ⟨current, current, fun _ => rfl, fun _ => rfl⟩

omit [DecidableEq K] in
theorem trans (h : o.Tokenwise o₁) (h' : o₁.Tokenwise o') : o.Tokenwise o' where
  current := h.current
  current' := h'.current'
  slots owner := (h'.slots owner).trans (h.slots owner)
  pending contract := (h'.pending contract).trans (h.pending contract)

omit [DecidableEq K] in
theorem value (h : o.Tokenwise o') {c : Cell} {t : Ident} (contract : c.contract = .token t) : o'.value c = o.value c := by
  rw [Overlay.value, Overlay.value, h.pending contract, stored_of_current h.current, stored_of_current h.current', map_apply,
    map_apply, h.slots (x := .data c) contract]

omit [DecidableEq K] in
theorem hasContract (h : o.Tokenwise o') (t : Ident) : o'.hasContract (.token t) = o.hasContract (.token t) := by
  rw [hasContract_of_current h.current, hasContract_of_current h.current', map_apply, map_apply, h.slots rfl]

end Tokenwise

theorem tokenwise_withAccount (current : o.currentCache = some .apply) (a : Ident) (verifyKey : VerifyKey) :
    o.Tokenwise (o.withAccount a verifyKey) where
  current := current
  current' := (withAccount_current ..).trans current
  slots owner := by
    rw [withAccount_applyCache current]
    exact Function.update_of_ne (L.key_ne_of_kinds (x := .contract (.account a)) rfl owner).symm ..
  pending {c} _ contract := withAccount_pending_ne _ _ (by constructor <;> rintro rfl <;> cases contract)

end Overlay

open Overlay (Tokenwise tokenwise_withAccount)

theorem posted_buy {m : BuyTokenMsg} {res : Response} (ran : PrimaryListener.handle blk hdr (.buyToken m) o = (.ok res, o')) :
    ∃ p : Purchase o m.token hdr.user m.value, o.hasContract (.token m.token) = .ok true ∧
      res = .buyToken { baseToken := p.baseToken, spent := p.spent } ∧ o' = p.after := by
  obtain ⟨_, _, loaded, ran⟩ := Exec.bind_ok ran
  obtain ⟨rfl, found⟩ := Overlay.load_ok loaded
  obtain ⟨_, _, bought, ran⟩ := Exec.bind_ok ran
  obtain ⟨p, rfl, rfl⟩ := buy_ok bought
  obtain ⟨base, _, read, ran⟩ := Exec.bind_ok ran
  obtain ⟨rfl, named⟩ := Overlay.read_ok read
  obtain ⟨same, rfl⟩ := Prod.mk.inj ran
  rw [Purchase.after, Overlay.write_value_ne _ _ _ (by simp), Overlay.write_value_ne _ _ _ (by simp),
    Overlay.write_value_ne _ _ _ (by simp), p.base_read] at named
  cases named
  exact ⟨p, found, (Except.ok.inj same).symm, rfl⟩

theorem posted_sell {m : SellTokenMsg} {res : Response} (ran : PrimaryListener.handle blk hdr (.sellToken m) o = (.ok res, o')) :
    ∃ p : Sale o m.token hdr.user m.value, o.hasContract (.token m.token) = .ok true ∧
      res = .sellToken { baseToken := p.baseToken, received := p.received } ∧ o' = p.after := by
  obtain ⟨_, _, loaded, ran⟩ := Exec.bind_ok ran
  obtain ⟨rfl, found⟩ := Overlay.load_ok loaded
  obtain ⟨_, _, sold, ran⟩ := Exec.bind_ok ran
  obtain ⟨p, rfl, rfl⟩ := sell_ok sold
  obtain ⟨base, _, read, ran⟩ := Exec.bind_ok ran
  obtain ⟨rfl, named⟩ := Overlay.read_ok read
  obtain ⟨same, rfl⟩ := Prod.mk.inj ran
  rw [Sale.after, Overlay.write_value_ne _ _ _ (by simp), Overlay.write_value_ne _ _ _ (by simp),
    Overlay.write_value_ne _ _ _ (by simp), p.base_read] at named
  cases named
  exact ⟨p, found, (Except.ok.inj same).symm, rfl⟩

/-- A handler that returned made the entry of its message, or left the tokens. -/
theorem posted_handle {res : Response} (current : o.currentCache = some .apply)
    (ran : PrimaryListener.handle blk hdr msg o = (.ok res, o')) :
    ((∀ res, msg.entry hdr res = none) ∧ o.Tokenwise o') ∨ ∃ e, msg.entry hdr res = some e ∧ Posted o e o' := by
  cases msg with
  | createAccount m =>
    rcases handle_createAccount ran with ⟨_, wrong, _⟩ | ⟨same, _, rfl⟩
    · cases wrong
    · exact Or.inl ⟨fun _ => rfl, tokenwise_withAccount current m.user m.vk⟩
  | createToken m =>
    obtain ⟨_, absent, based, whole, rfl⟩ := handle_createToken_ok ran
    exact Or.inr ⟨_, rfl, .created absent based whole⟩
  | mintToken m =>
    obtain ⟨_, _, loaded, ran⟩ := Exec.bind_ok ran
    obtain ⟨rfl, found⟩ := Overlay.load_ok loaded
    obtain ⟨_, _, minted, ran⟩ := Exec.bind_ok ran
    obtain ⟨_, rfl⟩ := Prod.mk.inj ran
    obtain ⟨p, rfl⟩ := mint_ok minted
    exact Or.inr ⟨_, rfl, .minted found p⟩
  | transferToken m =>
    obtain ⟨_, _, loaded, ran⟩ := Exec.bind_ok ran
    obtain ⟨rfl, found⟩ := Overlay.load_ok loaded
    obtain ⟨_, _, moved, ran⟩ := Exec.bind_ok ran
    obtain ⟨_, rfl⟩ := Prod.mk.inj ran
    obtain ⟨p, rfl⟩ := transfer_ok moved
    exact Or.inr ⟨_, rfl, .transferred found p⟩
  | buyToken m =>
    obtain ⟨p, found, rfl, rfl⟩ := posted_buy ran
    exact Or.inr ⟨_, rfl, .bought found p⟩
  | sellToken m =>
    obtain ⟨p, found, rfl, rfl⟩ := posted_sell ran
    exact Or.inr ⟨_, rfl, .sold found p⟩
  | addWikiEdge _ | removeWikiEdge _ =>
    obtain ⟨_, rfl⟩ := Prod.mk.inj ran
    exact Or.inl ⟨fun _ => rfl, .refl current⟩

/-! ### Calls -/

/-- The call is a transaction that comes to the handlers as `msg`, with the header `hdr`. -/
def Handed {σ : Type} [Storage σ] [Sha256] (s : σ) (call : Call) (hdr : HeaderMsg) (msg : Msg) : Prop :=
  ∃ raw rawResult data type buf rest, call = .applyTransaction raw rawResult ∧
    ListenerManager.parseTx raw = .ok (hdr, data, type, buf) ∧
    (PrimaryListener.validateTransaction .apply hdr data s).1 = .ok () ∧
    ListenerManager.consume (Msg.read type) buf = .ok (msg, rest)

/-- The entry of genesis. -/
def founding : Ledger.Entry Ident Ident := .create ListenerManager.genesis.token ListenerManager.genesis.token

/-- The tokens of a store from call to call, in apply mode, and the entries made on the way; the messages that come to the
handlers are those `handed`. -/
inductive Turn (o : Overlay L) (handed : HeaderMsg → Msg → Prop) : List (Ledger.Entry Ident Ident) → Overlay L → Prop
  | still {p : Overlay L} (same : o.Tokenwise p) : Turn o handed [] p
  | leaked {hdr : HeaderMsg} {msg : Msg} {t : Ident} {p : Overlay L} (sent : handed hdr msg) (leaks : msg.Leaks L o.applyCache)
      (absent : o.hasContract (.token t) = .ok false) (same : (o.mark (.token t)).Tokenwise p) : Turn o handed [] p
  | posted {e : Ledger.Entry Ident Ident} {p q : Overlay L}
      (source : e = founding ∨ ∃ hdr msg res, handed hdr msg ∧ Msg.entry hdr msg res = some e) (same : o.Tokenwise p)
      (change : Posted p e q) (separate : q.Separate) (whole : ∀ c val, q.pending c = some val → intact val = true) :
      Turn o handed [e] q.rewound

namespace Overlay

omit [DecidableEq K] in
theorem NonceOnly.token (only : o.NonceOnly) {c : Cell} {t : Ident} (contract : c.contract = .token t) : o.pending c = none := by
  by_contra held
  obtain ⟨_, rfl⟩ := only c held
  cases contract

omit [DecidableEq K] in
theorem tokenwise_on (only : o.NonceOnly) (only' : o'.NonceOnly)
    (slots : ∀ {x : Slot} {t : Ident}, x.owner = .token t → o'.applyCache (L.key x) = o.applyCache (L.key x)) :
    (o.on .apply).Tokenwise (o'.on .apply) where
  current := rfl
  current' := rfl
  slots := slots
  pending contract := (only'.token contract).trans (only.token contract).symm

omit [DecidableEq K] in
/-- A flush of what belongs to accounts leaves the tokens. -/
theorem flushed_token (clear : ∀ {c : Cell} {t : Ident}, c.contract = .token t → o.pending c = none) {x : Slot} {t : Ident}
    (owner : x.owner = .token t) : o.flushed (L.key x) = o.applyCache (L.key x) := by
  refine flushed_untouched fun c same => ?_
  rcases kind : c.contract with a | s
  · exact (L.key_ne_of_kinds (x := .data c) kind owner same).elim
  · exact clear kind

end Overlay

open Overlay (tokenwise_on flushed_token)

theorem validate_applyCache {mode : PrimaryMode} {data : ByteString} {outcome : Except Stop Unit}
    (ran : PrimaryListener.validateTransaction mode hdr data o = (outcome, o')) : o'.applyCache = o.applyCache := by
  rcases outcome with e | _
  · rw [PrimaryListener.validate_error ran]
    rfl
  · obtain ⟨_, _, _, _, rfl⟩ := PrimaryListener.validate_ok ran
    rfl

theorem turn_genesis {handed : HeaderMsg → Msg → Prop} (steady : o.Steady) (typed : o.Typed)
    (ran : PrimaryListener.init ListenerManager.genesis o = (.ok (), o')) :
    Turn (o.on .apply) handed [founding] (o'.on .apply) := by
  rcases init_cases steady with ⟨_, refused⟩ | ⟨clear, nothing, seeded⟩
  · cases ran.symm.trans refused
  obtain ⟨_, rfl⟩ := Prod.mk.inj (ran.symm.trans seeded)
  have same := tokenwise_withAccount (Overlay.on_currentCache o .apply) ListenerManager.genesis.account ListenerManager.genesis.verifyKey
  have absent : (o.on .apply).hasContract (.token ListenerManager.genesis.token) = .ok false :=
    (Overlay.hasContract_false (Overlay.on_currentCache o .apply)).mpr (clear _)
  obtain ⟨_, separate, _, _⟩ := seeded_facts steady clear nothing
  refine .posted (Or.inl rfl) same (.created ((same.hasContract _).trans absent) (Overlay.hasContract_mark_self same.current' _) rfl) separate ?_
  exact ((((((typed.on .apply).mark (Overlay.on_currentCache o .apply) _).write rfl).write rfl).mark same.current' _).write rfl).write rfl
    |>.write rfl |>.whole

/-- An entry made in a store with the tokens of `o`, and waiting to be flushed. -/
structure Entered (o : Overlay L) (e : Ledger.Entry Ident Ident) (p q : Overlay L) : Prop where
  same : o.Tokenwise p
  change : Posted p e q
  separate : q.Separate
  whole : ∀ c val, q.pending c = some val → intact val = true

/-- A message that went through made its entry, or left the tokens. -/
theorem process_entered {mode : PrimaryMode} {data : ByteString} {res : Response} (steady : o.Steady) (typed : o.Typed)
    (validated : PrimaryListener.validateTransaction mode hdr data o = (.ok (), o₁))
    (ran : PrimaryListener.process blk hdr msg o₁ = (.ok res, o')) :
    ((∀ res, msg.entry hdr res = none) ∧ (o.on .apply).Tokenwise (o'.on .apply)) ∨
      ∃ e p q, msg.entry hdr res = some e ∧ Entered (o.on .apply) e p q ∧ o'.on .apply = q.rewound := by
  have only := (steady_validate steady validated).1.nonceOnly
  have same := tokenwise_on steady.nonceOnly only fun _ => congrFun (validate_applyCache validated) _
  obtain ⟨o₂, handled, current, rfl⟩ := PrimaryListener.process_ok ran
  rcases posted_handle (Overlay.on_currentCache o₁ .apply) handled with ⟨silent, tokens⟩ | ⟨e, told, posted⟩
  · have kept := same.trans tokens
    refine Or.inl ⟨silent, tokenwise_on steady.nonceOnly (fun _ held => (held rfl).elim) fun owner => ?_⟩
    exact (flushed_token (fun contract => (kept.pending contract).trans (steady.nonceOnly.token contract)) owner).trans
      (kept.slots owner)
  · have whole := (typed_handle blk hdr msg (Overlay.on_currentCache o₁ .apply) ((typed_validate typed validated).on .apply)).whole
    rw [handled] at whole
    have separate := ((handle_separate blk).of_ok (s := o₁.on .apply) ⟨only, rfl⟩ handled).1
    exact Or.inr ⟨e, _, o₂, told, ⟨same, posted, separate, whole⟩, rfl⟩

/-- Every call that leaves the process running makes the entries it tells of. -/
theorem turn_effect [Sha256] {call : Call} {outcome : Except Stop ByteString} {notices : List Notice} {block : BlockMsg}
    (steady : o.Steady) (typed : o.Typed) (effect : Effect o blk call outcome o' notices block) (alive : outcome ≠ .error .crash) :
    Turn (o.on .apply) (Handed o call) (entries notices) (o'.on .apply) := by
  have steady' := steady_effect steady effect alive
  have still (slots : ∀ {x : Slot} {t : Ident}, x.owner = .token t → o'.applyCache (L.key x) = o.applyCache (L.key x)) :
      Turn (o.on .apply) (Handed o call) [] (o'.on .apply) :=
    .still (tokenwise_on steady.nonceOnly steady'.nonceOnly slots)
  cases effect with
  | genesis ran => exact turn_genesis steady typed ran
  | genesisRefused ran =>
    rcases init_cases steady with ⟨_, refused⟩ | ⟨_, _, seeded⟩
    · obtain ⟨_, rfl⟩ := Prod.mk.inj (ran.symm.trans refused)
      exact still fun _ => rfl
    · cases ran.symm.trans seeded
  | begun => exact still fun _ => rfl
  | unchecked _ => exact still fun _ => rfl
  | checked _ ran => exact still fun _ => congrFun (validate_applyCache ran) _
  | malformed _ => exact still fun _ => rfl
  | refused _ ran => exact still fun _ => congrFun (validate_applyCache ran) _
  | undecoded _ ran _ => exact still fun _ => congrFun (validate_applyCache ran) _
  | @failed raw rawResult e o₁ _ hdr data type buf msg rest parsed validated decoded ran =>
    have handed : Handed o (.applyTransaction raw rawResult) hdr msg :=
      ⟨raw, rawResult, data, type, buf, rest, rfl, parsed, by rw [validated], decoded⟩
    have applied := validate_applyCache validated
    cases e with
    | crash => exact (alive rfl).elim
    | throw e =>
      obtain ⟨o₂, handled, rfl⟩ := PrimaryListener.process_throw ran
      obtain ⟨_, _, ⟨_, kept⟩ | ⟨leaks, t, _, absent, kept⟩⟩ := handle_throw (Overlay.on_currentCache o₁ .apply) handled <;>
        rw [Overlay.on_applyCache, applied] at kept
      · exact still fun _ => congrFun kept _
      · rw [Overlay.on_applyCache, applied] at absent leaks
        refine .leaked (t := t) handed leaks ((Overlay.hasContract_false (Overlay.on_currentCache o .apply)).mpr absent)
          ⟨Overlay.mark_currentCache .., rfl, fun _ => ?_, fun contract => ?_⟩
        · rw [Overlay.mark_apply (Overlay.on_currentCache o .apply)]
          exact congrFun kept _
        · rw [Overlay.mark_pending]
          exact (steady.nonceOnly.token contract).symm
  | @applied raw rawResult o₁ _ hdr data type buf msg rest res parsed validated decoded ran =>
    have handed : Handed o (.applyTransaction raw rawResult) hdr msg :=
      ⟨raw, rawResult, data, type, buf, rest, rfl, parsed, by rw [validated], decoded⟩
    rcases process_entered steady typed validated ran with ⟨silent, tokens⟩ | ⟨e, p, q, told, made, after⟩
    · rw [entries, List.filterMap_cons_none (show Notice.entry (.handle blk hdr msg res) = none from silent res)]
      exact .still tokens
    · rw [entries, List.filterMap_cons_some (show Notice.entry (.handle blk hdr msg res) = some e from told), after]
      exact .posted (Or.inr ⟨hdr, msg, res, handed, told⟩) made.same made.change made.separate made.whole
  | committed ran =>
    obtain ⟨rfl, rfl⟩ := Prod.mk.inj ((PrimaryListener.commit_apply _ steady.selected).symm.trans ran)
    exact still fun owner => flushed_token steady.nonceOnly.token owner

end BandChain
