import BandChain.Listener.Typed
import BandChain.Net.Caught

/-! Which states make the contracts and the primary listener end with what `tmapp` does not catch. -/

namespace BandChain

open Exec (Fails fails_bind)

/-! ### Contracts -/

/-- The program keeps `P`, and throws only what is caught. -/
def Civil [Memory] {σ α : Type} (P : σ → Prop) (x : Exec Stop σ α) : Prop := Exec.Triple P x (fun _ => P) (fun e _ => ¬ e.Uncaught)

section

variable {K α β : Type} {L : Layout K} {P : Overlay L → Prop} [Memory]

theorem Civil.bind {x : Exec Stop (Overlay L) α} {f : α → Exec Stop (Overlay L) β} (first : Civil P x) (rest : ∀ a, Civil P (f a)) :
    Civil P (x >>= f) := Exec.Triple.bind first rest

theorem civil_pure (a : α) : Civil P (pure a : Exec Stop (Overlay L) α) := Exec.Triple.pure fun _ => id

theorem civil_error (e : Error) : Civil P (Exec.stop (.throw (.error e)) : Exec Stop (Overlay L) α) :=
  Exec.Triple.stop fun _ _ => nofun

theorem civil_answer {x : Except Stop α} (caught : ¬ Fatal x) : Civil P (Exec.ofExcept x : Exec Stop (Overlay L) α) := by
  intro o before
  cases x with
  | ok a => exact before
  | error e => exact fun uncaught => caught ⟨e, rfl, uncaught⟩

theorem existence_caught {k : ContractKey} {held : Option ByteString} : ¬ Fatal (Overlay.existence k held) := by
  rintro ⟨_, failed, uncaught⟩
  unfold Overlay.existence at failed
  split at failed
  · cases failed
  · split at failed
    · cases failed
    · cases failed
      cases uncaught

theorem hasContract_caught {o : Overlay L} (selected : o.currentCache ≠ none) (k : ContractKey) : ¬ Fatal (o.hasContract k) := by
  obtain ⟨mode, current⟩ := Option.ne_none_iff_exists'.mp selected
  rw [Overlay.hasContract_of_current current]
  exact existence_caught

theorem civil_getContract (selected : ∀ o, P o → o.currentCache ≠ none) (k : ContractKey) : Civil P (Overlay.getContract k) := by
  intro o before
  rw [Overlay.getContract_apply]
  rcases answer : o.hasContract k with e | found
  · exact fun uncaught => hasContract_caught (selected o before) k ⟨e, answer, uncaught⟩
  · exact before

theorem civil_load (selected : ∀ o, P o → o.currentCache ≠ none) (k : ContractKey) : Civil P (Overlay.load k) := by
  apply (civil_getContract selected k).bind
  intro found
  cases found with
  | true => exact civil_pure ()
  | false => exact civil_error _

theorem civil_read {c : Cell} (legible : ∀ o, P o → ¬ Fatal (o.value c)) : Civil P (Overlay.read c) := by
  intro o before
  rw [Overlay.read_apply]
  rcases answer : o.value c with e | val
  · exact fun uncaught => legible o before ⟨e, answer, uncaught⟩
  · exact before

theorem civil_assign {c : Cell} {val : c.Val} (whole : intact val = true) (writes : ∀ o, P o → P (o.write c val)) :
    Civil P (Overlay.assign c val) := by
  intro o before
  rw [Overlay.assign_of_intact whole]
  exact writes o before

theorem civil_place [DecidableEq K] (selected : ∀ o, P o → o.currentCache ≠ none) {k : ContractKey}
    (marks : ∀ o, P o → P (o.mark k)) : Civil P (Overlay.place k) := by
  apply (civil_getContract selected k).bind
  intro found
  cases found with
  | true => exact civil_error _
  | false => exact fun o before => marks o before

/-- A cell whose type has no null pointers and is read or refused. -/
theorem value_caught {o : Overlay L} {c : Cell} {mode : PrimaryMode} (current : o.currentCache = some mode)
    (always : ∀ val : c.Val, intact val = true) (reads : ∀ {buf}, ¬ Fails Stop.Uncaught (Serial.read (α := c.Val)) buf) :
    ¬ Fatal (o.value c) := by
  rcases pending : o.pending c with _ | val
  · rw [Overlay.value_eq_decoded current pending always]
    cases o.map mode (L.key (.data c)) with
    | none => exact not_fatal_ok
    | some raw => exact fun failed => reads (fatal_result.mp failed)
  · rw [Overlay.value_of_pending pending (always val)]
    exact not_fatal_ok

/-- The states that a handler runs in. -/
def Legal (o : Overlay L) : Prop := o.currentCache = some .apply ∧ o.Typed

omit [Memory] in
theorem Legal.selected {o : Overlay L} (legal : Legal o) : o.currentCache ≠ none := by
  rw [legal.1]
  nofun

omit [Memory] in
theorem Legal.write {o : Overlay L} {c : Cell} {val : c.Val} (whole : intact val = true) (legal : Legal o) : Legal (o.write c val) :=
  ⟨legal.1, legal.2.write whole⟩

omit [Memory] in
theorem Legal.mark [DecidableEq K] {o : Overlay L} {k : ContractKey} (legal : Legal o) : Legal (o.mark k) :=
  ⟨(Overlay.mark_currentCache o k).trans legal.1, legal.2.mark legal.1 k⟩

theorem legal_load (k : ContractKey) : Civil (Legal (L := L)) (Overlay.load k) := civil_load (fun _ => Legal.selected) k

theorem legal_balance (t w : Ident) : Civil (Legal (L := L)) (Overlay.read (.balances t w)) :=
  civil_read fun _ legal => value_caught (c := .balances t w) legal.1 (fun _ => rfl) uint256_fails

theorem legal_supply (t : Ident) : Civil (Legal (L := L)) (Overlay.read (.currentSupply t)) :=
  civil_read fun _ legal => value_caught (c := .currentSupply t) legal.1 (fun _ => rfl) uint256_fails

theorem legal_base (t : Ident) : Civil (Legal (L := L)) (Overlay.read (.baseIdent t)) := by
  refine civil_read fun o ⟨current, typed⟩ => ?_
  rcases typed.value current (L.own_baseIdent t) with ⟨val, read, _⟩ | ⟨clear, nothing⟩
  · rw [read]
    exact not_fatal_ok
  · rw [Overlay.value_eq_decoded (c := .baseIdent t) current clear fun _ => rfl, Overlay.map_apply, nothing]
    exact not_fatal_ok

theorem legal_assign {c : Cell} {val : c.Val} (whole : intact val = true) : Civil (Legal (L := L)) (Overlay.assign c val) :=
  civil_assign whole fun _ => Legal.write whole

/-- A token with a curve. -/
def Priced (t : Ident) (o : Overlay L) : Prop := Legal o ∧ o.applyCache (L.key (.data (.curveData t))) ≠ none

theorem priced_curve (t : Ident) :
    Exec.Triple (Priced (L := L) t) (Overlay.read (.curveData t)) (fun _ => Legal) (fun e _ => ¬ e.Uncaught) := by
  rintro o ⟨legal, present⟩
  rw [Overlay.read_apply]
  rcases legal.2.value legal.1 (L.own_curveData t) with ⟨val, read, _⟩ | ⟨_, nothing⟩
  · rw [read]
    exact legal
  · exact (present nothing).elim

variable [DecidableEq K]

theorem legal_place (k : ContractKey) : Civil (Legal (L := L)) (Overlay.place k) :=
  civil_place (fun _ => Legal.selected) fun _ => Legal.mark

theorem civil_account_init (self : Ident) (verifyKey : VerifyKey) : Civil (Legal (L := L)) (Account.init self verifyKey) :=
  (legal_assign (c := .verifyKey self) rfl).bind fun _ => legal_assign (c := .nonce self) rfl

theorem civil_token_init {self baseToken : Ident} {curve : Curve} (whole : intact curve = true) :
    Civil (Legal (L := L)) (Token.init self baseToken curve) :=
  (legal_load (.token baseToken)).bind fun _ => (legal_assign (c := .curveData self) whole).bind fun _ =>
    (legal_assign (c := .baseIdent self) rfl).bind fun _ => legal_assign (c := .currentSupply self) rfl

theorem civil_mint (self receiver : Ident) (value : UInt256) : Civil (Legal (L := L)) (Token.mint self receiver value) :=
  (legal_balance self receiver).bind fun _ => (civil_answer add_caught).bind fun _ =>
    (legal_assign (c := .balances self receiver) rfl).bind fun _ => (legal_supply self).bind fun _ =>
      (civil_answer add_caught).bind fun _ => legal_assign (c := .currentSupply self) rfl

theorem civil_transfer (self src dst : Ident) (value : UInt256) : Civil (Legal (L := L)) (Token.transfer self src dst value) := by
  apply (legal_balance self src).bind
  intro held
  split
  · exact civil_error _
  exact (legal_balance self src).bind fun _ => (civil_answer sub_caught).bind fun _ =>
    (legal_assign (c := .balances self src) rfl).bind fun _ => (legal_balance self dst).bind fun _ =>
      (civil_answer add_caught).bind fun _ => legal_assign (c := .balances self dst) rfl

theorem civil_buy (self buyer : Ident) (value : UInt256) :
    Exec.Triple (Priced (L := L) self) (Token.buy self buyer value) (fun _ => Legal) (fun e _ => ¬ e.Uncaught) := by
  apply (priced_curve self).bind
  intro curve
  apply (legal_base self).bind
  intro baseToken
  apply (legal_load (.token baseToken)).bind
  intro _
  apply (legal_supply self).bind
  intro supply
  apply (civil_answer add_caught).bind
  intro raised
  apply (civil_answer curve_caught).bind
  intro upper
  apply (civil_answer curve_caught).bind
  intro lower
  apply (civil_answer sub_caught).bind
  intro buyTokens
  apply (legal_balance baseToken buyer).bind
  intro held
  split
  · exact civil_error _
  exact (legal_balance baseToken buyer).bind fun _ => (civil_answer sub_caught).bind fun _ =>
    (legal_assign (c := .balances baseToken buyer) rfl).bind fun _ => (legal_balance self buyer).bind fun _ =>
      (civil_answer add_caught).bind fun _ => (legal_assign (c := .balances self buyer) rfl).bind fun _ =>
        (legal_supply self).bind fun _ => (civil_answer add_caught).bind fun _ =>
          (legal_assign (c := .currentSupply self) rfl).bind fun _ => civil_pure _

theorem civil_sell (self seller : Ident) (value : UInt256) :
    Exec.Triple (Priced (L := L) self) (Token.sell self seller value) (fun _ => Legal) (fun e _ => ¬ e.Uncaught) := by
  apply (priced_curve self).bind
  intro curve
  apply (legal_base self).bind
  intro baseToken
  apply (legal_load (.token baseToken)).bind
  intro _
  apply (legal_balance self seller).bind
  intro held
  split
  · exact civil_error _
  apply (legal_supply self).bind
  intro supply
  apply (civil_answer curve_caught).bind
  intro upper
  apply (civil_answer sub_caught).bind
  intro lowered
  apply (civil_answer curve_caught).bind
  intro lower
  apply (civil_answer sub_caught).bind
  intro sellTokens
  exact (legal_balance self seller).bind fun _ => (civil_answer sub_caught).bind fun _ =>
    (legal_assign (c := .balances self seller) rfl).bind fun _ => (legal_balance baseToken seller).bind fun _ =>
      (civil_answer add_caught).bind fun _ => (legal_assign (c := .balances baseToken seller) rfl).bind fun _ =>
        (legal_supply self).bind fun _ => (civil_answer sub_caught).bind fun _ =>
          (legal_assign (c := .currentSupply self) rfl).bind fun _ => civil_pure _

/-! ### The listener -/

/-- A trade in a token that exists without a curve. Copying its null equation ends the process. -/
def Msg.Bare (L : Layout K) (applied : K → Option ByteString) : Msg → Prop
  | buyToken { token, .. } | sellToken { token, .. } =>
    applied (L.key (.contract (.token token))) = some (ContractKey.token token).prefixedKey ∧
      applied (L.key (.data (.curveData token))) = none
  | createAccount _ | createToken _ | mintToken _ | transferToken _ | addWikiEdge _ | removeWikiEdge _ => False

omit [Memory] in
/-- A message that was read can be copied. -/
theorem Msg.intact_of_read {type : MsgType} {msg : Msg} {buf rest : ByteString} (ran : Msg.read type buf = (.ok msg, rest)) : msg.Intact := by
  cases type with
  | createToken =>
    obtain ⟨_, _, body, made⟩ := Exec.bind_ok ran
    obtain ⟨_, _, _, body⟩ := Exec.bind_ok body
    obtain ⟨_, _, _, body⟩ := Exec.bind_ok body
    obtain ⟨_, _, curve, last⟩ := Exec.bind_ok body
    cases made
    cases last
    exact BandChain.intact_of_read curve
  | createAccount | mintToken | transferToken | buyToken | sellToken | addWikiEdge | removeWikiEdge =>
    obtain ⟨_, _, _, made⟩ := Exec.bind_ok ran
    cases made
    trivial

variable {o o' : Overlay L} {hdr : HeaderMsg} {msg : Msg}

/-- A load, and what is done with a contract that exists. -/
theorem fails_load {k : ContractKey} {f : Unit → Exec Stop (Overlay L) α} (legal : Legal o)
    (rest : o.hasContract k = .ok true → ¬ Fails Stop.Uncaught (f ()) o) : ¬ Fails Stop.Uncaught (Storage.load k >>= f) o := by
  rw [fails_bind]
  rintro (⟨e, _, failed, uncaught⟩ | ⟨_, _, loaded, failed⟩)
  · exact (legal_load k).of_error legal failed uncaught
  · obtain ⟨rfl, found⟩ := Overlay.load_ok loaded
    exact rest found failed

omit [DecidableEq K] in
theorem fails_of_civil {P : Overlay L → Prop} {x : Exec Stop (Overlay L) α} {Q : α → Overlay L → Prop}
    (civil : Exec.Triple P x Q (fun e _ => ¬ e.Uncaught)) (before : P o) : ¬ Fails Stop.Uncaught x o := by
  rintro ⟨e, _, failed, uncaught⟩
  exact civil.of_error before failed uncaught

theorem handle_caught (blk : BlockMsg) (whole : msg.Intact) (legal : Legal o) (priced : ¬ msg.Bare L o.applyCache) :
    ¬ Fails Stop.Uncaught (PrimaryListener.handle blk hdr msg) o := by
  have traded (t : Ident) (bare : ¬ (o.applyCache (L.key (.contract (.token t))) = some (ContractKey.token t).prefixedKey ∧
      o.applyCache (L.key (.data (.curveData t))) = none)) (found : o.hasContract (.token t) = .ok true) : Priced t o :=
    ⟨legal, fun nothing => bare ⟨(Overlay.hasContract_true legal.1).mp found, nothing⟩⟩
  cases msg with
  | createAccount m =>
    exact fails_of_civil (((legal_place _).bind fun _ => civil_account_init m.user m.vk).bind fun _ => civil_pure _) legal
  | createToken m =>
    exact fails_of_civil (((legal_place _).bind fun _ => civil_token_init whole).bind fun _ => civil_pure _) legal
  | mintToken m => exact fails_of_civil ((legal_load _).bind fun _ => (civil_mint m.token hdr.user m.value).bind fun _ => civil_pure _) legal
  | transferToken m => exact fails_of_civil ((legal_load _).bind fun _ => (civil_transfer m.token hdr.user m.dest m.value).bind fun _ => civil_pure _) legal
  | buyToken m =>
    exact fails_load legal fun found => fails_of_civil ((civil_buy m.token hdr.user m.value).bind fun _ =>
      (legal_base m.token).bind fun _ => civil_pure _) (traded _ priced found)
  | sellToken m =>
    exact fails_load legal fun found => fails_of_civil ((civil_sell m.token hdr.user m.value).bind fun _ =>
      (legal_base m.token).bind fun _ => civil_pure _) (traded _ priced found)
  | addWikiEdge m => exact fails_of_civil (civil_pure _) legal
  | removeWikiEdge m => exact fails_of_civil (civil_pure _) legal

omit [Memory] in
/-- A trade in a token without a curve ends the process. -/
theorem handle_bare (blk : BlockMsg) (hdr : HeaderMsg) (current : o.currentCache = some .apply) (clear : ∀ t, o.pending (.curveData t) = none)
    (bare : msg.Bare L o.applyCache) : ∃ o', PrimaryListener.handle blk hdr msg o = (.error .crash, o') := by
  have trade (t : Ident) (bare : o.applyCache (L.key (.contract (.token t))) = some (ContractKey.token t).prefixedKey ∧
      o.applyCache (L.key (.data (.curveData t))) = none) :
      Storage.load (.token t) o = (.ok (), o) ∧ Storage.read (.curveData t) o = (.error .crash, o) := by
    refine ⟨Overlay.load_of_found ((Overlay.hasContract_true current).mpr bare.1), Prod.ext ?_ rfl⟩
    refine (Overlay.value_of_clear current (clear t)).trans ?_
    rw [Overlay.map_apply, bare.2]
    rfl
  cases msg with
  | buyToken m | sellToken m =>
    obtain ⟨loaded, crashed⟩ := trade m.token bare
    exact ⟨o, (Exec.bind_of_ok loaded).trans (Exec.bind_of_error (Exec.bind_of_error crashed))⟩
  | createAccount _ | createToken _ | mintToken _ | transferToken _ | addWikiEdge _ | removeWikiEdge _ => exact bare.elim

theorem fatal_process (blk : BlockMsg) (hdr : HeaderMsg) (whole : msg.Intact) (only : o.NonceOnly) (typed : o.Typed) :
    Fatal (PrimaryListener.process blk hdr msg o).1 ↔ msg.Bare L o.applyCache := by
  have current := Overlay.on_currentCache o .apply
  constructor
  · intro failed
    by_contra priced
    have caught : ¬ Fails Stop.Uncaught (PrimaryListener.handle blk hdr msg) (o.on .apply) :=
      handle_caught blk whole ⟨current, typed.on .apply⟩ priced
    refine caught ?_
    rw [PrimaryListener.process_eq] at failed
    rcases ran : PrimaryListener.handle blk hdr msg (o.on .apply) with ⟨(e | _) | res, o₁⟩ <;> rw [ran] at failed
    · obtain ⟨_, same, uncaught⟩ := failed
      exact ⟨_, _, ran, Except.error.inj same ▸ uncaught⟩
    · exact ⟨_, _, ran, trivial⟩
    · exact (not_fatal_ok failed).elim
  · intro bare
    have clear (t : Ident) : o.pending (.curveData t) = none := by
      by_contra held
      obtain ⟨_, wrong⟩ := only _ held
      cases wrong
    obtain ⟨o₁, crashed⟩ := handle_bare blk hdr current clear bare
    rw [PrimaryListener.process_eq, crashed]
    exact ⟨.crash, rfl, trivial⟩

theorem fatal_validate (mode : PrimaryMode) (hdr : HeaderMsg) (data : ByteString) (o : Overlay L) :
    ¬ Fatal (PrimaryListener.validateTransaction mode hdr data o).1 := by
  let Selected (o : Overlay L) : Prop := o.currentCache = some mode
  have load : Civil Selected (Overlay.load (.account hdr.user)) :=
    civil_load (fun o (current : o.currentCache = some mode) => by rw [current]; nofun) _
  have nonce : Civil Selected (Account.setNonce hdr.user hdr.nonce) := by
    refine Civil.bind (civil_read fun o current => value_caught (c := .nonce hdr.user) current (fun _ => rfl) uint256_fails) ?_
    intro stored
    split
    · exact civil_error _
    · exact civil_assign (c := .nonce hdr.user) rfl fun _ => id
  rw [PrimaryListener.validate_eq]
  rintro ⟨e, failed, uncaught⟩
  exact (load.bind fun _ => nonce).of_error (Overlay.on_currentCache o mode) (Prod.ext failed rfl) uncaught

end

end BandChain
