import BandChain.Contract.Contracts
import BandChain.Store.Overlay

/-! What the contract functions did when they returned, and where they stopped otherwise. -/

namespace BandChain

variable {K : Type} {L : Layout K}

namespace Overlay

theorem load_error {o o' : Overlay L} {k : ContractKey} {e : Stop} (h : load k o = (.error e, o')) :
    o = o' ∧ o.hasContract k ≠ .ok true := by
  rcases Exec.bind_error h with got | ⟨found, _, got, h⟩
  · obtain ⟨answer, rfl⟩ := Prod.mk.inj got
    exact ⟨rfl, by rw [answer]; simp⟩
  · obtain ⟨answer, rfl⟩ := Prod.mk.inj got
    cases found with
    | true => cases h
    | false => exact ⟨(Prod.mk.inj h).2, by rw [answer]; simp⟩

theorem place_error [DecidableEq K] {o o' : Overlay L} {k : ContractKey} {e : Stop} (h : place k o = (.error e, o')) :
    o = o' ∧ o.hasContract k ≠ .ok false := by
  rcases Exec.bind_error h with got | ⟨found, _, got, h⟩
  · obtain ⟨answer, rfl⟩ := Prod.mk.inj got
    exact ⟨rfl, by rw [answer]; simp⟩
  · obtain ⟨answer, rfl⟩ := Prod.mk.inj got
    cases found with
    | true => exact ⟨(Prod.mk.inj h).2, by rw [answer]; simp⟩
    | false => cases h

theorem load_of_missing {o : Overlay L} {mode : PrimaryMode} (current : o.currentCache = some mode) {k : ContractKey}
    (missing : o.hasContract k ≠ .ok true) : ∃ e, load k o = (.error (.throw e), o) := by
  rw [hasContract_of_current current] at missing
  have answer : ∀ held, existence k held ≠ .ok true →
      existence k held = .ok false ∨ ∃ e, existence k held = .error (.throw e) := by
    intro held absent
    cases held with
    | none => exact Or.inl rfl
    | some raw =>
      by_cases same : raw = k.prefixedKey
      · exact (absent (if_pos same)).elim
      · exact Or.inr ⟨_, if_neg same⟩
  have got := getContract_apply o k
  rw [hasContract_of_current current] at got
  rcases answer _ missing with absent | ⟨e, failed⟩
  · rw [absent] at got
    exact ⟨_, Exec.bind_of_ok got⟩
  · rw [failed] at got
    exact ⟨e, Exec.bind_of_error got⟩

theorem load_of_found {o : Overlay L} {k : ContractKey} (found : o.hasContract k = .ok true) : load k o = (.ok (), o) := by
  have got := getContract_apply o k
  rw [found] at got
  exact Exec.bind_of_ok got

theorem place_of_absent [DecidableEq K] {o : Overlay L} {k : ContractKey} (absent : o.hasContract k = .ok false) :
    place k o = (.ok (), o.mark k) := by
  have got := getContract_apply o k
  rw [absent] at got
  exact Exec.bind_of_ok got

theorem assign_of_intact {c : Cell} {val : c.Val} (whole : intact val = true) (o : Overlay L) :
    assign c val o = (.ok (), o.write c val) := by
  rw [assign, Exec.bind_apply, Exec.ofExcept_apply, copy, if_pos whole]
  rfl

theorem assign_crash {o o' : Overlay L} {c : Cell} {val : c.Val} {e : Stop} (h : assign c val o = (.error e, o')) :
    e = .crash := by
  by_cases whole : intact val = true
  · rw [assign_of_intact whole] at h
    cases h
  · rw [assign, Exec.bind_apply, Exec.ofExcept_apply, copy, if_neg whole] at h
    exact (Except.error.inj (Prod.mk.inj h).1).symm

end Overlay

open Exec (bind_ok bind_error ofExcept_ok)

open Overlay (load_ok read_ok assign_ok)

variable [DecidableEq K] {o o' : Overlay L}

def Overlay.withAccount (o : Overlay L) (a : Ident) (verifyKey : VerifyKey) : Overlay L :=
  ((o.mark (.account a)).write (.verifyKey a) verifyKey).write (.nonce a) (0 : UInt256)

def Overlay.withToken (o : Overlay L) (t baseToken : Ident) (curve : Curve) : Overlay L :=
  (((o.mark (.token t)).write (.curveData t) curve).write (.baseIdent t) baseToken).write (.currentSupply t) (0 : UInt256)

namespace Overlay

theorem withAccount_current (o : Overlay L) (a : Ident) (verifyKey : VerifyKey) :
    (o.withAccount a verifyKey).currentCache = o.currentCache := mark_currentCache o _

theorem withToken_current (o : Overlay L) (t baseToken : Ident) (curve : Curve) :
    (o.withToken t baseToken curve).currentCache = o.currentCache := mark_currentCache o _

theorem withAccount_applyCache {o : Overlay L} (current : o.currentCache = some .apply) (a : Ident) (verifyKey : VerifyKey) :
    (o.withAccount a verifyKey).applyCache =
      Function.update o.applyCache (L.key (.contract (.account a))) (some (ContractKey.account a).prefixedKey) := by
  simp only [withAccount, write_applyCache, mark_apply current]

theorem withToken_applyCache {o : Overlay L} (current : o.currentCache = some .apply) (t baseToken : Ident) (curve : Curve) :
    (o.withToken t baseToken curve).applyCache =
      Function.update o.applyCache (L.key (.contract (.token t))) (some (ContractKey.token t).prefixedKey) := by
  simp only [withToken, write_applyCache, mark_apply current]

theorem withAccount_pending_ne (o : Overlay L) {a : Ident} {c : Cell} (verifyKey : VerifyKey)
    (other : c ≠ .verifyKey a ∧ c ≠ .nonce a) : (o.withAccount a verifyKey).pending c = o.pending c := by
  rw [withAccount, write_pending_ne _ _ _ other.2, write_pending_ne _ _ _ other.1, mark_pending]

theorem withToken_pending_ne (o : Overlay L) {t : Ident} {c : Cell} (baseToken : Ident) (curve : Curve)
    (other : c ≠ .curveData t ∧ c ≠ .baseIdent t ∧ c ≠ .currentSupply t) :
    (o.withToken t baseToken curve).pending c = o.pending c := by
  rw [withToken, write_pending_ne _ _ _ other.2.2, write_pending_ne _ _ _ other.2.1, write_pending_ne _ _ _ other.1,
    mark_pending]

end Overlay

/-! ### Accounts -/

theorem account_init_apply (self : Ident) (verifyKey : VerifyKey) (o : Overlay L) :
    Account.init self verifyKey o = (.ok (), (o.write (.verifyKey self) verifyKey).write (.nonce self) (0 : UInt256)) :=
  (Exec.bind_of_ok (Overlay.assign_of_intact (c := .verifyKey self) rfl o)).trans
    (Overlay.assign_of_intact (c := .nonce self) rfl _)

theorem setNonce_ok {self : Ident} {nonce : UInt64} (h : Account.setNonce self nonce o = (.ok (), o')) :
    ∃ stored : UInt256, o.value (.nonce self) = .ok stored ∧ stored.val < nonce.toNat ∧
      o' = o.write (.nonce self) (UInt256.ofUInt64 nonce) := by
  obtain ⟨stored, _, read, h⟩ := bind_ok h
  obtain ⟨rfl, value⟩ := read_ok read
  split at h
  · cases h
  · rename_i larger
    exact ⟨stored, value, Nat.lt_of_not_le larger, (assign_ok h).1⟩

theorem setNonce_error {self : Ident} {nonce : UInt64} {e : Stop} (h : Account.setNonce self nonce o = (.error e, o')) :
    o = o' ∧ ∀ stored : UInt256, o.value (.nonce self) = .ok stored → nonce.toNat ≤ stored.val := by
  rcases bind_error h with read | ⟨stored, _, read, h⟩
  · obtain ⟨failed, rfl⟩ := Prod.mk.inj read
    refine ⟨rfl, fun stored value => ?_⟩
    rw [value] at failed
    cases failed
  · obtain ⟨rfl, value⟩ := read_ok read
    split at h
    · rename_i smaller
      refine ⟨(Prod.mk.inj h).2, fun stored' value' => ?_⟩
      rw [value] at value'
      cases value'
      exact smaller
    · rw [show Storage.assign _ _ o = _ from Overlay.assign_of_intact (c := .nonce self) rfl o] at h
      cases h

/-! ### Tokens -/

theorem token_init_apply {self baseToken : Ident} {curve : Curve} (found : o.hasContract (.token baseToken) = .ok true)
    (whole : intact curve = true) : Token.init self baseToken curve o =
      (.ok (), ((o.write (.curveData self) curve).write (.baseIdent self) baseToken).write (.currentSupply self) (0 : UInt256)) :=
  (Exec.bind_of_ok (Overlay.load_of_found found)).trans
    ((Exec.bind_of_ok (Overlay.assign_of_intact (c := .curveData self) whole o)).trans
      ((Exec.bind_of_ok (Overlay.assign_of_intact (c := .baseIdent self) rfl _)).trans
        (Overlay.assign_of_intact (c := .currentSupply self) rfl _)))

theorem token_init_ok {self baseToken : Ident} {curve : Curve}
    (h : Token.init self baseToken curve o = (.ok (), o')) :
    o.hasContract (.token baseToken) = .ok true ∧ intact curve = true ∧
      o' = ((o.write (.curveData self) curve).write (.baseIdent self) baseToken).write (.currentSupply self) (0 : UInt256) := by
  obtain ⟨_, _, loaded, h⟩ := bind_ok h
  obtain ⟨rfl, found⟩ := load_ok loaded
  obtain ⟨_, _, assigned, h⟩ := bind_ok h
  obtain ⟨rfl, whole⟩ := assign_ok assigned
  obtain ⟨_, _, assigned, h⟩ := bind_ok h
  obtain ⟨rfl, _⟩ := assign_ok assigned
  exact ⟨found, whole, (assign_ok h).1⟩

theorem token_init_error {self baseToken : Ident} {curve : Curve} {e : Stop}
    (h : Token.init self baseToken curve o = (.error e, o')) (thrown : e ≠ .crash) :
    o = o' ∧ o.hasContract (.token baseToken) ≠ .ok true := by
  rcases bind_error h with load | ⟨_, _, _, h⟩
  · exact Overlay.load_error load
  rcases bind_error h with assign | ⟨_, _, _, h⟩
  · exact (thrown (Overlay.assign_crash assign)).elim
  rcases bind_error h with assign | ⟨_, _, _, h⟩
  · exact (thrown (Overlay.assign_crash assign)).elim
  · exact (thrown (Overlay.assign_crash h)).elim

theorem create_token_ok {self baseToken : Ident} {curve : Curve}
    (h : Storage.create (.token self) (Token.init self baseToken curve) o = (.ok (), o')) :
    o.hasContract (.token self) = .ok false ∧ (o.mark (.token self)).hasContract (.token baseToken) = .ok true ∧
      intact curve = true ∧ o' = o.withToken self baseToken curve := by
  obtain ⟨_, _, placed, created⟩ := bind_ok h
  obtain ⟨rfl, absent⟩ := Overlay.place_ok placed
  obtain ⟨found, whole, rfl⟩ := token_init_ok created
  exact ⟨absent, found, whole, rfl⟩

structure Minted (o : Overlay L) (token receiver : Ident) (value : UInt256) where
  balance : UInt256
  increased : UInt256
  supply : UInt256
  issued : UInt256
  balance_read : o.value (.balances token receiver) = .ok balance
  increase : balance.add value = .ok increased
  supply_read : o.value (.currentSupply token) = .ok supply
  issue : supply.add value = .ok issued

def Minted.after {token receiver : Ident} {value : UInt256} (m : Minted o token receiver value) : Overlay L :=
  (o.write (.balances token receiver) m.increased).write (.currentSupply token) m.issued

theorem mint_ok {token receiver : Ident} {value : UInt256} (h : Token.mint token receiver value o = (.ok (), o')) :
    ∃ m : Minted o token receiver value, o' = m.after := by
  obtain ⟨balance, _, step, h⟩ := bind_ok h
  obtain ⟨rfl, balance_read⟩ := read_ok step
  obtain ⟨increased, _, step, h⟩ := bind_ok h
  obtain ⟨rfl, increase⟩ := ofExcept_ok step
  obtain ⟨_, _, step, h⟩ := bind_ok h
  obtain ⟨rfl, _⟩ := assign_ok step
  obtain ⟨supply, _, step, h⟩ := bind_ok h
  obtain ⟨rfl, supply_read⟩ := read_ok step
  rw [Overlay.write_value_ne _ _ _ (by simp)] at supply_read
  obtain ⟨issued, _, step, h⟩ := bind_ok h
  obtain ⟨rfl, issue⟩ := ofExcept_ok step
  exact ⟨⟨balance, increased, supply, issued, balance_read, increase, supply_read, issue⟩, (assign_ok h).1⟩

/-- A transfer that returned. When the sender is the receiver, `dest` is what the debit left. -/
structure Transferred (o : Overlay L) (token src dst : Ident) (value : UInt256) where
  held : UInt256
  reduced : UInt256
  dest : UInt256
  increased : UInt256
  held_read : o.value (.balances token src) = .ok held
  reduce : held.sub value = .ok reduced
  dest_read : (o.write (.balances token src) reduced).value (.balances token dst) = .ok dest
  increase : dest.add value = .ok increased

def Transferred.after {token src dst : Ident} {value : UInt256} (m : Transferred o token src dst value) : Overlay L :=
  (o.write (.balances token src) m.reduced).write (.balances token dst) m.increased

theorem transfer_ok {token src dst : Ident} {value : UInt256}
    (h : Token.transfer token src dst value o = (.ok (), o')) :
    ∃ m : Transferred o token src dst value, o' = m.after := by
  obtain ⟨_, _, step, h⟩ := bind_ok h
  obtain ⟨rfl, _⟩ := read_ok step
  split at h
  · cases h
  obtain ⟨held, _, step, h⟩ := bind_ok h
  obtain ⟨rfl, held_read⟩ := read_ok step
  obtain ⟨reduced, _, step, h⟩ := bind_ok h
  obtain ⟨rfl, reduce⟩ := ofExcept_ok step
  obtain ⟨_, _, step, h⟩ := bind_ok h
  obtain ⟨rfl, _⟩ := assign_ok step
  obtain ⟨dest, _, step, h⟩ := bind_ok h
  obtain ⟨rfl, dest_read⟩ := read_ok step
  obtain ⟨increased, _, step, h⟩ := bind_ok h
  obtain ⟨rfl, increase⟩ := ofExcept_ok step
  exact ⟨⟨held, reduced, dest, increased, held_read, reduce, dest_read, increase⟩, (assign_ok h).1⟩

/-- The curve, base and supply that a trade reads. -/
structure Quote (o : Overlay L) (token : Ident) where
  curve : Curve
  baseToken : Ident
  supply : UInt256
  curve_read : o.value (.curveData token) = .ok curve
  base_read : o.value (.baseIdent token) = .ok baseToken
  base_exists : o.hasContract (.token baseToken) = .ok true
  supply_read : o.value (.currentSupply token) = .ok supply

/-- A purchase that returned. When the token is its own base, `balance` is what the payment left. -/
structure Purchase (o : Overlay L) (token buyer : Ident) (value : UInt256) extends Quote o token where
  raised : UInt256
  upper : UInt256
  lower : UInt256
  spent : UInt256
  held : UInt256
  reduced : UInt256
  balance : UInt256
  increased : UInt256
  raise : supply.add value = .ok raised
  upper_price : curve.apply raised = .ok upper
  lower_price : curve.apply supply = .ok lower
  price : upper.sub lower = .ok spent
  held_read : o.value (.balances baseToken buyer) = .ok held
  pay : held.sub spent = .ok reduced
  balance_read : (o.write (.balances baseToken buyer) reduced).value (.balances token buyer) = .ok balance
  increase : balance.add value = .ok increased

def Purchase.after {token buyer : Ident} {value : UInt256} (p : Purchase o token buyer value) : Overlay L :=
  ((o.write (.balances p.baseToken buyer) p.reduced).write (.balances token buyer) p.increased).write
    (.currentSupply token) p.raised

theorem buy_ok {token buyer : Ident} {value spent : UInt256}
    (h : Token.buy token buyer value o = (.ok spent, o')) :
    ∃ p : Purchase o token buyer value, spent = p.spent ∧ o' = p.after := by
  obtain ⟨curve, _, step, h⟩ := bind_ok h
  obtain ⟨rfl, curve_read⟩ := read_ok step
  obtain ⟨baseToken, _, step, h⟩ := bind_ok h
  obtain ⟨rfl, base_read⟩ := read_ok step
  obtain ⟨_, _, step, h⟩ := bind_ok h
  obtain ⟨rfl, base_exists⟩ := load_ok step
  obtain ⟨supply, _, step, h⟩ := bind_ok h
  obtain ⟨rfl, supply_read⟩ := read_ok step
  obtain ⟨raised, _, step, h⟩ := bind_ok h
  obtain ⟨rfl, raise⟩ := ofExcept_ok step
  obtain ⟨upper, _, step, h⟩ := bind_ok h
  obtain ⟨rfl, upper_price⟩ := ofExcept_ok step
  obtain ⟨lower, _, step, h⟩ := bind_ok h
  obtain ⟨rfl, lower_price⟩ := ofExcept_ok step
  obtain ⟨cost, _, step, h⟩ := bind_ok h
  obtain ⟨rfl, price⟩ := ofExcept_ok step
  obtain ⟨_, _, step, h⟩ := bind_ok h
  obtain ⟨rfl, _⟩ := read_ok step
  split at h
  · cases h
  obtain ⟨held, _, step, h⟩ := bind_ok h
  obtain ⟨rfl, held_read⟩ := read_ok step
  obtain ⟨reduced, _, step, h⟩ := bind_ok h
  obtain ⟨rfl, pay⟩ := ofExcept_ok step
  obtain ⟨_, _, step, h⟩ := bind_ok h
  obtain ⟨rfl, _⟩ := assign_ok step
  obtain ⟨balance, _, step, h⟩ := bind_ok h
  obtain ⟨rfl, balance_read⟩ := read_ok step
  obtain ⟨increased, _, step, h⟩ := bind_ok h
  obtain ⟨rfl, increase⟩ := ofExcept_ok step
  obtain ⟨_, _, step, h⟩ := bind_ok h
  obtain ⟨rfl, _⟩ := assign_ok step
  obtain ⟨supply', _, step, h⟩ := bind_ok h
  obtain ⟨rfl, supply_again⟩ := read_ok step
  rw [Overlay.write_value_ne _ _ _ (by simp), Overlay.write_value_ne _ _ _ (by simp), supply_read] at supply_again
  cases supply_again
  obtain ⟨raised', _, step, h⟩ := bind_ok h
  obtain ⟨rfl, raise'⟩ := ofExcept_ok step
  rw [raise] at raise'
  cases raise'
  obtain ⟨_, _, step, h⟩ := bind_ok h
  obtain ⟨rfl, _⟩ := assign_ok step
  cases h
  exact ⟨⟨⟨curve, baseToken, supply, curve_read, base_read, base_exists, supply_read⟩, raised, upper, lower, spent, held,
    reduced, balance, increased, raise, upper_price, lower_price, price, held_read, pay, balance_read, increase⟩, rfl, rfl⟩

/-- A sale that returned. When the token is its own base, `stock` is what the debit left. -/
structure Sale (o : Overlay L) (token seller : Ident) (value : UInt256) extends Quote o token where
  lowered : UInt256
  upper : UInt256
  lower : UInt256
  received : UInt256
  held : UInt256
  reduced : UInt256
  stock : UInt256
  increased : UInt256
  held_read : o.value (.balances token seller) = .ok held
  lowering : supply.sub value = .ok lowered
  upper_price : curve.apply supply = .ok upper
  lower_price : curve.apply lowered = .ok lower
  price : upper.sub lower = .ok received
  reduce : held.sub value = .ok reduced
  stock_read : (o.write (.balances token seller) reduced).value (.balances baseToken seller) = .ok stock
  increase : stock.add received = .ok increased

def Sale.after {token seller : Ident} {value : UInt256} (p : Sale o token seller value) : Overlay L :=
  ((o.write (.balances token seller) p.reduced).write (.balances p.baseToken seller) p.increased).write
    (.currentSupply token) p.lowered

theorem sell_ok {token seller : Ident} {value received : UInt256}
    (h : Token.sell token seller value o = (.ok received, o')) :
    ∃ p : Sale o token seller value, received = p.received ∧ o' = p.after := by
  obtain ⟨curve, _, step, h⟩ := bind_ok h
  obtain ⟨rfl, curve_read⟩ := read_ok step
  obtain ⟨baseToken, _, step, h⟩ := bind_ok h
  obtain ⟨rfl, base_read⟩ := read_ok step
  obtain ⟨_, _, step, h⟩ := bind_ok h
  obtain ⟨rfl, base_exists⟩ := load_ok step
  obtain ⟨_, _, step, h⟩ := bind_ok h
  obtain ⟨rfl, _⟩ := read_ok step
  split at h
  · cases h
  obtain ⟨supply, _, step, h⟩ := bind_ok h
  obtain ⟨rfl, supply_read⟩ := read_ok step
  obtain ⟨upper, _, step, h⟩ := bind_ok h
  obtain ⟨rfl, upper_price⟩ := ofExcept_ok step
  obtain ⟨lowered, _, step, h⟩ := bind_ok h
  obtain ⟨rfl, lowering⟩ := ofExcept_ok step
  obtain ⟨lower, _, step, h⟩ := bind_ok h
  obtain ⟨rfl, lower_price⟩ := ofExcept_ok step
  obtain ⟨payout, _, step, h⟩ := bind_ok h
  obtain ⟨rfl, price⟩ := ofExcept_ok step
  obtain ⟨held, _, step, h⟩ := bind_ok h
  obtain ⟨rfl, held_read⟩ := read_ok step
  obtain ⟨reduced, _, step, h⟩ := bind_ok h
  obtain ⟨rfl, reduce⟩ := ofExcept_ok step
  obtain ⟨_, _, step, h⟩ := bind_ok h
  obtain ⟨rfl, _⟩ := assign_ok step
  obtain ⟨stock, _, step, h⟩ := bind_ok h
  obtain ⟨rfl, stock_read⟩ := read_ok step
  obtain ⟨increased, _, step, h⟩ := bind_ok h
  obtain ⟨rfl, increase⟩ := ofExcept_ok step
  obtain ⟨_, _, step, h⟩ := bind_ok h
  obtain ⟨rfl, _⟩ := assign_ok step
  obtain ⟨supply', _, step, h⟩ := bind_ok h
  obtain ⟨rfl, supply_again⟩ := read_ok step
  rw [Overlay.write_value_ne _ _ _ (by simp), Overlay.write_value_ne _ _ _ (by simp), supply_read] at supply_again
  cases supply_again
  obtain ⟨lowered', _, step, h⟩ := bind_ok h
  obtain ⟨rfl, lowering'⟩ := ofExcept_ok step
  rw [lowering] at lowering'
  cases lowering'
  obtain ⟨_, _, step, h⟩ := bind_ok h
  obtain ⟨rfl, _⟩ := assign_ok step
  cases h
  exact ⟨⟨⟨curve, baseToken, supply, curve_read, base_read, base_exists, supply_read⟩, lowered, upper, lower, received, held,
    reduced, stock, increased, held_read, lowering, upper_price, lower_price, price, reduce, stock_read, increase⟩, rfl, rfl⟩

end BandChain
