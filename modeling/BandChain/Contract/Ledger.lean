import BandChain.Contract.Effect
import BandChain.Lib.Ledger
import Mathlib.Data.Set.Finite.List

/-! The ledger that a store keeps, and what the token functions do to it. -/

namespace BandChain

instance : Finite Ident :=
  have _ : Finite UInt8 := Finite.of_injective UInt8.toFin fun _ _ same => UInt8.toFin_inj.mp same
  have _ : Finite { raw : ByteString | raw.length ≤ 20 } := (List.finite_length_le UInt8 20).to_subtype
  Finite.of_injective (fun a : Ident => (⟨a.rawdata, a.length_le⟩ : { raw : ByteString | raw.length ≤ 20 }))
    fun _ _ same => Str.ext (congrArg Subtype.val same)

noncomputable instance : Fintype Ident := Fintype.ofFinite Ident

/-- A number that was read, and 0 where none could be. -/
def amount : Except Stop UInt256 → ℤ
  | .ok n => n.val
  | .error _ => 0

variable {K : Type} {L : Layout K}

namespace Overlay

/-- The base token of a token that exists. -/
def baseOf (o : Overlay L) (t : Ident) : Option Ident :=
  match o.hasContract (.token t) with
  | .ok true => (o.value (.baseIdent t)).toOption
  | .ok false | .error _ => none

/-- The ledger that a store keeps, with the reserves put beside it. -/
def ledger (o : Overlay L) (reserve : Ident → ℤ) : Ledger Ident Ident where
  balance t u := amount (o.value (.balances t u))
  supply t := amount (o.value (.currentSupply t))
  reserve := reserve
  base := o.baseOf

variable {o : Overlay L} {reserve : Ident → ℤ}

theorem baseOf_write {c : Cell} (v : c.Val) (other : ∀ t, c ≠ .baseIdent t) : (o.write c v).baseOf = o.baseOf := by
  funext t
  rw [baseOf, baseOf, write_hasContract, write_value_ne _ _ _ (other t).symm]

theorem ledger_write_balance {t u : Ident} {n m : UInt256} {v : ℤ} (read : o.value (.balances t u) = .ok m)
    (changed : (n.val : ℤ) = m.val + v) : (o.write (.balances t u) n).ledger reserve = (o.ledger reserve).credit t u v := by
  refine Ledger.ext (funext fun t' => funext fun u' => ?_) ?_ rfl (baseOf_write _ (by simp))
  · simp only [ledger, Ledger.credit]
    by_cases same : t' = t ∧ u' = u
    · obtain ⟨rfl, rfl⟩ := same
      rw [write_value_self _ _ _ rfl, read, if_pos ⟨rfl, rfl⟩]
      exact changed
    · rw [write_value_ne _ _ _ (by simpa using same), if_neg same, add_zero]
  · funext t'
    exact congrArg amount (write_value_ne _ _ _ (by simp))

theorem ledger_write_supply {t : Ident} {n m : UInt256} {v : ℤ} (read : o.value (.currentSupply t) = .ok m)
    (changed : (n.val : ℤ) = m.val + v) : (o.write (.currentSupply t) n).ledger reserve = (o.ledger reserve).issue t v := by
  refine Ledger.ext ?_ (funext fun t' => ?_) rfl (baseOf_write _ (by simp))
  · funext t' u'
    exact congrArg amount (write_value_ne _ _ _ (by simp))
  · simp only [ledger, Ledger.issue]
    by_cases same : t' = t
    · subst same
      rw [write_value_self _ _ _ rfl, read, if_pos rfl]
      exact changed
    · rw [write_value_ne _ _ _ (by simpa using same), if_neg same, add_zero]

end Overlay

open Overlay (write_value_ne ledger_write_balance ledger_write_supply)

variable {o : Overlay L} {reserve : Ident → ℤ}

theorem Minted.ledger {token receiver : Ident} {value : UInt256} (m : Minted o token receiver value) :
    m.after.ledger reserve = (o.ledger reserve).mint token receiver value.val := by
  rw [Minted.after, ledger_write_supply ((write_value_ne _ _ _ (by simp)).trans m.supply_read)
    (by rw [UInt256.add_ok m.issue]; push_cast; rfl)]
  rw [ledger_write_balance m.balance_read (by rw [UInt256.add_ok m.increase]; push_cast; rfl)]
  rfl

theorem Transferred.ledger {token src dst : Ident} {value : UInt256} (m : Transferred o token src dst value) :
    m.after.ledger reserve = (o.ledger reserve).transfer token src dst value.val := by
  obtain ⟨enough, reduced⟩ := UInt256.sub_ok m.reduce
  rw [Transferred.after, ledger_write_balance m.dest_read (by rw [UInt256.add_ok m.increase]; push_cast; rfl)]
  rw [ledger_write_balance (v := -value.val) m.held_read (by omega)]
  rfl

theorem Purchase.ledger {token buyer : Ident} {value : UInt256} (p : Purchase o token buyer value) :
    (p.after.ledger reserve).deposit token p.spent.val =
      (o.ledger reserve).trade token p.baseToken buyer value.val p.spent.val := by
  obtain ⟨enough, reduced⟩ := UInt256.sub_ok p.pay
  rw [Purchase.after, ledger_write_supply (((write_value_ne _ _ _ (by simp)).trans (write_value_ne _ _ _ (by simp))).trans
    p.supply_read) (by rw [UInt256.add_ok p.raise]; push_cast; rfl)]
  rw [ledger_write_balance p.balance_read (by rw [UInt256.add_ok p.increase]; push_cast; rfl)]
  rw [ledger_write_balance (v := -p.spent.val) p.held_read (by omega)]
  rfl

theorem Sale.ledger {token seller : Ident} {value : UInt256} (p : Sale o token seller value) :
    (p.after.ledger reserve).deposit token (-p.received.val) =
      (o.ledger reserve).trade token p.baseToken seller (-value.val) (-p.received.val) := by
  obtain ⟨enough, reduced⟩ := UInt256.sub_ok p.reduce
  obtain ⟨issued, lowered⟩ := UInt256.sub_ok p.lowering
  rw [Sale.after, ledger_write_supply (v := -value.val) (((write_value_ne _ _ _ (by simp)).trans
    (write_value_ne _ _ _ (by simp))).trans p.supply_read) (by omega)]
  rw [ledger_write_balance p.stock_read (by rw [UInt256.add_ok p.increase]; push_cast; rfl)]
  rw [ledger_write_balance (v := -value.val) p.held_read (by omega)]
  rw [Ledger.trade, neg_neg, Ledger.credit_comm]

theorem Quote.base {token : Ident} (q : Quote o token) (found : o.hasContract (.token token) = .ok true) :
    o.baseOf token = some q.baseToken := by
  rw [Overlay.baseOf, found]
  simp only [q.base_read]
  rfl

theorem Overlay.withToken_value [DecidableEq K] (current : o.currentCache = some .apply) {t base : Ident} {curve : Curve} {c : Cell}
    (own : L.Own c) (other : c ≠ .curveData t ∧ c ≠ .baseIdent t ∧ c ≠ .currentSupply t) :
    (o.withToken t base curve).value c = o.value c := by
  rw [withToken, write_value_ne _ _ _ other.2.2, write_value_ne _ _ _ other.2.1, write_value_ne _ _ _ other.1, value_mark_own current own]

/-- A new token gets its base, and the others keep theirs. -/
theorem baseOf_withToken [DecidableEq K] {t base : Ident} {curve : Curve} (current : o.currentCache = some .apply) :
    (o.withToken t base curve).baseOf = Function.update o.baseOf t (some base) := by
  funext t'
  by_cases same : t' = t
  · subst same
    have found : (o.withToken t' base curve).hasContract (.token t') = .ok true := Overlay.hasContract_mark_self current _
    have named : (o.withToken t' base curve).value (.baseIdent t') = .ok base := by
      rw [Overlay.withToken, write_value_ne _ _ _ (by simp)]
      exact Overlay.write_value_self _ _ _ rfl
    rw [Function.update_self, Overlay.baseOf, found]
    simp only [named]
    rfl
  · have kept : (o.withToken t base curve).hasContract (.token t') = o.hasContract (.token t') :=
      Overlay.hasContract_mark_ne current (by simpa using same)
    rw [Function.update_of_ne same, Overlay.baseOf, Overlay.baseOf, kept,
      Overlay.withToken_value current (L.own_baseIdent t') (by simp [same])]

theorem ledger_withToken [DecidableEq K] {t base : Ident} {curve : Curve} (current : o.currentCache = some .apply)
    (alone : ∀ c, L.key (.data c) ≠ L.key (.contract (.token t))) (unissued : o.value (.currentSupply t) = .ok (0 : UInt256)) :
    (o.withToken t base curve).ledger reserve = (o.ledger reserve).create t base := by
  refine Ledger.ext (funext fun t' => funext fun u => congrArg amount ?_) (funext fun t' => ?_) rfl (baseOf_withToken current)
  · rw [Overlay.withToken, write_value_ne _ _ _ (by simp), write_value_ne _ _ _ (by simp), write_value_ne _ _ _ (by simp)]
    exact Overlay.value_mark current (alone _)
  · by_cases same : t' = t
    · subst same
      simp only [Overlay.ledger, Ledger.create, unissued]
      rw [Overlay.withToken, Overlay.write_value_self _ _ _ rfl]
    · exact congrArg amount (Overlay.withToken_value current (L.own_currentSupply t') (by simp [same]))

/-- A flush keeps the ledger where every cell has a key of its own. -/
theorem ledger_rewound (current : o.currentCache = some .apply) (alone : ∀ {x y : Slot}, L.key x = L.key y → x = y)
    (whole : ∀ c val, o.pending c = some val → intact val = true) : o.rewound.ledger reserve = o.ledger reserve := by
  have separate : o.Separate := fun _ _ _ _ same => Slot.data.inj (alone same)
  have value (c : Cell) : o.rewound.value c = o.value c :=
    Overlay.value_rewound current separate (whole c) fun _ same _ => Slot.data.inj (alone same)
  have contract (k : ContractKey) : o.rewound.hasContract k = o.hasContract k :=
    Overlay.hasContract_rewound current fun _ same => by cases alone same
  refine Ledger.ext (funext fun _ => funext fun _ => ?_) (funext fun _ => ?_) rfl (funext fun _ => ?_)
  · exact congrArg amount (value _)
  · exact congrArg amount (value _)
  · simp only [Overlay.ledger, Overlay.baseOf, contract, value]

end BandChain
