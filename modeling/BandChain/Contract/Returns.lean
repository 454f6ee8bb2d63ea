import BandChain.Contract.Effect

/-! The token functions return wherever what they read and compute is there. -/

namespace BandChain

open Exec (bind_of_ok)
open Overlay (assign_of_intact load_of_found write_value_ne)

variable {K : Type} [DecidableEq K] {L : Layout K} {o : Overlay L}

omit [DecidableEq K] in
theorem read_of {c : Cell} {val : c.Val} (value : o.value c = .ok val) : Overlay.read c o = (.ok val, o) := Prod.ext value rfl

omit [DecidableEq K] in
theorem ofExcept_of {α : Type} {x : Except Stop α} {a : α} (same : x = .ok a) (o : Overlay L) : Exec.ofExcept x o = (.ok a, o) := by
  rw [same, Exec.ofExcept_apply]

omit [DecidableEq K] in
theorem assign_balance (o : Overlay L) (t u : Ident) (n : UInt256) :
    Overlay.assign (.balances t u) n o = (.ok (), o.write (.balances t u) n) := assign_of_intact (c := .balances t u) rfl o

omit [DecidableEq K] in
theorem assign_supply (o : Overlay L) (t : Ident) (n : UInt256) :
    Overlay.assign (.currentSupply t) n o = (.ok (), o.write (.currentSupply t) n) := assign_of_intact (c := .currentSupply t) rfl o

theorem mint_of {token receiver : Ident} {value : UInt256} (m : Minted o token receiver value) :
    Token.mint token receiver value o = (.ok (), m.after) := by
  have supply : (o.write (.balances token receiver) m.increased).value (.currentSupply token) = .ok m.supply :=
    (write_value_ne _ _ _ (by simp)).trans m.supply_read
  refine (bind_of_ok (read_of m.balance_read)).trans ?_
  refine (bind_of_ok (ofExcept_of m.increase _)).trans ?_
  refine (bind_of_ok (assign_balance ..)).trans ?_
  refine (bind_of_ok (read_of supply)).trans ?_
  exact (bind_of_ok (ofExcept_of m.issue _)).trans (assign_supply ..)

theorem transfer_of {token src dst : Ident} {value : UInt256} (m : Transferred o token src dst value) :
    Token.transfer token src dst value o = (.ok (), m.after) := by
  have enough : ¬ m.held < value := Nat.not_lt.mpr (UInt256.sub_ok m.reduce).1
  refine (bind_of_ok (read_of m.held_read)).trans ((congrFun (if_neg enough) _).trans ?_)
  refine (bind_of_ok (read_of m.held_read)).trans ?_
  refine (bind_of_ok (ofExcept_of m.reduce _)).trans ?_
  refine (bind_of_ok (assign_balance ..)).trans ?_
  refine (bind_of_ok (read_of m.dest_read)).trans ?_
  exact (bind_of_ok (ofExcept_of m.increase _)).trans (assign_balance ..)

theorem buy_of {token buyer : Ident} {value : UInt256} (p : Purchase o token buyer value) :
    Token.buy token buyer value o = (.ok p.spent, p.after) := by
  have enough : ¬ p.held < p.spent := Nat.not_lt.mpr (UInt256.sub_ok p.pay).1
  have supply : ((o.write (.balances p.baseToken buyer) p.reduced).write (.balances token buyer) p.increased).value
      (.currentSupply token) = .ok p.supply :=
    (write_value_ne _ _ _ (by simp)).trans ((write_value_ne _ _ _ (by simp)).trans p.supply_read)
  refine (bind_of_ok (read_of p.curve_read)).trans ?_
  refine (bind_of_ok (read_of p.base_read)).trans ?_
  refine (bind_of_ok (load_of_found p.base_exists)).trans ?_
  refine (bind_of_ok (read_of p.supply_read)).trans ?_
  refine (bind_of_ok (ofExcept_of p.raise _)).trans ?_
  refine (bind_of_ok (ofExcept_of p.upper_price _)).trans ?_
  refine (bind_of_ok (ofExcept_of p.lower_price _)).trans ?_
  refine (bind_of_ok (ofExcept_of p.price _)).trans ?_
  refine (bind_of_ok (read_of p.held_read)).trans ((congrFun (if_neg enough) _).trans ?_)
  refine (bind_of_ok (read_of p.held_read)).trans ?_
  refine (bind_of_ok (ofExcept_of p.pay _)).trans ?_
  refine (bind_of_ok (assign_balance ..)).trans ?_
  refine (bind_of_ok (read_of p.balance_read)).trans ?_
  refine (bind_of_ok (ofExcept_of p.increase _)).trans ?_
  refine (bind_of_ok (assign_balance ..)).trans ?_
  refine (bind_of_ok (read_of supply)).trans ?_
  refine (bind_of_ok (ofExcept_of p.raise _)).trans ?_
  exact bind_of_ok (assign_supply ..)

theorem sell_of {token seller : Ident} {value : UInt256} (p : Sale o token seller value) :
    Token.sell token seller value o = (.ok p.received, p.after) := by
  have enough : ¬ p.held < value := Nat.not_lt.mpr (UInt256.sub_ok p.reduce).1
  have supply : ((o.write (.balances token seller) p.reduced).write (.balances p.baseToken seller) p.increased).value
      (.currentSupply token) = .ok p.supply :=
    (write_value_ne _ _ _ (by simp)).trans ((write_value_ne _ _ _ (by simp)).trans p.supply_read)
  refine (bind_of_ok (read_of p.curve_read)).trans ?_
  refine (bind_of_ok (read_of p.base_read)).trans ?_
  refine (bind_of_ok (load_of_found p.base_exists)).trans ?_
  refine (bind_of_ok (read_of p.held_read)).trans ((congrFun (if_neg enough) _).trans ?_)
  refine (bind_of_ok (read_of p.supply_read)).trans ?_
  refine (bind_of_ok (ofExcept_of p.upper_price _)).trans ?_
  refine (bind_of_ok (ofExcept_of p.lowering _)).trans ?_
  refine (bind_of_ok (ofExcept_of p.lower_price _)).trans ?_
  refine (bind_of_ok (ofExcept_of p.price _)).trans ?_
  refine (bind_of_ok (read_of p.held_read)).trans ?_
  refine (bind_of_ok (ofExcept_of p.reduce _)).trans ?_
  refine (bind_of_ok (assign_balance ..)).trans ?_
  refine (bind_of_ok (read_of p.stock_read)).trans ?_
  refine (bind_of_ok (ofExcept_of p.increase _)).trans ?_
  refine (bind_of_ok (assign_balance ..)).trans ?_
  refine (bind_of_ok (read_of supply)).trans ?_
  refine (bind_of_ok (ofExcept_of p.lowering _)).trans ?_
  exact bind_of_ok (assign_supply ..)

end BandChain
