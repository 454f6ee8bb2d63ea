import Mathlib.Algebra.BigOperators.Group.Finset.Piecewise
import Mathlib.Algebra.Order.BigOperators.Group.Finset
import Mathlib.Data.Int.Basic
import Mathlib.Logic.Relation
import Mathlib.Tactic.Ring

/-!
Ledgers of tokens that are sold for other tokens. A token is issued against a reserve of its base
token; the base token's supply is not lowered while it lies in a reserve.
-/

open scoped BigOperators

/-- What each user holds of each token, how much of the token was issued, what its buyers have paid for it
and not got back, and in which token they pay. -/
@[ext] structure Ledger (T U : Type) where
  balance : T → U → ℤ
  supply : T → ℤ
  reserve : T → ℤ
  base : T → Option T

namespace Ledger

variable {T U : Type} [DecidableEq T] [DecidableEq U]

def credit (l : Ledger T U) (t : T) (u : U) (v : ℤ) : Ledger T U :=
  { l with balance := fun t' u' => l.balance t' u' + if t' = t ∧ u' = u then v else 0 }

def issue (l : Ledger T U) (t : T) (v : ℤ) : Ledger T U :=
  { l with supply := fun t' => l.supply t' + if t' = t then v else 0 }

def deposit (l : Ledger T U) (t : T) (v : ℤ) : Ledger T U :=
  { l with reserve := fun t' => l.reserve t' + if t' = t then v else 0 }

def create (l : Ledger T U) (t b : T) : Ledger T U := { l with base := Function.update l.base t (some b) }

omit [DecidableEq U] in
theorem create_base (l : Ledger T U) (t b : T) : (l.create t b).base = Function.update l.base t (some b) := rfl

/-- From `t`, following the bases comes to a token that is its own. -/
def Grounded (base : T → Option T) (t : T) : Prop :=
  ∃ root, Relation.ReflTransGen (fun t b => base t = some b) t root ∧ base root = some root

section

variable {base base' : T → Option T} {t b : T}

omit [DecidableEq T]

theorem grounded_own (own : base t = some t) : Grounded base t := ⟨t, .refl, own⟩

theorem Grounded.over (h : Grounded base b) (named : base t = some b) : Grounded base t := by
  obtain ⟨root, path, own⟩ := h
  exact ⟨root, .head named path, own⟩

theorem Grounded.named (h : Grounded base t) : ∃ b, base t = some b ∧ Grounded base b := by
  obtain ⟨root, path, own⟩ := h
  cases path.cases_head with
  | inl same => exact ⟨t, same ▸ own, same ▸ grounded_own own⟩
  | inr rest =>
    obtain ⟨b, named, path⟩ := rest
    exact ⟨b, named, root, path, own⟩

/-- A token stays grounded where the bases on its way stay. -/
theorem Grounded.mono {P : T → Prop} (kept : ∀ {t b}, P t → base t = some b → base' t = some b ∧ P b) (h : Grounded base t)
    (start : P t) : Grounded base' t := by
  obtain ⟨root, path, own⟩ := h
  induction path using Relation.ReflTransGen.head_induction_on with
  | refl => exact grounded_own (kept start own).1
  | head named _ ih =>
    obtain ⟨named', next⟩ := kept start named
    exact (ih next).over named'

end

def mint (l : Ledger T U) (t : T) (u : U) (v : ℤ) : Ledger T U := (l.credit t u v).issue t v

def transfer (l : Ledger T U) (t : T) (src dst : U) (v : ℤ) : Ledger T U := (l.credit t src (-v)).credit t dst v

/-- `u` gets `amount` of `t` for `cost` of `b`; both are negative in a sale. -/
def trade (l : Ledger T U) (t b : T) (u : U) (amount cost : ℤ) : Ledger T U :=
  (((l.credit b u (-cost)).credit t u amount).issue t amount).deposit t cost

theorem credit_balance (l : Ledger T U) (t t' : T) (u u' : U) (v : ℤ) :
    (l.credit t u v).balance t' u' = l.balance t' u' + if t = t' ∧ u = u' then v else 0 := by
  simp only [credit, eq_comm]

inductive Entry (T U : Type) where
  | create (t b : T)
  | mint (t : T) (u : U) (v : ℤ)
  | transfer (t : T) (src dst : U) (v : ℤ)
  | buy (t b : T) (u : U) (amount cost : ℤ)
  | sell (t b : T) (u : U) (amount gain : ℤ)
  deriving DecidableEq

def post (l : Ledger T U) : Entry T U → Ledger T U
  | .create t b => l.create t b
  | .mint t u v => l.mint t u v
  | .transfer t src dst v => l.transfer t src dst v
  | .buy t b u amount cost => l.trade t b u amount cost
  | .sell t b u amount gain => l.trade t b u (-amount) (-gain)

/-- What an entry adds to what was paid for `t` and not got back. -/
def Entry.paid (t : T) : Entry T U → ℤ
  | .buy t' _ _ _ cost => if t = t' then cost else 0
  | .sell t' _ _ _ gain => if t = t' then -gain else 0
  | .create _ _ | .mint _ _ _ | .transfer _ _ _ _ => 0

/-- What an entry adds to the supply of `t`. -/
def Entry.issued (t : T) : Entry T U → ℤ
  | .mint t' _ v => if t = t' then v else 0
  | .buy t' _ _ amount _ => if t = t' then amount else 0
  | .sell t' _ _ amount _ => if t = t' then -amount else 0
  | .create _ _ | .transfer _ _ _ _ => 0

/-- What was paid for `t` and not got back. -/
def paid (t : T) (es : List (Entry T U)) : ℤ := (es.map (Entry.paid t)).sum

def issued (t : T) (es : List (Entry T U)) : ℤ := (es.map (Entry.issued t)).sum

def Bought (t : T) (es : List (Entry T U)) : Prop := ∃ b u amount cost, .buy t b u amount cost ∈ es

def Minted (t : T) (es : List (Entry T U)) : Prop := ∃ u v, .mint t u v ∈ es

omit [DecidableEq U] in
theorem paid_concat (t : T) (es : List (Entry T U)) (e : Entry T U) : paid t (es ++ [e]) = paid t es + e.paid t := by
  rw [paid, List.map_append, List.sum_append, paid]
  exact congrArg (_ + ·) (add_zero _)

theorem post_reserve (l : Ledger T U) (e : Entry T U) (t : T) : (l.post e).reserve t = l.reserve t + e.paid t := by
  cases e with
  | create _ _ | mint _ _ _ | transfer _ _ _ _ => exact (add_zero _).symm
  | buy _ _ _ _ _ | sell _ _ _ _ _ => rfl

theorem post_supply (l : Ledger T U) (e : Entry T U) (t : T) : (l.post e).supply t = l.supply t + e.issued t := by
  cases e with
  | create _ _ | transfer _ _ _ _ => exact (add_zero _).symm
  | mint _ _ _ | buy _ _ _ _ _ | sell _ _ _ _ _ => rfl

theorem foldl_post {f : Ledger T U → ℤ} {g : Entry T U → ℤ} (adds : ∀ l e, f (l.post e) = f l + g e) (l : Ledger T U)
    (es : List (Entry T U)) : f (es.foldl post l) = f l + (es.map g).sum := by
  induction es generalizing l with
  | nil => exact (add_zero _).symm
  | cons e es ih => rw [List.foldl_cons, ih, adds, List.map_cons, List.sum_cons, add_assoc]

/-- The balances that an entry sets. -/
def Entry.Writes : Entry T U → T → U → Prop
  | .create _ _, _, _ => False
  | .mint t' u' _, t, u => t = t' ∧ u = u'
  | .transfer t' src dst _, t, u => t = t' ∧ (u = src ∨ u = dst)
  | .buy t' b u' _ _, t, u | .sell t' b u' _ _, t, u => (t = t' ∨ t = b) ∧ u = u'

/-- A token is created once, and traded for its base. -/
def Fits (l : Ledger T U) : Entry T U → Prop
  | .create t _ => l.base t = none ∧ l.reserve t = 0
  | .buy t b _ _ _ | .sell t b _ _ _ => l.base t = some b
  | .mint _ _ _ | .transfer _ _ _ _ => True

def blank : Ledger T U where
  balance _ _ := 0
  supply _ := 0
  reserve _ := 0
  base _ := none

/-- What an entry adds to a balance. -/
def Entry.change (e : Entry T U) (t : T) (u : U) : ℤ := (blank.post e).balance t u

theorem post_balance (l : Ledger T U) (e : Entry T U) (t : T) (u : U) :
    (l.post e).balance t u = l.balance t u + e.change t u := by
  cases e with
  | create _ _ => exact (add_zero _).symm
  | mint _ _ _ | transfer _ _ _ _ | buy _ _ _ _ _ | sell _ _ _ _ _ =>
    simp only [Entry.change, post, mint, transfer, trade, issue, deposit, credit, blank]
    ring

/-- The same supplies, and the same balances where `P` holds. -/
structure Agrees (P : T → U → Prop) (l l' : Ledger T U) : Prop where
  balance : ∀ t u, P t u → l.balance t u = l'.balance t u
  supply : ∀ t, l.supply t = l'.supply t

section

variable {P : T → U → Prop} {l l' : Ledger T U}

theorem Agrees.credit (h : Agrees P l l') (t : T) (u : U) (v : ℤ) : Agrees P (l.credit t u v) (l'.credit t u v) :=
  ⟨fun t' u' held => congrArg (· + _) (h.balance t' u' held), h.supply⟩

omit [DecidableEq U] in
theorem Agrees.issue (h : Agrees P l l') (t : T) (v : ℤ) : Agrees P (l.issue t v) (l'.issue t v) :=
  ⟨h.balance, fun t' => congrArg (· + _) (h.supply t')⟩

theorem Agrees.trade (h : Agrees P l l') (t b : T) (u : U) (amount cost : ℤ) :
    Agrees P (l.trade t b u amount cost) (l'.trade t b u amount cost) := by
  have issued := ((h.credit b u (-cost)).credit t u amount).issue t amount
  exact ⟨issued.balance, issued.supply⟩

theorem Agrees.post (h : Agrees P l l') (e : Entry T U) : Agrees P (l.post e) (l'.post e) := by
  cases e with
  | create t b => exact ⟨h.balance, h.supply⟩
  | mint t u v => exact (h.credit t u v).issue t v
  | transfer t src dst v => exact (h.credit t src (-v)).credit t dst v
  | buy t b u amount cost => exact h.trade t b u amount cost
  | sell t b u amount gain => exact h.trade t b u (-amount) (-gain)

end

theorem credit_comm (l : Ledger T U) (t t' : T) (u u' : U) (v v' : ℤ) :
    (l.credit t u v).credit t' u' v' = (l.credit t' u' v').credit t u v := by
  refine Ledger.ext (funext fun _ => funext fun _ => ?_) rfl rfl rfl
  simp only [credit]
  ring

variable [Fintype T] [Fintype U]

/-- What is in the hands of users. -/
def held (l : Ledger T U) (t : T) : ℤ := ∑ u, l.balance t u

/-- What lies in the reserves of the tokens that are paid for in `b`. -/
def locked (l : Ledger T U) (b : T) : ℤ := ∑ t with l.base t = some b, l.reserve t

/-- All that was issued is held by a user or lies in a reserve. -/
def Balanced (l : Ledger T U) : Prop := ∀ b, l.supply b = l.held b + l.locked b

omit [Fintype T] in
theorem held_credit (l : Ledger T U) (t b : T) (u : U) (v : ℤ) :
    (l.credit t u v).held b = l.held b + if b = t then v else 0 := by
  simp only [held, credit, Finset.sum_add_distrib]
  by_cases same : b = t <;> simp [same]

omit [DecidableEq U] [Fintype U] in
theorem locked_deposit (l : Ledger T U) (t b : T) (v : ℤ) :
    (l.deposit t v).locked b = l.locked b + if l.base t = some b then v else 0 := by
  change ∑ t' with l.base t' = some b, (l.reserve t' + if t' = t then v else 0) = _
  rw [Finset.sum_add_distrib, Finset.sum_ite_eq', locked]
  simp

omit [DecidableEq U] [Fintype U] in
theorem locked_create (l : Ledger T U) {t : T} (c b : T) (new : l.base t = none) (empty : l.reserve t = 0) :
    (l.create t c).locked b = l.locked b := by
  rw [locked, locked, create, Finset.sum_filter, Finset.sum_filter]
  refine Finset.sum_congr rfl fun t' _ => ?_
  by_cases same : t' = t
  · subst same
    simp [new, empty]
  · simp only [Function.update_of_ne same]

namespace Balanced

variable {l : Ledger T U}

omit [DecidableEq U] in
theorem create (h : l.Balanced) {t : T} (c : T) (new : l.base t = none) (empty : l.reserve t = 0) :
    (l.create t c).Balanced := by
  intro b
  rw [locked_create l c b new empty]
  exact h b

theorem mint (h : l.Balanced) (t : T) (u : U) (v : ℤ) : (l.mint t u v).Balanced := by
  intro b
  have held : (l.mint t u v).held b = l.held b + if b = t then v else 0 := held_credit l t b u v
  have locked : (l.mint t u v).locked b = l.locked b := rfl
  have supply : (l.mint t u v).supply b = l.supply b + if b = t then v else 0 := rfl
  rw [held, locked, supply, h b]
  ring

theorem transfer (h : l.Balanced) (t : T) (src dst : U) (v : ℤ) : (l.transfer t src dst v).Balanced := by
  intro b
  have held : (l.transfer t src dst v).held b = l.held b := by
    rw [Ledger.transfer, held_credit, held_credit]
    split <;> ring
  rw [held]
  exact h b

theorem trade (h : l.Balanced) {t b : T} (paid : l.base t = some b) (u : U) (amount cost : ℤ) :
    (l.trade t b u amount cost).Balanced := by
  intro c
  have held : (l.trade t b u amount cost).held c =
      (l.held c + if c = b then -cost else 0) + if c = t then amount else 0 := by
    rw [← held_credit, ← held_credit]
    rfl
  have locked : (l.trade t b u amount cost).locked c = l.locked c + if l.base t = some c then cost else 0 :=
    locked_deposit (((l.credit b u (-cost)).credit t u amount).issue t amount) t c cost
  have supply : (l.trade t b u amount cost).supply c = l.supply c + if c = t then amount else 0 := rfl
  rw [held, locked, supply, h c, paid]
  by_cases same : c = b
  · rw [if_pos same, if_pos (congrArg some same.symm)]
    ring
  · rw [if_neg same, if_neg fun wrong => same (Option.some.inj wrong).symm]
    ring

theorem post (h : l.Balanced) {e : Entry T U} (fits : l.Fits e) : (l.post e).Balanced := by
  cases e with
  | create t b => exact h.create b fits.1 fits.2
  | mint t u v => exact h.mint t u v
  | transfer t src dst v => exact h.transfer t src dst v
  | buy t b u amount cost => exact h.trade fits u amount cost
  | sell t b u amount gain => exact h.trade fits u (-amount) (-gain)

omit [DecidableEq U] in
theorem blank : (Ledger.blank : Ledger T U).Balanced := fun b => by
  simp [Ledger.blank, held, locked]

end Balanced

end Ledger
