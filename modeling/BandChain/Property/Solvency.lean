import BandChain.Property.Paths

/-! The supply of a token against what its users hold, where nothing was minted. -/

namespace BandChain

variable {K : Type} {L : Layout K}

namespace StorageMap

/-- How much higher the curve of a token is at its supply than at 0. Where it cannot be evaluated it counts as 0. -/
def rise (s : StorageMap L) (t : Ident) : ℤ :=
  match s.kept (.curveData t), s.kept (.currentSupply t) with
  | .ok curve, .ok supply => amount (Curve.apply curve supply) - amount (Curve.apply curve 0)
  | _, _ => 0

end StorageMap

section

variable [DecidableEq K] [Sha256] {calls : List Call} {s : StorageMap L} {notices : List Notice} {t : Ident}

namespace Leads

/-- What the buyers of a token have paid is the rise of its curve. -/
theorem rise (run : Leads calls s notices) (unminted : ¬ Ledger.Minted t (entries notices)) :
    s.rise t = Ledger.paid t (entries notices) := by
  obtain ⟨related, _⟩ := run.booked
  unfold StorageMap.rise
  cases run.paidUp unminted with
  | unissued zero unpaid _ =>
    rw [related.kept rfl zero, unpaid]
    rcases s.kept (.curveData t) with _ | curve
    · rfl
    · exact Int.sub_self _
  | risen held issued rises =>
    obtain ⟨top, bottom, above, below, sum⟩ := rises
    rw [related.kept rfl held, related.kept rfl issued, sum]
    simp only [above, below, amount]

/-- A token of which no base is written was never paid for. -/
theorem unpaid (run : Leads calls s notices) (unminted : ¬ Ledger.Minted t (entries notices))
    (unnamed : (ledgerOf notices).base t = none) : Ledger.paid t (entries notices) = 0 := by
  cases run.paidUp unminted with
  | unissued _ unpaid _ => exact unpaid
  | risen held _ _ =>
    obtain ⟨_, named⟩ := run.booked.2.2.1.curve held
    cases unnamed.symm.trans named

end Leads

variable {s : StorageMap Layout.free}

/-- What lies in the reserves of the tokens based on `b` is the rise of their curves. -/
theorem locked_eq_rise (run : Leads calls s notices) (unminted : ∀ t, ¬ Ledger.Minted t (entries notices)) (b : Ident) :
    (ledgerOf notices).locked b = ∑ c with s.baseOf c = some b, s.rise c := by
  obtain ⟨related, _, books, _⟩ := run.booked
  rw [Ledger.locked, Finset.sum_filter, Finset.sum_filter]
  refine Finset.sum_congr rfl fun c _ => ?_
  rw [ledgerOf_reserve, run.rise (unminted c)]
  rcases named : (ledgerOf notices).base c with _ | b'
  · rw [run.unpaid (unminted c) named, ite_self, ite_self]
  · have kept : s.kept (.baseIdent c) = .ok b' := related.kept rfl (books.base named)
    rw [StorageMap.baseOf, kept]
    rfl

/-- Where nothing was minted, the supply of a token is what its users hold, and the rises of the curves of the tokens that are
based on it; it covers what they hold if none of these curves has fallen. -/
theorem supply_covers (run : Leads calls s notices) (unminted : ∀ t, ¬ Ledger.Minted t (entries notices)) (b : Ident) :
    ∃ supply : UInt256, s.kept (.currentSupply b) = .ok supply ∧ (∀ u, ∃ n : UInt256, s.kept (.balances b u) = .ok n) ∧
      (supply.val : ℤ) = ∑ u, amount (s.kept (.balances b u)) + ∑ c with s.baseOf c = some b, s.rise c ∧
      ((∀ c, s.baseOf c = some b → 0 ≤ s.rise c) → ∑ u, amount (s.kept (.balances b u)) ≤ supply.val) := by
  obtain ⟨related, typed, books, balanced⟩ := run.booked
  have balance (u : Ident) : ∃ n : UInt256, s.kept (.balances b u) = .ok n ∧ (ledgerOf notices).balance b u = n.val := by
    obtain ⟨n, value⟩ := (typed.on .apply).reads (c := .balances b u) (Overlay.on_currentCache _ .apply) (fun _ same => same) rfl
    have agreed : amount ((s.overlay.on .apply).value (.balances b u)) = _ := books.accounts.balance b u fun _ same => same
    rw [value] at agreed
    exact ⟨n, related.kept rfl value, agreed.symm⟩
  have held : (ledgerOf notices).held b = ∑ u, amount (s.kept (.balances b u)) := by
    refine Finset.sum_congr rfl fun u _ => ?_
    obtain ⟨n, kept, same⟩ := balance u
    rw [kept, same]
    rfl
  obtain ⟨supply, kept, issued⟩ := run.supply b
  have total : (supply.val : ℤ) = ∑ u, amount (s.kept (.balances b u)) + ∑ c with s.baseOf c = some b, s.rise c := by
    rw [issued, ← ledgerOf_supply, balanced b, held, locked_eq_rise run unminted]
  refine ⟨supply, kept, fun u => (balance u).imp fun _ => And.left, total, fun risen => ?_⟩
  rw [total]
  exact Int.le_add_of_nonneg_right (Finset.sum_nonneg fun c mem => risen c (Finset.mem_filter.mp mem).2)

end

theorem supply_covers_seesaw :
    ∃ supply : UInt256, (freeStorage seesawTrades).kept (.currentSupply ListenerManager.genesis.token) = .ok supply ∧
      (supply.val : ℤ) = ∑ u, amount ((freeStorage seesawTrades).kept (.balances ListenerManager.genesis.token u)) +
        ∑ c with (freeStorage seesawTrades).baseOf c = some ListenerManager.genesis.token, (freeStorage seesawTrades).rise c := by
  obtain ⟨supply, kept, _, total, _⟩ := @supply_covers zeroSha256 _ _ _ seesaw_leads seesaw_unminted ListenerManager.genesis.token
  exact ⟨supply, kept, total⟩

/-- Five band were made from nothing. -/
theorem seesaw_insolvent : ¬ ∀ (calls : List Call) (s : StorageMap Layout.free) (notices : List Notice),
    @Leads _ Layout.free _ zeroSha256 calls s notices → (∀ t, ¬ Ledger.Minted t (entries notices)) → ∀ b, ∃ supply : UInt256,
      s.kept (.currentSupply b) = .ok supply ∧ ∑ u, amount (s.kept (.balances b u)) ≤ supply.val := by
  intro every
  obtain ⟨supply, kept, covered⟩ := every _ _ _ seesaw_leads seesaw_unminted
    ListenerManager.genesis.token
  have none : (freeStorage seesawTrades).kept (.currentSupply ListenerManager.genesis.token) = .ok (0 : UInt256) := by decide +kernel
  have five : amount ((freeStorage seesawTrades).kept (.balances ListenerManager.genesis.token ListenerManager.genesis.account)) = 5 := by
    decide +kernel
  have positive (u : Ident) : 0 ≤ amount ((freeStorage seesawTrades).kept (.balances ListenerManager.genesis.token u)) := by
    unfold amount
    split
    · exact Int.natCast_nonneg _
    · exact Int.le_refl 0
  have least := Finset.single_le_sum (fun u _ => positive u) (Finset.mem_univ ListenerManager.genesis.account)
  cases none.symm.trans kept
  rw [five] at least
  exact absurd (Int.le_trans least covered) (by decide)

end BandChain
