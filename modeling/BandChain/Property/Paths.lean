import BandChain.Listener.Prices

/-! What was paid for a token depends on its supply alone, and not on the trades that led there. -/

namespace BandChain

open Ledger (paid issued)

section

variable {K : Type} [DecidableEq K] {L : Layout K} [Sha256] {calls : List Call} {s : StorageMap L} {notices : List Notice} {t : Ident}

/-- In every run in which a token is not minted, its supply is what its buyers bought less what they sold; once it was bought, what
they paid less what they got is the rise of its curve from 0 to the supply; and two runs that go on from a state in which it
has a curve and come to the same supply have paid the same. -/
theorem trades_path_independent (run : Leads calls s notices) (unminted : ¬ Ledger.Minted t (entries notices)) :
    (∃ supply : UInt256, s.kept (.currentSupply t) = .ok supply ∧ (supply.val : ℤ) = issued t (entries notices) ∧
      (Ledger.Bought t (entries notices) →
        ∃ curve : Curve, s.kept (.curveData t) = .ok curve ∧ curve.Rises supply (paid t (entries notices)))) ∧
    ∀ curve : Curve, s.kept (.curveData t) = .ok curve → intact curve = true →
      ∀ (more₁ more₂ : List Call) (s₁ s₂ : StorageMap L) (notices₁ notices₂ : List Notice),
      Leads (calls ++ more₁) s₁ notices₁ → Leads (calls ++ more₂) s₂ notices₂ →
      ¬ Ledger.Minted t (entries notices₁) → ¬ Ledger.Minted t (entries notices₂) →
      s₁.kept (.currentSupply t) = s₂.kept (.currentSupply t) → paid t (entries notices₁) = paid t (entries notices₂) := by
  constructor
  · obtain ⟨supply, kept, total⟩ := run.supply t
    refine ⟨supply, kept, total, fun bought => ?_⟩
    obtain ⟨related, _⟩ := run.booked
    cases run.paidUp unminted with
    | unissued _ _ unbought => exact (unbought bought).elim
    | risen held issued rises =>
      cases kept.symm.trans (related.kept rfl issued)
      exact ⟨_, related.kept rfl held, rises⟩
  · intro curve kept whole more₁ more₂ s₁ s₂ notices₁ notices₂ run₁ run₂ unminted₁ unminted₂ same
    have held := run.booked.1.value rfl kept whole
    obtain ⟨n₁, supply₁, _⟩ := run₁.supply t
    obtain ⟨n₂, supply₂, _⟩ := run₂.supply t
    cases supply₁.symm.trans (same.trans supply₂)
    refine (run₁.paidUp unminted₁).unique (run₂.paidUp unminted₂) ?_ ?_
    · rw [run₁.curve run held, run₂.curve run held]
    · rw [run₁.booked.1.value rfl supply₁ rfl, run₂.booked.1.value rfl supply₂ rfl]

end

/-- A price of 5 at every even supply, and of 0 at every odd one. -/
def Curve.seesaw : Curve :=
  ⟨some (.binary .mul (.constant 5) (.binary .mod (.binary .add .var (.constant 1)) (.constant 2)))⟩

def coin : Ident := ⟨ascii "coin", by decide +kernel⟩

/-- Two coins bought for nothing, and one of them sold for 5. -/
def seesawTrades : List Call :=
  let user := ListenerManager.genesis.account
  [.initChain [], .beginBlock 0 default,
    applyMsg user 1 (.createToken { createdToken := coin, baseToken := ListenerManager.genesis.token, curve := .seesaw }),
    applyMsg user 2 (.buyToken ⟨coin, 2⟩), applyMsg user 3 (.sellToken ⟨coin, 1⟩), .commitBlock]

theorem seesaw_entries : entries (freeNode seesawTrades).manager.notices =
    [.create ListenerManager.genesis.token ListenerManager.genesis.token, .create coin ListenerManager.genesis.token,
      .buy coin ListenerManager.genesis.token ListenerManager.genesis.account 2 0,
      .sell coin ListenerManager.genesis.token ListenerManager.genesis.account 1 5] := by decide +kernel

theorem seesaw_leads : @Leads _ Layout.free _ zeroSha256 seesawTrades (freeStorage seesawTrades) (freeNode seesawTrades).manager.notices :=
  freeNode_leads (by decide +kernel)

theorem seesaw_unminted (t : Ident) : ¬ Ledger.Minted t (entries (freeNode seesawTrades).manager.notices) := by
  rintro ⟨u, v, mem⟩
  rw [seesaw_entries] at mem
  simp at mem

theorem trades_path_independent_seesaw :
    ∃ supply : UInt256, (freeStorage seesawTrades).kept (.currentSupply coin) = .ok supply ∧ (supply.val : ℤ) = 1 ∧
      ∃ curve : Curve, (freeStorage seesawTrades).kept (.curveData coin) = .ok curve ∧ curve.Rises supply (-5) := by
  obtain ⟨supply, kept, total, rises⟩ := (@trades_path_independent _ _ Layout.free zeroSha256 _ _ _ _ seesaw_leads (seesaw_unminted coin)).1
  rw [seesaw_entries] at total rises
  obtain ⟨curve, held, rise⟩ := rises ⟨_, _, _, _, List.mem_cons_of_mem _ (List.mem_cons_of_mem _ List.mem_cons_self)⟩
  exact ⟨supply, kept, total, curve, held, rise⟩

end BandChain
