import BandChain.Listener.Books

/-! What was paid for a token, against its curve. -/

namespace BandChain

/-- The curve is `r` higher at `n` than at no supply. -/
def Curve.Rises (curve : Curve) (n : UInt256) (r : ℤ) : Prop :=
  ∃ top bottom, curve.apply n = .ok top ∧ curve.apply 0 = .ok bottom ∧ r = top.val - bottom.val

theorem Curve.Rises.unique {curve : Curve} {n : UInt256} {r r' : ℤ} (h : curve.Rises n r) (h' : curve.Rises n r') : r = r' := by
  obtain ⟨top, bottom, above, below, rfl⟩ := h
  obtain ⟨top', bottom', above', below', rfl⟩ := h'
  cases above.symm.trans above'
  cases below.symm.trans below'
  rfl

theorem Curve.Rises.flat {curve : Curve} {r : ℤ} (h : curve.Rises 0 r) : r = 0 := by
  obtain ⟨top, bottom, above, below, rfl⟩ := h
  cases above.symm.trans below
  exact Int.sub_self _

variable {K : Type} [DecidableEq K] {L : Layout K} {o o' : Overlay L} {l : Ledger Ident Ident} {t : Ident}
  {e : Ledger.Entry Ident Ident} {es more : List (Ledger.Entry Ident Ident)} {handed : HeaderMsg → Msg → Prop}

open Ledger (paid issued paid_concat)

open Overlay (Tokenwise write_value_ne write_value_self value_mark_own value_rewound_own)

/-- A token of which nothing was issued, or one whose buyers have paid the rise of its curve. -/
inductive PaidUp (t : Ident) (o : Overlay L) (es : List (Ledger.Entry Ident Ident)) : Prop
  | unissued (supply : o.value (.currentSupply t) = .ok (0 : UInt256)) (unpaid : paid t es = 0) (unbought : ¬ Ledger.Bought t es)
  | risen {curve : Curve} {n : UInt256} (held : o.value (.curveData t) = .ok curve) (supply : o.value (.currentSupply t) = .ok n)
      (rises : curve.Rises n (paid t es))

namespace PaidUp

omit [DecidableEq K] in
theorem of_values (h : PaidUp t o es) (curve : o'.value (.curveData t) = o.value (.curveData t))
    (supply : o'.value (.currentSupply t) = o.value (.currentSupply t)) : PaidUp t o' es := by
  cases h with
  | unissued zero unpaid unbought => exact .unissued (supply.trans zero) unpaid unbought
  | risen held issued rises => exact .risen (curve.trans held) (supply.trans issued) rises

omit [DecidableEq K] in
theorem untraded (h : PaidUp t o es) (unpaid : e.paid t = 0) (unbought : ∀ b u amount cost, e ≠ .buy t b u amount cost) :
    PaidUp t o (es ++ [e]) := by
  have same : paid t (es ++ [e]) = paid t es := by rw [paid_concat, unpaid, add_zero]
  cases h with
  | unissued supply nothing before =>
    refine .unissued supply (same.trans nothing) ?_
    rintro ⟨b, u, amount, cost, mem⟩
    rcases List.mem_append.mp mem with mem | mem
    · exact before ⟨b, u, amount, cost, mem⟩
    · exact unbought b u amount cost (List.mem_singleton.mp mem).symm
  | risen held supply rises => exact .risen held supply (same ▸ rises)

omit [DecidableEq K] in
theorem bought {u : Ident} {v : UInt256} (h : PaidUp t o es) (p : Purchase o t u v) :
    PaidUp t p.after (es ++ [.buy t p.baseToken u v.val p.spent.val]) := by
  have held : p.after.value (.curveData t) = .ok p.curve := by
    rw [Purchase.after, write_value_ne _ _ _ (by simp), write_value_ne _ _ _ (by simp), write_value_ne _ _ _ (by simp), p.curve_read]
  have supply : p.after.value (.currentSupply t) = .ok p.raised := write_value_self _ _ _ rfl
  obtain ⟨covered, difference⟩ := UInt256.sub_ok p.price
  have spent : (p.spent.val : ℤ) = p.upper.val - p.lower.val := by omega
  have total : paid t (es ++ [.buy t p.baseToken u v.val p.spent.val]) = paid t es + p.spent.val := by
    rw [paid_concat, Ledger.Entry.paid, if_pos rfl]
  refine .risen held supply ?_
  cases h with
  | unissued zero unpaid _ =>
    have empty : p.supply = 0 := (Except.ok.inj (zero.symm.trans p.supply_read)).symm
    refine ⟨_, _, p.upper_price, empty ▸ p.lower_price, ?_⟩
    rw [total, unpaid, spent, zero_add]
  | risen held supply rises =>
    cases held.symm.trans p.curve_read
    cases supply.symm.trans p.supply_read
    obtain ⟨top, bottom, above, below, sum⟩ := rises
    cases above.symm.trans p.lower_price
    refine ⟨_, _, p.upper_price, below, ?_⟩
    rw [total, sum, spent]
    ring

omit [DecidableEq K] in
theorem sold {u : Ident} {v : UInt256} (h : PaidUp t o es) (p : Sale o t u v) :
    PaidUp t p.after (es ++ [.sell t p.baseToken u v.val p.received.val]) := by
  have held : p.after.value (.curveData t) = .ok p.curve := by
    rw [Sale.after, write_value_ne _ _ _ (by simp), write_value_ne _ _ _ (by simp), write_value_ne _ _ _ (by simp), p.curve_read]
  have supply : p.after.value (.currentSupply t) = .ok p.lowered := write_value_self _ _ _ rfl
  obtain ⟨covered, difference⟩ := UInt256.sub_ok p.price
  have received : (p.received.val : ℤ) = p.upper.val - p.lower.val := by omega
  have total : paid t (es ++ [.sell t p.baseToken u v.val p.received.val]) = paid t es - p.received.val := by
    rw [paid_concat, Ledger.Entry.paid, if_pos rfl, sub_eq_add_neg]
  cases h with
  | unissued zero unpaid unbought =>
    -- Of no supply only nothing can be sold.
    have empty : p.supply = 0 := (Except.ok.inj (zero.symm.trans p.supply_read)).symm
    obtain ⟨_, rest⟩ := UInt256.sub_ok p.lowering
    have nothing : p.lowered = 0 := by
      apply UInt256.ext
      rw [rest, empty]
      exact Nat.zero_sub _
    have free : p.upper = p.lower := by
      have upper := p.upper_price
      rw [empty, ← nothing, p.lower_price] at upper
      exact (Except.ok.inj upper).symm
    refine .unissued (by rw [supply, nothing]) ?_ ?_
    · rw [total, unpaid, received, free, sub_self, sub_zero]
    · rintro ⟨b, w, amount, cost, mem⟩
      rcases List.mem_append.mp mem with mem | mem
      · exact unbought ⟨b, w, amount, cost, mem⟩
      · cases List.mem_singleton.mp mem
  | risen curved issued rises =>
    cases curved.symm.trans p.curve_read
    cases issued.symm.trans p.supply_read
    obtain ⟨top, bottom, above, below, sum⟩ := rises
    cases above.symm.trans p.upper_price
    refine .risen held supply ⟨_, _, p.lower_price, below, ?_⟩
    rw [total, sum, received]
    ring

theorem posted (h : PaidUp t o es) (books : Books o l) (change : Posted o e o') (unminted : ¬ Ledger.Minted t [e]) :
    PaidUp t o' (es ++ [e]) := by
  cases change with
  | @created s base curve absent _ _ =>
    have kept : PaidUp t o (es ++ [.create s base]) := h.untraded rfl (by simp)
    by_cases same : t = s
    · subst same
      cases kept with
      | unissued _ unpaid unbought => exact .unissued (write_value_self _ _ _ rfl) unpaid unbought
      | risen held _ _ =>
        obtain ⟨_, named⟩ := books.curve held
        cases (books.fresh absent).1.symm.trans named
    · exact kept.of_values (Overlay.withToken_value books.current (L.own_curveData t) (by simp [same]))
        (Overlay.withToken_value books.current (L.own_currentSupply t) (by simp [same]))
  | @minted s u v _ p =>
    have other : t ≠ s := fun same => unminted ⟨u, v.val, List.mem_singleton.mpr (same ▸ rfl)⟩
    refine (h.untraded rfl (by simp)).of_values ?_ ?_
    · rw [Minted.after, write_value_ne _ _ _ (by simp), write_value_ne _ _ _ (by simp)]
    · rw [Minted.after, write_value_ne _ _ _ (by simpa using other), write_value_ne _ _ _ (by simp)]
  | @transferred s src dst v _ p =>
    refine (h.untraded rfl (by simp)).of_values ?_ ?_
    · rw [Transferred.after, write_value_ne _ _ _ (by simp), write_value_ne _ _ _ (by simp)]
    · rw [Transferred.after, write_value_ne _ _ _ (by simp), write_value_ne _ _ _ (by simp)]
  | @bought s u v _ p =>
    by_cases same : t = s
    · subst same
      exact h.bought p
    have kept : PaidUp t o (es ++ [.buy s p.baseToken u v.val p.spent.val]) := h.untraded (if_neg same) (fun _ _ _ _ is => same (by cases is; rfl))
    refine kept.of_values ?_ ?_
    · rw [Purchase.after, write_value_ne _ _ _ (by simp), write_value_ne _ _ _ (by simp), write_value_ne _ _ _ (by simp)]
    · rw [Purchase.after, write_value_ne _ _ _ (by simpa using same), write_value_ne _ _ _ (by simp), write_value_ne _ _ _ (by simp)]
  | @sold s u v _ p =>
    by_cases same : t = s
    · subst same
      exact h.sold p
    have kept : PaidUp t o (es ++ [.sell s p.baseToken u v.val p.received.val]) := h.untraded (if_neg same) (by simp)
    refine kept.of_values ?_ ?_
    · rw [Sale.after, write_value_ne _ _ _ (by simp), write_value_ne _ _ _ (by simp), write_value_ne _ _ _ (by simp)]
    · rw [Sale.after, write_value_ne _ _ _ (by simpa using same), write_value_ne _ _ _ (by simp), write_value_ne _ _ _ (by simp)]

theorem turn (h : PaidUp t o es) (books : Books o l) (turn : Turn o handed more o') (unminted : ¬ Ledger.Minted t more) :
    PaidUp t o' (es ++ more) := by
  cases turn with
  | still same =>
    rw [List.append_nil]
    exact h.of_values (same.value rfl) (same.value rfl)
  | leaked _ _ _ same =>
    rw [List.append_nil]
    exact h.of_values ((same.value rfl).trans (value_mark_own books.current (L.own_curveData t)))
      ((same.value rfl).trans (value_mark_own books.current (L.own_currentSupply t)))
  | posted _ same change separate whole =>
    have after := (h.of_values (same.value rfl) (same.value rfl)).posted (books.congr same) change unminted
    have current := ((books.congr same).posted change).2.current
    exact after.of_values (value_rewound_own current separate whole (L.own_curveData t))
      (value_rewound_own current separate whole (L.own_currentSupply t))

omit [DecidableEq K] in
/-- Two states of one curve with the same supply were paid for alike. -/
theorem unique {es' : List (Ledger.Entry Ident Ident)} (paidUp : PaidUp t o es) (paidUp' : PaidUp t o' es')
    (curve : o.value (.curveData t) = o'.value (.curveData t)) (supply : o.value (.currentSupply t) = o'.value (.currentSupply t)) :
    paid t es = paid t es' := by
  cases paidUp with
  | unissued zero unpaid _ =>
    cases paidUp' with
    | unissued _ unpaid' _ => rw [unpaid, unpaid']
    | @risen _ n _ held' rises' =>
      obtain rfl : n = 0 := Except.ok.inj (held'.symm.trans (supply.symm.trans zero))
      rw [unpaid, rises'.flat]
  | @risen _ n held issued rises =>
    cases paidUp' with
    | unissued zero' unpaid' _ =>
      obtain rfl : n = 0 := Except.ok.inj (issued.symm.trans (supply.trans zero'))
      rw [unpaid', rises.flat]
    | risen held' issued' rises' =>
      cases held.symm.trans (curve.trans held')
      cases issued.symm.trans (supply.trans issued')
      exact rises.unique rises'

end PaidUp

/-- A curve that is stored stays. -/
theorem turn_curve {curve : Curve} (books : Books o l) (turn : Turn o handed more o') (held : o.value (.curveData t) = .ok curve) :
    o'.value (.curveData t) = .ok curve := by
  cases turn with
  | still same => exact (same.value rfl).trans held
  | leaked _ _ _ same => exact (same.value rfl).trans ((value_mark_own books.current (L.own_curveData t)).trans held)
  | @posted e p q _ same change separate whole =>
    have books' := books.congr same
    have held' : p.value (.curveData t) = .ok curve := (same.value rfl).trans held
    refine (value_rewound_own (books'.posted change).2.current separate whole (L.own_curveData t)).trans ?_
    cases change with
    | @created s _ _ absent _ _ =>
      have other : t ≠ s := by
        rintro rfl
        obtain ⟨_, named⟩ := books'.curve held'
        cases (books'.fresh absent).1.symm.trans named
      exact (Overlay.withToken_value books'.current (L.own_curveData t) (by simp [other])).trans held'
    | minted _ p => rwa [Minted.after, write_value_ne _ _ _ (by simp), write_value_ne _ _ _ (by simp)]
    | transferred _ p => rwa [Transferred.after, write_value_ne _ _ _ (by simp), write_value_ne _ _ _ (by simp)]
    | bought _ p =>
      rwa [Purchase.after, write_value_ne _ _ _ (by simp), write_value_ne _ _ _ (by simp), write_value_ne _ _ _ (by simp)]
    | sold _ p => rwa [Sale.after, write_value_ne _ _ _ (by simp), write_value_ne _ _ _ (by simp), write_value_ne _ _ _ (by simp)]

/-! ### Runs -/

/-- Unless it was minted, a token is paid up. -/
def PaidUpUnminted (t : Ident) (o : Overlay L) (es : List (Ledger.Entry Ident Ident)) : Prop := ¬ Ledger.Minted t es → PaidUp t o es

theorem PaidUpUnminted.turn (books : Books o (es.foldl Ledger.post Ledger.blank)) (turn : Turn o handed more o')
    (paidUp : PaidUpUnminted t o es) : PaidUpUnminted t o' (es ++ more) := by
  intro unminted
  refine (paidUp ?_).turn books turn ?_
  · rintro ⟨u, v, mem⟩
    exact unminted ⟨u, v, List.mem_append_left _ mem⟩
  · rintro ⟨u, v, mem⟩
    exact unminted ⟨u, v, List.mem_append_right _ mem⟩

omit [DecidableEq K] in
theorem paidUp_start : Keeping (PaidUpUnminted (L := L) t) (Node.start {}) := fun _ =>
  ⟨_, rfl, Overlay.steady_empty, Overlay.typed_empty, books_blank, fun _ =>
    .unissued rfl rfl (by rintro ⟨_, _, _, _, mem⟩; cases mem)⟩

section

variable [Sha256] {calls : List Call} {s : StorageMap L} {notices : List Notice}

namespace Leads

theorem supply (run : Leads calls s notices) (t : Ident) :
    ∃ supply : UInt256, s.kept (.currentSupply t) = .ok supply ∧ (supply.val : ℤ) = issued t (entries notices) := by
  obtain ⟨related, typed, books, _⟩ := run.booked
  obtain ⟨n, value⟩ := (typed.on .apply).reads (Overlay.on_currentCache _ .apply) (L.own_currentSupply t) rfl
  have agreed : amount ((s.overlay.on .apply).value (.currentSupply t)) = _ := books.accounts.supply t
  rw [value, ledgerOf_supply] at agreed
  exact ⟨n, related.kept rfl value, agreed⟩

theorem paidUp (run : Leads calls s notices) (unminted : ¬ Ledger.Minted t (entries notices)) :
    PaidUp t (s.overlay.on .apply) (entries notices) :=
  (run.keeping (paidUp_start.run PaidUpUnminted.turn calls)).2.2.2 unminted

/-- A curve stored after some calls is stored after more. -/
theorem curve {more : List Call} {s' : StorageMap L} {notices' : List Notice} (longer : Leads (calls ++ more) s' notices')
    (run : Leads calls s notices) {curve : Curve} (held : (s.overlay.on .apply).value (.curveData t) = .ok curve) :
    (s'.overlay.on .apply).value (.curveData t) = .ok curve := by
  have start : Keeping (fun o _ => o.value (.curveData t) = .ok curve) ((Node.start ({} : Overlay L)).run calls) := by
    intro up
    obtain ⟨o, primary, steady, typed, books, _⟩ := (booked_start (L := L)).run calls up
    obtain ⟨s'', stored, related⟩ := (twin_start.run calls).storage run.up primary
    cases run.primary.symm.trans stored
    obtain rfl := related.1.overlay
    exact ⟨_, primary, steady, typed, books, held⟩
  have kept := start.run turn_curve more
  rw [Node.run, Node.run, ← List.foldl_append] at kept
  exact (longer.keeping kept).2.2.2

end Leads

end

end BandChain
