import BandChain.Contract.Returns
import BandChain.Listener.World

/-! What an overlay shows of a world to whoever names only identifiers without a separator. -/

namespace BandChain

/-- No "/" in it. -/
def Str.Plain {maxLength : Nat} {letterCase : StringCase} (a : Str maxLength letterCase) : Prop := (47 : UInt8) ∉ a.rawdata

def Cell.Plain : Cell → Prop
  | verifyKey a | nonce a => a.Plain
  | curveData t | baseIdent t | currentSupply t => t.Plain
  | balances t u => t.Plain ∧ u.Plain

def Slot.Plain : Slot → Prop
  | contract k => k.ident.Plain
  | data c => c.Plain

namespace Slot

theorem separator_mem (before after : ByteString) :
    (47 : UInt8) ∈ before ++ ascii "/nonce" ∧ (47 : UInt8) ∈ before ++ (ascii "/balances/" ++ after) ∧
      (47 : UInt8) ∈ before ++ ascii "/balances" := by
  refine ⟨List.mem_append_right _ (by decide), List.mem_append_right _ (List.mem_append_left _ (by decide)), ?_⟩
  exact List.mem_append_right _ (by decide)

theorem ReadLater.separated {s v t w : Ident} (later : ReadLater s v t w) : ¬ t.Plain := by
  intro plain
  rcases later with ⟨mid, named, _⟩ | ⟨named, _⟩
  · exact plain (named ▸ (separator_mem _ _).2.1)
  · exact plain (named ▸ (separator_mem _ []).2.2)

theorem Clash.separated {x y : Slot} (clash : Clash x y) (first : x.Plain) (second : y.Plain) : False := by
  cases clash with
  | markerNonce named => exact first (show (47 : UInt8) ∈ _ from named ▸ (separator_mem _ []).1)
  | nonceMarker named => exact second (show (47 : UInt8) ∈ _ from named ▸ (separator_mem _ []).1)
  | markerBalance named => exact first (show (47 : UInt8) ∈ _ from named ▸ (separator_mem _ _).2.1)
  | balanceMarker named => exact second (show (47 : UInt8) ∈ _ from named ▸ (separator_mem _ _).2.1)
  | balances later => exact later.separated second.1
  | balancesSymm later => exact later.separated first.1

end Slot

theorem Layout.plain_inj {K : Type} (L : Layout K) {x y : Slot} (first : x.Plain) (second : y.Plain) (same : L.key x = L.key y) :
    x = y :=
  (L.key_eq same).resolve_right fun clash => clash.separated first second

variable {K : Type} {L : Layout K}

/-- A number that is read. -/
def Reads (x : Except Stop UInt256) (n : Nat) : Prop := ∃ k, x = .ok k ∧ k.val = n

namespace Overlay

structure View (o : Overlay L) (w : World) : Prop where
  accounts : ∀ a : Ident, a.Plain → o.hasContract (.account a) = .ok (w.accounts a).isSome
  tokens : ∀ t : Ident, t.Plain → o.hasContract (.token t) = .ok (w.tokens t)
  verifyKey : ∀ a vk, a.Plain → w.accounts a = some vk → o.value (.verifyKey a) = .ok vk
  nonce : ∀ a : Ident, a.Plain → Reads (o.value (.nonce a)) (w.nonce a)
  unpriced : ∀ t : Ident, t.Plain → w.terms t = none → o.value (.curveData t) = .error .crash
  terms : ∀ (t : Ident) curve base, t.Plain → w.terms t = some (curve, base) →
    o.value (.curveData t) = .ok curve ∧ o.value (.baseIdent t) = .ok base ∧ base.Plain
  supply : ∀ t : Ident, t.Plain → Reads (o.value (.currentSupply t)) (w.supply t)
  balance : ∀ t u : Ident, t.Plain → u.Plain → Reads (o.value (.balances t u)) (w.balance t u)

/-- What waits has plain names, and is whole. -/
structure Tame (o : Overlay L) : Prop where
  current : o.currentCache = some .apply
  plain : ∀ c, o.pending c ≠ none → c.Plain
  whole : ∀ c val, o.pending c = some val → intact val = true

variable {o : Overlay L} {w : World}

/-! ### Writes -/

theorem Tame.write (tame : o.Tame) {c : Cell} {val : c.Val} (plain : c.Plain) (whole : intact val = true) : (o.write c val).Tame where
  current := tame.current
  plain c' held := by
    by_cases same : c' = c
    · exact same ▸ plain
    · rw [write_pending_ne _ _ _ same] at held
      exact tame.plain c' held
  whole c' val' held := by
    by_cases same : c' = c
    · subst same
      rw [write_pending_self] at held
      rwa [← Option.some.inj held]
    · rw [write_pending_ne _ _ _ same] at held
      exact tame.whole c' val' held

theorem Tame.mark [DecidableEq K] (tame : o.Tame) (k : ContractKey) : (o.mark k).Tame where
  current := (mark_currentCache o k).trans tame.current
  plain := by
    rw [mark_pending]
    exact tame.plain
  whole := by
    rw [mark_pending]
    exact tame.whole

theorem View.setBalance (view : o.View w) (t u : Ident) (n : UInt256) {k : Nat} (number : n.val = k) :
    (o.write (.balances t u) n).View (w.setBalance t u k) where
  accounts := view.accounts
  tokens := view.tokens
  verifyKey a vk plain known := (write_value_ne _ _ _ (by simp)).trans (view.verifyKey a vk plain known)
  nonce a plain := by
    rw [write_value_ne _ _ _ (by simp)]
    exact view.nonce a plain
  unpriced t' plain none := (write_value_ne _ _ _ (by simp)).trans (view.unpriced t' plain none)
  terms t' curve base plain known := by
    rw [write_value_ne _ _ _ (by simp), write_value_ne _ _ _ (by simp)]
    exact view.terms t' curve base plain known
  supply t' plain := by
    rw [write_value_ne _ _ _ (by simp)]
    exact view.supply t' plain
  balance t' u' first second := by
    rw [World.setBalance_balance]
    by_cases same : t' = t ∧ u' = u
    · obtain ⟨rfl, rfl⟩ := same
      rw [if_pos ⟨rfl, rfl⟩]
      exact ⟨n, write_value_self _ _ _ rfl, number⟩
    · rw [if_neg same, write_value_ne _ _ _ (by simpa using same)]
      exact view.balance t' u' first second

theorem View.setSupply (view : o.View w) (t : Ident) (n : UInt256) {k : Nat} (number : n.val = k) :
    (o.write (.currentSupply t) n).View (w.setSupply t k) where
  accounts := view.accounts
  tokens := view.tokens
  verifyKey a vk plain known := (write_value_ne _ _ _ (by simp)).trans (view.verifyKey a vk plain known)
  nonce a plain := by
    rw [write_value_ne _ _ _ (by simp)]
    exact view.nonce a plain
  unpriced t' plain none := (write_value_ne _ _ _ (by simp)).trans (view.unpriced t' plain none)
  terms t' curve base plain known := by
    rw [write_value_ne _ _ _ (by simp), write_value_ne _ _ _ (by simp)]
    exact view.terms t' curve base plain known
  supply t' plain := by
    rw [World.setSupply_supply]
    by_cases same : t' = t
    · subst same
      rw [if_pos rfl]
      exact ⟨n, write_value_self _ _ _ rfl, number⟩
    · rw [if_neg same, write_value_ne _ _ _ (by simpa using same)]
      exact view.supply t' plain
  balance t' u' first second := by
    rw [write_value_ne _ _ _ (by simp)]
    exact view.balance t' u' first second

/-! ### New contracts -/

variable [DecidableEq K]

theorem value_mark_plain (current : o.currentCache = some .apply) {k : ContractKey} {c : Cell} (named : k.ident.Plain) (plain : c.Plain) :
    (o.mark k).value c = o.value c :=
  value_mark current fun same => by cases L.plain_inj (x := .data c) (y := .contract k) plain named same

theorem View.takeName (view : o.View w) (current : o.currentCache = some .apply) {t : Ident} (named : t.Plain) :
    (o.mark (.token t)).View (w.takeName t) := by
  have value (c : Cell) (plain : c.Plain) : (o.mark (.token t)).value c = o.value c :=
    value_mark_plain (k := .token t) current named plain
  refine ⟨?_, ?_, ?_, ?_, ?_, ?_, ?_, ?_⟩
  · exact fun a plain => (hasContract_mark_ne current (by simp)).trans (view.accounts a plain)
  · intro t' plain
    rw [World.takeName_tokens]
    by_cases same : t' = t
    · subst same
      rw [hasContract_mark_self current, if_pos rfl]
    · rw [hasContract_mark_ne current (by simpa using same), if_neg same]
      exact view.tokens t' plain
  · exact fun a vk plain known => (value (.verifyKey a) plain).trans (view.verifyKey a vk plain known)
  · exact fun a plain => (value (.nonce a) plain).symm ▸ view.nonce a plain
  · exact fun t' plain none => (value (.curveData t') plain).trans (view.unpriced t' plain none)
  · intro t' curve base plain known
    rw [value (.curveData t') plain, value (.baseIdent t') plain]
    exact view.terms t' curve base plain known
  · exact fun t' plain => (value (.currentSupply t') plain).symm ▸ view.supply t' plain
  · exact fun t' u first second => (value (.balances t' u) ⟨first, second⟩).symm ▸ view.balance t' u first second

theorem View.withToken (view : o.View w) (current : o.currentCache = some .apply) {t base : Ident} {curve : Curve} (named : t.Plain)
    (plainBase : base.Plain) (whole : intact curve = true) : (o.withToken t base curve).View (w.withToken t base curve) := by
  have taken := view.takeName current named
  have value {c : Cell} (other : c ≠ .curveData t ∧ c ≠ .baseIdent t ∧ c ≠ .currentSupply t) :
      (o.withToken t base curve).value c = (o.mark (.token t)).value c := by
    rw [Overlay.withToken, write_value_ne _ _ _ other.2.2, write_value_ne _ _ _ other.2.1, write_value_ne _ _ _ other.1]
  refine ⟨taken.accounts, taken.tokens, ?_, ?_, ?_, ?_, ?_, ?_⟩
  · intro a vk plain known
    rw [value (by simp)]
    exact taken.verifyKey a vk plain known
  · intro a plain
    rw [value (by simp)]
    exact taken.nonce a plain
  · intro t' plain none
    have same : t' ≠ t := by
      rintro rfl
      simp [World.withToken] at none
    rw [value (by simpa using same)]
    refine taken.unpriced t' plain ?_
    simpa [World.withToken, World.takeName, same] using none
  · intro t' curve' base' plain known
    by_cases same : t' = t
    · subst same
      obtain ⟨rfl, rfl⟩ : curve = curve' ∧ base = base' := by simpa [World.withToken] using known
      refine ⟨?_, ?_, plainBase⟩
      · rw [Overlay.withToken, write_value_ne _ _ _ (by simp), write_value_ne _ _ _ (by simp)]
        exact write_value_self _ _ _ whole
      · rw [Overlay.withToken, write_value_ne _ _ _ (by simp)]
        exact write_value_self _ _ _ rfl
    · rw [value (by simpa using same), value (by simpa using same)]
      refine taken.terms t' curve' base' plain ?_
      simpa [World.withToken, World.takeName, same] using known
  · intro t' plain
    by_cases same : t' = t
    · subst same
      exact ⟨0, write_value_self _ _ _ rfl, by simp [World.withToken]⟩
    · rw [value (by simpa using same), show (w.withToken t base curve).supply t' = w.supply t' from Function.update_of_ne same ..]
      exact taken.supply t' plain
  · intro t' u' first second
    rw [value (by simp)]
    exact taken.balance t' u' first second

theorem View.withAccount (view : o.View w) (current : o.currentCache = some .apply) {a : Ident} (named : a.Plain) (vk : VerifyKey) :
    (o.withAccount a vk).View (w.withAccount a vk) := by
  have value (c : Cell) (plain : c.Plain) (other : c ≠ .verifyKey a ∧ c ≠ .nonce a) : (o.withAccount a vk).value c = o.value c := by
    rw [Overlay.withAccount, write_value_ne _ _ _ other.2, write_value_ne _ _ _ other.1]
    exact value_mark_plain (k := .account a) current named plain
  refine ⟨?_, ?_, ?_, ?_, ?_, ?_, ?_, ?_⟩
  · intro a' plain
    by_cases same : a' = a
    · subst same
      rw [show (w.withAccount a' vk).accounts a' = some vk from Function.update_self ..]
      exact hasContract_mark_self current (.account a')
    · rw [show (w.withAccount a vk).accounts a' = w.accounts a' from Function.update_of_ne same .., ← view.accounts a' plain]
      exact hasContract_mark_ne current (by simpa using same)
  · intro t plain
    exact (hasContract_mark_ne current (by simp)).trans (view.tokens t plain)
  · intro a' vk' plain known
    by_cases same : a' = a
    · subst same
      obtain rfl : vk = vk' := by simpa [World.withAccount] using known
      rw [Overlay.withAccount, write_value_ne _ _ _ (by simp)]
      exact write_value_self _ _ _ rfl
    · rw [value (.verifyKey a') plain (by simpa using same)]
      refine view.verifyKey a' vk' plain ?_
      simpa [World.withAccount, same] using known
  · intro a' plain
    by_cases same : a' = a
    · subst same
      exact ⟨0, write_value_self _ _ _ rfl, by simp [World.withAccount]⟩
    · rw [value (.nonce a') plain (by simpa using same), show (w.withAccount a vk).nonce a' = w.nonce a' from Function.update_of_ne same ..]
      exact view.nonce a' plain
  · intro t plain none
    rw [value (.curveData t) plain (by simp)]
    exact view.unpriced t plain none
  · intro t curve base plain known
    rw [value (.curveData t) plain (by simp), value (.baseIdent t) plain (by simp)]
    exact view.terms t curve base plain known
  · intro t plain
    rw [value (.currentSupply t) plain (by simp)]
    exact view.supply t plain
  · intro t u first second
    rw [value (.balances t u) ⟨first, second⟩ (by simp)]
    exact view.balance t u first second

theorem Tame.withAccount (tame : o.Tame) {a : Ident} (plain : a.Plain) (vk : VerifyKey) : (o.withAccount a vk).Tame :=
  ((tame.mark _).write (c := .verifyKey a) plain rfl).write (c := .nonce a) plain rfl

theorem Tame.withToken (tame : o.Tame) {t : Ident} (plain : t.Plain) (base : Ident) {curve : Curve} (whole : intact curve = true) :
    (o.withToken t base curve).Tame :=
  (((tame.mark _).write (c := .curveData t) plain whole).write (c := .baseIdent t) plain rfl).write (c := .currentSupply t) plain rfl

/-! ### A flush -/

omit [DecidableEq K] in
theorem View.rewound (view : o.View w) (tame : o.Tame) : o.rewound.View w := by
  have separate : o.Separate := fun {c d} first second same =>
    Slot.data.inj (L.plain_inj (x := .data c) (y := .data d) (tame.plain c first) (tame.plain d second) same)
  have value (c : Cell) (plain : c.Plain) : o.rewound.value c = o.value c :=
    value_rewound tame.current separate (tame.whole c) fun c' same held =>
      Slot.data.inj (L.plain_inj (x := .data c') (y := .data c) (tame.plain c' held) plain same)
  have contract (k : ContractKey) (plain : k.ident.Plain) : o.rewound.hasContract k = o.hasContract k := by
    refine hasContract_rewound tame.current fun c same => ?_
    by_contra held
    cases L.plain_inj (x := .data c) (y := .contract k) (tame.plain c held) plain same
  refine ⟨?_, ?_, ?_, ?_, ?_, ?_, ?_, ?_⟩
  · exact fun a plain => (contract (.account a) plain).trans (view.accounts a plain)
  · exact fun t plain => (contract (.token t) plain).trans (view.tokens t plain)
  · exact fun a vk plain known => (value (.verifyKey a) plain).trans (view.verifyKey a vk plain known)
  · exact fun a plain => (value (.nonce a) plain).symm ▸ view.nonce a plain
  · exact fun t plain none => (value (.curveData t) plain).trans (view.unpriced t plain none)
  · intro t curve base plain known
    rw [value (.curveData t) plain, value (.baseIdent t) plain]
    exact view.terms t curve base plain known
  · exact fun t plain => (value (.currentSupply t) plain).symm ▸ view.supply t plain
  · exact fun t u first second => (value (.balances t u) ⟨first, second⟩).symm ▸ view.balance t u first second

end Overlay

end BandChain
