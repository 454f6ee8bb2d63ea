import BandChain.Listener.Books

/-! The balances that an entry writes, on the keys of the store: one may have the key of another balance or of a marker. -/

namespace BandChain

variable {K : Type} {L : Layout K} {o o' p q : Overlay L} {e : Ledger.Entry Ident Ident} {t u : Ident}

/-- A balance that the entry sets has the key of the token's marker. -/
def Layout.Overwrites (L : Layout K) (e : Ledger.Entry Ident Ident) (t : Ident) : Prop :=
  ∃ s u, e.Writes s u ∧ L.key (.data (.balances s u)) = L.key (.contract (.token t))

namespace Overlay

/-- Nothing of a token waits for a flush. -/
def Clear (o : Overlay L) : Prop := ∀ (c : Cell) (t : Ident), c.contract = .token t → o.pending c = none

theorem write_pending_iff {c c' : Cell} {v : c.Val} : (o.write c v).pending c' ≠ none ↔ c' = c ∨ o.pending c' ≠ none := by
  by_cases same : c' = c
  · subst same
    simp
  · rw [write_pending_ne _ _ _ same]
    simp [same]

end Overlay

variable [DecidableEq K]

open Overlay (write_pending_iff)

namespace Posted

/-- The balances that wait for a flush are those that the entry sets. -/
theorem pending_iff (change : Posted p e q) (clear : p.Clear) : q.pending (.balances t u) ≠ none ↔ e.Writes t u := by
  have nothing : p.pending (.balances t u) = none := clear _ _ rfl
  cases change with
  | created _ _ _ =>
    rw [Overlay.withToken_pending_ne _ _ _ (by simp), nothing]
    simp [Ledger.Entry.Writes]
  | minted _ _ =>
    rw [Minted.after, write_pending_iff, write_pending_iff, nothing]
    simp [Ledger.Entry.Writes]
  | transferred _ _ =>
    rw [Transferred.after, write_pending_iff, write_pending_iff, nothing]
    simp [Ledger.Entry.Writes]
    tauto
  | bought _ _ =>
    rw [Purchase.after, write_pending_iff, write_pending_iff, write_pending_iff, nothing]
    simp [Ledger.Entry.Writes]
    tauto
  | sold _ _ =>
    rw [Sale.after, write_pending_iff, write_pending_iff, write_pending_iff, nothing]
    simp [Ledger.Entry.Writes]
    tauto

theorem current (change : Posted p e q) (current : p.currentCache = some .apply) : q.currentCache = some .apply := by
  cases change with
  | created _ _ _ => exact (Overlay.withToken_current ..).trans current
  | minted _ _ | transferred _ _ | bought _ _ | sold _ _ => exact current

/-- The flush of a balance at the key of a token's marker takes the token away. -/
theorem not_found_of_overwrites (change : Posted p e q) (clear : p.Clear) (current : p.currentCache = some .apply)
    (separate : q.Separate) (hit : L.Overwrites e t) : q.rewound.hasContract (.token t) ≠ .ok true := by
  obtain ⟨s, u, writes, same⟩ := hit
  obtain ⟨n, held⟩ := Option.ne_none_iff_exists'.mp ((change.pending_iff clear).mpr writes)
  intro found
  have stored : q.flushed (L.key (.contract (.token t))) = some _ := (Overlay.hasContract_true (k := .token t) rfl).mp found
  rw [← same, Overlay.flushed_pending (change.current current) separate held] at stored
  exact serialize_ne_prefixedKey _ _ (Option.some.inj stored)

theorem hasContract_of_not_overwrites (change : Posted p e q) (clear : p.Clear) (current : p.currentCache = some .apply)
    (missed : ¬ L.Overwrites e t) : q.rewound.hasContract (.token t) = q.hasContract (.token t) := by
  refine Overlay.hasContract_rewound (change.current current) fun c same => ?_
  rcases L.key_token same with wrong | ⟨s, u, is, _⟩
  · cases wrong
  · obtain rfl := Slot.data.inj is
    by_contra held
    exact missed ⟨s, u, (change.pending_iff clear).mp held, same⟩

end Posted

namespace Overlay

/-- Every token that exists has a curve, and a base that is grounded. -/
def WellFormed (o : Overlay L) : Prop := ∀ t, o.hasContract (.token t) = .ok true →
  (∃ curve : Curve, o.value (.curveData t) = .ok curve) ∧ Ledger.Grounded o.baseOf t

omit [DecidableEq K] in
theorem found_of_baseOf {b : Ident} (named : o.baseOf t = some b) : o.hasContract (.token t) = .ok true := by
  unfold baseOf at named
  split at named
  · assumption
  · cases named
  · cases named

omit [DecidableEq K] in
theorem Tokenwise.baseOf (same : o.Tokenwise o') : o'.baseOf = o.baseOf := by
  funext t
  rw [Overlay.baseOf, Overlay.baseOf, same.hasContract, same.value rfl]

omit [DecidableEq K] in
theorem Tokenwise.wellFormed (same : o.Tokenwise o') (well : o.WellFormed) : o'.WellFormed := by
  intro t found
  rw [same.hasContract] at found
  rw [same.value rfl, same.baseOf]
  exact well t found

theorem WellFormed.created {b : Ident} {curve : Curve} (well : o.WellFormed) (current : o.currentCache = some .apply)
    (absent : o.hasContract (.token t) = .ok false) (based : (o.mark (.token t)).hasContract (.token b) = .ok true)
    (whole : intact curve = true) : (o.withToken t b curve).WellFormed := by
  have kept {s : Ident} (other : s ≠ t) : (o.mark (.token t)).hasContract (.token s) = o.hasContract (.token s) :=
    hasContract_mark_ne current (by simpa using other)
  have grounded {s : Ident} (found : o.hasContract (.token s) = .ok true) :
      Ledger.Grounded (Function.update o.baseOf t (some b)) s := by
    refine (well s found).2.mono (P := fun _ => True) (fun {s c} _ named => ⟨?_, trivial⟩) trivial
    have other : s ≠ t := by
      intro same
      cases absent.symm.trans (same ▸ found_of_baseOf named)
    rw [Function.update_of_ne other, named]
  intro s found
  rw [baseOf_withToken current]
  by_cases same : s = t
  · subst same
    have named : Function.update o.baseOf s (some b) s = some b := Function.update_self ..
    constructor
    · refine ⟨curve, ?_⟩
      rw [withToken, write_value_ne _ _ _ (by simp), write_value_ne _ _ _ (by simp), write_value_self _ _ _ whole]
    · by_cases own : b = s
      · exact Ledger.grounded_own (named.trans (congrArg some own))
      · exact (grounded ((kept own).symm.trans based)).over named
  · have before : o.hasContract (.token s) = .ok true := (kept same).symm.trans found
    rw [withToken_value current (L.own_curveData s) (by simp [same])]
    exact ⟨(well s before).1, grounded before⟩

end Overlay

open Overlay (write_value_ne baseOf_write found_of_baseOf value_rewound_own)

namespace Posted

/-- What changes balances and supplies changes no token. -/
theorem unmoved (change : Posted p e q) (old : ∀ t b, e ≠ .create t b) :
    q.baseOf = p.baseOf ∧ ∀ s, q.hasContract (.token s) = p.hasContract (.token s) ∧ q.value (.curveData s) = p.value (.curveData s) := by
  cases change with
  | @created t b _ _ _ _ => exact (old t b rfl).elim
  | minted _ m =>
    refine ⟨?_, fun s => ⟨rfl, ?_⟩⟩
    · rw [Minted.after, baseOf_write _ (by simp), baseOf_write _ (by simp)]
    · rw [Minted.after, write_value_ne _ _ _ (by simp), write_value_ne _ _ _ (by simp)]
  | transferred _ m =>
    refine ⟨?_, fun s => ⟨rfl, ?_⟩⟩
    · rw [Transferred.after, baseOf_write _ (by simp), baseOf_write _ (by simp)]
    · rw [Transferred.after, write_value_ne _ _ _ (by simp), write_value_ne _ _ _ (by simp)]
  | bought _ m =>
    refine ⟨?_, fun s => ⟨rfl, ?_⟩⟩
    · rw [Purchase.after, baseOf_write _ (by simp), baseOf_write _ (by simp), baseOf_write _ (by simp)]
    · rw [Purchase.after, write_value_ne _ _ _ (by simp), write_value_ne _ _ _ (by simp), write_value_ne _ _ _ (by simp)]
  | sold _ m =>
    refine ⟨?_, fun s => ⟨rfl, ?_⟩⟩
    · rw [Sale.after, baseOf_write _ (by simp), baseOf_write _ (by simp), baseOf_write _ (by simp)]
    · rw [Sale.after, write_value_ne _ _ _ (by simp), write_value_ne _ _ _ (by simp), write_value_ne _ _ _ (by simp)]

theorem wellFormed (change : Posted p e q) (current : p.currentCache = some .apply) (well : p.WellFormed) : q.WellFormed := by
  by_cases new : ∃ t b, e = .create t b
  · obtain ⟨t, b, rfl⟩ := new
    cases change with
    | created absent based whole => exact well.created current absent based whole
  · obtain ⟨bases, others⟩ := change.unmoved fun t b is => new ⟨t, b, is⟩
    intro t found
    rw [(others t).1] at found
    rw [(others t).2, bases]
    exact well t found

/-- A flush leaves the tokens well-formed where no base of a token is overwritten, or the token goes with it. -/
theorem wellFormed_rewound_iff (change : Posted p e q) (clear : p.Clear) (current : p.currentCache = some .apply)
    (separate : q.Separate) (whole : ∀ c val, q.pending c = some val → intact val = true) (well : p.WellFormed) :
    q.rewound.WellFormed ↔ ∀ c b, p.baseOf c = some b → L.Overwrites e b → L.Overwrites e c := by
  have current' := change.current current
  have kept {t : Ident} (missed : ¬ L.Overwrites e t) : q.rewound.baseOf t = q.baseOf t := by
    rw [Overlay.baseOf, Overlay.baseOf, change.hasContract_of_not_overwrites clear current missed,
      value_rewound_own current' separate whole (L.own_baseIdent t)]
  have bases {t : Ident} (hit : L.Overwrites e t) : q.baseOf = p.baseOf := by
    obtain ⟨_, _, writes, _⟩ := hit
    refine (change.unmoved ?_).1
    rintro _ _ rfl
    exact writes
  constructor
  · intro well' c b named hit
    by_contra missed
    have named' : q.rewound.baseOf c = some b := by rw [kept missed, bases hit, named]
    obtain ⟨b', again, rest⟩ := (well' c (found_of_baseOf named')).2.named
    cases named'.symm.trans again
    obtain ⟨_, next, _⟩ := rest.named
    exact change.not_found_of_overwrites clear current separate hit (found_of_baseOf next)
  · intro closed t found
    have missed : ¬ L.Overwrites e t := fun hit => change.not_found_of_overwrites clear current separate hit found
    obtain ⟨curved, grounded⟩ := change.wellFormed current well t ((change.hasContract_of_not_overwrites clear current missed).symm.trans found)
    rw [value_rewound_own current' separate whole (L.own_curveData t)]
    refine ⟨curved, grounded.mono (P := fun t => ¬ L.Overwrites e t) (fun {c b} missed named => ?_) missed⟩
    refine ⟨(kept missed).trans named, fun hit => missed (closed c b ?_ hit)⟩
    rw [← bases hit, named]

end Posted

/-! ### Balances under one key -/

namespace Overlay

/-- What is stored at the key of a balance reads as a number. -/
def Numbered (o : Overlay L) : Prop := ∀ t u, ∃ n : UInt256, decoded (o.applyCache (L.key (.data (.balances t u)))) = .ok n

omit [DecidableEq K] in
theorem Clear.value (clear : o.Clear) (current : o.currentCache = some .apply) (t u : Ident) :
    o.value (.balances t u) = decoded (o.applyCache (L.key (.data (.balances t u)))) :=
  value_eq_decoded current (clear _ _ rfl) fun _ => rfl

omit [DecidableEq K] in
theorem rewound_balance (o : Overlay L) (t u : Ident) :
    o.rewound.value (.balances t u) = decoded (o.flushed (L.key (.data (.balances t u)))) :=
  value_eq_decoded (show o.rewound.currentCache = some .apply from rfl) rfl fun _ => rfl

/-- The text of a marker reads as the number of its first letter. -/
theorem decoded_prefixedKey (t : Ident) : decoded (some (ContractKey.token t).prefixedKey) = .ok (116 : UInt256) := rfl

omit [DecidableEq K] in
/-- Only balances have the key of a balance. -/
theorem flushed_balance (separate : o.Separate) (current : o.currentCache = some .apply) (t u : Ident) :
    (∃ s w, ∃ n : UInt256, o.pending (.balances s w) = some n ∧ L.key (.data (.balances s w)) = L.key (.data (.balances t u)) ∧
      o.flushed (L.key (.data (.balances t u))) = some (serialize n)) ∨
    ((∀ s w, L.key (.data (.balances s w)) = L.key (.data (.balances t u)) → o.pending (.balances s w) = none) ∧
      o.flushed (L.key (.data (.balances t u))) = o.applyCache (L.key (.data (.balances t u)))) := by
  by_cases hit : ∃ s w, L.key (.data (.balances s w)) = L.key (.data (.balances t u)) ∧ o.pending (.balances s w) ≠ none
  · obtain ⟨s, w, same, held⟩ := hit
    obtain ⟨n, held⟩ := Option.ne_none_iff_exists'.mp held
    exact Or.inl ⟨s, w, n, held, same, same ▸ flushed_pending current separate held⟩
  · have missed (s w : Ident) (same : L.key (.data (.balances s w)) = L.key (.data (.balances t u))) : o.pending (.balances s w) = none := by
      by_contra held
      exact hit ⟨s, w, same, held⟩
    refine Or.inr ⟨missed, flushed_untouched fun c same => ?_⟩
    rcases L.cell_eq same with rfl | ⟨s, w, _, _, rfl, _, _⟩
    · exact missed t u rfl
    · exact missed s w same

theorem Numbered.mark (numbered : o.Numbered) (current : o.currentCache = some .apply) (t : Ident) : (o.mark (.token t)).Numbered := by
  intro s u
  rw [mark_applyCache current]
  by_cases same : L.key (.data (.balances s u)) = L.key (.contract (.token t))
  · exact ⟨116, by rw [same, Function.update_self, decoded_prefixedKey]⟩
  · rw [Function.update_of_ne same]
    exact numbered s u

omit [DecidableEq K] in
theorem Tokenwise.numbered (same : o.Tokenwise o') (numbered : o.Numbered) : o'.Numbered := fun t u => by
  rw [same.slots (x := .data (.balances t u)) rfl]
  exact numbered t u

omit [DecidableEq K] in
theorem Numbered.rewound (numbered : o.Numbered) (separate : o.Separate) (current : o.currentCache = some .apply) :
    o.rewound.Numbered := by
  intro t u
  have stored : o.rewound.applyCache (L.key (.data (.balances t u))) = o.flushed (L.key (.data (.balances t u))) := rfl
  rw [stored]
  rcases flushed_balance separate current t u with ⟨_, _, n, _, _, written⟩ | ⟨_, kept⟩
  · exact ⟨n, by rw [written]; exact deserialize_serialize rfl⟩
  · rw [kept]
    exact numbered t u

end Overlay

theorem Posted.numbered (change : Posted p e q) (current : p.currentCache = some .apply) (numbered : p.Numbered) : q.Numbered := by
  cases change with
  | created _ _ _ => exact numbered.mark current _
  | minted _ _ | transferred _ _ | bought _ _ | sold _ _ => exact numbered

omit [DecidableEq K] in
theorem numbered_start : Keeping (fun (o : Overlay L) _ => o.Numbered) (Node.start {}) := fun _ =>
  ⟨_, rfl, Overlay.steady_empty, Overlay.typed_empty, books_blank, fun _ _ => ⟨0, rfl⟩⟩

theorem Turn.numbered {handed : HeaderMsg → Msg → Prop} {es : List (Ledger.Entry Ident Ident)} (turn : Turn o handed es o')
    (current : o.currentCache = some .apply) (numbered : o.Numbered) : o'.Numbered := by
  cases turn with
  | still same => exact same.numbered numbered
  | leaked _ _ _ same => exact same.numbered (numbered.mark current _)
  | posted _ same change separate _ =>
    exact (change.numbered same.current' (same.numbered numbered)).rewound separate (change.current same.current')

theorem Leads.numbered [Sha256] {calls : List Call} {s : StorageMap L} {notices : List Notice} (run : Leads calls s notices) :
    (s.overlay.on .apply).Numbered :=
  (run.keeping (numbered_start.run (fun books turn => turn.numbered books.current) calls)).2.2.2

namespace Posted

theorem balance (change : Posted p e q) (old : ∀ t b, e ≠ .create t b) (t u : Ident) :
    amount (q.value (.balances t u)) = amount (p.value (.balances t u)) + e.change t u := by
  have posts (after : (q.ledger fun _ => 0).balance = ((p.ledger fun _ => 0).post e).balance) :
      amount (q.value (.balances t u)) = amount (p.value (.balances t u)) + e.change t u :=
    (congrFun (congrFun after t) u).trans (Ledger.post_balance ..)
  cases change with
  | @created t b _ _ _ _ => exact (old t b rfl).elim
  | minted _ m => exact posts (congrArg Ledger.balance m.ledger)
  | transferred _ m => exact posts (congrArg Ledger.balance m.ledger)
  | @bought t _ _ _ m =>
    have traded : ((m.after.ledger fun _ => 0).deposit t m.spent.val).balance = _ := congrArg Ledger.balance m.ledger
    exact posts traded
  | @sold t _ _ _ m =>
    have traded : ((m.after.ledger fun _ => 0).deposit t (-m.received.val)).balance = _ := congrArg Ledger.balance m.ledger
    exact posts traded

/-- A balance whose key is that of one the entry sets changes with it. -/
theorem reads_written {s w : Ident} (change : Posted p e q) (clear : p.Clear) (current : p.currentCache = some .apply) (separate : q.Separate)
    (numbered : p.Numbered) (old : ∀ t b, e ≠ .create t b) (writes : e.Writes s w)
    (same : L.key (.data (.balances s w)) = L.key (.data (.balances t u))) :
    ∃ n n' : UInt256, p.value (.balances t u) = .ok n ∧ q.rewound.value (.balances t u) = .ok n' ∧ (n'.val : ℤ) = n.val + e.change s w := by
  obtain ⟨n, stored⟩ := numbered t u
  obtain ⟨n', held⟩ := Option.ne_none_iff_exists'.mp ((change.pending_iff clear).mpr writes)
  have flushed : q.flushed (L.key (.data (.balances t u))) = some (serialize n') := by
    rw [← same]
    exact Overlay.flushed_pending (change.current current) separate held
  have before : p.value (.balances s w) = .ok n := by rw [clear.value current, same, stored]
  have after : q.value (.balances s w) = .ok n' := Overlay.value_of_pending held rfl
  have changed := change.balance old s w
  rw [before, after] at changed
  refine ⟨n, n', (clear.value current t u).trans stored, ?_, changed⟩
  rw [Overlay.rewound_balance, flushed]
  exact deserialize_serialize rfl

/-- A balance under any other key is read off the map. -/
theorem reads_unwritten (change : Posted p e q) (clear : p.Clear) (current : p.currentCache = some .apply) (separate : q.Separate)
    (missed : ∀ s w, e.Writes s w → L.key (.data (.balances s w)) ≠ L.key (.data (.balances t u))) :
    q.rewound.value (.balances t u) = decoded (q.applyCache (L.key (.data (.balances t u)))) := by
  rw [Overlay.rewound_balance]
  rcases Overlay.flushed_balance separate (change.current current) t u with ⟨s, w, n, held, same, _⟩ | ⟨_, kept⟩
  · exact (missed s w ((change.pending_iff clear).mp (by rw [held]; simp)) same).elim
  · exact congrArg decoded kept

theorem applyCache (change : Posted p e q) (old : ∀ t b, e ≠ .create t b) : q.applyCache = p.applyCache := by
  cases change with
  | @created t b _ _ _ _ => exact (old t b rfl).elim
  | minted _ _ | transferred _ _ | bought _ _ | sold _ _ => rfl

end Posted

namespace Entered

variable {b x : Ident}

theorem clear (made : Entered (o.on .apply) e p q) (steady : o.Steady) : p.Clear := fun _ _ contract =>
  (made.same.pending contract).trans (steady.nonceOnly.token contract)

/-- An entry that creates no token takes away those whose markers it overwrites. -/
theorem found_iff (made : Entered (o.on .apply) e p q) (steady : o.Steady) (old : ∀ t b, e ≠ .create t b) :
    q.rewound.hasContract (.token t) = .ok true ↔ (o.on .apply).hasContract (.token t) = .ok true ∧ ¬ L.Overwrites e t := by
  have clear := made.clear steady
  have before : q.hasContract (.token t) = (o.on .apply).hasContract (.token t) :=
    ((made.change.unmoved old).2 t).1.trans (made.same.hasContract t)
  by_cases hit : L.Overwrites e t
  · exact iff_of_false (made.change.not_found_of_overwrites clear made.same.current' made.separate hit) fun h => h.2 hit
  · rw [made.change.hasContract_of_not_overwrites clear made.same.current' hit, before]
    exact (and_iff_left hit).symm

theorem found_created (made : Entered (o.on .apply) (.create x b) p q) (steady : o.Steady) :
    (o.on .apply).hasContract (.token x) = .ok false ∧
      (q.rewound.hasContract (.token t) = .ok true ↔ t = x ∨ (o.on .apply).hasContract (.token t) = .ok true) := by
  have missed : ¬ L.Overwrites (.create x b) t := fun ⟨_, _, writes, _⟩ => writes
  rw [made.change.hasContract_of_not_overwrites (made.clear steady) made.same.current' missed]
  cases made.change with
  | created absent _ _ =>
    refine ⟨(made.same.hasContract x).symm.trans absent, ?_⟩
    by_cases same : t = x
    · subst same
      exact iff_of_true (Overlay.hasContract_mark_self made.same.current' _) (Or.inl rfl)
    · rw [← made.same.hasContract, or_iff_right same]
      exact Eq.congr_left (Overlay.hasContract_mark_ne made.same.current' (by simpa using same))

/-- A balance changes with the one that the entry sets under its key. -/
theorem read_written {s w : Ident} (made : Entered (o.on .apply) e p q) (steady : o.Steady) (numbered : (o.on .apply).Numbered)
    (old : ∀ t b, e ≠ .create t b) (writes : e.Writes s w) (same : L.key (.data (.balances s w)) = L.key (.data (.balances t u))) :
    ∃ n n' : UInt256, (o.on .apply).value (.balances t u) = .ok n ∧ q.rewound.value (.balances t u) = .ok n' ∧
      (n'.val : ℤ) = n.val + e.change s w := by
  rw [← made.same.value (c := .balances t u) rfl]
  exact made.change.reads_written (made.clear steady) made.same.current' made.separate (made.same.numbered numbered) old writes same

theorem read_unwritten (made : Entered (o.on .apply) e p q) (steady : o.Steady) (old : ∀ t b, e ≠ .create t b)
    (missed : ∀ s w, e.Writes s w → L.key (.data (.balances s w)) ≠ L.key (.data (.balances t u))) :
    q.rewound.value (.balances t u) = (o.on .apply).value (.balances t u) := by
  have clear := made.clear steady
  rw [made.change.reads_unwritten clear made.same.current' made.separate missed, made.change.applyCache old,
    ← clear.value made.same.current', made.same.value rfl]

/-- A balance under the key of a new marker has its text for a number. -/
theorem read_marker (made : Entered (o.on .apply) (.create x b) p q) (steady : o.Steady)
    (same : L.key (.data (.balances t u)) = L.key (.contract (.token x))) :
    (o.on .apply).value (.balances t u) = .ok (0 : UInt256) ∧ q.rewound.value (.balances t u) = .ok (116 : UInt256) := by
  have clear := made.clear steady
  rw [made.change.reads_unwritten clear made.same.current' made.separate fun _ _ writes => writes.elim,
    ← made.same.value (c := .balances t u) rfl, clear.value made.same.current', same]
  cases made.change with
  | created absent _ _ =>
    rw [(Overlay.hasContract_false made.same.current').mp absent, Overlay.withToken_applyCache made.same.current', Function.update_self]
    exact ⟨rfl, rfl⟩

theorem read_created (made : Entered (o.on .apply) (.create x b) p q) (steady : o.Steady)
    (other : L.key (.data (.balances t u)) ≠ L.key (.contract (.token x))) :
    q.rewound.value (.balances t u) = (o.on .apply).value (.balances t u) := by
  have clear := made.clear steady
  rw [made.change.reads_unwritten clear made.same.current' made.separate fun _ _ writes => writes.elim,
    ← made.same.value (c := .balances t u) rfl, clear.value made.same.current']
  cases made.change with
  | created _ _ _ => rw [Overlay.withToken_applyCache made.same.current', Function.update_of_ne other]

end Entered

/-! ### The entry that a message is about to make -/

namespace StorageMap

omit [DecidableEq K] in
/-- The price of a token at a supply. -/
def price (s : StorageMap L) (t : Ident) (supply : UInt256) : Option UInt256 := do
  let curve ← (s.kept (.curveData t)).toOption
  (curve.apply supply).toOption

omit [DecidableEq K] in
/-- What the message writes in the ledger if it goes through. -/
def posting (s : StorageMap L) (hdr : HeaderMsg) : Msg → Option (Ledger.Entry Ident Ident)
  | .createToken msg => some (.create msg.createdToken msg.baseToken)
  | .mintToken msg => some (.mint msg.token hdr.user msg.value.val)
  | .transferToken msg => some (.transfer msg.token hdr.user msg.dest msg.value.val)
  | .buyToken msg => do
    let base ← s.baseOf msg.token
    let supply ← (s.kept (.currentSupply msg.token)).toOption
    let raised ← (supply.add msg.value).toOption
    let upper ← s.price msg.token raised
    let lower ← s.price msg.token supply
    return .buy msg.token base hdr.user msg.value.val (upper.val - lower.val)
  | .sellToken msg => do
    let base ← s.baseOf msg.token
    let supply ← (s.kept (.currentSupply msg.token)).toOption
    let lowered ← (supply.sub msg.value).toOption
    let upper ← s.price msg.token supply
    let lower ← s.price msg.token lowered
    return .sell msg.token base hdr.user msg.value.val (upper.val - lower.val)
  | .createAccount _ | .addWikiEdge _ | .removeWikiEdge _ => none

end StorageMap

namespace Posted

theorem purchase {b : Ident} {amount cost : ℤ} (change : Posted p (.buy t b u amount cost) q) :
    ∃ (v : UInt256) (m : Purchase p t u v), b = m.baseToken ∧ amount = v.val ∧ cost = m.spent.val := by
  generalize entered : Ledger.Entry.buy t b u amount cost = e at change
  cases change with
  | created _ _ _ | minted _ _ | transferred _ _ | sold _ _ => cases entered
  | bought _ m =>
    cases entered
    exact ⟨_, m, rfl, rfl, rfl⟩

theorem sale {b : Ident} {amount gain : ℤ} (change : Posted p (.sell t b u amount gain) q) :
    ∃ (v : UInt256) (m : Sale p t u v), b = m.baseToken ∧ amount = v.val ∧ gain = m.received.val := by
  generalize entered : Ledger.Entry.sell t b u amount gain = e at change
  cases change with
  | created _ _ _ | minted _ _ | transferred _ _ | bought _ _ => cases entered
  | sold _ m =>
    cases entered
    exact ⟨_, m, rfl, rfl, rfl⟩

end Posted

theorem posting_of_entry {s : StorageMap L} {hdr : HeaderMsg} {msg : Msg} {res : Response} (related : Parallel s o)
    (same : (o.on .apply).Tokenwise p) (change : Posted p e q) (told : msg.entry hdr res = some e) : s.posting hdr msg = some e := by
  have kept {c : Cell} {t : Ident} {val : c.Val} (contract : c.contract = .token t) (value : p.value c = .ok val) :
      s.kept c = .ok val := related.kept contract ((same.value contract).symm.trans value)
  have base {t : Ident} (quote : Quote p t) : s.baseOf t = some quote.baseToken := by
    rw [StorageMap.baseOf, kept rfl quote.base_read]
    rfl
  have price {t : Ident} {supply price : UInt256} (quote : Quote p t) (worth : quote.curve.apply supply = .ok price) :
      s.price t supply = some price := by
    rw [StorageMap.price, kept rfl quote.curve_read]
    exact congrArg Except.toOption worth
  have value_eq {v w : UInt256} (same : (v.val : ℤ) = w.val) : w = v := UInt256.ext (by omega)
  cases msg with
  | createAccount _ | addWikiEdge _ | removeWikiEdge _ => cases res <;> cases told
  | createToken _ | mintToken _ | transferToken _ => exact told
  | buyToken m =>
    cases res with
    | buyToken res =>
      cases told
      obtain ⟨v, b, token, amount, cost⟩ := change.purchase
      obtain rfl := value_eq amount
      obtain ⟨covered, difference⟩ := UInt256.sub_ok b.price
      have spent : (b.upper.val : ℤ) - b.lower.val = res.spent.val := by omega
      simp only [StorageMap.posting, base b.toQuote, kept rfl b.supply_read, Except.toOption, Option.bind_eq_bind, Option.bind_some,
        b.raise, price b.toQuote b.upper_price, price b.toQuote b.lower_price, spent, token]
      rfl
    | createAccount | createToken | mintToken | transferToken | sellToken _ | addWikiEdge | removeWikiEdge => cases told
  | sellToken m =>
    cases res with
    | sellToken res =>
      cases told
      obtain ⟨v, b, token, amount, gain⟩ := change.sale
      obtain rfl := value_eq amount
      obtain ⟨covered, difference⟩ := UInt256.sub_ok b.price
      have received : (b.upper.val : ℤ) - b.lower.val = res.received.val := by omega
      simp only [StorageMap.posting, base b.toQuote, kept rfl b.supply_read, Except.toOption, Option.bind_eq_bind, Option.bind_some,
        b.lowering, price b.toQuote b.upper_price, price b.toQuote b.lower_price, received, token]
      rfl
    | createAccount | createToken | mintToken | transferToken | buyToken _ | addWikiEdge | removeWikiEdge => cases told

omit [DecidableEq K] in
theorem posting_of_silent {s : StorageMap L} {hdr : HeaderMsg} {msg : Msg} (silent : ∀ res, msg.entry hdr res = none) :
    s.posting hdr msg = none := by
  cases msg with
  | createAccount _ | addWikiEdge _ | removeWikiEdge _ => rfl
  | createToken _ | mintToken _ | transferToken _ => cases silent .createToken
  | buyToken _ => cases silent (.buyToken ⟨default, 0⟩)
  | sellToken _ => cases silent (.sellToken ⟨default, 0⟩)

section

variable [Sha256] {s : StorageMap L} {n : Node (Overlay L)} {call : Call} {hdr : HeaderMsg} {msg : Msg}

theorem Parallel.handed_iff (related : Parallel s o) : Handed s call hdr msg ↔ Handed o call hdr msg := by
  have same (data : ByteString) : (PrimaryListener.validateTransaction .apply hdr data s).1 =
      (PrimaryListener.validateTransaction .apply hdr data o).1 := (parallel_validate .apply hdr data s o related).outcome
  unfold Handed
  simp only [same]

/-- A call that came to the handlers and succeeded made the entry it was about to make, or left the tokens. -/
theorem step_applied {bytes : ByteString} (related : Parallel s o) (typed : o.Typed) (up : n.down = false)
    (primary : n.manager.primary = some o) (handed : Handed o call hdr msg) (applied : (call.exec n.manager).1 = .ok bytes) :
    ∃ o', (n.step call).manager.primary = some o' ∧
      ((s.posting hdr msg = none ∧ (o.on .apply).Tokenwise (o'.on .apply)) ∨
        ∃ e p q, s.posting hdr msg = some e ∧ Entered (o.on .apply) e p q ∧ o'.on .apply = q.rewound) := by
  obtain ⟨raw, rawResult, data, type, buf, rest, rfl, parsed, valid, decoded⟩ := handed
  rcases validated : PrimaryListener.validateTransaction .apply hdr data o with ⟨outcome, o₁⟩
  rw [validated] at valid
  obtain rfl : outcome = .ok () := valid
  rcases ran : PrimaryListener.process n.manager.block hdr msg o₁ with ⟨e | res, o'⟩
  · have failed : Effect o n.manager.block (.applyTransaction raw rawResult) _ _ _ _ := .failed parsed validated decoded ran
    rw [failed.exec primary] at applied
    cases applied
  · have effect : Effect o n.manager.block (.applyTransaction raw rawResult) _ _ _ _ := .applied parsed validated decoded ran
    rw [step_of_effect up primary effect]
    refine ⟨o', rfl, ?_⟩
    rcases process_entered related.2 typed validated ran with ⟨silent, tokens⟩ | ⟨e, p, q, told, made, after⟩
    · exact Or.inl ⟨posting_of_silent silent, tokens⟩
    · exact Or.inr ⟨e, p, q, posting_of_entry related made.same made.change told, made, after⟩

end

end BandChain
