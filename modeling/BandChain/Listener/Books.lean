import BandChain.Listener.Postings

/-! The store keeps the ledger that the notices write. -/

namespace BandChain

variable {K : Type} [DecidableEq K] {L : Layout K} {o o' : Overlay L} {l l' : Ledger Ident Ident} {e : Ledger.Entry Ident Ident}

/-- A store in apply mode keeps a ledger, as far as its balances have keys of their own. A token that was never placed has
nothing in the ledger, and one with a curve has a base. -/
structure Books (o : Overlay L) (l : Ledger Ident Ident) : Prop where
  current : o.currentCache = some .apply
  accounts : Ledger.Agrees (fun t u => L.Own (.balances t u)) (o.ledger l.reserve) l
  base : ∀ {t b}, l.base t = some b → o.value (.baseIdent t) = .ok b
  curve : ∀ {t curve}, o.value (.curveData t) = .ok curve → ∃ b, l.base t = some b
  fresh : ∀ {t}, o.hasContract (.token t) = .ok false → l.base t = none ∧ l.supply t = 0 ∧ l.reserve t = 0

open Overlay (Tokenwise write_value_ne)

namespace Books

omit [DecidableEq K] in
theorem congr (h : Books o l) (same : o.Tokenwise o') : Books o' l where
  current := same.current'
  accounts :=
    ⟨fun t u own => (congrArg amount (same.value rfl)).trans (h.accounts.balance t u own),
      fun t => (congrArg amount (same.value rfl)).trans (h.accounts.supply t)⟩
  base named := (same.value rfl).trans (h.base named)
  curve held := h.curve ((same.value rfl).symm.trans held)
  fresh absent := h.fresh ((same.hasContract _).symm.trans absent)

theorem marked (h : Books o l) (t : Ident) : Books (o.mark (.token t)) l := by
  have value (c : Cell) (own : L.Own c) : (o.mark (.token t)).value c = o.value c := Overlay.value_mark_own h.current own
  refine ⟨(Overlay.mark_currentCache ..).trans h.current, ⟨fun s u own => ?_, fun s => ?_⟩, fun named => ?_, fun held => ?_, ?_⟩
  · exact (congrArg amount (value _ own)).trans (h.accounts.balance s u own)
  · exact (congrArg amount (value _ (L.own_currentSupply s))).trans (h.accounts.supply s)
  · exact (value _ (L.own_baseIdent _)).trans (h.base named)
  · exact h.curve ((value _ (L.own_curveData _)).symm.trans held)
  · intro s absent
    by_cases same : s = t
    · rw [same, Overlay.hasContract_mark_self h.current] at absent
      cases absent
    · exact h.fresh ((Overlay.hasContract_mark_ne h.current (by simpa using same)).symm.trans absent)

theorem created {t base : Ident} {curve : Curve} (h : Books o l) (absent : o.hasContract (.token t) = .ok false) : Books (o.withToken t base curve) (l.create t base) := by
  obtain ⟨unnamed, unissued, unpaid⟩ := h.fresh absent
  have marked := h.marked t
  have value (c : Cell) (other : c ≠ .curveData t ∧ c ≠ .baseIdent t ∧ c ≠ .currentSupply t) :
      (o.withToken t base curve).value c = (o.mark (.token t)).value c := by
    rw [Overlay.withToken, write_value_ne _ _ _ other.2.2, write_value_ne _ _ _ other.2.1, write_value_ne _ _ _ other.1]
  refine ⟨(Overlay.withToken_current ..).trans h.current, ⟨fun s u own => ?_, fun s => ?_⟩, fun {s b} named => ?_, fun {s c} held => ?_, ?_⟩
  · exact (congrArg amount (value _ (by simp))).trans (marked.accounts.balance s u own)
  · by_cases same : s = t
    · subst same
      have zero : (o.withToken s base curve).value (.currentSupply s) = .ok (0 : UInt256) := Overlay.write_value_self _ _ _ rfl
      exact (congrArg amount zero).trans unissued.symm
    · exact (congrArg amount (value _ (by simp [same]))).trans (marked.accounts.supply s)
  · rw [Ledger.create_base] at named
    by_cases same : s = t
    · subst same
      rw [Function.update_self] at named
      cases named
      rw [Overlay.withToken, write_value_ne _ _ _ (by simp)]
      exact Overlay.write_value_self _ _ _ rfl
    · rw [Function.update_of_ne same] at named
      exact (value _ (by simp [same])).trans (marked.base named)
  · rw [Ledger.create_base]
    by_cases same : s = t
    · exact ⟨base, by rw [same, Function.update_self]⟩
    · rw [Function.update_of_ne same]
      exact marked.curve ((value _ (by simp [same])).symm.trans held)
  · intro s clear
    have other : s ≠ t := by
      rintro rfl
      cases (Overlay.hasContract_mark_self h.current _).symm.trans clear
    rw [Ledger.create_base, Function.update_of_ne other]
    exact marked.fresh clear

omit [DecidableEq K] in
/-- Where a token that exists is minted, moved or traded, only its own supply and reserve change. -/
theorem moved {t : Ident} (h : Books o l) (found : o.hasContract (.token t) = .ok true) (current : o'.currentCache = some .apply)
    (kept : ∀ s, o'.hasContract (.token s) = o.hasContract (.token s))
    (accounts : Ledger.Agrees (fun t u => L.Own (.balances t u)) (o'.ledger l'.reserve) l')
    (bases : ∀ s, o'.value (.baseIdent s) = o.value (.baseIdent s)) (curves : ∀ s, o'.value (.curveData s) = o.value (.curveData s))
    (named : l'.base = l.base) (others : ∀ s, s ≠ t → l'.supply s = l.supply s ∧ l'.reserve s = l.reserve s) : Books o' l' where
  current := current
  accounts := accounts
  base is := (bases _).trans (h.base (named ▸ is))
  curve held := named ▸ h.curve ((curves _).symm.trans held)
  fresh {s} absent := by
    rw [kept] at absent
    have other : s ≠ t := by
      rintro rfl
      cases found.symm.trans absent
    obtain ⟨supply, reserve⟩ := others s other
    rw [named, supply, reserve]
    exact h.fresh absent

omit [DecidableEq K] in
theorem quoted {t : Ident} (h : Books o l) (q : Quote o t) : l.base t = some q.baseToken := by
  obtain ⟨b, named⟩ := h.curve q.curve_read
  cases (h.base named).symm.trans q.base_read
  exact named

theorem posted (h : Books o l) (change : Posted o e o') : l.Fits e ∧ Books o' (l.post e) := by
  cases change with
  | created absent _ _ =>
    obtain ⟨unnamed, _, unpaid⟩ := h.fresh absent
    exact ⟨⟨unnamed, unpaid⟩, h.created absent⟩
  | @minted t u v found p =>
    have accounts := h.accounts.post (.mint t u v.val)
    rw [Ledger.post, ← p.ledger] at accounts
    refine ⟨trivial, h.moved found h.current (fun _ => rfl) accounts (fun s => ?_) (fun s => ?_) rfl fun s other => ⟨?_, rfl⟩⟩
    · rw [Minted.after, write_value_ne _ _ _ (by simp), write_value_ne _ _ _ (by simp)]
    · rw [Minted.after, write_value_ne _ _ _ (by simp), write_value_ne _ _ _ (by simp)]
    · simp [Ledger.post, Ledger.mint, Ledger.issue, Ledger.credit, other]
  | @transferred t src dst v found p =>
    have accounts := h.accounts.post (.transfer t src dst v.val)
    rw [Ledger.post, ← p.ledger] at accounts
    refine ⟨trivial, h.moved found h.current (fun _ => rfl) accounts (fun s => ?_) (fun s => ?_) rfl fun s _ => ⟨rfl, rfl⟩⟩
    · rw [Transferred.after, write_value_ne _ _ _ (by simp), write_value_ne _ _ _ (by simp)]
    · rw [Transferred.after, write_value_ne _ _ _ (by simp), write_value_ne _ _ _ (by simp)]
  | @bought t u v found p =>
    have accounts := h.accounts.post (.buy t p.baseToken u v.val p.spent.val)
    rw [Ledger.post, ← p.ledger] at accounts
    refine ⟨h.quoted p.toQuote, h.moved found h.current (fun _ => rfl) ⟨accounts.balance, accounts.supply⟩ (fun s => ?_) (fun s => ?_)
      rfl fun s other => ?_⟩
    · rw [Purchase.after, write_value_ne _ _ _ (by simp), write_value_ne _ _ _ (by simp), write_value_ne _ _ _ (by simp)]
    · rw [Purchase.after, write_value_ne _ _ _ (by simp), write_value_ne _ _ _ (by simp), write_value_ne _ _ _ (by simp)]
    · simp [Ledger.post, Ledger.trade, Ledger.issue, Ledger.credit, Ledger.deposit, other]
  | @sold t u v found p =>
    have accounts := h.accounts.post (.sell t p.baseToken u v.val p.received.val)
    rw [Ledger.post, ← p.ledger] at accounts
    refine ⟨h.quoted p.toQuote, h.moved found h.current (fun _ => rfl) ⟨accounts.balance, accounts.supply⟩ (fun s => ?_) (fun s => ?_)
      rfl fun s other => ?_⟩
    · rw [Sale.after, write_value_ne _ _ _ (by simp), write_value_ne _ _ _ (by simp), write_value_ne _ _ _ (by simp)]
    · rw [Sale.after, write_value_ne _ _ _ (by simp), write_value_ne _ _ _ (by simp), write_value_ne _ _ _ (by simp)]
    · simp [Ledger.post, Ledger.trade, Ledger.issue, Ledger.credit, Ledger.deposit, other]

omit [DecidableEq K] in
theorem rewound (h : Books o l) (separate : o.Separate) (whole : ∀ c val, o.pending c = some val → intact val = true) :
    Books o.rewound l := by
  have value (c : Cell) (own : L.Own c) : o.rewound.value c = o.value c :=
    Overlay.value_rewound_own h.current separate whole own
  refine ⟨rfl, ⟨fun t u own => ?_, fun t => ?_⟩, fun named => ?_, fun held => ?_, fun {t} absent => h.fresh ?_⟩
  · exact (congrArg amount (value _ own)).trans (h.accounts.balance t u own)
  · exact (congrArg amount (value _ (L.own_currentSupply t))).trans (h.accounts.supply t)
  · exact (value _ (L.own_baseIdent _)).trans (h.base named)
  · exact h.curve ((value _ (L.own_curveData _)).symm.trans held)
  · have clear : o.flushed (L.key (.contract (.token t))) = none := (Overlay.hasContract_false (k := .token t) rfl).mp absent
    exact (Overlay.hasContract_false h.current).mpr (Overlay.applyCache_of_flushed h.current clear)

theorem turn {handed : HeaderMsg → Msg → Prop} {es : List (Ledger.Entry Ident Ident)} (h : Books o l) (turn : Turn o handed es o') :
    Books o' (es.foldl Ledger.post l) ∧ (l.Balanced → (es.foldl Ledger.post l).Balanced) := by
  cases turn with
  | still same => exact ⟨h.congr same, id⟩
  | leaked _ _ _ same => exact ⟨(h.marked _).congr same, id⟩
  | posted _ same change separate whole =>
    obtain ⟨fits, after⟩ := (h.congr same).posted change
    exact ⟨after.rewound separate whole, fun balanced => balanced.post fits⟩

end Books

/-! ### Runs -/

/-- The ledger that the listeners can keep. -/
def ledgerOf (notices : List Notice) : Ledger Ident Ident := (entries notices).foldl Ledger.post Ledger.blank

theorem ledgerOf_reserve (notices : List Notice) (t : Ident) : (ledgerOf notices).reserve t = Ledger.paid t (entries notices) :=
  (Ledger.foldl_post (f := fun l => l.reserve t) (fun l e => l.post_reserve e t) _ _).trans (zero_add _)

theorem ledgerOf_supply (notices : List Notice) (t : Ident) : (ledgerOf notices).supply t = Ledger.issued t (entries notices) :=
  (Ledger.foldl_post (f := fun l => l.supply t) (fun l e => l.post_supply e t) _ _).trans (zero_add _)

theorem entries_append (notices more : List Notice) : entries (notices ++ more) = entries notices ++ entries more :=
  List.filterMap_append

theorem ledgerOf_append (notices more : List Notice) :
    ledgerOf (notices ++ more) = (entries more).foldl Ledger.post (ledgerOf notices) := by
  rw [ledgerOf, entries_append, List.foldl_append, ledgerOf]

omit [DecidableEq K] in
theorem books_blank : Books (({} : Overlay L).on .apply) (ledgerOf []) where
  current := rfl
  accounts := ⟨fun _ _ _ => rfl, fun _ => rfl⟩
  base named := by cases named
  curve held := by cases held
  fresh _ := ⟨rfl, rfl, rfl⟩

section

variable [Sha256] {n : Node (Overlay L)}

/-- A step of a live node is a turn of its tokens. -/
theorem step_turn (steady : o.Steady) (typed : o.Typed) (up : n.down = false) (primary : n.manager.primary = some o) (call : Call)
    (alive : (n.step call).down = false) :
    ∃ o' notices, (n.step call).manager.primary = some o' ∧ (n.step call).manager.notices = n.manager.notices ++ notices ∧
      o'.Steady ∧ o'.Typed ∧ Turn (o.on .apply) (Handed o call) (entries notices) (o'.on .apply) := by
  obtain ⟨outcome, o', notices, block, effect, after⟩ := step_effect up primary call
  rw [after] at alive ⊢
  have survived := crashed_eq_false.mp alive
  exact ⟨o', notices, rfl, rfl, steady_effect steady effect survived, typed_effect steady typed effect survived,
    turn_effect steady typed effect survived⟩

theorem up_of_step {call : Call} (alive : (n.step call).down = false) : n.down = false := by
  by_contra down
  rw [Bool.not_eq_false] at down
  rw [Node.step, if_pos down, down] at alive
  cases alive

/-- A live node has a store that keeps the ledger of what it told, and of which `P` holds. -/
def Keeping (P : Overlay L → List (Ledger.Entry Ident Ident) → Prop) (n : Node (Overlay L)) : Prop :=
  n.down = false → ∃ o, n.manager.primary = some o ∧ o.Steady ∧ o.Typed ∧
    Books (o.on .apply) (ledgerOf n.manager.notices) ∧ P (o.on .apply) (entries n.manager.notices)

/-- What every turn keeps, every run keeps. -/
theorem Keeping.run {P : Overlay L → List (Ledger.Entry Ident Ident) → Prop}
    (kept : ∀ {o o' es more handed}, Books o (es.foldl Ledger.post Ledger.blank) → Turn o handed more o' → P o es → P o' (es ++ more))
    (keeping : Keeping P n) (calls : List Call) : Keeping P (n.run calls) := by
  have step (n : Node (Overlay L)) (keeping : Keeping P n) (call : Call) : Keeping P (n.step call) := by
    intro alive
    have up := up_of_step alive
    obtain ⟨o, primary, steady, typed, books, holds⟩ := keeping up
    obtain ⟨o', notices, primary', told, steady', typed', turn⟩ := step_turn steady typed up primary call alive
    rw [told, ledgerOf_append, entries_append]
    exact ⟨o', primary', steady', typed', (books.turn turn).1, kept books turn holds⟩
  induction calls generalizing n with
  | nil => exact keeping
  | cons call calls ih => exact ih (step n keeping call)

/-- A live node keeps the ledger of what it told. -/
def Booked (n : Node (Overlay L)) : Prop :=
  n.down = false → ∃ o, n.manager.primary = some o ∧ o.Steady ∧ o.Typed ∧
    Books (o.on .apply) (ledgerOf n.manager.notices) ∧ (ledgerOf n.manager.notices).Balanced

omit [DecidableEq K] [Sha256] in
theorem booked_start : Booked (L := L) (Node.start {}) := fun _ =>
  ⟨_, rfl, Overlay.steady_empty, Overlay.typed_empty, books_blank, .blank⟩

theorem Booked.run (booked : Booked n) (calls : List Call) : Booked (n.run calls) := by
  refine Keeping.run (P := fun _ es => (es.foldl Ledger.post Ledger.blank).Balanced) (fun books turn balanced => ?_) booked calls
  rw [List.foldl_append]
  exact (books.turn turn).2 balanced

end

/-! ### The storage of the source -/

namespace StorageMap

omit [DecidableEq K] in
/-- The storage as a handler finds it. -/
def applying (s : StorageMap L) : StorageMap L := { s with currentCache := some .apply }

/-- What `applyCache` holds for a cell. -/
def kept (s : StorageMap L) (c : Cell) : Except Stop c.Val := decoded (s.applyCache (L.key (.data c)))

omit [DecidableEq K] in
/-- The base token that is stored for a token. -/
def baseOf (s : StorageMap L) (t : Ident) : Option Ident := (s.kept (.baseIdent t)).toOption

end StorageMap

omit [DecidableEq K] in
theorem Parallel.live {s : StorageMap L} (related : Parallel s o) : Live .apply True [] s.applying (o.on .apply) := by
  obtain ⟨⟨⟨rfl, well⟩, clean⟩, _⟩ := related
  exact
    { overlay := rfl
      well := ⟨well.idle, well.sound, well.marked⟩
      current := rfl
      clean := fun _ => clean
      loaded := fun _ member => nomatch member
      agree := fun check => nomatch check }

omit [DecidableEq K] in
theorem Parallel.kept {s : StorageMap L} (related : Parallel s o) {c : Cell} {t : Ident} (contract : c.contract = .token t)
    {val : c.Val} (value : (o.on .apply).value c = .ok val) : s.kept c = .ok val := by
  obtain ⟨⟨⟨rfl, _⟩, _⟩, steady⟩ := related
  have clear : (s.overlay.on .apply).pending c = none := steady.nonceOnly.token contract
  rw [Overlay.value_of_clear (Overlay.on_currentCache _ .apply) clear] at value
  rcases held : s.kept c with e | v
  · rw [show decoded ((s.overlay.on .apply).map .apply (L.key (.data c))) = .error e from held] at value
    cases value
  · rw [show decoded ((s.overlay.on .apply).map .apply (L.key (.data c))) = .ok v from held] at value
    exact congrArg Except.ok (Overlay.copy_ok value).1.symm

omit [DecidableEq K] in
theorem Parallel.value {s : StorageMap L} (related : Parallel s o) {c : Cell} {t : Ident} (contract : c.contract = .token t)
    {val : c.Val} (kept : s.kept c = .ok val) (whole : intact val = true) : (o.on .apply).value c = .ok val := by
  obtain ⟨⟨⟨rfl, _⟩, _⟩, steady⟩ := related
  have clear : (s.overlay.on .apply).pending c = none := steady.nonceOnly.token contract
  rw [Overlay.value_of_clear (Overlay.on_currentCache _ .apply) clear,
    show decoded ((s.overlay.on .apply).map .apply (L.key (.data c))) = .ok val from kept]
  exact if_pos whole

omit [DecidableEq K] in
theorem keeping_storage [Sha256] {P : Overlay L → List (Ledger.Entry Ident Ident) → Prop} {m : Node (StorageMap L)}
    {n : Node (Overlay L)} (twin : Twin m n) (keeping : Keeping P n) (up : m.down = false) {s : StorageMap L}
    (primary : m.manager.primary = some s) :
    ∃ o, n.manager.primary = some o ∧ Parallel s o ∧ o.Typed ∧ Books (o.on .apply) (ledgerOf m.manager.notices) ∧
      P (o.on .apply) (entries m.manager.notices) := by
  obtain ⟨o, stored, _, typed, books, holds⟩ := keeping (twin.down.symm.trans up)
  obtain ⟨s', stored', related⟩ := twin.storage up stored
  cases primary.symm.trans stored'
  rw [(twin.manager up).notices]
  exact ⟨o, stored, related, typed, books, holds⟩

/-- The calls leave the process running on storage `s`, and the listeners told of `notices`. -/
structure Leads [DecidableEq K] [Sha256] (calls : List Call) (s : StorageMap L) (notices : List Notice) : Prop where
  up : ((Node.start ({} : StorageMap L)).run calls).down = false
  primary : ((Node.start ({} : StorageMap L)).run calls).manager.primary = some s
  notices : ((Node.start ({} : StorageMap L)).run calls).manager.notices = notices

section

variable [Sha256] {calls : List Call} {s : StorageMap L} {notices : List Notice}

namespace Leads

theorem keeping {P : Overlay L → List (Ledger.Entry Ident Ident) → Prop} (run : Leads calls s notices)
    (keeping : Keeping P ((Node.start ({} : Overlay L)).run calls)) :
    Parallel s s.overlay ∧ s.overlay.Typed ∧ Books (s.overlay.on .apply) (ledgerOf notices) ∧
      P (s.overlay.on .apply) (entries notices) := by
  obtain ⟨o, _, related, rest⟩ := keeping_storage (twin_start.run calls) keeping run.up run.primary
  obtain rfl := related.1.overlay
  rw [run.notices] at rest
  exact ⟨related, rest⟩

theorem booked (run : Leads calls s notices) :
    Parallel s s.overlay ∧ s.overlay.Typed ∧ Books (s.overlay.on .apply) (ledgerOf notices) ∧ (ledgerOf notices).Balanced :=
  run.keeping (P := fun _ es => (es.foldl Ledger.post Ledger.blank).Balanced) (booked_start.run calls)

end Leads

end

theorem textNode_leads {calls : List Call} (up : (textNode calls).down = false) :
    @Leads _ Layout.text _ zeroSha256 calls (textStorage calls) (textNode calls).manager.notices :=
  let _ := zeroSha256
  ⟨up, textNode_primary up, rfl⟩

theorem freeNode_leads {calls : List Call} (up : (freeNode calls).down = false) :
    @Leads _ Layout.free _ zeroSha256 calls (freeStorage calls) (freeNode calls).manager.notices :=
  let _ := zeroSha256
  ⟨up, freeNode_primary up, rfl⟩

end BandChain
