import BandChain.Listener.Overwrites
import BandChain.Property.Accounting
import BandChain.Property.Atomicity

/-! Every token that loads has a curve, and following the bases from it comes to an end. -/

namespace BandChain

/-- A token whose curve can be copied, and from which following `base()` comes to a token that is its own base. -/
structure Storage.WellFormed {σ : Type} [Storage σ] (t : Ident) (s : σ) : Prop where
  curve : ∃ curve : Curve, Storage.look (.curveData t) s = .ok curve ∧ intact curve = true
  grounded : Ledger.Grounded (fun t => Storage.baseOf t s) t

variable {K : Type} [DecidableEq K] {L : Layout K}

def TokensWellFormed (m : Node (StorageMap L)) : Prop :=
  ∀ s, m.down = false → m.manager.primary = some s → ∀ t, Storage.Loads t s.applying → Storage.WellFormed t s.applying

/-- The call creates no token over a missing base, and, if it goes through, writes no balance at the key of the marker of a
token's base, unless it writes one at the key of the token's own marker too. -/
def KeepsTokens [Sha256] (m : Node (StorageMap L)) (call : Call) : Prop :=
  ∀ s hdr msg, m.manager.primary = some s → Handed s call hdr msg → ¬ msg.Leaks L s.applyCache ∧
    ((∃ bytes, (call.exec m.manager).1 = .ok bytes) → ∀ e, s.posting hdr msg = some e →
      ∀ c b, Storage.baseOf c s.applying = some b → L.Overwrites e b → L.Overwrites e c)

section

variable {o o' : Overlay L} {s : StorageMap L}

omit [DecidableEq K] in
theorem intact_of_value {c : Cell} {v : c.Val} (value : o.value c = .ok v) : intact v = true := by
  unfold Overlay.value at value
  split at value
  · exact (Overlay.copy_ok value).1 ▸ (Overlay.copy_ok value).2
  · rcases read : o.stored (.data c) with e | held <;> rw [read] at value
    · cases value
    rcases decodes : decoded (α := c.Val) held with e | v' <;> simp only [bind, Except.bind, decodes] at value
    · cases value
    · exact (Overlay.copy_ok value).1 ▸ (Overlay.copy_ok value).2

theorem Parallel.baseOf (related : Parallel s o) (t : Ident) : Storage.baseOf t s.applying = (o.on .apply).baseOf t :=
  (congrArg Except.toOption (sim_look related.live (.baseIdent t))).trans (baseOf_overlay t)

theorem Parallel.wellFormed_iff (related : Parallel s o) :
    (∀ t, Storage.Loads t s.applying → Storage.WellFormed t s.applying) ↔ (o.on .apply).WellFormed := by
  have bases : (fun t => Storage.baseOf t s.applying) = (o.on .apply).baseOf := funext related.baseOf
  have look {t : Ident} (found : (o.on .apply).hasContract (.token t) = .ok true) :
      Storage.look (.curveData t) s.applying = (o.on .apply).value (.curveData t) :=
    (sim_look related.live _).trans (look_of_found found)
  constructor
  · intro every t found
    obtain ⟨⟨curve, looked, _⟩, grounded⟩ := every t ((loads_iff related.live).mpr found)
    exact ⟨⟨curve, (look found).symm.trans looked⟩, bases ▸ grounded⟩
  · intro well t loads
    have found := (loads_iff related.live).mp loads
    obtain ⟨⟨curve, value⟩, grounded⟩ := well t found
    exact ⟨⟨curve, (look found).trans value, intact_of_value value⟩, bases ▸ grounded⟩

end

section

variable [Sha256] {m : Node (StorageMap L)} {n : Node (Overlay L)} {o o' : Overlay L} {s : StorageMap L} {call : Call}
  {l : Ledger Ident Ident}

omit [Sha256] in
theorem Entered.wellFormed_iff {p q : Overlay L} {e : Ledger.Entry Ident Ident} (made : Entered (o.on .apply) e p q)
    (steady : o.Steady) (well : (o.on .apply).WellFormed) :
    q.rewound.WellFormed ↔ ∀ c b, (o.on .apply).baseOf c = some b → L.Overwrites e b → L.Overwrites e c := by
  rw [made.change.wellFormed_rewound_iff (made.clear steady) made.same.current' made.separate made.whole (made.same.wellFormed well), made.same.baseOf]

/-- A token created over a missing base stays, without a curve. -/
theorem step_leaks {hdr : HeaderMsg} {msg : Msg} (steady : o.Steady) (typed : o.Typed) (books : Books (o.on .apply) l)
    (up : n.down = false) (primary : n.manager.primary = some o) (handed : Handed o call hdr msg) (leaks : msg.Leaks L o.applyCache) :
    ∃ e o', (call.exec n.manager).1 = .error (.throw e) ∧ (n.step call).manager.primary = some o' ∧ ¬ (o'.on .apply).WellFormed := by
  obtain ⟨raw, rawResult, data, type, buf, rest, rfl, parsed, valid, decoded⟩ := handed
  rcases validated : PrimaryListener.validateTransaction .apply hdr data o with ⟨outcome, o₁⟩
  rw [validated] at valid
  obtain rfl : outcome = .ok () := valid
  have applied : (o₁.on .apply).applyCache = o.applyCache :=
    (Overlay.on_applyCache ..).trans (validate_applyCache validated)
  have leaks' : msg.Leaks L (o₁.on .apply).applyCache := applied ▸ leaks
  have current := Overlay.on_currentCache o₁ .apply
  obtain ⟨e, o₂, handled⟩ := handle_of_leaks n.manager.block hdr current leaks'
  have thrown : PrimaryListener.process n.manager.block hdr msg o₁ = (.error (.throw e), o₂.dropped) := by
    rw [PrimaryListener.process_eq, handled]
  have effect : Effect o n.manager.block (.applyTransaction raw rawResult) _ _ _ _ := .failed parsed validated decoded thrown
  refine ⟨e, o₂.dropped, congrArg Prod.fst (effect.exec primary), ?_, fun well => ?_⟩
  · rw [step_of_effect up primary effect]
    rfl
  obtain ⟨_, _, ⟨kept, _⟩ | ⟨_, t, _, absent, marked⟩⟩ := handle_throw current handled
  · exact kept leaks'
  have found : (o₂.dropped.on .apply).hasContract (.token t) = .ok true :=
    (Overlay.hasContract_true rfl).mpr ((congrFun marked _).trans (Function.update_self ..))
  obtain ⟨curve, held⟩ := (well t found).1
  obtain ⟨_, named⟩ := (books.turn (turn_effect steady typed effect (by simp))).1.curve held
  rw [applied] at absent
  cases named.symm.trans (books.fresh ((Overlay.hasContract_false (k := .token t) rfl).mpr absent)).1

omit [Sha256] in
/-- The tokens of a live node are well formed if those of its overlay are. -/
theorem Twin.wellFormed_iff (twin : Twin m n) (up : m.down = false) (primary : n.manager.primary = some o) :
    TokensWellFormed m ↔ (o.on .apply).WellFormed := by
  obtain ⟨s, stored, related⟩ := twin.storage up primary
  rw [← related.wellFormed_iff]
  refine ⟨fun every => every s up stored, fun every s' _ stored' => ?_⟩
  cases stored.symm.trans stored'
  exact every

/-- A call that creates a token over a missing base, or whose entry overwrites a base, is found out by its step. -/
theorem keepsTokens_of_step (twin : Twin m n) (booked : Booked n) (up : m.down = false) (well : TokensWellFormed m)
    (well' : TokensWellFormed (m.step call)) : KeepsTokens m call := by
  have up' : n.down = false := twin.down ▸ up
  obtain ⟨o, primary, steady, typed, books, _⟩ := booked up'
  obtain ⟨s, stored, related⟩ := twin.storage up primary
  have maps : s.applyCache = o.applyCache := congrArg Overlay.applyCache related.1.overlay
  have outcome : (call.exec m.manager).1 = (call.exec n.manager).1 := (twin.sameRecord up call).outcome
  have alive (fine : (call.exec n.manager).1 ≠ .error .crash) : (m.step call).down = false := by
    rw [(twin.step call).down, Node.step_up up']
    exact crashed_eq_false.mpr fine
  intro s' hdr msg stored' handed
  cases stored.symm.trans stored'
  have handed' := related.handed_iff.mp handed
  refine ⟨fun leaks => ?_, fun success e posting c b named hit => ?_⟩
  · obtain ⟨e, o', threw, primary', broken⟩ := step_leaks steady typed books up' primary handed' (maps ▸ leaks)
    exact broken (((twin.step call).wellFormed_iff (alive (by rw [threw]; simp)) primary').mp well')
  · obtain ⟨bytes, applied⟩ := success
    rw [outcome] at applied
    obtain ⟨o', primary', ⟨silent, _⟩ | ⟨e', p, q, posting', made, same⟩⟩ := step_applied related typed up' primary handed' applied
    · cases silent.symm.trans posting
    cases posting'.symm.trans posting
    have well'' := ((twin.step call).wellFormed_iff (alive (by rw [applied]; simp)) primary').mp well'
    rw [same] at well''
    refine (made.wellFormed_iff related.2 ((twin.wellFormed_iff up primary).mp well)).mp well'' c b ?_ hit
    rw [← related.baseOf, named]

theorem wellFormed_of_keepsTokens (twin : Twin m n) (booked : Booked n) (up : m.down = false) (well : TokensWellFormed m)
    (keeps : KeepsTokens m call) : TokensWellFormed (m.step call) := by
  have up' : n.down = false := twin.down ▸ up
  obtain ⟨o, primary, steady, typed, _, _⟩ := booked up'
  obtain ⟨s, stored, related⟩ := twin.storage up primary
  have maps : s.applyCache = o.applyCache := congrArg Overlay.applyCache related.1.overlay
  have before : (o.on .apply).WellFormed := (twin.wellFormed_iff up primary).mp well
  have outcome : (call.exec m.manager).1 = (call.exec n.manager).1 := (twin.sameRecord up call).outcome
  by_cases alive : (m.step call).down = false
  swap
  · exact fun _ up _ => (alive up).elim
  obtain ⟨outcome', o', notices, block, effect, moved⟩ := step_effect up' primary call
  have survived : outcome' ≠ .error .crash := by
    apply crashed_eq_false.mp
    rw [(twin.step call).down, moved] at alive
    exact alive
  rw [(twin.step call).wellFormed_iff alive (by rw [moved]; rfl)]
  have turn := turn_effect steady typed effect survived
  generalize told : entries notices = es at turn
  generalize o'.on .apply = o₁ at turn ⊢
  cases turn with
  | still same => exact same.wellFormed before
  | leaked sent leaks _ _ => exact ((keeps s _ _ stored (related.handed_iff.mpr sent)).1 (maps ▸ leaks)).elim
  | @posted e p q source same change separate whole =>
    refine (Entered.wellFormed_iff ⟨same, change, separate, whole⟩ related.2 before).mpr fun c b named hit => ?_
    -- genesis overwrites no token, and a message that went through has made the entry it was about to make
    rcases source with rfl | ⟨hdr, msg, res, sent, entered⟩
    · obtain ⟨_, _, writes, _⟩ := hit
      cases writes
    rcases outcome' with e' | bytes
    · rw [effect.untold rfl] at told
      cases told
    refine (keeps s _ _ stored (related.handed_iff.mpr sent)).2 ⟨bytes, ?_⟩ e (posting_of_entry related same change entered) c b ?_ hit
    · exact outcome.trans (congrArg Prod.fst (effect.exec primary))
    · rw [related.baseOf, named]

/-- A step keeps all tokens well formed exactly if the call is fit for them. -/
theorem step_wellFormed_iff (twin : Twin m n) (booked : Booked n) (well : TokensWellFormed m) :
    TokensWellFormed (m.step call) ↔ (m.down = false → KeepsTokens m call) := by
  by_cases down : m.down = true
  · rw [Node.step, if_pos down]
    exact iff_of_true well fun up => by cases up.symm.trans down
  have up : m.down = false := by simpa using down
  constructor
  · intro well' _
    exact keepsTokens_of_step twin booked up well well'
  · intro keeps
    exact wellFormed_of_keepsTokens twin booked up well (keeps up)

end

theorem tokensWellFormed_start : TokensWellFormed (Node.start ({} : StorageMap L)) := by
  intro s _ stored t loads
  obtain ⟨s', stored', related⟩ := (twin_start (L := L)).storage rfl rfl
  cases stored.symm.trans stored'
  have found : (({} : Overlay L).on .apply).hasContract (.token t) = .ok true := (loads_iff related.live).mp loads
  cases found

/-- Every token that loads is well formed in every state of a run exactly if each of its calls is fit for the tokens. -/
theorem tokens_well_formed_iff [Sha256] (calls : List Call) :
    (Node.start ({} : StorageMap L)).Always TokensWellFormed calls ↔
      (Node.start ({} : StorageMap L)).Along KeepsTokens calls := by
  refine Node.always_iff_along (J := fun m => ∃ n : Node (Overlay L), Twin m n ∧ Booked n) tokensWellFormed_start
    ⟨_, twin_start, booked_start⟩ ?_ ?_
  · rintro m call ⟨n, twin, booked⟩
    exact ⟨_, twin.step call, booked.run [call]⟩
  · rintro m call ⟨n, twin, booked⟩ well
    exact step_wellFormed_iff twin booked well

def orphaned : List Call := [.initChain [], applyMsg ListenerManager.genesis.account 1 orphan]

/-- After it `x` loads, but has no curve; whoever buys it ends the process. -/
theorem orphan_loads : (textNode orphaned).down = false ∧ ∃ x, orphan.created = some (.token x) ∧
    Storage.Loads x (textStorage orphaned).applying ∧ ¬ Storage.WellFormed x (textStorage orphaned).applying ∧
    (textNode (orphaned ++ [applyMsg ListenerManager.genesis.account 2 (.buyToken ⟨x, 1⟩)])).down = true := by
  refine ⟨by decide +kernel, _, rfl, by unfold Storage.Loads; decide +kernel, fun well => ?_, by decide +kernel⟩
  obtain ⟨curve, looked, _⟩ := well.curve
  have read : Option.isSome _ = true := congrArg (fun answer => answer.toOption.isSome) looked
  exact absurd read (by decide +kernel)

end BandChain
