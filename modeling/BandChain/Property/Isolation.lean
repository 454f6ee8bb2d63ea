import BandChain.Listener.Run

/-! Checked transactions beside applied ones: both use the one contract cache. -/

namespace BandChain

variable {K : Type} {L : Layout K}

def Call.isCheck : Call → Bool
  | .checkTransaction _ => true
  | .initChain _ | .beginBlock _ _ | .applyTransaction _ _ | .commitBlock => false

/-- The run without its `checkTransaction` calls. -/
def withoutChecks (calls : List Call) : List Call := calls.filter fun call => !call.isCheck

/-- The same call ended the same way; where the process lives on, on the same `applyCache`. -/
structure Isolated (r r' : Record (StorageMap L)) : Prop where
  call : r.call = r'.call
  outcome : r.outcome = r'.outcome
  applyCache : r.outcome ≠ .error .crash →
    r.after.primary.map StorageMap.applyCache = r'.after.primary.map StorageMap.applyCache

/-- Deleting the checks of a run changes nothing for the other calls. -/
def ChecksIsolated [DecidableEq K] [Sha256] (L : Layout K) (calls : List Call) : Prop :=
  List.Forall₂ Isolated (((Node.start ({} : StorageMap L)).run calls).history.filter fun r => !r.call.isCheck)
    ((Node.start ({} : StorageMap L)).run (withoutChecks calls)).history

/-! ### Nonces that wait for a flush, and who left them -/

/-- Some nonce is pending in the storage after a call. -/
def Record.Waits (r : Record (StorageMap L)) : Prop :=
  ∃ s, r.after.primary = some s ∧ ∃ u, s.pending (.nonce u) ≠ none

/-- A record that fits `P` was made, and some nonce has been pending ever since. -/
def Lingers (P : Record (StorageMap L) → Prop) (history : List (Record (StorageMap L))) : Prop :=
  history.foldl (fun lingers r => r.Waits ∧ (P r ∨ lingers)) False

def CheckPassed (r : Record (StorageMap L)) : Prop := r.call.isCheck = true ∧ ∃ bytes, r.outcome = .ok bytes

/-- The header nonce of an applied transaction is pending. -/
def LeavesNonce [Sha256] (pending : (c : Cell) → Option c.Val) : Call → Prop
  | .applyTransaction raw _ => ∃ hdr data buf, ListenerManager.parseHeader raw = .ok (hdr, data, buf) ∧
      pending (.nonce hdr.user) = some (UInt256.ofUInt64 hdr.nonce)
  | .initChain _ | .beginBlock _ _ | .checkTransaction _ | .commitBlock => False

def NonceLeft [Sha256] (r : Record (StorageMap L)) : Prop :=
  ∃ s, r.after.primary = some s ∧ LeavesNonce s.pending r.call

/-- What may wait when a call is made: nothing that a check left, where the call may read or write it; nothing
that an applied transaction left, where the flush is of check mode. -/
def Fit [Sha256] (checked left : Prop) (currentCache : Option PrimaryMode) : Call → Prop
  | .initChain _ | .beginBlock _ _ | .checkTransaction _ => True
  | .applyTransaction raw _ => ∀ parts, ListenerManager.parseTx raw = .ok parts → ¬ checked
  | .commitBlock =>
    match currentCache with
    | some .check => ¬ left
    | some .apply => ¬ checked
    | none => True

/-- No call meets what calls of the other mode left in the cache. -/
def Unmixed [Sha256] (n : Node (StorageMap L)) (call : Call) : Prop :=
  ∀ s, n.manager.primary = some s →
    Fit (Lingers CheckPassed n.history) (Lingers NonceLeft n.history) s.currentCache call

theorem lingers_append (P : Record (StorageMap L) → Prop) (history : List (Record (StorageMap L)))
    (r : Record (StorageMap L)) : Lingers P (history ++ [r]) ↔ r.Waits ∧ (P r ∨ Lingers P history) := by
  rw [Lingers, List.foldl_append]
  rfl

/-! ### A run and its shadow without checks -/

namespace Overlay

/-- The second store is the first without the checks. `checked` and `left` say whether a nonce of a check, and
of a transaction that was not applied, may wait in the first. -/
structure Shadows (checked left : Prop) (o o' : Overlay L) : Prop where
  checkCache : o.checkCache = o'.checkCache
  applyCache : o.applyCache = o'.applyCache
  pending : ¬ checked → o.pending = o'.pending
  left : ¬ left → ∀ c, o'.pending c = none
  cleared : (∀ c, o.pending c = none) → ∀ c, o'.pending c = none
  mode : o.currentCache = some .apply → o'.currentCache = some .apply

def Waiting (o : Overlay L) : Prop := ∃ u, o.pending (.nonce u) ≠ none

variable {o o' : Overlay L} {checked left : Prop}

theorem waiting_write (o : Overlay L) (u : Ident) (n : UInt256) : (o.write (.nonce u) n).Waiting :=
  ⟨u, by rw [write_pending_self]; simp⟩

theorem NonceOnly.clear (only : o.NonceOnly) (idle : ¬ o.Waiting) (c : Cell) : o.pending c = none := by
  by_contra held
  obtain ⟨u, rfl⟩ := only c held
  exact idle ⟨u, held⟩

/-- What was left lingers only while something waits. -/
theorem Shadows.linger (h : Shadows checked left o o') (only : o.NonceOnly) {checked' left' : Prop}
    (check : checked → checked') (apply : left → left') : Shadows (o.Waiting ∧ checked') (o.Waiting ∧ left') o o' := by
  refine { h with pending := fun gone => ?_, left := fun gone => ?_ }
  · by_cases waiting : o.Waiting
    · exact h.pending fun linger => gone ⟨waiting, check linger⟩
    · have clear := only.clear waiting
      exact funext fun c => (clear c).trans (h.cleared clear c).symm
  · by_cases waiting : o.Waiting
    · exact h.left fun linger => gone ⟨waiting, apply linger⟩
    · exact h.cleared (only.clear waiting)

theorem Shadows.refl (clear : ¬ left → ∀ c, o.pending c = none) : Shadows checked left o o where
  checkCache := rfl
  applyCache := rfl
  pending := fun _ => rfl
  left := clear
  cleared := id
  mode := id

theorem Shadows.on (h : Shadows checked left o o') (mode : PrimaryMode) : Shadows checked left (o.on mode) (o'.on mode) :=
  { h with mode := id }

theorem Shadows.on_check (h : Shadows checked left o o') : Shadows checked left (o.on .check) o' :=
  { h with mode := fun wrong => by cases wrong }

theorem Shadows.dropped (h : Shadows checked left o o') {checked' left' : Prop} :
    Shadows checked' left' o.dropped o'.dropped :=
  { h with pending := fun _ => rfl, left := fun _ _ => rfl, cleared := fun _ _ => rfl }

theorem on_self {mode : PrimaryMode} (current : o.currentCache = some mode) : o.on mode = o := by
  rw [on, ← current]

theorem Shadows.on_eq (h : Shadows checked left o o') (same : o.pending = o'.pending) (mode : PrimaryMode) :
    o.on mode = o'.on mode := by
  rw [Overlay.on, Overlay.on, h.checkCache, h.applyCache, same]

theorem Shadows.flushed_eq [Sha256] (h : Shadows checked left o o') (selected : o.Selected)
    (fit : Fit checked left o.currentCache .commitBlock) : o.flushed = o'.flushed := by
  rcases current : o.currentCache with _ | _ | _ <;> rw [current] at fit
  · have clear : ∀ c, o.pending c = none := by
      intro c
      by_contra held
      exact selected ⟨c, held⟩ current
    rw [flushed_of_none clear, flushed_of_none (h.cleared clear), h.applyCache]
  · rw [flushed_of_check (by rw [current]; simp), flushed_of_none (h.left fit), h.applyCache]
  · rw [← on_self current, h.on_eq (h.pending fit), on_self (h.mode current)]

end Overlay

open Overlay (Shadows Steady)

variable [DecidableEq K] [Sha256] {o o' o₁ : Overlay L} {blk : BlockMsg} {checked left : Prop}

omit [Sha256] in
theorem validate_same {hdr : HeaderMsg} {data : ByteString} (same : o.on .apply = o'.on .apply) :
    PrimaryListener.validateTransaction .apply hdr data o' = PrimaryListener.validateTransaction .apply hdr data o := by
  rw [PrimaryListener.validate_eq, PrimaryListener.validate_eq, same]

omit [Sha256] in
theorem shadows_init {outcome : Except Stop Unit} (steady : o.Steady) (steady' : o'.Steady) (h : Shadows checked left o o')
    (ran : PrimaryListener.init ListenerManager.genesis o = (outcome, o₁)) :
    ∃ o₁', PrimaryListener.init ListenerManager.genesis o' = (outcome, o₁') ∧
      (Shadows checked left o₁ o₁') := by
  have maps := congrFun h.applyCache
  rcases init_cases steady with ⟨founded, refused⟩ | ⟨clear, nothing, seeded⟩ <;>
    rcases init_cases steady' with ⟨founded', refused'⟩ | ⟨clear', nothing', seeded'⟩
  · obtain ⟨rfl, rfl⟩ := Prod.mk.inj (ran.symm.trans refused)
    exact ⟨_, refused', h.on .apply⟩
  · rw [Overlay.Founded, maps, clear'] at founded
    cases founded
  · rw [Overlay.Founded, ← maps, clear] at founded'
    cases founded'
  · obtain ⟨rfl, rfl⟩ := Prod.mk.inj (ran.symm.trans seeded)
    have same := h.on_eq (funext fun c => (nothing c).trans (nothing' c).symm) .apply
    rw [show o'.seeded = o.seeded by rw [Overlay.seeded, ← same]; rfl] at seeded'
    exact ⟨_, seeded', .refl fun _ _ => rfl⟩

/-- A call that is no check has the same effect on both, and leaves them shadows. -/
theorem shadows_effect {call : Call} {outcome : Except Stop ByteString} {notices : List Notice} {block : BlockMsg}
    (steady : o.Steady) (steady' : o'.Steady) (h : Shadows checked left o o') (fit : Fit checked left o.currentCache call)
    (other : call.isCheck = false) (effect : Effect o blk call outcome o₁ notices block) :
    ∃ o₁', Effect o' blk call outcome o₁' notices block ∧ (outcome ≠ .error .crash →
      Shadows (o₁.Waiting ∧ checked) (o₁.Waiting ∧ (LeavesNonce o₁.pending call ∨ left)) o₁ o₁') := by
  have only (alive : outcome ≠ .error .crash) : o₁.NonceOnly := (steady_effect steady effect alive).nonceOnly
  -- What a transaction leaves, it leaves in the storage of either run.
  have twin (alive : outcome ≠ .error .crash) (waits : ¬ left → ¬ LeavesNonce o₁.pending call → ∀ c, o₁.pending c = none) :
      Shadows (o₁.Waiting ∧ checked) (o₁.Waiting ∧ (LeavesNonce o₁.pending call ∨ left)) o₁ o₁ := by
    have same : Shadows checked (LeavesNonce o₁.pending call ∨ left) o₁ o₁ :=
      .refl fun gone => waits (fun left => gone (Or.inr left)) fun leaves => gone (Or.inl leaves)
    exact same.linger (only alive) id id
  cases effect with
  | genesis ran =>
    obtain ⟨o₁', ran', same⟩ := shadows_init steady steady' h ran
    exact ⟨o₁', .genesis ran', fun alive => same.linger (only alive) id Or.inr⟩
  | genesisRefused ran =>
    obtain ⟨o₁', ran', same⟩ := shadows_init steady steady' h ran
    exact ⟨o₁', .genesisRefused ran', fun alive => same.linger (only alive) id Or.inr⟩
  | begun => exact ⟨_, .begun, fun _ => h.dropped⟩
  | unchecked _ => cases other
  | checked _ _ => cases other
  | malformed malformed => exact ⟨_, .malformed malformed, fun alive => h.linger (only alive) id Or.inr⟩
  | refused parsed ran =>
    have pending := h.pending (fit _ parsed)
    refine ⟨_, .refused parsed ((validate_same (h.on_eq pending .apply)).trans ran), fun alive => twin alive fun gone _ c => ?_⟩
    rw [PrimaryListener.validate_error ran, Overlay.on_pending, pending]
    exact h.left gone c
  | undecoded parsed ran undecoded =>
    have same := h.on_eq (h.pending (fit _ parsed)) .apply
    refine ⟨_, .undecoded parsed ((validate_same same).trans ran) undecoded, fun alive => twin alive fun _ kept => ?_⟩
    obtain ⟨_, header, _⟩ := parseTx_ok parsed
    obtain ⟨_, _, _, _, rfl⟩ := PrimaryListener.validate_ok ran
    exact (kept ⟨_, _, _, header, Overlay.write_pending_self ..⟩).elim
  | @failed _ _ e _ _ _ _ _ _ _ _ parsed validated decoded ran =>
    have same := h.on_eq (h.pending (fit _ parsed)) .apply
    refine ⟨_, .failed parsed ((validate_same same).trans validated) decoded ran, fun alive => twin alive fun _ _ c => ?_⟩
    cases e with
    | crash => exact (alive rfl).elim
    | throw e =>
      obtain ⟨_, _, rfl⟩ := PrimaryListener.process_throw ran
      rfl
  | applied parsed validated decoded ran =>
    have same := h.on_eq (h.pending (fit _ parsed)) .apply
    refine ⟨_, .applied parsed ((validate_same same).trans validated) decoded ran, fun alive => twin alive fun _ _ c => ?_⟩
    obtain ⟨_, _, _, rfl⟩ := PrimaryListener.process_ok ran
    rfl
  | committed ran =>
    obtain ⟨rfl, rfl⟩ := Prod.mk.inj ((PrimaryListener.commit_apply _ steady.selected).symm.trans ran)
    have same : o'.committed = o.committed := by rw [Overlay.committed, Overlay.committed, h.flushed_eq steady.selected fit]
    refine ⟨_, .committed (PrimaryListener.commit_apply _ steady'.selected), fun _ => ?_⟩
    rw [same]
    exact .refl fun _ _ => rfl

/-- A check leaves the shadow as it was. -/
theorem shadows_check {raw : ByteString} {outcome : Except Stop ByteString} {notices : List Notice} {block : BlockMsg}
    (steady : o.Steady) (h : Shadows checked left o o') (effect : Effect o blk (.checkTransaction raw) outcome o₁ notices block) :
    outcome ≠ .error .crash ∧ block = blk ∧
      Shadows (o₁.Waiting ∧ ((∃ bytes, outcome = .ok bytes) ∨ checked)) (o₁.Waiting ∧ left) o₁ o' := by
  cases effect with
  | unchecked malformed =>
    exact ⟨fun crash => ListenerManager.parseHeader_throws malformed (Except.error.inj crash), rfl,
      h.linger steady.nonceOnly Or.inr id⟩
  | @checked _ outcome _ hdr _ _ _ ran =>
    cases outcome with
    | error e =>
      have only := (steady_validate steady ran).1.nonceOnly
      rw [PrimaryListener.validate_error ran] at only ⊢
      exact ⟨fun crash => PrimaryListener.validate_throws ran (Except.error.inj crash), rfl, h.on_check.linger only Or.inr id⟩
    | ok _ =>
      obtain ⟨_, _, _, _, rfl⟩ := PrimaryListener.validate_ok ran
      have waiting := Overlay.waiting_write (o.on .check) hdr.user (UInt256.ofUInt64 hdr.nonce)
      refine ⟨by rintro ⟨⟩, rfl, ⟨h.checkCache, h.applyCache, fun gone => (gone ⟨waiting, Or.inl ⟨_, rfl⟩⟩).elim,
        fun gone => h.left fun linger => gone ⟨waiting, linger⟩, fun clear => ?_, fun wrong => by cases wrong⟩⟩
      obtain ⟨_, held⟩ := waiting
      exact (held (clear _)).elim

/-! ### Nodes -/

/-- A node, and the node that made the same calls without the checks. -/
structure Shadow (m m' : Node (StorageMap L)) : Prop where
  down : m.down = m'.down
  records : List.Forall₂ Isolated (m.history.filter fun r => !r.call.isCheck) m'.history
  related : m.down = false → ∃ n n' o o', Twin m n ∧ Twin m' n' ∧ n.manager.primary = some o ∧
    n'.manager.primary = some o' ∧ n.manager.block = n'.manager.block ∧
    Shadows (Lingers CheckPassed m.history) (Lingers NonceLeft m.history) o o'

omit [DecidableEq K] in
theorem shadow_start : Shadow (L := L) (Node.start {}) (Node.start {}) where
  down := rfl
  records := .nil
  related := fun _ => ⟨_, _, _, _, twin_start, twin_start, rfl, rfl, rfl, .refl fun _ _ => rfl⟩

omit [DecidableEq K] [Sha256] in
theorem Overlay.Shadows.congr {checked' left' : Prop} (h : Shadows checked left o o') (check : checked ↔ checked')
    (apply : left ↔ left') : Shadows checked' left' o o' := by
  rw [← propext check, ← propext apply]
  exact h

section

variable {m m' : Node (StorageMap L)} {call : Call} {outcome : Except Stop ByteString} {after : ListenerManager (Overlay L)}
  {r : Record (StorageMap L)}

omit [DecidableEq K] in
theorem SameRecord.waits (same : SameRecord r ⟨call, outcome, after⟩) (alive : outcome ≠ .error .crash)
    (primary : after.primary = some o₁) :
    ∃ s, r.after.primary = some s ∧ s.applyCache = o₁.applyCache ∧ (r.Waits ↔ o₁.Waiting) ∧
      (NonceLeft r ↔ LeavesNonce o₁.pending call) := by
  have calls : r.call = call := same.call
  obtain ⟨s, stored, related⟩ := (same.after fun crash => alive (same.outcome.symm.trans crash)).storage primary
  obtain rfl := related.1.overlay
  refine ⟨s, stored, rfl, ⟨?_, fun waits => ⟨s, stored, waits⟩⟩, ⟨?_, fun leaves => ⟨s, stored, calls ▸ leaves⟩⟩⟩
  · rintro ⟨s', stored', waits⟩
    rw [stored] at stored'
    obtain rfl := Option.some.inj stored'
    exact waits
  · rintro ⟨s', stored', leaves⟩
    rw [stored] at stored'
    obtain rfl := Option.some.inj stored'
    exact calls ▸ leaves

theorem Shadow.step_check (shadow : Shadow m m') (raw : ByteString) : Shadow (m.step (.checkTransaction raw)) m' := by
  by_cases down : m.down = true
  · rwa [Node.step, if_pos down]
  have up : m.down = false := by simpa using down
  obtain ⟨n, n', o, o', twin, twin', primary, primary', block, related⟩ := shadow.related up
  have upper : n.down = false := twin.down ▸ up
  obtain ⟨_, _, _, steady⟩ := twin.storage up primary
  obtain ⟨outcome, o₁, notices, block₁, effect, moved⟩ := step_effect upper primary (.checkTransaction raw)
  obtain ⟨alive, rfl, after⟩ := shadows_check steady related effect
  have same := twin.sameRecord up (.checkTransaction raw)
  have next := twin.step (.checkTransaction raw)
  rw [effect.exec primary] at same
  rw [moved] at next
  rw [Node.step_up up] at next ⊢
  obtain ⟨s, stored, _, waits, leaves⟩ := same.waits alive rfl
  refine ⟨?_, ?_, fun _ => ⟨_, n', o₁, o', next, twin', rfl, primary', block, ?_⟩⟩
  · rw [← shadow.down, up]
    exact next.down.trans (crashed_eq_false.mpr alive)
  · rw [List.filter_append]
    simpa [Call.isCheck] using shadow.records
  · refine after.congr ?_ ?_
    · rw [lingers_append, waits, CheckPassed, same.outcome]
      simp [Call.isCheck]
    · rw [lingers_append, waits, leaves]
      simp [LeavesNonce]

theorem Shadow.step_other (shadow : Shadow m m') (other : call.isCheck = false) (apart : m.down = false → Unmixed m call) :
    Shadow (m.step call) (m'.step call) := by
  by_cases down : m.down = true
  · have down' : m'.down = true := shadow.down ▸ down
    rwa [Node.step, if_pos down, Node.step, if_pos down']
  have up : m.down = false := by simpa using down
  have up' : m'.down = false := shadow.down ▸ up
  obtain ⟨n, n', o, o', twin, twin', primary, primary', block, related⟩ := shadow.related up
  obtain ⟨s, stored, linked, steady⟩ := twin.storage up primary
  obtain ⟨_, _, _, steady'⟩ := twin'.storage up' primary'
  obtain ⟨outcome, o₁, notices, block₁, effect, moved⟩ := step_effect (twin.down ▸ up) primary call
  have fit := apart up s stored
  rw [show s.currentCache = o.currentCache from congrArg Overlay.currentCache linked.overlay] at fit
  obtain ⟨o₁', effect', after⟩ := shadows_effect steady steady' related fit other effect
  rw [block] at effect'
  have moved' := step_of_effect (twin'.down ▸ up') primary' effect'
  have same := twin.sameRecord up call
  have same' := twin'.sameRecord up' call
  have next := twin.step call
  have next' := twin'.step call
  rw [effect.exec primary] at same
  rw [effect'.exec primary'] at same'
  rw [moved] at next
  rw [moved'] at next'
  have outcomes : (call.exec m.manager).1 = (call.exec m'.manager).1 := same.outcome.trans same'.outcome.symm
  rw [Node.step_up up] at next ⊢
  rw [Node.step_up up'] at next' ⊢
  refine ⟨congrArg crashed outcomes, ?_, fun alive => ?_⟩
  · rw [List.filter_append]
    refine List.rel_append shadow.records ?_
    rw [List.filter_cons_of_pos (by simp [other]), List.filter_nil]
    refine .cons ⟨rfl, outcomes, fun alive => ?_⟩ .nil
    have alive : outcome ≠ .error .crash := fun crash => alive (same.outcome.trans crash)
    obtain ⟨_, stored, applied, _⟩ := same.waits alive rfl
    obtain ⟨_, stored', applied', _⟩ := same'.waits alive rfl
    rw [stored, stored', Option.map_some, Option.map_some, applied, applied', (after alive).applyCache]
  · have alive : outcome ≠ .error .crash := crashed_eq_false.mp (next.down.symm.trans alive)
    obtain ⟨_, _, _, waits, leaves⟩ := same.waits alive rfl
    refine ⟨_, _, o₁, o₁', next, next', rfl, rfl, rfl, (after alive).congr ?_ ?_⟩
    · rw [lingers_append, waits, CheckPassed, other]
      simp
    · rw [lingers_append, waits, leaves]

theorem Shadow.run {calls : List Call} (shadow : Shadow m m') (apart : m.Along Unmixed calls) :
    Shadow (m.run calls) (m'.run (withoutChecks calls)) := by
  induction calls generalizing m m' with
  | nil => exact shadow
  | cons call calls ih =>
    cases check : call.isCheck with
    | true =>
      obtain ⟨raw, rfl⟩ : ∃ raw, call = .checkTransaction raw := by
        cases call with
        | checkTransaction raw => exact ⟨raw, rfl⟩
        | initChain _ | beginBlock _ _ | applyTransaction _ _ | commitBlock => cases check
      exact ih (shadow.step_check raw) apart.2
    | false =>
      have kept : withoutChecks (call :: calls) = call :: withoutChecks calls :=
        List.filter_cons_of_pos (by simp [check])
      rw [kept]
      exact ih (shadow.step_other check apart.1) apart.2

end

/-- Where no call meets what calls of the other mode left in the cache, checks change nothing. -/
theorem checks_isolated {calls : List Call} (apart : (Node.start ({} : StorageMap L)).Along Unmixed calls) :
    ChecksIsolated L calls :=
  (shadow_start.run apart).records

omit [DecidableEq K] [Sha256] in
/-- Nothing lingers where the last call left no contract in the cache. -/
theorem not_lingers {P : Record (StorageMap L) → Prop} {history : List (Record (StorageMap L))}
    (keys : (history.getLast?.bind fun r => r.after.primary).map (fun s => s.cache.keys) = some []) :
    ¬ Lingers P history := by
  intro lingers
  rcases List.eq_nil_or_concat history with rfl | ⟨before, r, rfl⟩
  · exact lingers
  · obtain ⟨⟨s, stored, u, held⟩, _⟩ := (lingers_append P before r).mp (by rwa [List.concat_eq_append] at lingers)
    rw [List.concat_eq_append, List.getLast?_concat, Option.bind_some] at keys
    exact held (pending_of_keys stored keys _)

omit [DecidableEq K] in
/-- With nothing lingering, every call is fit. -/
theorem unmixed_of_keys {n : Node (StorageMap L)} (call : Call)
    (keys : (n.history.getLast?.bind fun r => r.after.primary).map (fun s => s.cache.keys) = some []) : Unmixed n call := by
  intro s _
  cases call with
  | initChain _ | beginBlock _ _ | checkTransaction _ => trivial
  | applyTransaction _ _ => exact fun _ _ => not_lingers keys
  | commitBlock => rcases s.currentCache with _ | _ | _ <;> first | trivial | exact not_lingers keys

/-- A transaction of the genesis account, with nonce 1. -/
def mintOnce : ByteString :=
  ListenerManager.writeTx ListenerManager.genesis.account default 1 (.mintToken ⟨ListenerManager.genesis.token, 7⟩)

omit [Sha256] in
theorem checks_isolated_between :
    letI := zeroSha256
    ChecksIsolated Layout.text
      [.initChain [], .checkTransaction mintOnce, .beginBlock 0 default, .applyTransaction mintOnce [], .commitBlock] := by
  let _ := zeroSha256
  apply checks_isolated
  simp only [Node.Along]
  exact ⟨fun _ _ _ => trivial, fun _ _ _ => trivial, fun _ _ _ => trivial, fun _ => unmixed_of_keys _ (by decide +kernel),
    fun _ => unmixed_of_keys _ (by decide +kernel), trivial⟩

omit [DecidableEq K] [Sha256] in
theorem isolated_outcomes {l l' : List (Record (StorageMap L))} (same : List.Forall₂ Isolated l l') :
    (l.map fun r => r.outcome) = l'.map fun r => r.outcome := by
  rw [← List.forall₂_eq_eq_eq, List.forall₂_map_left_iff, List.forall₂_map_right_iff]
  exact same.imp fun _ _ isolated => isolated.outcome

omit [Sha256] in
/-- A transaction that is checked between the start of a block and its own turn is refused. -/
theorem checked_is_refused :
    letI := zeroSha256
    ¬ ChecksIsolated Layout.text
      [.initChain [], .beginBlock 0 default, .checkTransaction mintOnce, .applyTransaction mintOnce []] := by
  intro isolated
  have outcomes := congrArg (List.map Except.isOk) (isolated_outcomes isolated)
  revert outcomes
  decide +kernel

end BandChain
