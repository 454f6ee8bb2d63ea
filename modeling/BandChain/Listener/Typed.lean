import BandChain.Listener.Run

/-! In every state that a run reaches, a cell that shares its key with no other slot holds a value of its type. -/

namespace BandChain

variable {K : Type} {L : Layout K}

namespace Overlay

structure Typed (o : Overlay L) : Prop where
  whole : ∀ c val, o.pending c = some val → intact val = true
  stored : ∀ c, L.Own c → ∀ raw, o.applyCache (L.key (.data c)) = some raw →
    ∃ val : c.Val, raw = serialize val ∧ intact val = true

variable {o : Overlay L}

theorem typed_empty : Typed ({} : Overlay L) where
  whole := nofun
  stored := nofun

theorem Typed.on (h : o.Typed) (mode : PrimaryMode) : (o.on mode).Typed := ⟨h.whole, h.stored⟩

theorem Typed.dropped (h : o.Typed) : o.dropped.Typed := ⟨nofun, h.stored⟩

theorem Typed.write {c : Cell} {val : c.Val} (h : o.Typed) (whole : intact val = true) : (o.write c val).Typed := by
  refine ⟨fun c' val' held => ?_, h.stored⟩
  by_cases same : c' = c
  · subst same
    rw [write_pending_self] at held
    rwa [← Option.some.inj held]
  · rw [write_pending_ne _ _ _ same] at held
    exact h.whole c' val' held

theorem Typed.mark [DecidableEq K] (h : o.Typed) (current : o.currentCache = some .apply) (k : ContractKey) : (o.mark k).Typed := by
  refine ⟨by rw [mark_pending]; exact h.whole, fun c own raw held => h.stored c own raw ?_⟩
  have other : L.key (.data c) ≠ L.key (.contract k) := fun same => by cases own _ same.symm
  rw [mark_apply current] at held
  exact (Function.update_of_ne other ..).symm.trans held

theorem Typed.committed (h : o.Typed) (separate : o.Separate) : o.committed.Typed := by
  refine ⟨nofun, fun c own raw held => ?_⟩
  rw [committed_applyCache] at held
  have untouched (clear : o.pending c = none) : o.flushed (L.key (.data c)) = o.applyCache (L.key (.data c)) :=
    flushed_untouched fun c' same => by rwa [Slot.data.inj (own _ same)]
  by_cases current : o.currentCache = some .apply
  · rcases pending : o.pending c with _ | val
    · exact h.stored c own raw ((untouched pending).symm.trans held)
    · rw [flushed_pending current separate pending] at held
      exact ⟨val, (Option.some.inj held).symm, h.whole c val pending⟩
  · rw [flushed_of_check current] at held
    exact h.stored c own raw held

/-- A cell of its own either was written, and is read, or holds nothing. -/
theorem Typed.value {c : Cell} (h : o.Typed) (current : o.currentCache = some .apply) (own : L.Own c) :
    (∃ val, o.value c = .ok val ∧ intact val = true) ∨
      (o.pending c = none ∧ o.applyCache (L.key (.data c)) = none) := by
  rcases pending : o.pending c with _ | val
  · rcases held : o.applyCache (L.key (.data c)) with _ | raw
    · exact Or.inr ⟨rfl, rfl⟩
    · obtain ⟨val, rfl, whole⟩ := h.stored c own raw held
      have read : decoded (some (serialize val)) = .ok val := deserialize_serialize whole
      rw [value_of_clear current pending, map_apply, held, read]
      exact Or.inl ⟨val, if_pos whole, whole⟩
  · exact Or.inl ⟨val, value_of_pending pending (h.whole c val pending), h.whole c val pending⟩

theorem Typed.reads {c : Cell} (h : o.Typed) (current : o.currentCache = some .apply) (own : L.Own c)
    (whole : intact (default : c.Val) = true) : ∃ val, o.value c = .ok val := by
  rcases h.value current own with ⟨val, value, _⟩ | ⟨clear, nothing⟩
  · exact ⟨val, value⟩
  · refine ⟨default, ?_⟩
    rw [value_of_clear current clear, map_apply, nothing]
    exact if_pos whole

end Overlay

variable [DecidableEq K] {o o' : Overlay L} {blk : BlockMsg} {hdr : HeaderMsg} {msg : Msg}

theorem typed_handle (blk : BlockMsg) (hdr : HeaderMsg) (msg : Msg) (current : o.currentCache = some .apply) (typed : o.Typed) :
    (PrimaryListener.handle blk hdr msg o).2.Typed := by
  have kept : Exec.Keeps (fun o : Overlay L => o.currentCache = some .apply ∧ o.Typed) (PrimaryListener.handle blk hdr msg) :=
    keeps_handle blk (fun _ _ _ _ whole => And.imp_right fun typed => typed.write whole)
      (fun _ k _ ⟨current, typed⟩ _ => ⟨(Overlay.mark_currentCache ..).trans current, typed.mark current k⟩)
  exact (kept.after ⟨current, typed⟩).2

theorem typed_validate {mode : PrimaryMode} {data : ByteString} {outcome : Except Stop Unit} (typed : o.Typed)
    (ran : PrimaryListener.validateTransaction mode hdr data o = (outcome, o')) : o'.Typed := by
  rcases outcome with e | _
  · rw [PrimaryListener.validate_error ran]
    exact typed.on mode
  · obtain ⟨_, _, _, _, rfl⟩ := PrimaryListener.validate_ok ran
    exact (typed.on mode).write rfl

theorem typed_init {outcome : Except Stop Unit} (steady : o.Steady) (typed : o.Typed)
    (ran : PrimaryListener.init ListenerManager.genesis o = (outcome, o')) : o'.Typed := by
  rcases init_cases steady with ⟨_, refused⟩ | ⟨clear, nothing, seeded⟩
  · obtain ⟨_, rfl⟩ := Prod.mk.inj (ran.symm.trans refused)
    exact typed.on .apply
  · obtain ⟨_, rfl⟩ := Prod.mk.inj (ran.symm.trans seeded)
    obtain ⟨_, separate, _, _⟩ := seeded_facts steady clear nothing
    have current := Overlay.on_currentCache o .apply
    have account : ((o.on .apply).withAccount ListenerManager.genesis.account ListenerManager.genesis.verifyKey).Typed :=
      (((typed.on .apply).mark current _).write rfl).write rfl
    have current' := (Overlay.withAccount_current (o.on .apply) ListenerManager.genesis.account
      ListenerManager.genesis.verifyKey).trans current
    have token : o.seeded.Typed := (((account.mark current' _).write rfl).write rfl).write rfl
    exact token.committed separate

theorem typed_process {outcome : Except Stop Response} (steady : o.Steady) (typed : o.Typed)
    (ran : PrimaryListener.process blk hdr msg o = (outcome, o')) (alive : outcome ≠ .error .crash) : o'.Typed := by
  have handled := typed_handle blk hdr msg (Overlay.on_currentCache o .apply) (typed.on .apply)
  rcases outcome with (e | _) | res
  · obtain ⟨o₁, threw, rfl⟩ := PrimaryListener.process_throw ran
    rw [threw] at handled
    exact handled.dropped
  · exact (alive rfl).elim
  · obtain ⟨o₁, returned, _, rfl⟩ := PrimaryListener.process_ok ran
    rw [returned] at handled
    exact handled.committed ((handle_separate blk).of_ok (s := o.on .apply) ⟨steady.nonceOnly, rfl⟩ returned).1

theorem typed_effect [Sha256] {call : Call} {outcome : Except Stop ByteString} {notices : List Notice} {block : BlockMsg}
    (steady : o.Steady) (typed : o.Typed) (effect : Effect o blk call outcome o' notices block) (alive : outcome ≠ .error .crash) :
    o'.Typed := by
  cases effect with
  | genesis ran => exact typed_init steady typed ran
  | genesisRefused ran => exact typed_init steady typed ran
  | begun => exact typed.dropped
  | unchecked _ => exact typed
  | checked _ ran => exact typed_validate typed ran
  | malformed _ => exact typed
  | refused _ ran => exact typed_validate typed ran
  | undecoded _ ran _ => exact typed_validate typed ran
  | failed _ validated _ ran =>
    refine typed_process (steady_validate steady validated).1 (typed_validate typed validated) ran fun crash => alive ?_
    rw [Except.error.inj crash]
  | applied _ validated _ ran =>
    exact typed_process (steady_validate steady validated).1 (typed_validate typed validated) ran nofun
  | committed ran =>
    obtain ⟨_, rfl⟩ := Prod.mk.inj ((PrimaryListener.commit_apply _ steady.selected).symm.trans ran)
    exact typed.committed steady.nonceOnly.separate

section

variable [Sha256] {n : Node (Overlay L)}

/-- A live node has a storage in order, with values of their types. -/
def Orderly (n : Node (Overlay L)) : Prop := n.down = false → ∃ o, n.manager.primary = some o ∧ o.Steady ∧ o.Typed

omit [DecidableEq K] [Sha256] in
theorem orderly_start : Orderly (L := L) (Node.start {}) := fun _ => ⟨_, rfl, Overlay.steady_empty, Overlay.typed_empty⟩

theorem Orderly.step (orderly : Orderly n) (call : Call) : Orderly (n.step call) := by
  by_cases down : n.down = true
  · rwa [Node.step, if_pos down]
  · have up : n.down = false := by simpa using down
    obtain ⟨o, primary, steady, typed⟩ := orderly up
    obtain ⟨outcome, o', notices, block, effect, after⟩ := step_effect up primary call
    rw [after]
    intro alive
    have survived := crashed_eq_false.mp alive
    exact ⟨o', rfl, steady_effect steady effect survived, typed_effect steady typed effect survived⟩

theorem Orderly.run (orderly : Orderly n) (calls : List Call) : Orderly (n.run calls) := by
  induction calls generalizing n with
  | nil => exact orderly
  | cons call calls ih => exact ih (orderly.step call)

end

end BandChain
