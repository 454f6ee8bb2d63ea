import BandChain.Property.Blocks

/-! A manager without a primary listener, given the results of a live one, tells its listeners the same. -/

namespace BandChain

theorem Msg.type_of_read {type : MsgType} {msg : Msg} {buf rest : ByteString} (decoded : Msg.read type buf = (.ok msg, rest)) :
    msg.type = type := by
  cases type <;> obtain ⟨_, _, _, made⟩ := Exec.bind_ok decoded <;> cases made <;> rfl

section

variable {σ : Type} [Storage σ]

theorem PrimaryListener.type_of_handle {blk : BlockMsg} {hdr : HeaderMsg} {msg : Msg} {res : Response} {s s' : σ}
    (ran : handle blk hdr msg s = (.ok res, s')) : res.type = msg.type := by
  cases msg with
  | createAccount msg | createToken msg =>
    obtain ⟨_, _, _, answered⟩ := Exec.bind_ok ran
    cases answered
    rfl
  | mintToken msg | transferToken msg =>
    obtain ⟨_, _, _, ran⟩ := Exec.bind_ok ran
    obtain ⟨_, _, _, answered⟩ := Exec.bind_ok ran
    cases answered
    rfl
  | buyToken msg | sellToken msg =>
    obtain ⟨_, _, _, ran⟩ := Exec.bind_ok ran
    obtain ⟨_, _, _, ran⟩ := Exec.bind_ok ran
    obtain ⟨_, _, _, answered⟩ := Exec.bind_ok ran
    cases answered
    rfl
  | addWikiEdge msg | removeWikiEdge msg =>
    cases ran
    rfl

end

/-! ### The run without a primary listener -/

/-- What a manager without a primary listener is given for a call that was made: the calls of the blocks, and
of the other calls those that succeeded, a transaction with its result. -/
def Record.replayed {σ : Type} (r : Record σ) : Option Call :=
  match r.call, r.outcome with
  | .beginBlock timestamp proposer, _ => some (.beginBlock timestamp proposer)
  | .commitBlock, _ => some .commitBlock
  | .applyTransaction raw _, .ok result => some (.applyTransaction raw result)
  | .initChain raw, .ok _ => some (.initChain raw)
  | .checkTransaction _, _ => none
  | .applyTransaction _ _, .error _ => none
  | .initChain _, .error _ => none

section

variable {σ : Type} [Storage σ] [Sha256]

/-- The calls of a history, made to a manager without a primary listener. -/
def replay (history : List (Record σ)) : Node σ :=
  Node.run { manager := { primary := none } } (history.filterMap Record.replayed)

theorem replay_concat (history : List (Record σ)) (r : Record σ) :
    replay (history ++ [r]) = match r.replayed with
      | none => replay history
      | some call => (replay history).step call := by
  unfold replay Node.run
  rw [List.filterMap_append, List.foldl_append, List.filterMap_cons]
  cases r.replayed <;> rfl

omit [Storage σ] [Sha256] in
theorem onPrimary_none {α : Type} {m : ListenerManager σ} (historical : m.primary = none) (call : Exec Stop σ α)
    (otherwise : Except Stop α) : ListenerManager.onPrimary call otherwise m = (otherwise, m) := by
  rw [ListenerManager.onPrimary, historical]

def ListenerManager.told (m : ListenerManager σ) (notices : List Notice) (block : BlockMsg) : ListenerManager σ :=
  { m with notices := m.notices ++ notices, block }

/-- A call that fails tells the listeners nothing. -/
theorem untold_of_error {call : Call} {m m' : ListenerManager σ} {e : Stop} (failed : call.exec m = (.error e, m')) :
    m'.notices = m.notices := by
  let Untold (m' : ListenerManager σ) : Prop := m'.notices = m.notices
  let Ends {α : Type} (x : Exec Stop (ListenerManager σ) α) : Prop := Exec.Triple Untold x (fun _ _ => True) (fun _ => Untold)
  have asked {α : Type} (call : Exec Stop σ α) (otherwise : Except Stop α) :
      Exec.Keeps Untold (ListenerManager.onPrimary call otherwise) := by
    intro m' untold
    unfold ListenerManager.onPrimary
    rcases m'.primary with _ | s
    · cases otherwise <;> exact untold
    · rcases ran : (call s).1 with _ | _ <;> simp only [ran] <;> exact untold
  have answered {α : Type} (x : Except Stop α) : Exec.Keeps Untold (Exec.ofExcept x) := .ofExcept x
  have returning {α : Type} (a : α) : Exec.Triple (fun _ => True) (pure a : Exec Stop (ListenerManager σ) α) (fun _ _ => True)
      (fun _ => Untold) := Exec.Triple.pure fun _ => id
  have telling (notice : Notice) : Ends (ListenerManager.notify notice) := fun _ _ => trivial
  have looking {α : Type} {f : ListenerManager σ → Exec Stop (ListenerManager σ) α} (rest : ∀ m, Ends (f m)) :
      Ends (Exec.get >>= f) := fun m' => rest m' m'
  have ended : Ends call.exec := by
    cases call with
    | initChain raw =>
      exact Exec.Triple.bind (Exec.Triple.bind (asked _ _) fun _ => telling _) fun _ => returning []
    | beginBlock timestamp proposer =>
      have opened : Exec.Keeps Untold
          (Exec.modify fun m => { m with block := { timestamp, height := 0 + 1 } } : Exec Stop (ListenerManager σ) Unit) :=
        fun _ untold => untold
      exact Exec.Triple.bind (Exec.Triple.bind opened fun _ => Exec.Triple.bind (asked _ _) fun _ => telling _)
        fun _ => returning []
    | checkTransaction raw =>
      refine Exec.Triple.bind (looking fun m' => ?_) fun _ => returning []
      split
      · exact Exec.Triple.stop fun _ => id
      · exact Exec.Triple.bind (answered _) fun _ => (asked _ _).weaken fun _ _ _ => trivial
    | applyTransaction raw rawResult =>
      refine Exec.Triple.bind (answered _) fun _ => Exec.Triple.bind (answered _) fun _ =>
        Exec.Triple.bind (asked _ _) fun _ => Exec.Triple.bind (answered _) fun _ => looking fun m' => ?_
      exact Exec.Triple.bind (asked _ _) fun _ => Exec.Triple.bind (telling _) fun _ => returning _
    | commitBlock =>
      refine Exec.Triple.bind (looking fun m' => ?_) fun _ => returning []
      exact Exec.Triple.bind (asked _ _) fun _ => telling _
  exact ended.of_error rfl failed

end

section

variable {K : Type} [DecidableEq K] [Sha256] {L : Layout K}

/-- A manager without a primary listener does for a replayed call what the live one did. -/
theorem Effect.replay {σ : Type} [Storage σ] {m : ListenerManager σ} {o o' : Overlay L} {call : Call} {outcome : Except Stop ByteString}
    {notices : List Notice} {block : BlockMsg} {τ : Type} (after : ListenerManager τ) (historical : m.primary = none) (selected : o.Selected)
    (effect : Effect o m.block call outcome o' notices block) :
    match (Record.mk call outcome after).replayed with
    | none => notices = [] ∧ block = m.block
    | some call => (∃ result, outcome = .ok result) ∧ call.exec m = (outcome, m.told notices block) := by
  have passed {α : Type} (m' : ListenerManager σ) (same : m'.primary = m.primary) (call : Exec Stop σ α) (otherwise : Except Stop α) :=
    onPrimary_none (same.trans historical) call otherwise
  cases effect with
  | genesis _ => exact ⟨⟨_, rfl⟩, Exec.bind_of_ok (Exec.bind_of_ok (passed _ rfl _ _))⟩
  | genesisRefused _ => exact ⟨rfl, rfl⟩
  | @begun timestamp proposer =>
    have opened := passed { m with block := { timestamp, height := 0 + 1 } } rfl
      (PrimaryListener.begin { timestamp, height := 0 + 1 }) (.ok ())
    exact ⟨⟨_, rfl⟩, Exec.bind_of_ok (Exec.bind_of_ok opened)⟩
  | unchecked _ => exact ⟨rfl, rfl⟩
  | checked _ _ => exact ⟨rfl, rfl⟩
  | malformed _ => exact ⟨rfl, rfl⟩
  | refused _ _ => exact ⟨rfl, rfl⟩
  | undecoded _ _ _ => exact ⟨rfl, rfl⟩
  | failed _ _ _ _ => exact ⟨rfl, rfl⟩
  | @applied raw rawResult o₁ o' hdr data type buf msg rest res parsed validated decoded ran =>
    obtain ⟨buf', header, typed⟩ := parseTx_ok parsed
    obtain ⟨_, handled, _⟩ := PrimaryListener.process_ok ran
    have types : res.type = type :=
      (PrimaryListener.type_of_handle handled).trans (Msg.type_of_read (ListenerManager.consume_ok decoded))
    have result : (Response.read type res.write).1 = .ok res := by
      have read := Response.read_write res []
      rw [List.append_nil, types] at read
      rw [read]
    have answered {α : Type} {x r : Except Stop α} (same : x = r) : Exec.ofExcept x m = (r, m) := by
      rw [same, Exec.ofExcept_apply]
    refine ⟨⟨_, rfl⟩, ?_⟩
    refine (Exec.bind_of_ok (answered header)).trans ((Exec.bind_of_ok (answered typed)).trans ((Exec.bind_of_ok (passed _ rfl _ _)).trans
      ((Exec.bind_of_ok (answered decoded)).trans ((Exec.bind_of_ok (Exec.get_apply m)).trans (Exec.bind_of_ok ?_)))))
    exact (passed _ rfl _ _).trans (by rw [result])
  | @committed outcome o' ran =>
    obtain ⟨rfl, rfl⟩ := Prod.mk.inj ((PrimaryListener.commit_apply m.block selected).symm.trans ran)
    exact ⟨⟨_, rfl⟩, Exec.bind_of_ok ((Exec.bind_of_ok (Exec.get_apply m)).trans (Exec.bind_of_ok (passed _ rfl _ _)))⟩

/-- A live node, and the replay of its history. -/
structure Replays {σ τ : Type} (m : Node σ) (r : Node τ) : Prop where
  up : r.down = false
  historical : r.manager.primary = none
  notices : r.manager.notices = m.manager.notices
  block : r.manager.block = m.manager.block
  outcomes : r.history.map Record.outcome = (m.history.filter fun record => record.replayed.isSome).map Record.outcome

theorem Replays.step {m : Node (StorageMap L)} {n : Node (Overlay L)} (twin : Twin m n) (sound : Sound n)
    (h : Replays m (replay m.history)) (call : Call) : Replays (m.step call) (replay (m.step call).history) := by
  by_cases down : m.down = true
  · rwa [Node.step, if_pos down]
  have up : m.down = false := by simpa using down
  obtain ⟨o, primary, steady⟩ := sound (twin.down.symm.trans up)
  obtain ⟨outcome, o', notices, block, effect⟩ := exists_effect o n.manager.block call
  have same := twin.sameRecord up call
  rw [effect.exec primary] at same
  have alike := twin.manager up
  rw [← alike.block, ← h.block] at effect
  have replayed := effect.replay (call.exec m.manager).2 h.historical steady.selected
  obtain rfl : (call.exec m.manager).1 = outcome := same.outcome
  rw [Node.step_up up]
  simp only [replay_concat]
  -- What a call that left the process running told, and the block in the field after it.
  have after (alive : (call.exec m.manager).1 ≠ .error .crash) :
      (call.exec m.manager).2.notices = m.manager.notices ++ notices ∧ (call.exec m.manager).2.block = block := by
    have both := same.after alive
    exact ⟨both.notices.trans (congrArg (· ++ notices) alike.notices.symm), both.block⟩
  cases given : (Record.mk call (call.exec m.manager).1 (call.exec m.manager).2).replayed with
  | none =>
    rw [given] at replayed
    obtain ⟨rfl, rfl⟩ := replayed
    have kept : (call.exec m.manager).2.notices = m.manager.notices ∧ (call.exec m.manager).2.block = m.manager.block := by
      rcases ran : (call.exec m.manager).1 with e | bytes
      · refine ⟨untold_of_error (Prod.ext ran rfl), ?_⟩
        cases call with
        | beginBlock _ _ => cases given
        | initChain _ | checkTransaction _ | applyTransaction _ _ | commitBlock => exact (telling_exec _ m.manager).1
      · obtain ⟨told, block⟩ := after (by rw [ran]; intro gone; cases gone)
        exact ⟨told.trans (List.append_nil _), block.trans h.block⟩
    exact ⟨h.up, h.historical, h.notices.trans kept.1.symm, h.block.trans kept.2.symm, by
      simp only [h.outcomes, List.filter_append, given, List.filter_cons]
      simp⟩
  | some call' =>
    rw [given] at replayed
    obtain ⟨⟨result, succeeded⟩, ran⟩ := replayed
    obtain ⟨told, block⟩ := after (by rw [succeeded]; intro gone; cases gone)
    simp only [Node.step_up h.up, ran]
    refine ⟨?_, h.historical, ?_, ?_, ?_⟩
    · rw [succeeded]
      rfl
    · exact (congrArg (· ++ notices) h.notices).trans told.symm
    · exact block.symm
    · simp [h.outcomes, given]

theorem Replays.run {m : Node (StorageMap L)} {n : Node (Overlay L)} (twin : Twin m n) (sound : Sound n)
    (h : Replays m (replay m.history)) (calls : List Call) :
    Replays (m.run calls) (replay (m.run calls).history) := by
  induction calls generalizing m n with
  | nil => exact h
  | cons call calls ih => exact ih (twin.step call) (sound.step call) (h.step twin sound call)

/-- Replayed without a primary listener, a run tells the other listeners the same, and the calls return the same. -/
theorem replay_agrees (calls : List Call) :
    let live := (Node.start ({} : StorageMap L)).run calls
    (replay live.history).manager.notices = live.manager.notices ∧
      (replay live.history).history.map Record.outcome =
        (live.history.filter fun r => r.replayed.isSome).map Record.outcome :=
  have replays := Replays.run (L := L) twin_start sound_start ⟨rfl, rfl, rfl, rfl, rfl⟩ calls
  ⟨replays.notices, replays.outcomes⟩

end

end BandChain
