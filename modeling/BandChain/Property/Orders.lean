import BandChain.Listener.Run
import BandChain.Store.Shuffled

/-! The order in which the cells are destroyed makes no difference to a node. -/

namespace BandChain

open Exec (Sim Lockstep)

variable {K : Type} [DecidableEq K] {L : Layout K} {orders : Nat → StorageMap L → List Member}

abbrev Stores (w : Shuffled L orders) (s : StorageMap L) : Prop := w.store = s

omit [DecidableEq K] in
theorem stores_through {α : Type} (x : Exec Stop (StorageMap L) α) : Lockstep (@Stores K L orders) (Shuffled.through x) x := by
  rintro w _ rfl
  rw [Shuffled.through]
  rcases ran : x w.store with ⟨e | a, s⟩
  · exact .error rfl
  · exact .ok rfl

theorem stores_serves : Storage.Serves (fun _ => @Stores K L orders) where
  load k := stores_through (StorageMap.load k)
  assign _ val := stores_through (StorageMap.assign _ val)
  forget := id
  read _ := stores_through (StorageMap.read _)

theorem stores_create_account (user : Ident) (vk : VerifyKey) :
    Lockstep (@Stores K L orders) (Storage.create (.account user) (Account.init user vk))
      (Storage.create (.account user) (Account.init user vk)) :=
  Lockstep.bind (stores_through (StorageMap.place (.account user))) fun _ =>
    lockstep_account_init stores_serves.toWrites (List.mem_singleton.mpr rfl) vk

theorem stores_create_token (user baseToken : Ident) (curve : Curve) :
    Lockstep (@Stores K L orders) (Storage.create (.token user) (Token.init user baseToken curve))
      (Storage.create (.token user) (Token.init user baseToken curve)) :=
  Lockstep.bind (stores_through (StorageMap.place (.token user))) fun _ =>
    lockstep_token_init stores_serves.toWrites (List.mem_singleton.mpr rfl) baseToken curve

theorem stores_handle (blk : BlockMsg) (hdr : HeaderMsg) (msg : Msg) :
    Lockstep (@Stores K L orders) (PrimaryListener.handle blk hdr msg) (PrimaryListener.handle blk hdr msg) :=
  sim_handle_of stores_serves (fun _ _ => id) stores_create_account stores_create_token blk hdr msg

theorem stores_validate (mode : PrimaryMode) (hdr : HeaderMsg) (data : ByteString) :
    Lockstep (@Stores K L orders) (PrimaryListener.validateTransaction mode hdr data)
      (PrimaryListener.validateTransaction mode hdr data) := by
  have account : Lockstep (@Stores K L orders) (do Storage.load (.account hdr.user); Account.setNonce hdr.user hdr.nonce)
      (do Storage.load (.account hdr.user); Account.setNonce hdr.user hdr.nonce) :=
    Lockstep.bind (stores_through (StorageMap.load _)) fun _ =>
      lockstep_setNonce (stores_through (StorageMap.read (.nonce hdr.user)))
        (fun val => stores_through (StorageMap.assign (.nonce hdr.user) val)) hdr.nonce
  cases mode with
  | check => exact Lockstep.bind (stores_through StorageMap.switchToCheck) fun _ => account
  | apply => exact Lockstep.bind (stores_through StorageMap.switchToApply) fun _ => account

/-! ### Flushes and resets -/

/-- What a flush writes does not depend on the order. -/
structure Flushable (s : StorageMap L) : Prop where
  well : s.WellFormed
  separate : s.overlay.Separate
  selected : s.overlay.Selected

omit [DecidableEq K] in
theorem Linked.flushable {s : StorageMap L} {o : Overlay L} (linked : Linked s o) (separate : o.Separate) (selected : o.Selected) :
    Flushable s := by
  obtain ⟨rfl, well⟩ := linked
  exact ⟨well, separate, selected⟩

theorem stores_flush (orderly : ∀ n s, (orders n s).Perm s.members) :
    Sim (fun (w : Shuffled L orders) s => Stores w s ∧ Flushable s) Storage.flush Storage.flush
      (fun _ w s => Stores w s ∧ s.isFlushing = false) (fun _ _ _ => False) := by
  rintro w _ ⟨rfl, ready⟩
  have both := sim_flush w.store w.store.overlay ⟨⟨rfl, ready.well⟩, ready.separate, ready.selected⟩
  have same := StorageMap.flushIn_perm (orderly w.clears w.store) ready.well ready.separate ready.selected
  change Exec.InStep _ _ (Shuffled.clearing StorageMap.flushIn w) (StorageMap.flush w.store)
  rw [Shuffled.clearing, same]
  rcases ran : StorageMap.flush w.store with ⟨e | _, s⟩ <;> rw [ran] at both
  · obtain ⟨_, _, wrong⟩ := both.of_error
    exact wrong.elim
  · obtain ⟨_, _, settled⟩ := both.of_ok
    exact .ok ⟨rfl, settled.well.idle⟩

theorem stores_reset : Sim (fun (w : Shuffled L orders) s => Stores w s ∧ s.isFlushing = false) Storage.reset Storage.reset
    (fun _ w s => Stores w s ∧ s.isFlushing = false) (fun _ _ _ => False) := by
  rintro w _ ⟨rfl, idle⟩
  have ran : StorageMap.reset w.store = (.ok (), { w.store with cache := ∅ }) :=
    (Exec.bind_of_ok (Exec.get_apply _)).trans (Exec.bind_of_ok (StorageMap.destroyAll_silent (Or.inl idle)))
  change Exec.InStep _ _ (Shuffled.clearing StorageMap.clearIn w) (StorageMap.reset w.store)
  rw [Shuffled.clearing, StorageMap.clearIn_idle idle, ran]
  exact .ok ⟨rfl, idle⟩

/-! ### The primary listener and the node -/

section

variable {P : StorageMap L → Prop} {α : Type} {Q : α → StorageMap L → Prop} {E : Stop → StorageMap L → Prop}

omit [DecidableEq K] in
theorem stores_keeps {x : Exec Stop (Shuffled L orders) α} {y : Exec Stop (StorageMap L) α}
    (same : Sim (fun w s => Stores w s ∧ P s) x y (fun _ => Stores) (fun _ => Stores)) (kept : Exec.Triple P y Q E) :
    Sim (fun w s => Stores w s ∧ P s) x y (fun a w s => Stores w s ∧ Q a s) (fun e w s => Stores w s ∧ E e s) :=
  (same.and_right kept).mono (fun _ _ related => ⟨related, related.2⟩) (fun _ _ _ => id) (fun _ _ _ => id)

omit [DecidableEq K] in
theorem stores_weaken {x : Exec Stop (Shuffled L orders) α} {y : Exec Stop (StorageMap L) α} (same : Lockstep Stores x y) :
    Sim (fun w s => Stores w s ∧ P s) x y (fun _ => Stores) (fun _ => Stores) :=
  same.mono (fun _ _ => And.left) (fun _ _ _ => id) (fun _ _ _ => id)

end

variable (orderly : ∀ n s, (orders n s).Perm s.members)

include orderly

theorem stores_process (blk : BlockMsg) (hdr : HeaderMsg) (msg : Msg) :
    Sim (fun (w : Shuffled L orders) s => Stores w s ∧ ∃ o, Between s o ∧ o.NonceOnly) (PrimaryListener.process blk hdr msg)
      (PrimaryListener.process blk hdr msg) (fun _ => Stores) (fun _ => Stores) := by
  have switch : Exec.Triple (fun o : Overlay L => o.NonceOnly) (Overlay.switchTo .apply)
      (fun _ o => o.NonceOnly ∧ o.currentCache = some .apply) (fun _ _ => False) := fun _ only => ⟨only, rfl⟩
  have switched : Sim (fun (s : StorageMap L) o => Between s o ∧ o.NonceOnly) StorageMap.switchToApply (Overlay.switchTo .apply)
      (fun _ s o => Live .apply True [] s o ∧ o.NonceOnly ∧ o.currentCache = some .apply) (fun _ _ _ => False) :=
    (sim_switchToApply.and_right switch).mono (fun _ _ ⟨between, only⟩ => ⟨⟨between.toLinked, fun _ => between.clean⟩, only⟩)
      (fun _ _ _ => id) (fun _ _ _ h => h.1)
  have handled := ((sim_handle (L := L) blk hdr msg).and_right (handle_separate blk)).triple
  have body : Sim (fun (w : Shuffled L orders) s => Stores w s ∧ ∃ o, Between s o ∧ o.NonceOnly)
      (do Storage.switchToApply; let result ← PrimaryListener.handle blk hdr msg; Storage.flush; return result)
      (do Storage.switchToApply; let result ← PrimaryListener.handle blk hdr msg; Storage.flush; return result)
      (fun _ w s => Stores w s ∧ s.isFlushing = false) (fun _ w s => Stores w s ∧ s.isFlushing = false) := by
    apply Sim.bind ((stores_keeps (stores_weaken (stores_through StorageMap.switchToApply)) switched.triple).mono (fun _ _ => id)
      (fun _ _ _ => id) (fun _ _ _ ⟨_, _, wrong⟩ => wrong.elim))
    intro _
    apply Sim.bind ((stores_keeps (stores_weaken (stores_handle blk hdr msg)) handled).mono (fun _ _ => id) (fun _ _ _ => id)
      (fun _ _ _ ⟨same, _, live, _⟩ => ⟨same, live.toLinked.well.idle⟩))
    intro result
    apply Sim.bind ((stores_flush orderly).mono (fun _ _ ⟨same, _, live, separate, current⟩ =>
      ⟨same, live.toLinked.flushable separate fun _ => by rw [current]; simp⟩) (fun _ _ _ => id) (fun _ _ _ => False.elim))
    exact fun _ => Sim.pure fun _ _ => id
  exact (sim_scopeExit body (stores_reset.mono (fun _ _ => id) (fun _ _ _ => id) (fun _ _ _ => False.elim))).mono (fun _ _ => id)
    (fun _ _ _ => And.left) (fun _ _ _ after => after.2.elim And.left And.left)

open ListenerManager (genesis)

omit [DecidableEq K] orderly in
/-- No balance waits for a flush. -/
def Unbalanced (o : Overlay L) : Prop := (∀ t u, o.pending (.balances t u) = none) ∧ o.currentCache = some .apply

/-- A store that is seeded, and its overlay. -/
def Seeding (s : StorageMap L) (o : Overlay L) : Prop := Live .apply True [] s o ∧ Unbalanced o

omit orderly

theorem keeps_unbalanced_place (k : ContractKey) : Exec.Keeps (Unbalanced (L := L)) (Storage.place k) :=
  Overlay.keeps_place fun o before _ =>
    ⟨fun t u => by rw [Overlay.mark_pending]; exact before.1 t u, (Overlay.mark_currentCache o k).trans before.2⟩

omit [DecidableEq K] in
theorem unbalanced_write {o : Overlay L} {c : Cell} (v : c.Val) (other : ∀ t u, c ≠ .balances t u) (before : Unbalanced o) :
    Unbalanced (o.write c v) :=
  ⟨fun t u => (Overlay.write_pending_ne _ _ _ (other t u).symm).trans (before.1 t u), before.2⟩

theorem seeding_account (a : Ident) (vk : VerifyKey) (plain : (47 : UInt8) ∉ a.rawdata) :
    Lockstep (Seeding (L := L)) (Storage.create (.account a) (Account.init a vk)) (Storage.create (.account a) (Account.init a vk)) := by
  have alone (c : Cell) : L.key (.data c) ≠ L.key (.contract (.account a)) := by
    intro same
    cases L.key_plain (k := .account a) plain same
  refine (lockstep_create alone (lockstep_account_init live_writes List.mem_cons_self vk)).and_right ?_
  refine (keeps_unbalanced_place (.account a)).bind fun _ => keeps_account_init vk fun o c v touched _ => unbalanced_write v fun t u same => ?_
  subst same
  simp at touched

theorem seeding_token (t base : Ident) (curve : Curve) (plain : (47 : UInt8) ∉ t.rawdata) :
    Lockstep (Seeding (L := L)) (Storage.create (.token t) (Token.init t base curve)) (Storage.create (.token t) (Token.init t base curve)) := by
  have alone (c : Cell) : L.key (.data c) ≠ L.key (.contract (.token t)) := by
    intro same
    cases L.key_plain (k := .token t) plain same
  refine (lockstep_create alone (lockstep_token_init live_writes List.mem_cons_self base curve)).and_right ?_
  refine (keeps_unbalanced_place (.token t)).bind fun _ => keeps_token_init base curve fun o c v touched _ => unbalanced_write v fun t u same => ?_
  subst same
  simp at touched

include orderly

theorem stores_init :
    Sim (fun (w : Shuffled L orders) s => Stores w s ∧ ∃ o, Parallel s o) (PrimaryListener.init genesis) (PrimaryListener.init genesis)
      (fun _ => Stores) (fun _ => Stores) := by
  have switch : Exec.Triple (Overlay.Steady (L := L)) (Overlay.switchTo .apply) (fun _ => Unbalanced) (fun _ _ => False) := by
    intro o steady
    refine ⟨fun t u => ?_, rfl⟩
    by_contra present
    obtain ⟨_, wrong⟩ := steady.nonceOnly _ present
    cases wrong
  have switched : Sim (Parallel (L := L)) StorageMap.switchToApply (Overlay.switchTo .apply) (fun _ => Seeding) (fun _ _ _ => False) :=
    (sim_switchToApply.and_right switch).mono (fun _ _ ⟨between, steady⟩ => ⟨⟨between.toLinked, fun _ => between.clean⟩, steady⟩)
      (fun _ _ _ => id) (fun _ _ _ h => h.1)
  have account := (seeding_account (L := L) genesis.account genesis.verifyKey root_plain).triple
  have token := (seeding_token (L := L) genesis.token genesis.token Curve.linear band_plain).triple
  apply Sim.bind ((stores_keeps (stores_weaken (stores_through StorageMap.switchToApply)) switched.triple).mono (fun _ _ => id)
    (fun _ _ _ => id) (fun _ _ _ => And.left))
  intro _
  apply Sim.bind ((stores_keeps (stores_weaken (stores_create_account _ _)) account).mono (fun _ _ => id)
    (fun _ _ _ => id) (fun _ _ _ => And.left))
  intro _
  apply Sim.bind ((stores_keeps (stores_weaken (stores_create_token _ _ _)) token).mono (fun _ _ => id)
    (fun _ _ _ => id) (fun _ _ _ => And.left))
  intro _
  refine (stores_flush orderly).mono ?_ (fun _ _ _ => And.left) (fun _ _ _ => False.elim)
  rintro w s ⟨same, o, live, nothing, current⟩
  exact ⟨same, live.toLinked.flushable (separate_of_no_balances nothing) fun _ => by rw [current]; simp⟩

omit orderly in
theorem stores_begin (blk : BlockMsg) :
    Sim (fun (w : Shuffled L orders) s => Stores w s ∧ ∃ o, Parallel s o) (PrimaryListener.begin blk) (PrimaryListener.begin blk)
      (fun _ => Stores) (fun _ => Stores) :=
  stores_reset.mono (fun _ _ ⟨same, _, related⟩ => ⟨same, related.1.toLinked.well.idle⟩) (fun _ _ _ => And.left) (fun _ _ _ => False.elim)

theorem stores_commit (blk : BlockMsg) :
    Sim (fun (w : Shuffled L orders) s => Stores w s ∧ ∃ o, Parallel s o) (PrimaryListener.commit blk) (PrimaryListener.commit blk)
      (fun _ => Stores) (fun _ => Stores) :=
  (stores_flush orderly).mono
    (fun _ _ ⟨same, _, between, steady⟩ => ⟨same, between.toLinked.flushable steady.nonceOnly.separate steady.selected⟩)
    (fun _ _ _ => And.left) (fun _ _ _ => False.elim)

theorem stores_agrees :
    PrimaryListener.Agrees (fun (w : Shuffled L orders) s => Stores w s ∧ ∃ o, Parallel s o)
      (fun w s => Stores w s ∧ ∃ o, Parallel s o ∧ o.Founded) (fun e w s => Stores w s ∧ ∃ o, Survived e s o) where
  survives _ _ _ related := ⟨related.1, related.2.imp fun _ parallel _ => parallel⟩
  weaker _ _ related := ⟨related.1, related.2.imp fun _ => And.left⟩
  init := stores_keeps (stores_init orderly) parallel_init.triple
  begin blk := stores_keeps (stores_begin blk) (parallel_begin blk).triple
  validate mode hdr data := stores_keeps (stores_weaken (stores_validate mode hdr data)) (parallel_validate mode hdr data).triple
  process blk hdr msg := stores_keeps ((stores_process orderly blk hdr msg).mono
    (fun _ _ ⟨same, o, parallel, _⟩ => ⟨same, o, parallel.1, parallel.2.nonceOnly⟩) (fun _ _ _ => id) (fun _ _ _ => id))
    (parallel_process blk hdr msg).triple
  commit blk := stores_keeps (stores_commit orderly blk) (parallel_commit blk).triple

/-- Two nodes that differ in the order of destruction. -/
structure Reordered (n : Node (Shuffled L orders)) (m : Node (StorageMap L)) : Prop where
  down : n.down = m.down
  outcomes : n.history.map Record.outcome = m.history.map Record.outcome
  stores : Alike Stores n.manager m.manager
  live : m.down = false → Alike (fun w s => Stores w s ∧ ∃ o, Parallel s o) n.manager m.manager

variable [Sha256]

theorem Reordered.step {n : Node (Shuffled L orders)} {m : Node (StorageMap L)} (reordered : Reordered n m) (call : Call) :
    Reordered (n.step call) (m.step call) := by
  by_cases down : m.down = true
  · rw [Node.step, if_pos (reordered.down.trans down), Node.step, if_pos down]
    exact reordered
  · have up : m.down = false := by simpa using down
    have both := sim_call_exec (stores_agrees orderly) call _ _ (reordered.live up)
    rw [Node.step_up up, Node.step_up (reordered.down.trans up)]
    rcases left : call.exec n.manager with ⟨e | answer, n'⟩ <;> rw [left] at both
    · obtain ⟨m', right, after⟩ := both.of_error
      rw [right]
      refine ⟨rfl, ?_, after.mono fun _ _ => And.left, ?_⟩
      · rw [List.map_append, List.map_append, reordered.outcomes]
        rfl
      · intro alive
        apply after.mono
        rintro w s ⟨same, o, survived⟩
        exact ⟨same, o, survived fun crash => crashed_eq_false.mp alive (congrArg _ crash)⟩
    · obtain ⟨m', right, after⟩ := both.of_ok
      rw [right]
      refine ⟨rfl, ?_, after.mono fun _ _ => And.left, fun _ => after⟩
      rw [List.map_append, List.map_append, reordered.outcomes]
      rfl

theorem Reordered.run {n : Node (Shuffled L orders)} {m : Node (StorageMap L)} (reordered : Reordered n m) (calls : List Call) :
    Reordered (n.run calls) (m.run calls) := by
  induction calls generalizing n m with
  | nil => exact reordered
  | cons call calls ih => exact ih (reordered.step orderly call)

/-- Whatever the order in which the cells are destroyed, and however it changes from one flush or reset to the next, a node answers every
call of a run alike, tells its listeners the same and holds the same store. -/
theorem orders_immaterial (calls : List Call) :
    ((Node.start ({} : Shuffled L orders)).run calls).history.map Record.outcome =
        ((Node.start ({} : StorageMap L)).run calls).history.map Record.outcome ∧
      ((Node.start ({} : Shuffled L orders)).run calls).manager.notices = ((Node.start ({} : StorageMap L)).run calls).manager.notices ∧
      ((Node.start ({} : Shuffled L orders)).run calls).manager.primary.map Shuffled.store =
        ((Node.start ({} : StorageMap L)).run calls).manager.primary := by
  have parallel : ∃ o : Overlay L, Parallel ({} : StorageMap L) o :=
    ⟨{}, (settled_of_empty rfl rfl rfl rfl rfl fun _ => rfl).between, Overlay.steady_empty⟩
  have start : Reordered (Node.start ({} : Shuffled L orders)) (Node.start ({} : StorageMap L)) :=
    ⟨rfl, rfl, ⟨rfl, rfl, Or.inr ⟨_, _, rfl, rfl, rfl⟩⟩, fun _ => ⟨rfl, rfl, Or.inr ⟨_, _, rfl, rfl, rfl, parallel⟩⟩⟩
  have reordered := start.run orderly calls
  refine ⟨reordered.outcomes, reordered.stores.notices, ?_⟩
  rcases reordered.stores.primary with ⟨none, none'⟩ | ⟨w, s, held, held', same⟩
  · rw [none, none']
    rfl
  · rw [held, held', ← same]
    rfl

omit [DecidableEq K] orderly [Sha256] in
/-- One node destroys the cells from the first to the last, the other from the last to the first. -/
theorem orders_immaterial_reversed :
    let _ := zeroSha256
    let calls : List Call := [.initChain [], applyMsg genesis.account 1 (.mintToken ⟨genesis.token, 7⟩)]
    let reversed (_ : Nat) (s : StorageMap Layout.text) : List Member := s.members.reverse
    ((Node.start ({} : Shuffled Layout.text reversed)).run calls).history.map Record.outcome =
        ((Node.start ({} : StorageMap Layout.text)).run calls).history.map Record.outcome ∧
      ((Node.start ({} : Shuffled Layout.text reversed)).run calls).manager.notices =
        ((Node.start ({} : StorageMap Layout.text)).run calls).manager.notices ∧
      ((Node.start ({} : Shuffled Layout.text reversed)).run calls).manager.primary.map Shuffled.store =
        ((Node.start ({} : StorageMap Layout.text)).run calls).manager.primary := by
  intro _ calls reversed
  generalize calls = calls
  exact orders_immaterial (fun _ s => List.reverse_perm s.members) calls

end BandChain
