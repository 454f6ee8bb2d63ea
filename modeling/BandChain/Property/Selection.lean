import BandChain.Listener.Run
import BandChain.Store.Watched

/-! No call of a node reaches for a map while none is selected. -/

namespace BandChain

open Exec (Sim Lockstep)

def ListenerManager.map {σ τ : Type} (f : σ → τ) (m : ListenerManager σ) : ListenerManager τ :=
  { primary := m.primary.map f, notices := m.notices, block := m.block }

def Node.map {σ τ : Type} (f : σ → τ) (n : Node σ) : Node τ where
  manager := n.manager.map f
  history := n.history.map fun r => ⟨r.call, r.outcome, r.after.map f⟩
  down := n.down

variable {K : Type} {L : Layout K}

/-- A map is selected whenever the storage cache holds a contract: now, and in every moment noted, when the operation also was
sound. -/
structure Watched.Safe [DecidableEq K] (w : Watched L) : Prop where
  selected : w.store.Selected
  moments : ∀ moment ∈ w.moments, moment.2.Selected ∧ moment.1.Sound moment.2

variable [DecidableEq K]

/-- A store and the same store watched. -/
structure Watches (P : StorageMap L → Prop) (w : Watched L) (s : StorageMap L) : Prop where
  store : w.store = s
  safe : w.Safe
  holds : P s

abbrev Chosen (s : StorageMap L) : Prop := s.currentCache ≠ none

theorem Watches.forget {P : StorageMap L → Prop} {w : Watched L} {s : StorageMap L} (h : Watches P w s) :
    Watches (fun _ => True) w s :=
  ⟨h.store, h.safe, trivial⟩

theorem sim_note {α : Type} {P Q : StorageMap L → Prop} {operation : Operation} {x : Exec Stop (StorageMap L) α}
    (sound : ∀ s, s.Selected → P s → operation.Sound s) (kept : ∀ s, s.Selected → P s → (x s).2.Selected ∧ Q (x s).2) :
    Sim (Watches P) (Watched.note operation x) x (fun _ => Watches Q) (fun _ => Watches Q) := by
  rintro w s ⟨rfl, safe, holds⟩
  obtain ⟨selected, holds'⟩ := kept w.store safe.selected holds
  have after : Watches Q ⟨(x w.store).2, w.moments ++ [(operation, w.store)]⟩ (x w.store).2 := by
    refine ⟨rfl, ⟨selected, fun moment member => ?_⟩, holds'⟩
    rcases List.mem_append.mp member with earlier | now
    · exact safe.moments moment earlier
    · obtain rfl := List.mem_singleton.mp now
      exact ⟨safe.selected, sound w.store safe.selected holds⟩
  rw [Watched.note]
  rcases ran : x w.store with ⟨e | a, s'⟩ <;> rw [ran] at after
  · exact .error after
  · exact .ok after

/-- With a map selected, the operations of a handler leave it selected. -/
theorem sim_chosen {α : Type} {operation : Operation} {x : Exec Stop (StorageMap L) α}
    (sound : ∀ s : StorageMap L, Chosen s → operation.Sound s) (kept : ∀ s, Chosen s → (x s).2.currentCache = s.currentCache) :
    Lockstep (Watches Chosen) (Watched.note operation x) x :=
  sim_note (fun s _ => sound s) fun s _ chosen =>
    have current : Chosen (x s).2 := by
      rw [Chosen, kept s chosen]
      exact chosen
    ⟨fun _ => current, current⟩

theorem chosen_of_calm {α : Type} {operation : Operation} {x : Exec Stop (StorageMap L) α}
    (calm : ∀ mode, StorageMap.Calm mode x) (sound : ∀ s, StorageMap.Unfailing x s → operation.Sound s) :
    Lockstep (Watches Chosen) (Watched.note operation x) x := by
  apply sim_chosen
  · intro s chosen
    obtain ⟨mode, current⟩ := Option.ne_none_iff_exists'.mp chosen
    exact sound s ((calm mode).unfailing current)
  · intro s chosen
    obtain ⟨mode, current⟩ := Option.ne_none_iff_exists'.mp chosen
    rw [current]
    exact (calm mode).current current

theorem watched_serves : Storage.Serves (fun _ => Watches (L := L) Chosen) where
  load k := chosen_of_calm (fun _ => StorageMap.calm_load k) fun _ => id
  assign {_ c} _ val := sim_chosen (fun _ _ => trivial) fun s _ => StorageMap.assign_currentCache c val s
  forget := id
  read {_ c} _ := by
    apply sim_chosen
    · intro s chosen
      obtain ⟨mode, current⟩ := Option.ne_none_iff_exists'.mp chosen
      exact (StorageMap.calm_get mode (.data c)).unfailing current
    · exact fun s _ => StorageMap.read_currentCache c s

theorem watched_create (k : ContractKey) {x : Exec Stop (Watched L) Unit} {y : Exec Stop (StorageMap L) Unit}
    (init : Lockstep (Watches Chosen) x y) : Lockstep (Watches Chosen) (Storage.create k x) (Storage.create k y) :=
  Lockstep.bind (chosen_of_calm (fun _ => StorageMap.calm_place k) fun _ => id) fun _ => init

theorem watched_create_account (user : Ident) (vk : VerifyKey) :
    Lockstep (Watches (L := L) Chosen) (Storage.create (.account user) (Account.init user vk))
      (Storage.create (.account user) (Account.init user vk)) :=
  watched_create (.account user) (lockstep_account_init watched_serves.toWrites (List.mem_singleton.mpr rfl) vk)

theorem watched_create_token (user baseToken : Ident) (curve : Curve) :
    Lockstep (Watches (L := L) Chosen) (Storage.create (.token user) (Token.init user baseToken curve))
      (Storage.create (.token user) (Token.init user baseToken curve)) :=
  watched_create (.token user) (lockstep_token_init watched_serves.toWrites (List.mem_singleton.mpr rfl) baseToken curve)

/-! ### The primary listener and the node -/

theorem watched_switch (mode : PrimaryMode) (operation : Operation) (sound : ∀ s : StorageMap L, operation.Sound s) :
    Sim (Watches (L := L) fun _ => True) (Watched.note operation (Exec.modify fun s => { s with currentCache := some mode }))
      (Exec.modify fun s => { s with currentCache := some mode }) (fun _ => Watches Chosen) (fun _ => Watches Chosen) :=
  sim_note (fun s _ _ => sound s) fun _ _ _ => ⟨fun _ => Option.some_ne_none mode, Option.some_ne_none mode⟩

theorem watched_reset {P : StorageMap L → Prop} :
    Sim (Watches P) Storage.reset Storage.reset (fun _ => Watches fun _ => True) (fun _ => Watches fun _ => True) :=
  sim_note (fun _ selected _ => StorageMap.destroyable selected)
    fun _ selected _ => ⟨StorageMap.keeps_reset.after selected, trivial⟩

theorem watched_flush {P : StorageMap L → Prop} :
    Sim (Watches P) Storage.flush Storage.flush (fun _ => Watches fun _ => True) (fun _ => Watches fun _ => True) :=
  sim_note (fun _ selected _ => StorageMap.destroyable selected)
    fun _ selected _ => ⟨StorageMap.keeps_flush.after selected, trivial⟩

theorem watched_process (blk : BlockMsg) (hdr : HeaderMsg) (msg : Msg) :
    Lockstep (Watches (L := L) fun _ => True) (PrimaryListener.process blk hdr msg) (PrimaryListener.process blk hdr msg) := by
  have handled : Lockstep (Watches (L := L) Chosen) (PrimaryListener.handle blk hdr msg) (PrimaryListener.handle blk hdr msg) :=
    sim_handle_of watched_serves (fun _ _ => id) watched_create_account watched_create_token blk hdr msg
  have body : Sim (Watches (L := L) fun _ => True)
      (do Storage.switchToApply; let result ← PrimaryListener.handle blk hdr msg; Storage.flush; return result)
      (do Storage.switchToApply; let result ← PrimaryListener.handle blk hdr msg; Storage.flush; return result)
      (fun _ => Watches fun _ => True) (fun _ => Watches fun _ => True) := by
    apply Sim.bind ((watched_switch .apply .switchToApply fun _ => trivial).mono (fun _ _ => id) (fun _ _ _ => id) (fun _ _ _ => Watches.forget))
    intro _
    apply Sim.bind (handled.mono (fun _ _ => id) (fun _ _ _ => id) (fun _ _ _ => Watches.forget))
    intro result
    apply watched_flush.bind
    exact fun _ => Sim.pure fun _ _ => id
  exact (sim_scopeExit body watched_reset).mono (fun _ _ => id) (fun _ _ _ => id) (fun _ _ _ after => after.2.elim id id)

theorem watched_validate (mode : PrimaryMode) (hdr : HeaderMsg) (data : ByteString) :
    Lockstep (Watches (L := L) fun _ => True) (PrimaryListener.validateTransaction mode hdr data)
      (PrimaryListener.validateTransaction mode hdr data) := by
  have account : Lockstep (Watches (L := L) Chosen) (do Storage.load (.account hdr.user); Account.setNonce hdr.user hdr.nonce)
      (do Storage.load (.account hdr.user); Account.setNonce hdr.user hdr.nonce) :=
    watched_serves.with_load (l := []) (lockstep_setNonce
      (watched_serves.read (c := .nonce hdr.user) (List.mem_singleton.mpr rfl))
      (watched_serves.assign (c := .nonce hdr.user) (List.mem_singleton.mpr rfl)) hdr.nonce)
  have chosen : ∀ {x : Exec Stop (Watched L) Unit} {y : Exec Stop (StorageMap L) Unit},
      Sim (Watches fun _ => True) x y (fun _ => Watches Chosen) (fun _ => Watches Chosen) →
      Lockstep (Watches fun _ => True) (do x; Storage.load (.account hdr.user); Account.setNonce hdr.user hdr.nonce)
        (do y; Storage.load (.account hdr.user); Account.setNonce hdr.user hdr.nonce) := fun switch =>
    (switch.bind fun _ => account).mono (fun _ _ => id) (fun _ _ _ => Watches.forget) (fun _ _ _ => Watches.forget)
  cases mode with
  | check => exact chosen (watched_switch .check .switchToCheck fun _ => trivial)
  | apply => exact chosen (watched_switch .apply .switchToApply fun _ => trivial)

theorem watched_init (genesis : GenesisMsg) :
    Lockstep (Watches (L := L) fun _ => True) (PrimaryListener.init genesis) (PrimaryListener.init genesis) := by
  apply Sim.bind ((watched_switch .apply .switchToApply fun _ => trivial).mono (fun _ _ => id) (fun _ _ _ => id) (fun _ _ _ => Watches.forget))
  intro _
  apply Sim.bind ((watched_create_account genesis.account genesis.verifyKey).mono (fun _ _ => id) (fun _ _ _ => id)
    (fun _ _ _ => Watches.forget))
  intro _
  apply Sim.bind ((watched_create_token genesis.token genesis.token Curve.linear).mono (fun _ _ => id) (fun _ _ _ => id)
    (fun _ _ _ => Watches.forget))
  exact fun _ => watched_flush

theorem watched_agrees :
    PrimaryListener.Agrees (Watches (L := L) fun _ => True) (Watches fun _ => True) (fun _ => Watches fun _ => True) where
  survives _ _ _ := id
  weaker _ _ := id
  init := watched_init _
  begin _ := watched_reset
  validate := watched_validate
  process := watched_process
  commit _ := watched_flush

omit [DecidableEq K] in
theorem ListenerManager.map_of_alike {R : Watched L → StorageMap L → Prop} (same : ∀ w s, R w s → w.store = s)
    {m : ListenerManager (Watched L)} {n : ListenerManager (StorageMap L)} (alike : Alike R m n) : m.map Watched.store = n := by
  obtain ⟨p, notices, block⟩ := m
  obtain ⟨q, _, _⟩ := n
  obtain ⟨rfl, rfl, ⟨rfl, rfl⟩ | ⟨w, s, rfl, rfl, related⟩⟩ := alike
  · rfl
  · rw [← same w s related]
    rfl

/-- No call takes the primary listener away. -/
theorem keeps_primary {σ : Type} [Storage σ] [Sha256] (call : Call) :
    Exec.Keeps (fun m : ListenerManager σ => m.primary ≠ none) call.exec := by
  have asked : ∀ {α : Type} (x : Exec Stop σ α) (otherwise : Except Stop α),
      Exec.Keeps (fun m => m.primary ≠ none) (ListenerManager.onPrimary x otherwise) := by
    rintro α x otherwise ⟨_ | s, notices, block⟩ present
    · exact (present rfl).elim
    · rcases ran : x s with ⟨e | a, s'⟩ <;> simp [ListenerManager.onPrimary, ran]
  have told : ∀ notice, Exec.Keeps (fun m : ListenerManager σ => m.primary ≠ none) (ListenerManager.notify notice) :=
    fun _ _ => id
  have look : Exec.Keeps (fun m : ListenerManager σ => m.primary ≠ none) (Exec.get : Exec Stop (ListenerManager σ) _) := fun _ => id
  cases call with
  | initChain raw => exact ((asked _ _).bind fun _ => told _).bind fun _ => Exec.Keeps.pure _
  | beginBlock timestamp proposer =>
    have block : Exec.Keeps (fun m : ListenerManager σ => m.primary ≠ none)
        (Exec.modify fun m => { m with block := { timestamp, height := 0 + 1 } } : Exec Stop (ListenerManager σ) Unit) := fun _ => id
    exact (block.bind fun _ => (asked _ _).bind fun _ => told _).bind fun _ => Exec.Keeps.pure _
  | checkTransaction raw =>
    refine Exec.Keeps.bind (look.bind fun m => ?_) fun _ => Exec.Keeps.pure _
    split
    · exact Exec.Keeps.stop _
    · exact (Exec.Keeps.ofExcept _).bind fun _ => asked _ _
  | applyTransaction raw rawResult =>
    apply (Exec.Keeps.ofExcept _).bind
    rintro ⟨hdr, data, buf⟩
    apply (Exec.Keeps.ofExcept _).bind
    rintro ⟨msgType, buf⟩
    apply (asked _ _).bind
    intro _
    apply (Exec.Keeps.ofExcept _).bind
    rintro ⟨msg, _⟩
    apply look.bind
    intro m
    apply (asked _ _).bind
    exact fun res => (told _).bind fun _ => Exec.Keeps.pure _
  | commitBlock =>
    exact (look.bind fun m => (asked _ _).bind fun _ => told _).bind fun _ => Exec.Keeps.pure _

/-- A node whose storage is watched, and the node it watches. -/
structure WatchedNode (n : Node (Watched L)) (m : Node (StorageMap L)) : Prop where
  same : n.map Watched.store = m
  manager : Alike (Watches fun _ => True) n.manager m.manager
  primary : n.manager.primary ≠ none

variable [Sha256]

theorem WatchedNode.step {n : Node (Watched L)} {m : Node (StorageMap L)} (watched : WatchedNode n m) (call : Call) :
    WatchedNode (n.step call) (m.step call) := by
  by_cases down : n.down = true
  · have other : m.down = true := by rw [← watched.same]; exact down
    rw [Node.step, if_pos down, Node.step, if_pos other]
    exact watched
  · have up : n.down = false := by simpa using down
    have up' : m.down = false := by rw [← watched.same]; exact up
    obtain ⟨answer, alike⟩ := (sim_call_exec watched_agrees call _ _ watched.manager).alike
    have after := ListenerManager.map_of_alike (fun _ _ => Watches.store) alike
    have history : n.history.map (fun r => ⟨r.call, r.outcome, r.after.map Watched.store⟩) = m.history :=
      congrArg Node.history watched.same
    rw [Node.step_up up, Node.step_up up']
    refine ⟨?_, alike, (keeps_primary call).after watched.primary⟩
    simp only [Node.map, List.map_append, List.map_cons, List.map_nil, history, after, answer]

theorem WatchedNode.run {n : Node (Watched L)} {m : Node (StorageMap L)} (watched : WatchedNode n m) (calls : List Call) :
    WatchedNode (n.run calls) (m.run calls) := by
  induction calls generalizing n m with
  | nil => exact watched
  | cons call calls ih => exact ih (watched.step call)

/-- Whatever the calls, and whether or not they throw: whenever the storage cache holds a contract a map is selected, in every
operation as well as between the calls, and no access to a map comes to a `Failure`. -/
theorem selected_throughout (calls : List Call) :
    ∃ w : Watched L, ((Node.start ({} : Watched L)).run calls).manager.primary = some w ∧ w.Safe ∧
      ((Node.start ({} : Watched L)).run calls).map Watched.store = (Node.start ({} : StorageMap L)).run calls := by
  have start : WatchedNode (Node.start ({} : Watched L)) (Node.start ({} : StorageMap L)) :=
    { same := rfl
      manager := ⟨rfl, rfl, Or.inr ⟨_, _, rfl, rfl, rfl, ⟨fun held => (held rfl).elim, nofun⟩, trivial⟩⟩
      primary := Option.some_ne_none _ }
  have watched := start.run calls
  obtain ⟨w, primary⟩ := Option.ne_none_iff_exists'.mp watched.primary
  refine ⟨w, primary, ?_, watched.same⟩
  rcases watched.manager.primary with ⟨missing, _⟩ | ⟨w', s, present, _, related⟩
  · exact (watched.primary missing).elim
  · obtain rfl := Option.some.inj (primary.symm.trans present)
    exact related.safe

end BandChain
