import BandChain.Listener.Lockstep
import BandChain.Listener.Steady
import BandChain.Store.Refine

/-! The listeners run in step on a `StorageMap` and on its overlay. -/

namespace BandChain

variable {K : Type} [DecidableEq K] {L : Layout K} {mode : PrimaryMode} {clean : Prop} {ks : List ContractKey}

open Exec (Sim Lockstep)

/-! ### The operations -/

omit [DecidableEq K] in
theorem live_forget {k : ContractKey} {s : StorageMap L} {o : Overlay L} (live : Live mode clean (k :: ks) s o) :
    Live mode clean ks s o :=
  live.mono id fun _ => List.mem_cons_of_mem _

theorem live_writes : Storage.Writes (fun ks => Live (L := L) .apply clean ks) where
  load k := sim_load (readable_apply k)
  assign := sim_assign
  forget := live_forget

theorem live_serves : Storage.Serves (fun ks => Live (L := L) .apply True ks) where
  toWrites := live_writes
  read {_ c} loaded := sim_read loaded (readable_apply c.contract)

/-! ### The primary listener -/

/-- Creating a contract. Its marker may be the key of a cell that was read, and then the copy of that
cell is not clean any more. -/
theorem sim_create {clean' : Prop} {k : ContractKey} {initS : Exec Stop (StorageMap L) Unit}
    {initO : Exec Stop (Overlay L) Unit} (kept : clean' → clean ∧ ∀ c, L.key (.data c) ≠ L.key (.contract k))
    (init : Lockstep (Live .apply clean' (k :: ks)) initS initO) :
    Sim (Live (L := L) .apply clean ks) (Storage.create k initS) (Storage.create k initO)
      (fun _ => Live .apply clean' ks) (fun _ => Live .apply clean' ks) := by
  apply Sim.bind ((sim_place kept).mono (fun _ _ => id) (fun _ _ _ => id)
    (fun _ _ _ live => live.mono (fun wanted => (kept wanted).1) fun _ => id))
  intro _
  exact init.mono (fun _ _ => id) (fun _ _ _ live => live.mono id fun _ => List.mem_cons_of_mem _)
    (fun _ _ _ live => live.mono id fun _ => List.mem_cons_of_mem _)

theorem lockstep_create {k : ContractKey} {initS : Exec Stop (StorageMap L) Unit} {initO : Exec Stop (Overlay L) Unit}
    (alone : ∀ c, L.key (.data c) ≠ L.key (.contract k)) (init : Lockstep (Live .apply True (k :: ks)) initS initO) :
    Lockstep (Live (L := L) .apply True ks) (Storage.create k initS) (Storage.create k initO) :=
  sim_create (fun kept => ⟨kept, alone⟩) init

theorem sim_handle (blk : BlockMsg) (hdr : HeaderMsg) (msg : Msg) :
    Sim (Live (L := L) .apply True []) (PrimaryListener.handle blk hdr msg) (PrimaryListener.handle blk hdr msg)
      (fun _ => Live .apply False []) (fun _ => Live .apply False []) :=
  sim_handle_of live_serves (fun _ _ live => live.mono False.elim fun _ => id)
    (fun _ vk => (sim_create False.elim (lockstep_account_init live_writes List.mem_cons_self vk)).mono (fun _ _ => id)
      (fun _ _ _ => id) (fun _ _ _ => id))
    (fun _ baseToken curve => (sim_create False.elim (lockstep_token_init live_writes List.mem_cons_self baseToken curve)).mono
      (fun _ _ => id) (fun _ _ _ => id) (fun _ _ _ => id)) blk hdr msg

/-- The relation between two calls. -/
structure Between (s : StorageMap L) (o : Overlay L) : Prop extends Linked s o where
  clean : s.Clean

omit [DecidableEq K] in
theorem Settled.between {s : StorageMap L} {o : Overlay L} (h : Settled s o) : Between s o := ⟨h.toLinked, h.clean⟩

theorem sim_process (blk : BlockMsg) (hdr : HeaderMsg) (msg : Msg) :
    Sim (fun (s : StorageMap L) o => Between s o ∧ o.NonceOnly) (PrimaryListener.process blk hdr msg)
      (PrimaryListener.process blk hdr msg) (fun _ => Settled) (fun e s o => e ≠ .crash → Settled s o) := by
  refine (sim_scopeExit (Q := Linked) ?_ (sim_reset.mono (fun _ _ => id) (fun _ _ _ => id) (fun _ _ _ => False.elim))).mono
    (fun _ _ => id) (fun _ _ _ => id) (fun _ _ _ => And.left)
  have switch : Exec.Triple (fun o : Overlay L => o.NonceOnly) (Overlay.switchTo .apply)
      (fun _ o => o.NonceOnly ∧ o.currentCache = some .apply) (fun _ _ => True) := fun _ only => ⟨only, rfl⟩
  apply Sim.bind ((sim_switchToApply.and_right switch).mono
    (fun _ _ ⟨between, only⟩ => ⟨⟨between.toLinked, fun _ => between.clean⟩, only⟩) (fun _ _ _ => id) (fun _ _ _ h => h.1.elim))
  intro _
  apply Sim.bind (((sim_handle blk hdr msg).and_right (handle_separate blk)).mono (fun _ _ => id) (fun _ _ _ => id)
    (fun _ _ _ h => h.1.toLinked))
  intro res
  apply Sim.bind (sim_flush.mono (fun _ _ ⟨live, separate, current⟩ => ⟨live.toLinked, separate, fun _ => by rw [current]; simp⟩)
    (fun _ _ _ settled => settled.toLinked) (fun _ _ _ => False.elim))
  intro _
  exact Sim.pure fun _ _ => id

theorem sim_validate (mode : PrimaryMode) (hdr : HeaderMsg) (data : ByteString) :
    Sim (fun (s : StorageMap L) o => Between s o ∧ o.Agree) (PrimaryListener.validateTransaction mode hdr data)
      (PrimaryListener.validateTransaction mode hdr data) (fun _ => Between) (fun _ => Between) := by
  have ended : ∀ {ks : List ContractKey} {s : StorageMap L} {o : Overlay L}, Live mode True ks s o → Between s o :=
    fun live => ⟨live.toLinked, live.clean trivial⟩
  have account : Sim (Live (L := L) mode True [])
      (do Storage.load (.account hdr.user); Account.setNonce hdr.user hdr.nonce)
      (do Storage.load (.account hdr.user); Account.setNonce hdr.user hdr.nonce) (fun _ => Between) (fun _ => Between) := by
    apply Sim.bind ((sim_load (readable_account mode hdr.user)).mono (fun _ _ => id) (fun _ _ _ => id) (fun _ _ _ => ended))
    intro _
    have set : Lockstep (Live (L := L) mode True [.account hdr.user]) (Account.setNonce hdr.user hdr.nonce)
        (Account.setNonce hdr.user hdr.nonce) := by
      apply lockstep_setNonce
      · exact sim_read (c := .nonce hdr.user) List.mem_cons_self (readable_account mode hdr.user)
      · exact sim_assign (c := .nonce hdr.user) List.mem_cons_self
    exact set.mono (fun _ _ => id) (fun _ _ _ => ended) (fun _ _ _ => ended)
  cases mode with
  | check =>
    apply Sim.bind (sim_switchToCheck.mono (fun _ _ ⟨between, agree⟩ => ⟨⟨between.toLinked, fun _ => between.clean⟩, agree⟩)
      (fun _ _ _ => id) (fun _ _ _ => False.elim))
    exact fun _ => account
  | apply =>
    apply Sim.bind (sim_switchToApply.mono (fun _ _ ⟨between, _⟩ => ⟨between.toLinked, fun _ => between.clean⟩)
      (fun _ _ _ => id) (fun _ _ _ => False.elim))
    exact fun _ => account

open ListenerManager (genesis)

theorem sim_init :
    Sim (fun (s : StorageMap L) o => Between s o ∧ o.Steady) (PrimaryListener.init genesis) (PrimaryListener.init genesis)
      (fun _ => Settled) (fun _ => Between) := by
  -- Neither name has a separator, so the two markers are nobody else's keys and the copies stay clean.
  have account : Lockstep (Live (L := L) .apply True []) (Storage.create root (Account.init genesis.account genesis.verifyKey))
      (Storage.create root (Account.init genesis.account genesis.verifyKey)) :=
    lockstep_create (fun c same => by cases L.key_plain root_plain same) (lockstep_account_init live_writes List.mem_cons_self _)
  have token : Lockstep (Live (L := L) .apply True [])
      (Storage.create (.token genesis.token) (Token.init genesis.token genesis.token Curve.linear))
      (Storage.create (.token genesis.token) (Token.init genesis.token genesis.token Curve.linear)) :=
    lockstep_create (fun c same => by cases L.key_plain band_plain same) (lockstep_token_init live_writes List.mem_cons_self _ _)
  let Unbalanced (o : Overlay L) : Prop := (∀ t w, o.pending (.balances t w) = none) ∧ o.currentCache = some .apply
  have marked : ∀ k (o : Overlay L), Unbalanced o → o.hasContract k = .ok false → Unbalanced (o.mark k) := by
    rintro k o ⟨nothing, current⟩ _
    exact ⟨fun t w => by rw [Overlay.mark_pending]; exact nothing t w, (Overlay.mark_currentCache o k).trans current⟩
  have written : ∀ (o : Overlay L) c v, (∀ t w, c ≠ .balances t w) → Unbalanced o → Unbalanced (o.write c v) := by
    rintro o c v other ⟨nothing, current⟩
    exact ⟨fun t w => (Overlay.write_pending_ne _ _ _ (other t w).symm).trans (nothing t w), current⟩
  have accountKept : Exec.Keeps Unbalanced (Storage.create root (Account.init genesis.account genesis.verifyKey)) :=
    (Overlay.keeps_place fun o => marked root o).bind fun _ => keeps_account_init genesis.verifyKey
      fun o c v touched _ => written o c v fun t w same => by subst same; simp at touched
  have tokenKept : Exec.Keeps Unbalanced
      (Storage.create (.token genesis.token) (Token.init genesis.token genesis.token Curve.linear)) :=
    (Overlay.keeps_place fun o => marked _ o).bind fun _ => keeps_token_init genesis.token Curve.linear
      fun o c v touched _ => written o c v fun t w same => by subst same; simp at touched
  have ended : ∀ {s : StorageMap L} {o : Overlay L}, Live .apply True [] s o → Between s o :=
    fun live => ⟨live.toLinked, live.clean trivial⟩
  have switch : Exec.Triple (Overlay.Steady (L := L)) (Overlay.switchTo .apply) (fun _ => Unbalanced) (fun _ _ => False) := by
    intro o steady
    refine ⟨fun t w => ?_, rfl⟩
    by_contra present
    obtain ⟨_, wrong⟩ := steady.nonceOnly _ present
    cases wrong
  apply Sim.bind ((sim_switchToApply.and_right switch).mono
    (fun _ _ ⟨between, steady⟩ => ⟨⟨between.toLinked, fun _ => between.clean⟩, steady⟩) (fun _ _ _ => id) (fun _ _ _ h => h.1.elim))
  intro _
  apply Sim.bind ((account.and_right accountKept).mono (fun _ _ => id) (fun _ _ _ => id) (fun _ _ _ h => ended h.1))
  intro _
  apply Sim.bind ((token.and_right tokenKept).mono (fun _ _ => id) (fun _ _ _ => id) (fun _ _ _ h => ended h.1))
  intro _
  exact sim_flush.mono (fun _ _ ⟨live, nothing, current⟩ => ⟨live.toLinked, separate_of_no_balances nothing, fun _ => by rw [current]; simp⟩)
    (fun _ _ _ => id) (fun _ _ _ => False.elim)

theorem sim_begin (blk : BlockMsg) :
    Sim (Linked (L := L)) (PrimaryListener.begin blk) (PrimaryListener.begin blk) (fun _ => Settled) (fun _ _ _ => False) :=
  sim_reset

theorem sim_commit (blk : BlockMsg) :
    Sim (fun (s : StorageMap L) o => Between s o ∧ o.Steady) (PrimaryListener.commit blk) (PrimaryListener.commit blk)
      (fun _ => Settled) (fun _ _ _ => False) :=
  sim_flush.mono (fun _ _ ⟨between, steady⟩ => ⟨between.toLinked, steady.nonceOnly.separate, steady.selected⟩)
    (fun _ _ _ => id) (fun _ _ _ => id)

/-! ### The manager and the node -/

/-- The relation between the storages of two nodes, from call to call. -/
def Parallel (s : StorageMap L) (o : Overlay L) : Prop := Between s o ∧ o.Steady

abbrev Survived (e : Stop) (s : StorageMap L) (o : Overlay L) : Prop := e ≠ .crash → Parallel s o

theorem parallel_init :
    Sim (Parallel (L := L)) (PrimaryListener.init genesis) (PrimaryListener.init genesis) (fun _ => Parallel) Survived := by
  have steady : Exec.Triple (Overlay.Steady (L := L)) (PrimaryListener.init genesis) (fun _ => Overlay.Steady)
      (fun _ => Overlay.Steady) := by
    intro o before
    rcases ran : PrimaryListener.init genesis o with ⟨e | _, o'⟩ <;> exact steady_init before ran
  exact (sim_init.and_right steady).mono (fun _ _ related => ⟨related, related.2⟩)
    (fun _ _ _ ⟨settled, after⟩ => ⟨settled.between, after⟩) (fun _ _ _ related _ => related)

theorem parallel_validate (mode : PrimaryMode) (hdr : HeaderMsg) (data : ByteString) :
    Sim (Parallel (L := L)) (PrimaryListener.validateTransaction mode hdr data)
      (PrimaryListener.validateTransaction mode hdr data) (fun _ s o => Parallel s o ∧ o.Founded) Survived := by
  have steady : Exec.Triple (Overlay.Steady (L := L)) (PrimaryListener.validateTransaction mode hdr data)
      (fun _ o => o.Steady ∧ o.Founded) (fun _ => Overlay.Steady) := by
    intro o before
    rcases ran : PrimaryListener.validateTransaction mode hdr data o with ⟨e | _, o'⟩
    · exact (steady_validate before ran).1
    · exact (steady_validate before ran).imp id fun founded => founded rfl
  exact ((sim_validate mode hdr data).and_right steady).mono (fun _ _ related => ⟨⟨related.1, related.2.agree⟩, related.2⟩)
    (fun _ _ _ ⟨between, after, founded⟩ => ⟨⟨between, after⟩, founded⟩) (fun _ _ _ related _ => related)

theorem parallel_process (blk : BlockMsg) (hdr : HeaderMsg) (msg : Msg) :
    Sim (fun (s : StorageMap L) o => Parallel s o ∧ o.Founded) (PrimaryListener.process blk hdr msg)
      (PrimaryListener.process blk hdr msg) (fun _ => Parallel) Survived := by
  have steady : Exec.Triple (fun o : Overlay L => o.Steady ∧ o.Founded) (PrimaryListener.process blk hdr msg)
      (fun _ => Overlay.Steady) (fun e o => e ≠ .crash → o.Steady) := by
    rintro o ⟨before, founded⟩
    rcases ran : PrimaryListener.process blk hdr msg o with ⟨(e | _) | _, o'⟩
    · exact fun _ => (steady_process_throw before founded ran).1
    · exact fun alive => (alive rfl).elim
    · exact (steady_process_ok before founded ran).1
  exact ((sim_process blk hdr msg).and_right steady).mono
    (fun _ _ ⟨related, founded⟩ => ⟨⟨related.1, related.2.nonceOnly⟩, related.2, founded⟩)
    (fun _ _ _ ⟨settled, after⟩ => ⟨settled.between, after⟩)
    (fun _ _ _ ⟨settled, after⟩ alive => ⟨(settled alive).between, after alive⟩)

theorem parallel_begin (blk : BlockMsg) :
    Sim (Parallel (L := L)) (PrimaryListener.begin blk) (PrimaryListener.begin blk) (fun _ => Parallel) Survived := by
  have steady : Exec.Triple (Overlay.Steady (L := L)) (PrimaryListener.begin blk) (fun _ => Overlay.Steady)
      (fun _ => Overlay.Steady) := fun _ before => before.dropped
  exact ((sim_begin blk).and_right steady).mono (fun _ _ related => ⟨related.1.toLinked, related.2⟩)
    (fun _ _ _ ⟨settled, after⟩ => ⟨settled.between, after⟩) (fun _ _ _ wrong => wrong.1.elim)

theorem parallel_commit (blk : BlockMsg) :
    Sim (Parallel (L := L)) (PrimaryListener.commit blk) (PrimaryListener.commit blk) (fun _ => Parallel) Survived := by
  have steady : Exec.Triple (Overlay.Steady (L := L)) (PrimaryListener.commit blk) (fun _ => Overlay.Steady)
      (fun _ => Overlay.Steady) := by
    intro o before
    rw [PrimaryListener.commit_apply blk before.selected]
    exact before.committed
  exact ((sim_commit blk).and_right steady).mono (fun _ _ related => ⟨related, related.2⟩)
    (fun _ _ _ ⟨settled, after⟩ => ⟨settled.between, after⟩) (fun _ _ _ wrong => wrong.1.elim)

theorem parallel_agrees :
    PrimaryListener.Agrees (Parallel (L := L)) (fun s o => Parallel s o ∧ o.Founded) Survived where
  survives _ _ _ related _ := related
  weaker _ _ := And.left
  init := parallel_init
  begin := parallel_begin
  validate := parallel_validate
  process := parallel_process
  commit := parallel_commit

theorem sim_call [Sha256] (call : Call) :
    Sim (Alike (Parallel (L := L))) call.exec call.exec (fun _ => Alike Parallel)
      (fun e m n => e ≠ .crash → Alike Parallel m n) :=
  (sim_call_exec parallel_agrees call).mono (fun _ _ => id) (fun _ _ _ => id)
    (fun _ _ _ after alive => after.mono fun _ _ related => related alive)

end BandChain
