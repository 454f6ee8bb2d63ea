import BandChain.Listener.Run

/-! A handler that fails, and what it leaves behind. -/

namespace BandChain

variable {K : Type} [DecidableEq K] {L : Layout K}

/-- If the handler throws, `applyCache` is what it was and no contract stays in the cache. -/
def Atomic (s : StorageMap L) (blk : BlockMsg) (hdr : HeaderMsg) (msg : Msg) : Prop :=
  ∀ e s', PrimaryListener.process blk hdr msg s = (.error (.throw e), s') →
    s'.applyCache = s.applyCache ∧ s'.cache = ∅

/-- In every state a run reaches, a failing message leaves nothing behind, unless it is a `CreateToken`
of a new identifier over a base that does not load: that one leaves the marker of the token. -/
theorem process_atomic_iff [Sha256] {s : StorageMap L} (reached : Reached s) (blk : BlockMsg) (hdr : HeaderMsg)
    (msg : Msg) : Atomic s blk hdr msg ↔ ¬ msg.Leaks L s.applyCache := by
  obtain ⟨o, ⟨between, steady⟩⟩ := reached.parallel
  have maps : s.applyCache = o.applyCache := congrArg Overlay.applyCache between.overlay
  have both := sim_process blk hdr msg s o ⟨between, steady.nonceOnly⟩
  have current := Overlay.on_currentCache o .apply
  constructor
  · intro atomic leaks
    rw [maps] at leaks
    obtain ⟨e, o₁, handled⟩ := handle_of_leaks blk hdr current leaks
    have thrown : PrimaryListener.process blk hdr msg o = (.error (.throw e), o₁.dropped) := by
      rw [PrimaryListener.process_eq, handled]
    rw [thrown] at both
    obtain ⟨s', ran, settled⟩ := both.to_error
    have same := (atomic e s' ran).1
    obtain ⟨_, _, ⟨kept, _⟩ | ⟨_, t, _, clear, marked⟩⟩ := handle_throw current handled
    · exact kept leaks
    · have after : s'.applyCache = o₁.applyCache := congrArg Overlay.applyCache (settled (by simp)).overlay
      have held := congrFun (after.trans marked) (L.key (.contract (.token t)))
      rw [Function.update_self, same, maps] at held
      exact absurd (held.symm.trans clear) (by simp)
  · intro sound e s' ran
    rw [ran] at both
    obtain ⟨o', thrown, settled⟩ := both.of_error
    obtain ⟨o₁, handled, rfl⟩ := PrimaryListener.process_throw thrown
    have after := settled (by simp)
    obtain ⟨_, _, ⟨_, kept⟩ | ⟨leaks, _⟩⟩ := handle_throw current handled
    · exact ⟨(congrArg Overlay.applyCache after.overlay).trans (kept.trans maps.symm), after.cache⟩
    · exact (sound (maps ▸ leaks)).elim

/-- The header of `user` with a nonce, without signature. -/
def plainHeader (user : Ident) (nonce : UInt64) : HeaderMsg := { user, sig := default, nonce, hash := default }

/-- A transfer of Band to nobody, by a user who has none. -/
def unfunded : Msg := .transferToken ⟨ListenerManager.genesis.token, default, 1⟩

/-- After genesis it throws, and leaves nothing behind. -/
theorem process_atomic_iff_unfunded :
    (PrimaryListener.process {} (plainHeader ListenerManager.genesis.account 1) unfunded (textStorage [.initChain []])).1 =
        .error (.throw (.error .transferInsufficient)) ∧
      Atomic (textStorage [.initChain []]) {} (plainHeader ListenerManager.genesis.account 1) unfunded := by
  let _ := zeroSha256
  have reached : Reached (textStorage [.initChain []]) := textStorage_reached (by decide)
  refine ⟨by decide +kernel, (process_atomic_iff reached {} (plainHeader ListenerManager.genesis.account 1) unfunded).mpr ?_⟩
  exact id

/-- A token `x` over a base `nope` that does not exist. -/
def orphan : Msg := .createToken ⟨⟨ascii "nope", by decide +kernel⟩, ⟨ascii "x", by decide +kernel⟩, Curve.linear⟩

/-- After genesis, its failure stores the marker `t/x`. -/
theorem orphan_not_atomic :
    @Reached _ Layout.text _ zeroSha256 (textStorage [.initChain []]) ∧
      ¬ Atomic (textStorage [.initChain []]) {} (plainHeader ListenerManager.genesis.account 1) orphan := by
  refine ⟨textStorage_reached (by decide), fun atomic => ?_⟩
  have stored := congrFun (atomic _ _ rfl).1 (ascii "t/x")
  exact absurd stored (by decide)

end BandChain
