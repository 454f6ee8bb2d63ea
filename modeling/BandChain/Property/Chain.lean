import BandChain.Listener.Books
import BandChain.Listener.Chain
import BandChain.Net.Civil

/-! A node does what the chain does, as long as the calls name only identifiers without a separator. -/

namespace BandChain

variable {K : Type} [DecidableEq K] {L : Layout K} {o o' : Overlay L} {c : Chain} {w : World} {blk : BlockMsg} {hdr : HeaderMsg} {msg : Msg}

theorem World.takeName_of_taken {t : Ident} (taken : w.tokens t = true) : w.takeName t = w := by
  have same : Function.update w.tokens t true = w.tokens := by rw [← taken, Function.update_eq_self]
  rw [World.takeName, same]

/-- A handler that throws leaves what the refusal leaves. -/
theorem handle_throw_shows {e : Exn} (current : o.currentCache = some .apply) (view : o.settled.View w) (plain : msg.Plain)
    (ran : PrimaryListener.handle blk hdr msg o = (.error (.throw e), o')) : o'.settled.View (w.refuse msg) := by
  have contract (k : ContractKey) : o.settled.hasContract k = o.hasContract k := by
    rw [Overlay.settled_hasContract, Overlay.hasContract_of_current current]
    rfl
  cases msg with
  | createToken m =>
    have shown := view.tokens m.createdToken plain.1
    rw [contract] at shown
    rcases handle_createToken_throw ran with ⟨rfl, present⟩ | ⟨rfl, absent, _⟩
    · have taken : w.tokens m.createdToken = true := by
        by_contra free
        rw [Bool.of_not_eq_true free] at shown
        exact present shown
      rwa [World.refuse, World.takeName_of_taken taken]
    · have same : (o.mark (.token m.createdToken)).settled = o.settled.mark (.token m.createdToken) := by
        rw [Overlay.mark_apply current, Overlay.mark_apply rfl]
        rfl
      rw [World.refuse, same]
      exact view.takeName rfl plain.1
  | createAccount _ | mintToken _ | transferToken _ | buyToken _ | sellToken _ | addWikiEdge _ | removeWikiEdge _ =>
    obtain ⟨_, _, ⟨_, same⟩ | ⟨leaks, _⟩⟩ := handle_throw current ran
    · exact Overlay.settled_congr same.symm view
    · exact leaks.elim

namespace Follows

variable (follows : Follows o c) (steady : o.Steady)

include follows steady

theorem validate {mode : PrimaryMode} {data : ByteString} {outcome : Except Stop Unit} (plain : hdr.user.Plain)
    (ran : PrimaryListener.validateTransaction mode hdr data o = (outcome, o')) :
    (outcome = .ok () ↔ c.admits hdr = true) ∧ Follows o' (c.validate mode hdr) := by
  have found : (o.on mode).hasContract (.account hdr.user) = .ok (c.world.accounts hdr.user).isSome := by
    rw [← follows.stored.accounts hdr.user plain, Overlay.settled_hasContract, Overlay.hasContract_of_current (Overlay.on_currentCache o mode)]
    cases mode with
    | apply => rfl
    | check => exact congrArg (Overlay.existence _) (steady.agree (x := .contract (.account hdr.user)) rfl)
  have value : (o.on mode).value (.nonce hdr.user) = (o.on .apply).value (.nonce hdr.user) := by
    rcases pending : o.pending (.nonce hdr.user) with _ | n
    · rw [Overlay.value_of_clear (Overlay.on_currentCache o mode) pending, Overlay.value_of_clear (Overlay.on_currentCache o .apply) pending]
      cases mode with
      | apply => rfl
      | check => exact congrArg (fun held => do copy (← decoded (α := UInt256) held)) (steady.agree (x := .data (.nonce hdr.user)) rfl)
    · rw [Overlay.value_of_pending (o := o.on mode) pending rfl, Overlay.value_of_pending (o := o.on .apply) pending rfl]
  have reads := follows.nonce plain
  rw [← value] at reads
  have admits : c.admits hdr = true ↔ (c.world.accounts hdr.user).isSome = true ∧ c.nonce hdr.user < hdr.nonce.toNat := by
    rw [Chain.admits, Bool.and_eq_true, decide_eq_true_iff]
  cases outcome with
  | ok _ =>
    obtain ⟨known, stored, read, less, rfl⟩ := PrimaryListener.validate_ok ran
    rw [reads.eq read] at less
    have admitted := admits.mpr ⟨Except.ok.inj (found.symm.trans known), less⟩
    refine ⟨iff_of_true rfl admitted, ?_⟩
    rw [Chain.validate, if_pos admitted]
    exact follows.waits mode plain hdr.nonce
  | error e =>
    have denied : ¬ c.admits hdr = true := by
      intro admitted
      obtain ⟨known, less⟩ := admits.mp admitted
      rw [known] at found
      rw [PrimaryListener.validate_eq] at ran
      obtain ⟨n, read, same⟩ := reads
      rcases Exec.bind_error ran with failed | ⟨_, _, loaded, set⟩
      · exact (Overlay.load_error failed).2 found
      · obtain ⟨rfl, _⟩ := Overlay.load_ok loaded
        exact absurd ((setNonce_error set).2 n read) (by omega)
    obtain rfl := PrimaryListener.validate_error ran
    refine ⟨iff_of_false (by simp) denied, ?_⟩
    rw [Chain.validate, if_neg denied]
    exact follows.on mode

/-- A message that is refused by the world ends in an exception, and one that is not does not. -/
theorem process (user : hdr.user.Plain) (plain : msg.Plain) (whole : msg.Intact) {outcome : Except Stop Response}
    (ran : PrimaryListener.process blk hdr msg o = (outcome, o')) (alive : outcome ≠ .error .crash) :
    outcome.toOption = (c.execute hdr.user msg).1 ∧ Follows o' (c.execute hdr.user msg).2 := by
  have view := follows.current steady
  have tame := follows.tame steady
  have before : (o.on .apply).settled.View c.world := Overlay.settled_congr rfl follows.stored
  unfold Chain.execute
  rcases executed : c.current.execute hdr.user msg with _ | ⟨res, w'⟩
  · rcases outcome with (e | _) | res
    · obtain ⟨o₁, handled, rfl⟩ := PrimaryListener.process_throw ran
      have shown := handle_throw_shows rfl before plain handled
      exact ⟨rfl, Overlay.settled_congr rfl shown, fun _ => rfl, fun _ held => (held rfl).elim, (handle_throw rfl handled).1⟩
    · exact (alive rfl).elim
    · obtain ⟨o₁, handled, _⟩ := PrimaryListener.process_ok ran
      exact (handle_refused view blk rfl user plain executed handled).elim
  · obtain ⟨o₁, handled, shows, tame₁⟩ := handle_shows view blk tame user plain whole executed
    rw [PrimaryListener.process_eq, handled] at ran
    obtain ⟨rfl, rfl⟩ := Prod.mk.inj ran
    exact ⟨rfl, follows_committed (shows.committed tame₁)⟩

omit [DecidableEq K] in
theorem commit : Follows o.committed { world := if c.mode = some .apply then c.current else c.world } := by
  refine follows_committed ?_
  by_cases current : o.currentCache = some .apply
  · rw [if_pos (follows.mode ▸ current)]
    have same : o.on .apply = o := by
      obtain ⟨checkCache, applyCache, currentCache, pending⟩ := o
      obtain rfl : currentCache = some .apply := current
      rfl
    exact (same ▸ follows.current steady).committed (same ▸ follows.tame steady)
  · rw [if_neg (follows.mode ▸ current)]
    exact Overlay.settled_congr (Overlay.flushed_of_check current).symm follows.stored

variable [Sha256]

omit [Sha256] in
theorem init {outcome : Except Stop Unit} (ran : PrimaryListener.init ListenerManager.genesis o = (outcome, o')) :
    (outcome.toOption = if (c.world.accounts ListenerManager.genesis.account).isSome then none else some ()) ∧
      Follows o' (if (c.world.accounts ListenerManager.genesis.account).isSome then { c with mode := some .apply }
        else { world := World.genesis }) := by
  have known := follows.stored.accounts ListenerManager.genesis.account root_plain
  rw [Overlay.settled_hasContract] at known
  rcases init_cases steady with ⟨founded, refused⟩ | ⟨clear, nothing, seeded⟩
  · obtain ⟨rfl, rfl⟩ := Prod.mk.inj (ran.symm.trans refused)
    have there : (c.world.accounts ListenerManager.genesis.account).isSome = true :=
      Except.ok.inj (known.symm.trans (Overlay.existence_true.mpr founded))
    rw [if_pos there, if_pos there]
    exact ⟨rfl, follows.on .apply⟩
  · obtain ⟨rfl, rfl⟩ := Prod.mk.inj (ran.symm.trans seeded)
    have absent : (c.world.accounts ListenerManager.genesis.account).isSome = false :=
      Except.ok.inj (known.symm.trans (Overlay.existence_false.mpr (clear _)))
    rw [absent]
    have account := (Overlay.view_empty clear nothing).withAccount (a := ListenerManager.genesis.account) rfl root_plain
      ListenerManager.genesis.verifyKey
    have tame := (follows.tame steady).withAccount (a := ListenerManager.genesis.account) root_plain ListenerManager.genesis.verifyKey
    have view : o.seeded.View World.genesis :=
      account.withToken (t := ListenerManager.genesis.token) tame.current band_plain band_plain rfl
    have whole : o.seeded.Tame := tame.withToken band_plain ListenerManager.genesis.token rfl
    exact ⟨rfl, follows_committed (view.committed whole)⟩

/-- One case for each way a call ends. -/
theorem step {call : Call} {outcome : Except Stop ByteString} {notices : List Notice} {block : BlockMsg} (plain : call.Plain)
    (effect : Effect o blk call outcome o' notices block) (alive : outcome ≠ .error .crash) :
    outcome.toOption = (c.step call).1 ∧ Follows o' (c.step call).2 := by
  cases effect with
  | genesis ran =>
    obtain ⟨answer, next⟩ := follows.init steady ran
    have absent : ¬ (c.world.accounts ListenerManager.genesis.account).isSome = true := by
      intro there
      rw [if_pos there] at answer
      cases answer
    rw [if_neg absent] at next
    rw [Chain.step, if_neg absent]
    exact ⟨rfl, next⟩
  | genesisRefused ran =>
    obtain ⟨answer, next⟩ := follows.init steady ran
    have there : (c.world.accounts ListenerManager.genesis.account).isSome = true := by
      by_contra absent
      rw [if_neg absent] at answer
      cases answer
    rw [if_pos there] at next
    rw [Chain.step, if_pos there]
    exact ⟨rfl, next⟩
  | begun =>
    exact ⟨rfl, Overlay.settled_congr rfl follows.stored, fun _ => rfl, fun _ held => (held rfl).elim, follows.mode⟩
  | unchecked malformed =>
    simp only [Chain.step, malformed]
    exact ⟨rfl, follows⟩
  | @checked raw outcome o' hdr data buf parsed ran =>
    obtain ⟨accepted, next⟩ := follows.validate steady (plain hdr data buf parsed) ran
    simp only [Chain.step, parsed]
    refine ⟨?_, next⟩
    cases outcome with
    | ok _ => exact (if_pos (accepted.mp rfl)).symm
    | error _ => exact (if_neg fun admitted => by cases accepted.mpr admitted).symm
  | malformed malformed =>
    simp only [Chain.step, Chain.deliver, malformed]
    exact ⟨rfl, follows⟩
  | refused parsed ran =>
    obtain ⟨accepted, next⟩ := follows.validate steady (plain _ _ _ _ parsed).1 ran
    have denied : ¬ c.admits _ = true := fun admitted => by cases accepted.mpr admitted
    simp only [Chain.step, Chain.deliver, parsed, if_neg denied]
    exact ⟨rfl, next⟩
  | undecoded parsed ran undecoded =>
    obtain ⟨accepted, next⟩ := follows.validate steady (plain _ _ _ _ parsed).1 ran
    simp only [Chain.step, Chain.deliver, parsed, if_pos (accepted.mp rfl), undecoded]
    exact ⟨rfl, next⟩
  | failed parsed validated decoded ran =>
    obtain ⟨accepted, next⟩ := follows.validate steady (plain _ _ _ _ parsed).1 validated
    obtain ⟨user, named⟩ := plain _ _ _ _ parsed
    obtain ⟨answer, after⟩ := next.process (steady_validate steady validated).1 user (named _ _ decoded)
      (Msg.intact_of_read (ListenerManager.consume_ok decoded)) ran (fun crash => alive (congrArg _ (Except.error.inj crash)))
    simp only [Chain.step, Chain.deliver, parsed, if_pos (accepted.mp rfl), decoded, ← answer]
    exact ⟨rfl, after⟩
  | applied parsed validated decoded ran =>
    obtain ⟨accepted, next⟩ := follows.validate steady (plain _ _ _ _ parsed).1 validated
    obtain ⟨user, named⟩ := plain _ _ _ _ parsed
    obtain ⟨answer, after⟩ := next.process (steady_validate steady validated).1 user (named _ _ decoded)
      (Msg.intact_of_read (ListenerManager.consume_ok decoded)) ran (by simp)
    simp only [Chain.step, Chain.deliver, parsed, if_pos (accepted.mp rfl), decoded, ← answer]
    exact ⟨rfl, after⟩
  | committed ran =>
    obtain ⟨rfl, rfl⟩ := Prod.mk.inj ((PrimaryListener.commit_apply _ steady.selected).symm.trans ran)
    exact ⟨rfl, follows.commit steady⟩

end Follows

def Record.answer {σ : Type} (r : Record σ) : Option ByteString := r.outcome.toOption

namespace StorageMap

/-- `applyCache` holds the world, as far as its names are plain. -/
structure Shows (s : StorageMap L) (w : World) : Prop where
  accounts : ∀ a : Ident, a.Plain → s.applyCache (L.key (.contract (.account a))) =
    (w.accounts a).map fun _ => (ContractKey.account a).prefixedKey
  tokens : ∀ t : Ident, t.Plain → s.applyCache (L.key (.contract (.token t))) =
    if w.tokens t then some (ContractKey.token t).prefixedKey else none
  verifyKey : ∀ a vk, a.Plain → w.accounts a = some vk → s.kept (.verifyKey a) = .ok vk
  nonce : ∀ a : Ident, a.Plain → Reads (s.kept (.nonce a)) (w.nonce a)
  unpriced : ∀ (t : Ident) curve, t.Plain → w.terms t = none → s.kept (.curveData t) = .ok curve → intact curve = false
  terms : ∀ (t : Ident) curve base, t.Plain → w.terms t = some (curve, base) →
    s.kept (.curveData t) = .ok curve ∧ s.kept (.baseIdent t) = .ok base
  supply : ∀ t : Ident, t.Plain → Reads (s.kept (.currentSupply t)) (w.supply t)
  balance : ∀ t u : Ident, t.Plain → u.Plain → Reads (s.kept (.balances t u)) (w.balance t u)

omit [DecidableEq K] in
theorem shows_of_view {s : StorageMap L} (view : s.overlay.settled.View w) : s.Shows w := by
  have value (cell : Cell) : s.overlay.settled.value cell = (do copy (← s.kept cell)) := Overlay.settled_value ..
  have kept {cell : Cell} {val : cell.Val} (same : s.overlay.settled.value cell = .ok val) : s.kept cell = .ok val := by
    rw [value] at same
    rcases held : s.kept cell with e | v <;> rw [held] at same
    · cases same
    · rw [(Overlay.copy_ok same).1]
  have marker {k : ContractKey} {b : Bool} (same : s.overlay.settled.hasContract k = .ok b) :
      s.applyCache (L.key (.contract k)) = if b then some k.prefixedKey else none := by
    rw [Overlay.settled_hasContract] at same
    cases b with
    | true => exact Overlay.existence_true.mp same
    | false => exact Overlay.existence_false.mp same
  refine ⟨?_, fun t plain => marker (view.tokens t plain), ?_, ?_, ?_, ?_, ?_, ?_⟩
  · intro a plain
    rw [marker (view.accounts a plain)]
    rcases w.accounts a with _ | _ <;> rfl
  · exact fun a vk plain known => kept (view.verifyKey a vk plain known)
  · intro a plain
    obtain ⟨n, read, same⟩ := view.nonce a plain
    exact ⟨n, kept read, same⟩
  · intro t curve plain none held
    have unread := view.unpriced t plain none
    rw [value, held] at unread
    by_contra whole
    have read : copy curve = .ok curve := if_pos (by simpa using whole)
    cases read.symm.trans unread
  · intro t curve base plain known
    obtain ⟨first, second, _⟩ := view.terms t curve base plain known
    exact ⟨kept first, kept second⟩
  · intro t plain
    obtain ⟨n, read, same⟩ := view.supply t plain
    exact ⟨n, kept read, same⟩
  · intro t u first second
    obtain ⟨n, read, same⟩ := view.balance t u first second
    exact ⟨n, kept read, same⟩

end StorageMap

section

variable [Sha256]

theorem follows_run {n : Node (Overlay L)} {calls : List Call} (primary : n.manager.primary = some o) (follows : Follows o c)
    (steady : o.Steady) (plain : ∀ call ∈ calls, call.Plain) (up : (n.run calls).down = false) :
    (n.run calls).history.map Record.answer = n.history.map Record.answer ++ c.answers calls ∧
      ∃ o', (n.run calls).manager.primary = some o' ∧ Follows o' (c.run calls) := by
  induction calls generalizing n o c with
  | nil => exact ⟨(List.append_nil _).symm, o, primary, follows⟩
  | cons call calls ih =>
    have later : ((n.step call).run calls).down = false := up
    have next := Node.up_of_run later
    have before : n.down = false := Node.up_of_run up
    obtain ⟨outcome, o', notices, block, effect, after⟩ := step_effect before primary call
    have alive : outcome ≠ .error .crash := by
      rw [after] at next
      exact crashed_eq_false.mp next
    obtain ⟨answer, follows'⟩ := follows.step steady (plain call List.mem_cons_self) effect alive
    have held : (n.step call).manager.primary = some o' := by
      rw [after]
      rfl
    obtain ⟨answers, o'', stored, related⟩ :=
      ih held follows' (steady_effect steady effect alive) (fun call' mem => plain call' (List.mem_cons_of_mem _ mem)) later
    refine ⟨?_, o'', stored, related⟩
    rw [show (n.run (call :: calls)) = (n.step call).run calls from rfl, answers, after, Node.moved, List.map_append, List.append_assoc]
    exact congrArg (fun first => n.history.map Record.answer ++ (first :: (c.step call).2.answers calls)) answer

omit [DecidableEq K] [Sha256] in
theorem Twin.answers {m : Node (StorageMap L)} {n : Node (Overlay L)} (twin : Twin m n) :
    m.history.map Record.answer = n.history.map Record.answer := by
  have pairs := twin.history
  generalize m.history = first at pairs
  generalize n.history = second at pairs
  induction pairs with
  | nil => rfl
  | cons same _ ih => exact congrArg₂ List.cons (congrArg Except.toOption same.outcome) ih

/-- The node gives every call of a run the answer of the abstract chain, and stores the world of that chain, as long as no call names an
identifier with a separator. -/
theorem node_refines_chain {calls : List Call} (plain : ∀ call ∈ calls, call.Plain)
    (up : ((Node.start ({} : StorageMap L)).run calls).down = false) {s : StorageMap L}
    (primary : ((Node.start ({} : StorageMap L)).run calls).manager.primary = some s) :
    ((Node.start ({} : StorageMap L)).run calls).history.map Record.answer = Chain.answers {} calls ∧
      s.Shows (Chain.run {} calls).world := by
  have twin := (twin_start (L := L)).run calls
  obtain ⟨answers, o, held, follows⟩ := follows_run (n := Node.start {}) rfl follows_empty Overlay.steady_empty plain (twin.down ▸ up)
  obtain ⟨s', stored, related⟩ := twin.storage up held
  obtain rfl := Option.some.inj (primary.symm.trans stored)
  have same : s.overlay = o := related.1.toLinked.overlay
  exact ⟨twin.answers.trans answers, StorageMap.shows_of_view (same ▸ follows.stored)⟩

end

open ListenerManager (genesis) in
/-- The genesis account mints seven `band`, and buys three with them. -/
def mintAndBuy : List Call := [.initChain [], applyMsg genesis.account 1 (.mintToken ⟨genesis.token, 7⟩),
  applyMsg genesis.account 2 (.buyToken ⟨genesis.token, 3⟩), .commitBlock]

theorem mintAndBuy_plain : let _ := zeroSha256; ∀ call ∈ mintAndBuy, call.Plain := by
  intro _
  have sent (nonce : UInt64) {msg : Msg} (plain : msg.Plain) (whole : msg.Intact) :
      (applyMsg ListenerManager.genesis.account nonce msg).Plain := Call.plain_of_write default nonce [] root_plain plain whole
  have mint : (applyMsg ListenerManager.genesis.account 1 (.mintToken ⟨ListenerManager.genesis.token, 7⟩)).Plain :=
    sent 1 band_plain trivial
  have buy : (applyMsg ListenerManager.genesis.account 2 (.buyToken ⟨ListenerManager.genesis.token, 3⟩)).Plain :=
    sent 2 band_plain trivial
  rw [mintAndBuy, List.forall_mem_cons, List.forall_mem_cons, List.forall_mem_cons, List.forall_mem_cons]
  refine ⟨trivial, ?_, ?_, trivial, by simp⟩
  · exact mint
  · exact buy

theorem node_refines_chain_mintAndBuy :
    let _ := zeroSha256
    (textNode mintAndBuy).history.map Record.answer = Chain.answers {} mintAndBuy ∧
      (textStorage mintAndBuy).Shows (Chain.run {} mintAndBuy).world := by
  intro _
  have refines (calls : List Call) (plain : ∀ call ∈ calls, call.Plain) (up : (textNode calls).down = false) :
      (textNode calls).history.map Record.answer = Chain.answers {} calls ∧ (textStorage calls).Shows (Chain.run {} calls).world :=
    node_refines_chain plain up (textNode_primary up)
  exact refines mintAndBuy mintAndBuy_plain (by decide +kernel)

end BandChain
