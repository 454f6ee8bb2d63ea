import BandChain.Listener.Execution
import BandChain.Listener.Genesis

/-! A node follows the chain: what it stores is the world, what waits for a flush are the nonces that wait. -/

namespace BandChain

variable {K : Type} {L : Layout K} {o o' : Overlay L} {w : World} {c : Chain}

/-- The names in a call, as far as it is parsed. -/
def Call.Plain [Sha256] : Call → Prop
  | initChain _ | beginBlock _ _ | commitBlock => True
  | checkTransaction raw => ∀ hdr data buf, ListenerManager.parseHeader raw = .ok (hdr, data, buf) → hdr.user.Plain
  | applyTransaction raw _ => ∀ hdr data type buf, ListenerManager.parseTx raw = .ok (hdr, data, type, buf) →
      hdr.user.Plain ∧ ∀ msg rest, ListenerManager.consume (Msg.read type) buf = .ok (msg, rest) → msg.Plain

theorem Call.plain_of_write [Sha256] {user : Ident} {msg : Msg} (sig : Signature) (nonce : UInt64) (rawResult : ByteString)
    (sender : user.Plain) (plain : msg.Plain) (whole : msg.Intact) :
    (Call.applyTransaction (ListenerManager.writeTx user sig nonce msg) rawResult).Plain := by
  intro hdr data type buf parsed
  obtain ⟨_, _, written⟩ := ListenerManager.parseTx_write user sig nonce msg.type msg.write
  rw [ListenerManager.writeTx, List.append_assoc, written] at parsed
  simp only [Except.ok.injEq, Prod.mk.injEq] at parsed
  obtain ⟨rfl, _, rfl, rfl⟩ := parsed
  refine ⟨sender, fun msg' rest decoded => ?_⟩
  have same : Msg.read msg.type (msg.write ++ []) = (.ok msg, []) := Msg.read_write whole []
  rw [List.append_nil, ListenerManager.consume_ok decoded] at same
  cases same
  exact plain

namespace Overlay

/-- What is stored, without what waits for a flush. -/
def settled (o : Overlay L) : Overlay L := o.dropped.on .apply

theorem settled_value (o : Overlay L) (cell : Cell) :
    o.settled.value cell = (do copy (← decoded (o.applyCache (L.key (.data cell))))) :=
  value_of_clear (show o.settled.currentCache = some .apply from rfl) rfl

theorem settled_hasContract (o : Overlay L) (k : ContractKey) :
    o.settled.hasContract k = existence k (o.applyCache (L.key (.contract k))) :=
  hasContract_of_current (show o.settled.currentCache = some .apply from rfl) k

theorem on_value_of_clear {cell : Cell} (clear : o.pending cell = none) : (o.on .apply).value cell = o.settled.value cell := by
  rw [settled_value]
  exact value_of_clear (on_currentCache o .apply) clear

theorem settled_congr (same : o.applyCache = o'.applyCache) (view : o.settled.View w) : o'.settled.View w := by
  have value (cell : Cell) : o'.settled.value cell = o.settled.value cell := by rw [settled_value, settled_value, same]
  have contract (k : ContractKey) : o'.settled.hasContract k = o.settled.hasContract k := by
    rw [settled_hasContract, settled_hasContract, same]
  refine ⟨?_, ?_, ?_, ?_, ?_, ?_, ?_, ?_⟩
  · exact fun a plain => (contract _).trans (view.accounts a plain)
  · exact fun t plain => (contract _).trans (view.tokens t plain)
  · exact fun a vk plain known => (value (.verifyKey a)).trans (view.verifyKey a vk plain known)
  · exact fun a plain => (value (.nonce a)).symm ▸ view.nonce a plain
  · exact fun t plain none => (value (.curveData t)).trans (view.unpriced t plain none)
  · intro t curve base plain known
    rw [value (.curveData t), value (.baseIdent t)]
    exact view.terms t curve base plain known
  · exact fun t plain => (value (.currentSupply t)).symm ▸ view.supply t plain
  · exact fun t u first second => (value (.balances t u)).symm ▸ view.balance t u first second

theorem view_empty (clear : ∀ k, o.applyCache k = none) (nothing : ∀ cell, o.pending cell = none) : (o.on .apply).View {} := by
  have value (cell : Cell) : (o.on .apply).value cell = copy default := by
    rw [value_of_clear (on_currentCache ..) (nothing cell), map_apply, on_applyCache, clear]
    rfl
  have contract (k : ContractKey) : (o.on .apply).hasContract k = .ok false :=
    (hasContract_false (on_currentCache ..)).mpr (clear _)
  refine ⟨fun _ _ => contract _, fun _ _ => contract _, fun _ _ _ known => ?_, fun _ _ => ?_, fun _ _ _ => ?_, fun _ _ _ _ known => ?_,
    fun _ _ => ?_, fun _ _ _ _ => ?_⟩
  · cases known
  · exact ⟨0, value (.nonce _), rfl⟩
  · exact value (.curveData _)
  · cases known
  · exact ⟨0, value (.currentSupply _), rfl⟩
  · exact ⟨0, value (.balances _ _), rfl⟩

/-- The store after a flush of what was done in apply mode. -/
theorem View.committed (view : o.View w) (tame : o.Tame) : o.committed.settled.View w := view.rewound tame

end Overlay

structure Follows (o : Overlay L) (c : Chain) : Prop where
  stored : o.settled.View c.world
  waiting : ∀ a, o.pending (.nonce a) = (c.waiting a).map UInt256.ofUInt64
  plain : ∀ cell, o.pending cell ≠ none → cell.Plain
  mode : o.currentCache = c.mode

theorem follows_empty : Follows ({} : Overlay L) {} where
  stored := Overlay.view_empty (o := {}) (fun _ => rfl) fun _ => rfl
  waiting := fun _ => rfl
  plain := fun _ held => (held rfl).elim
  mode := rfl

theorem follows_committed (view : o.committed.settled.View w) : Follows o.committed { world := w } where
  stored := view
  waiting := fun _ => rfl
  plain := fun _ held => (held rfl).elim
  mode := rfl

namespace Follows

theorem on (follows : Follows o c) (mode : PrimaryMode) : Follows (o.on mode) { c with mode := some mode } :=
  { follows with mode := rfl, stored := Overlay.settled_congr rfl follows.stored }

theorem waits (follows : Follows o c) (mode : PrimaryMode) {a : Ident} (plain : a.Plain) (n : UInt64) :
    Follows ((o.on mode).write (.nonce a) (UInt256.ofUInt64 n)) { c with waiting := Function.update c.waiting a (some n), mode := some mode } where
  stored := Overlay.settled_congr rfl follows.stored
  waiting a' := by
    by_cases same : a' = a
    · subst same
      rw [Overlay.write_pending_self]
      exact congrArg (Option.map UInt256.ofUInt64) (Function.update_self a' (some n) c.waiting).symm
    · rw [Overlay.write_pending_ne _ _ _ (by simpa using same)]
      exact (follows.waiting a').trans (congrArg (Option.map UInt256.ofUInt64) (Function.update_of_ne same (some n) c.waiting).symm)
  plain cell held := by
    by_cases same : cell = .nonce a
    · exact same ▸ plain
    · rw [Overlay.write_pending_ne _ _ _ same] at held
      exact follows.plain cell held
  mode := rfl

/-- The nonce of an account, whether it waits or is stored. -/
theorem nonce (follows : Follows o c) {a : Ident} (plain : a.Plain) : Reads ((o.on .apply).value (.nonce a)) (c.nonce a) := by
  have waits := follows.waiting a
  unfold Chain.nonce
  rcases waiting : c.waiting a with _ | n
  · rw [waiting] at waits
    rw [Overlay.on_value_of_clear waits]
    exact follows.stored.nonce a plain
  · rw [waiting] at waits
    exact ⟨UInt256.ofUInt64 n, Overlay.value_of_pending waits rfl, rfl⟩

theorem current (follows : Follows o c) (steady : o.Steady) : (o.on .apply).View c.current := by
  have value {cell : Cell} (other : ∀ a, cell ≠ .nonce a) : (o.on .apply).value cell = o.settled.value cell := by
    apply Overlay.on_value_of_clear
    by_contra held
    obtain ⟨a, same⟩ := steady.nonceOnly cell held
    exact other a same
  have view := follows.stored
  refine ⟨view.accounts, view.tokens, ?_, fun a plain => follows.nonce plain, ?_, ?_, ?_, ?_⟩
  · exact fun a vk plain known => (value (by simp)).trans (view.verifyKey a vk plain known)
  · exact fun t plain none => (value (by simp)).trans (view.unpriced t plain none)
  · intro t curve base plain known
    rw [value (by simp), value (by simp)]
    exact view.terms t curve base plain known
  · intro t plain
    rw [value (by simp)]
    exact view.supply t plain
  · intro t u first second
    rw [value (by simp)]
    exact view.balance t u first second

theorem tame (follows : Follows o c) (steady : o.Steady) : (o.on .apply).Tame where
  current := rfl
  plain := follows.plain
  whole cell val held := by
    obtain ⟨a, rfl⟩ := steady.nonceOnly cell (by rw [show o.pending cell = some val from held]; simp)
    rfl

end Follows

end BandChain
