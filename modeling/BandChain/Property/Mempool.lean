import BandChain.Listener.Genesis
import BandChain.Property.Answers
import BandChain.Property.Isolation
import BandChain.Property.Nonce

/-! The transactions that pass their check between two blocks are valid when the next block delivers them. -/

namespace BandChain

variable {K : Type} {L : Layout K}

namespace Overlay

variable {o o' : Overlay L} {u : Ident} {k : Nat}

/-- A nonce that waits is not below the one that is stored. -/
def Ordered (o : Overlay L) : Prop := ∀ (u : Ident) (n m : UInt256), o.pending (.nonce u) = some n →
  o.applyCache (L.key (.data (.nonce u))) = some (serialize m) → m.val ≤ n.val

/-- No other account keeps its nonce where the marker of `u` is. -/
def Unmarked (u : Ident) : Prop := ∀ a : Ident, u.rawdata ≠ a.rawdata ++ ascii "/nonce"

/-- `u` exists, with a stored nonce below `k`. -/
structure Room (o : Overlay L) (u : Ident) (k : Nat) : Prop where
  marked : o.applyCache (L.key (.contract (.account u))) = some (ContractKey.account u).prefixedKey
  stored : ∀ n : UInt256, o.applyCache (L.key (.data (.nonce u))) = some (serialize n) → n.val < k

/-- Whatever nonce of `u` is read, it is below `k`. -/
structure Ceiling (o : Overlay L) (u : Ident) (k : Nat) : Prop extends o.Room u k where
  pending : ∀ n : UInt256, o.pending (.nonce u) = some n → n.val < k

theorem ordered_clear (clear : ∀ c, o.pending c = none) : o.Ordered := fun u n _ held _ => by
  rw [clear] at held
  cases held

theorem Room.dropped (room : o.Room u k) : o.dropped.Ceiling u k :=
  ⟨⟨room.marked, room.stored⟩, fun _ held => by cases held⟩

theorem Ceiling.on (ceiling : o.Ceiling u k) (mode : PrimaryMode) : (o.on mode).Ceiling u k :=
  ⟨⟨ceiling.marked, ceiling.stored⟩, ceiling.pending⟩

/-- A smaller nonce leaves room for a larger one. -/
theorem Ceiling.write (ceiling : o.Ceiling u k) {a : Ident} {n : UInt256} (smaller : a = u → n.val < k) :
    (o.write (.nonce a) n).Ceiling u k := by
  refine ⟨⟨ceiling.marked, ceiling.stored⟩, fun m held => ?_⟩
  by_cases same : a = u
  · subst same
    rw [write_pending_self] at held
    exact Option.some.inj held ▸ smaller rfl
  · rw [write_pending_ne _ _ _ (by simpa using Ne.symm same)] at held
    exact ceiling.pending m held

theorem Ceiling.committed (ceiling : o.Ceiling u k) (unmarked : Unmarked u) (current : o.currentCache = some .apply) (separate : o.Separate) :
    o.committed.Ceiling u k := by
  refine ⟨⟨?_, fun n stored => ?_⟩, fun _ held => by cases held⟩
  · refine (flushed_untouched fun c same => ?_).trans ceiling.marked
    rcases L.key_account same with wrong | ⟨a, _, named⟩
    · cases wrong
    · exact (unmarked a named).elim
  · rw [committed_applyCache, flushed_nonce current separate] at stored
    split at stored
    · rename_i m held
      obtain rfl := serialize_inj (Option.some.inj stored)
      exact ceiling.pending m held
    · exact ceiling.stored n stored

/-- Whatever is below the ceiling is admitted. -/
theorem Ceiling.admits (ceiling : o.Ceiling u k) (steady : o.Steady) {hdr : HeaderMsg} (user : hdr.user = u) (nonce : k = hdr.nonce.toNat) :
    Admits L o.pending o.applyCache hdr := by
  subst user nonce
  refine ⟨ceiling.marked, ?_⟩
  cases held : o.pending (.nonce hdr.user) with
  | some n => exact ⟨n, rfl, ceiling.pending n held⟩
  | none =>
    obtain ⟨n, stored⟩ := steady.recorded hdr.user ceiling.marked
    exact ⟨n, by rw [stored]; exact deserialize_serialize rfl, ceiling.stored n stored⟩

theorem SameAccounts.ceiling (same : o.SameAccounts o') (ceiling : o.Ceiling u k) : o'.Ceiling u k := by
  refine ⟨⟨?_, fun n stored => ?_⟩, by rw [same.nonces]; exact ceiling.pending⟩
  · rw [same.applied (x := .contract (.account u)) rfl]
    exact ceiling.marked
  · rw [same.applied (x := .data (.nonce u)) rfl] at stored
    exact ceiling.stored n stored

variable [DecidableEq K]

/-- An account that is created is not `u`, which exists. -/
theorem Ceiling.withAccount (ceiling : o.Ceiling u k) {a : Ident} (verifyKey : VerifyKey) (current : o.currentCache = some .apply)
    (absent : o.hasContract (.account a) = .ok false) : (o.withAccount a verifyKey).Ceiling u k := by
  have clear := (hasContract_false current).mp absent
  have other : u ≠ a := fun same => by
    rw [← same, ceiling.marked] at clear
    cases clear
  have marker : L.key (.contract (.account u)) ≠ L.key (.contract (.account a)) := fun same => by
    cases L.marker_inj same
    exact other rfl
  have pending : (o.withAccount a verifyKey).pending (.nonce u) = o.pending (.nonce u) :=
    withAccount_pending_ne _ _ (by simpa using other)
  refine ⟨⟨?_, fun n stored => ?_⟩, by rw [pending]; exact ceiling.pending⟩
  · rw [withAccount_applyCache current, Function.update_of_ne marker]
    exact ceiling.marked
  · rw [withAccount_applyCache current] at stored
    by_cases overwritten : L.key (.data (.nonce u)) = L.key (.contract (.account a))
    · rw [overwritten, Function.update_self] at stored
      exact (serialize_ne_prefixedKey _ n (Option.some.inj stored).symm).elim
    · rw [Function.update_of_ne overwritten] at stored
      exact ceiling.stored n stored

end Overlay

open Overlay (Unmarked Ceiling Room)

variable [DecidableEq K] {o o' : Overlay L} {blk : BlockMsg} {hdr : HeaderMsg} {msg : Msg} {u : Ident} {k : Nat}

/-! ### Delivered transactions -/

theorem ceiling_validate {data : ByteString} {outcome : Except Stop Unit} (ceiling : o.Ceiling u k)
    (smaller : hdr.user = u → hdr.nonce.toNat < k) (ran : PrimaryListener.validateTransaction .apply hdr data o = (outcome, o')) :
    o'.Ceiling u k := by
  cases outcome with
  | error e =>
    rw [PrimaryListener.validate_error ran]
    exact ceiling.on .apply
  | ok _ =>
    obtain ⟨_, _, _, _, rfl⟩ := PrimaryListener.validate_ok ran
    exact (ceiling.on .apply).write smaller

theorem ceiling_process_ok {res : Response} (steady : o.Steady) (ceiling : o.Ceiling u k) (unmarked : Unmarked u)
    (ran : PrimaryListener.process blk hdr msg o = (.ok res, o')) : o'.Ceiling u k := by
  obtain ⟨o₁, handled, current, rfl⟩ := PrimaryListener.process_ok ran
  have separate := (handle_separate blk).of_ok (s := o.on .apply) ⟨steady.nonceOnly, rfl⟩ handled
  have before := ceiling.on .apply
  refine Ceiling.committed ?_ unmarked current separate.1
  rcases handle_accounts (Overlay.on_currentCache o .apply) handled with same | ⟨m, _, absent, rfl⟩
  · exact same.ceiling before
  · exact before.withAccount m.vk (Overlay.on_currentCache o .apply) absent

theorem ceiling_process_throw {e : Exn} (ceiling : o.Ceiling u k)
    (ran : PrimaryListener.process blk hdr msg o = (.error (.throw e), o')) : o'.Ceiling u k := by
  obtain ⟨o₁, handled, rfl⟩ := PrimaryListener.process_throw ran
  have accounts {x : Slot} (account : x.owner = .account u) : o₁.applyCache (L.key x) = o.applyCache (L.key x) :=
    handle_throw_accounts (Overlay.on_currentCache o .apply) handled account
  refine ⟨⟨?_, fun n stored => ?_⟩, fun _ held => by cases held⟩
  · rw [Overlay.dropped_applyCache, accounts (x := .contract (.account u)) rfl]
    exact ceiling.marked
  · rw [Overlay.dropped_applyCache, accounts (x := .data (.nonce u)) rfl] at stored
    exact ceiling.stored n stored

/-- A transaction of another sender, or with a smaller nonce, leaves the ceiling. -/
theorem ceiling_applied [Sha256] {raw rawResult : ByteString} {outcome : Except Stop ByteString} {notices : List Notice} {block : BlockMsg}
    (steady : o.Steady) (ceiling : o.Ceiling u k) (unmarked : Unmarked u)
    (smaller : ∀ hdr data buf, ListenerManager.parseHeader raw = .ok (hdr, data, buf) → hdr.user = u → hdr.nonce.toNat < k)
    (effect : Effect o blk (.applyTransaction raw rawResult) outcome o' notices block) (alive : outcome ≠ .error .crash) :
    o'.Ceiling u k := by
  have header {hdr : HeaderMsg} {data buf : ByteString} {type : MsgType}
      (parsed : ListenerManager.parseTx raw = .ok (hdr, data, type, buf)) : hdr.user = u → hdr.nonce.toNat < k := by
    obtain ⟨buf', header, _⟩ := parseTx_ok parsed
    exact smaller hdr data buf' header
  cases effect with
  | malformed _ => exact ceiling
  | refused parsed ran | undecoded parsed ran _ => exact ceiling_validate ceiling (header parsed) ran
  | @failed _ _ e _ _ _ _ _ _ _ _ parsed validated _ ran =>
    have between := ceiling_validate ceiling (header parsed) validated
    cases e with
    | crash => exact (alive rfl).elim
    | throw e => exact ceiling_process_throw between ran
  | applied parsed validated _ ran =>
    exact ceiling_process_ok (steady_validate steady validated).1 (ceiling_validate ceiling (header parsed) validated) unmarked ran

/-! ### Checked transactions -/

/-- A validated header names an account, whose stored nonce and whose waiting nonce, if any, are smaller. -/
theorem room_of_validated {mode : PrimaryMode} {data : ByteString} (steady : o.Steady) (ordered : o.Ordered)
    (ran : PrimaryListener.validateTransaction mode hdr data o = (.ok (), o')) :
    o.Room hdr.user hdr.nonce.toNat ∧ ∀ n : UInt256, o.pending (.nonce hdr.user) = some n → n.val < hdr.nonce.toNat := by
  obtain ⟨found, n, read, larger, _⟩ := PrimaryListener.validate_ok ran
  have marked := (steady.founded_of_found found).1
  rcases steady.value_nonce found read with held | ⟨clear, stored⟩
  · refine ⟨⟨marked, fun m stored => Nat.lt_of_le_of_lt (ordered _ n m held stored) larger⟩, fun m held' => ?_⟩
    rwa [← Option.some.inj (held.symm.trans held')]
  · refine ⟨⟨marked, fun m stored' => ?_⟩, fun m held => ?_⟩
    · rwa [← Overlay.serialize_inj (Option.some.inj (stored.symm.trans stored'))]
    · rw [clear] at held
      cases held

theorem ordered_validate {mode : PrimaryMode} {data : ByteString} {outcome : Except Stop Unit} (steady : o.Steady)
    (ordered : o.Ordered) (ran : PrimaryListener.validateTransaction mode hdr data o = (outcome, o')) : o'.Ordered := by
  cases outcome with
  | error e =>
    rw [PrimaryListener.validate_error ran]
    exact ordered
  | ok _ =>
    obtain ⟨room, _⟩ := room_of_validated steady ordered ran
    obtain ⟨_, _, _, _, rfl⟩ := PrimaryListener.validate_ok ran
    intro u n m held stored
    by_cases same : u = hdr.user
    · subst same
      rw [Overlay.write_pending_self] at held
      rw [← Option.some.inj held]
      exact Nat.le_of_lt (room.stored m stored)
    · rw [Overlay.write_pending_ne _ _ _ (by simpa using same)] at held
      exact ordered u n m held stored

theorem ordered_effect [Sha256] {call : Call} {outcome : Except Stop ByteString} {notices : List Notice} {block : BlockMsg}
    (steady : o.Steady) (ordered : o.Ordered) (effect : Effect o blk call outcome o' notices block)
    (alive : outcome ≠ .error .crash) : o'.Ordered := by
  cases effect with
  | genesis ran | genesisRefused ran =>
    rcases init_cases steady with ⟨_, refused⟩ | ⟨_, _, seeded⟩
    · obtain ⟨_, rfl⟩ := Prod.mk.inj (ran.symm.trans refused)
      exact ordered
    · obtain ⟨_, rfl⟩ := Prod.mk.inj (ran.symm.trans seeded)
      exact Overlay.ordered_clear fun _ => rfl
  | begun => exact Overlay.ordered_clear fun _ => rfl
  | unchecked _ | malformed _ => exact ordered
  | checked _ ran | refused _ ran | undecoded _ ran _ => exact ordered_validate steady ordered ran
  | @failed _ _ e _ _ _ _ _ _ _ _ _ _ _ ran =>
    cases e with
    | crash => exact (alive rfl).elim
    | throw e =>
      obtain ⟨_, _, rfl⟩ := PrimaryListener.process_throw ran
      exact Overlay.ordered_clear fun _ => rfl
  | applied _ _ _ ran =>
    obtain ⟨_, _, _, rfl⟩ := PrimaryListener.process_ok ran
    exact Overlay.ordered_clear fun _ => rfl
  | committed ran =>
    obtain ⟨_, rfl⟩ := Prod.mk.inj ((PrimaryListener.commit_apply _ steady.selected).symm.trans ran)
    exact Overlay.ordered_clear fun _ => rfl

variable [Sha256]

/-- The transactions that pass, of those that are checked one after the other. -/
def Node.mempool {σ : Type} [Storage σ] (n : Node σ) : List ByteString → List ByteString
  | [] => []
  | raw :: raws =>
    if ((Call.checkTransaction raw).exec n.manager).1.isOk then raw :: (n.step (.checkTransaction raw)).mempool raws
    else (n.step (.checkTransaction raw)).mempool raws

/-- A header that `raw` starts with. -/
def Heads (raw : ByteString) (hdr : HeaderMsg) : Prop := ∃ data buf, ListenerManager.parseHeader raw = .ok (hdr, data, buf)

/-- Of one sender, the second has the larger nonce. -/
def Later (raw raw' : ByteString) : Prop := ∀ hdr hdr', Heads raw hdr → Heads raw' hdr' → hdr'.user = hdr.user → hdr.nonce.toNat < hdr'.nonce.toNat

/-- A live node whose storage is in order. -/
structure Stands (n : Node (Overlay L)) (o : Overlay L) : Prop where
  up : n.down = false
  primary : n.manager.primary = some o
  steady : o.Steady
  ordered : o.Ordered

omit [DecidableEq K] in
theorem Heads.unique {raw : ByteString} {hdr hdr' : HeaderMsg} (heads : Heads raw hdr) (heads' : Heads raw hdr') : hdr = hdr' := by
  obtain ⟨_, _, parsed⟩ := heads
  obtain ⟨_, _, parsed'⟩ := heads'
  exact (Prod.mk.inj (Except.ok.inj (parsed.symm.trans parsed'))).1

section

variable {n : Node (Overlay L)}

theorem Stands.moved (stands : Stands n o) {call : Call} {outcome : Except Stop ByteString} {notices : List Notice} {block : BlockMsg}
    (effect : Effect o n.manager.block call outcome o' notices block) (alive : outcome ≠ .error .crash) : Stands (n.step call) o' := by
  rw [step_of_effect stands.up stands.primary effect]
  exact ⟨crashed_eq_false.mpr alive, rfl, steady_effect stands.steady effect alive,
    ordered_effect stands.steady stands.ordered effect alive⟩

/-- What a check does to the storage: nothing is stored, and no waiting nonce gets smaller. -/
structure Checked (o o' : Overlay L) : Prop where
  stored : o'.applyCache = o.applyCache
  waits : ∀ u k, (∃ m : UInt256, o.pending (.nonce u) = some m ∧ k ≤ m.val) → ∃ m : UInt256, o'.pending (.nonce u) = some m ∧ k ≤ m.val

/-- A transaction that passed its check. -/
structure Passed (o o' : Overlay L) (hdr : HeaderMsg) : Prop where
  room : o.Room hdr.user hdr.nonce.toNat
  larger : ∀ m : UInt256, o.pending (.nonce hdr.user) = some m → m.val < hdr.nonce.toNat
  waits : ∃ m : UInt256, o'.pending (.nonce hdr.user) = some m ∧ hdr.nonce.toNat ≤ m.val

theorem Stands.check (stands : Stands n o) (raw : ByteString) :
    ∃ o', Stands (n.step (.checkTransaction raw)) o' ∧ Checked o o' ∧
      (((Call.checkTransaction raw).exec n.manager).1.isOk = true → ∃ hdr, Heads raw hdr ∧ Passed o o' hdr) := by
  obtain ⟨outcome, o', notices, block, effect, after⟩ := step_effect stands.up stands.primary (.checkTransaction raw)
  rw [effect.exec stands.primary]
  cases effect with
  | unchecked malformed =>
    have alive := ListenerManager.parseHeader_throws malformed
    exact ⟨o, stands.moved (.unchecked malformed) (by simpa using alive), ⟨rfl, fun _ _ => id⟩, fun passed => by cases passed⟩
  | @checked _ result _ hdr data buf parsed ran =>
    cases result with
    | error e =>
      have alive := PrimaryListener.validate_throws ran
      refine ⟨o', stands.moved (.checked parsed ran) (fun crash => alive (Except.error.inj crash)), ?_, fun passed => by cases passed⟩
      rw [PrimaryListener.validate_error ran]
      exact ⟨rfl, fun _ _ => id⟩
    | ok _ =>
      obtain ⟨room, larger⟩ := room_of_validated stands.steady stands.ordered ran
      have moved := stands.moved (.checked parsed ran) (fun wrong => by cases wrong)
      obtain ⟨_, _, _, _, rfl⟩ := PrimaryListener.validate_ok ran
      have own := Overlay.write_pending_self (o.on .check) (.nonce hdr.user) (UInt256.ofUInt64 hdr.nonce)
      refine ⟨_, moved, ⟨rfl, fun u k => ?_⟩, fun _ => ⟨hdr, ⟨data, buf, parsed⟩, room, larger, _, own, Nat.le_refl _⟩⟩
      rintro ⟨m, held, bound⟩
      by_cases same : u = hdr.user
      · subst same
        exact ⟨_, own, Nat.le_of_lt (Nat.lt_of_le_of_lt bound (larger m held))⟩
      · rw [Overlay.write_pending_ne _ _ _ (by simpa using same)]
        exact ⟨m, held, bound⟩

/-- The transactions that pass have room, and those of one sender have larger and larger nonces. -/
theorem Stands.mempool (stands : Stands n o) (raws : List ByteString) :
    ∃ o', Stands (n.run (raws.map .checkTransaction)) o' ∧ o'.applyCache = o.applyCache ∧
      (∀ raw ∈ n.mempool raws, ∃ hdr, Heads raw hdr ∧ o.Room hdr.user hdr.nonce.toNat ∧
        ∀ m : UInt256, o.pending (.nonce hdr.user) = some m → m.val < hdr.nonce.toNat) ∧
      (n.mempool raws).Pairwise Later := by
  induction raws generalizing n o with
  | nil => exact ⟨o, stands, rfl, fun _ mem => (by cases mem), .nil⟩
  | cons raw raws ih =>
    obtain ⟨o₁, stands₁, checked, passed⟩ := stands.check raw
    obtain ⟨o', stands', stored, rooms, later⟩ := ih stands₁
    have rest : ∀ raw' ∈ (n.step (.checkTransaction raw)).mempool raws, ∃ hdr, Heads raw' hdr ∧ o.Room hdr.user hdr.nonce.toNat ∧
        ∀ k, (∃ m : UInt256, o₁.pending (.nonce hdr.user) = some m ∧ k ≤ m.val) → k < hdr.nonce.toNat := by
      intro raw' mem
      obtain ⟨hdr, heads, room, larger⟩ := rooms raw' mem
      refine ⟨hdr, heads, ⟨checked.stored ▸ room.marked, checked.stored ▸ room.stored⟩, ?_⟩
      rintro k ⟨m, held, bound⟩
      exact Nat.lt_of_le_of_lt bound (larger m held)
    have waits : ∀ raw' ∈ (n.step (.checkTransaction raw)).mempool raws, ∃ hdr, Heads raw' hdr ∧ o.Room hdr.user hdr.nonce.toNat ∧
        ∀ m : UInt256, o.pending (.nonce hdr.user) = some m → m.val < hdr.nonce.toNat := by
      intro raw' mem
      obtain ⟨hdr, heads, room, larger⟩ := rest raw' mem
      exact ⟨hdr, heads, room, fun m held => larger m.val (checked.waits hdr.user m.val ⟨m, held, Nat.le_refl _⟩)⟩
    refine ⟨o', stands', stored.trans checked.stored, ?_⟩
    rw [Node.mempool]
    split
    · rename_i ok
      obtain ⟨hdr, heads, pass⟩ := passed ok
      refine ⟨List.forall_mem_cons.mpr ⟨⟨hdr, heads, pass.room, pass.larger⟩, waits⟩, List.pairwise_cons.mpr ⟨fun raw' mem => ?_, later⟩⟩
      intro hdr₁ hdr₂ heads₁ heads₂ same
      obtain rfl := heads.unique heads₁
      obtain ⟨hdr', heads', _, larger⟩ := rest raw' mem
      obtain rfl := heads'.unique heads₂
      exact larger _ (same ▸ pass.waits)
    · exact ⟨waits, later⟩

/-- Delivered transactions before `tx` leave it admitted. -/
theorem Stands.delivered (stands : Stands n o) {done : List ByteString} {hdr : HeaderMsg}
    (ceiling : o.Ceiling hdr.user hdr.nonce.toNat) (unmarked : Unmarked hdr.user)
    (smaller : ∀ raw ∈ done, ∀ hdr', Heads raw hdr' → hdr'.user = hdr.user → hdr'.nonce.toNat < hdr.nonce.toNat)
    (up : (n.run (done.map fun raw => .applyTransaction raw [])).down = false) :
    ∃ o', Stands (n.run (done.map fun raw => .applyTransaction raw [])) o' ∧ o'.Ceiling hdr.user hdr.nonce.toNat := by
  induction done generalizing n o with
  | nil => exact ⟨o, stands, ceiling⟩
  | cons raw done ih =>
    obtain ⟨first, rest⟩ := List.forall_mem_cons.mp smaller
    obtain ⟨outcome, o₁, notices, block, effect, after⟩ := step_effect stands.up stands.primary (.applyTransaction raw [])
    have alive : outcome ≠ .error .crash := by
      have next : (n.step (.applyTransaction raw [])).down = false := Node.up_of_run up
      rw [after] at next
      exact crashed_eq_false.mp next
    refine ih (stands.moved effect alive) (ceiling_applied stands.steady ceiling unmarked ?_ effect alive) rest up
    exact fun hdr' data buf parsed => first hdr' ⟨data, buf, parsed⟩

omit [DecidableEq K] [Sha256] in
theorem stands_start : Stands (L := L) (Node.start {}) {} :=
  ⟨rfl, rfl, Overlay.steady_empty, Overlay.ordered_clear fun _ => rfl⟩

theorem Stands.run (stands : Stands n o) {calls : List Call} (up : (n.run calls).down = false) : ∃ o', Stands (n.run calls) o' := by
  induction calls generalizing n o with
  | nil => exact ⟨o, stands⟩
  | cons call calls ih =>
    obtain ⟨outcome, o', notices, block, effect, after⟩ := step_effect stands.up stands.primary call
    have next : (n.step call).down = false := Node.up_of_run up
    rw [after] at next
    exact ih (stands.moved effect (crashed_eq_false.mp next)) up

/-- Both nodes pass the same transactions. -/
theorem Stands.mempool_eq (stands : Stands n o) {m : Node (StorageMap L)} (twin : Twin m n) (raws : List ByteString) :
    m.mempool raws = n.mempool raws := by
  induction raws generalizing m n o with
  | nil => rfl
  | cons raw raws ih =>
    obtain ⟨_, stands', _⟩ := stands.check raw
    have same := (twin.sameRecord (twin.down.trans stands.up) (.checkTransaction raw)).outcome
    rw [Node.mempool, Node.mempool, ih stands' (twin.step _), show ((Call.checkTransaction raw).exec m.manager).1 = _ from same]

end

/-- Of the transactions that passed when they were checked one after the other, those that the next block delivers in the same order are
valid when their turn comes, whichever these are, if the sender's name is not another name followed by "/nonce". -/
theorem mempool_delivers {calls : List Call} (checks : List ByteString) (timestamp : UInt64) (proposer : Address)
    {done left : List ByteString} {tx : ByteString}
    (passed : (done ++ tx :: left).Sublist (((Node.start ({} : StorageMap L)).run calls).mempool checks))
    (unmarked : ∀ hdr, Heads tx hdr → Unmarked hdr.user)
    (up : ((Node.start ({} : StorageMap L)).run (calls ++ checks.map .checkTransaction ++
      .beginBlock timestamp proposer :: done.map fun raw => .applyTransaction raw [])).down = false) {s : StorageMap L}
    (primary : ((Node.start ({} : StorageMap L)).run (calls ++ checks.map .checkTransaction ++
      .beginBlock timestamp proposer :: done.map fun raw => .applyTransaction raw [])).manager.primary = some s) :
    ∃ hdr data buf s', ListenerManager.parseHeader tx = .ok (hdr, data, buf) ∧
      PrimaryListener.validateTransaction .apply hdr data s = (.ok (), s') := by
  have twin := (twin_start (L := L)).run (calls ++ checks.map .checkTransaction ++
    .beginBlock timestamp proposer :: done.map fun raw => .applyTransaction raw [])
  have up' := twin.down.symm.trans up
  have before : ((Node.start ({} : Overlay L)).run calls).down = false := by
    rw [List.append_assoc, Node.run_append] at up'
    exact Node.up_of_run up'
  obtain ⟨o, stands⟩ := stands_start.run before
  rw [stands.mempool_eq (twin_start.run calls) checks] at passed
  obtain ⟨o₁, stands₁, stored, rooms, later⟩ := stands.mempool checks
  obtain ⟨hdr, ⟨data, buf, parsed⟩, room, _⟩ := rooms tx (passed.subset (List.mem_append_right _ List.mem_cons_self))
  have ceiling : o₁.dropped.Ceiling hdr.user hdr.nonce.toNat :=
    Room.dropped ⟨stored ▸ room.marked, stored ▸ room.stored⟩
  have smaller : ∀ raw ∈ done, ∀ hdr', Heads raw hdr' → hdr'.user = hdr.user → hdr'.nonce.toNat < hdr.nonce.toNat := by
    intro raw mem hdr' heads same
    exact (List.pairwise_append.mp (later.sublist passed)).2.2 raw mem tx List.mem_cons_self hdr' hdr heads ⟨data, buf, parsed⟩ same.symm
  rw [Node.run_append, Node.run_append] at up'
  have stands₂ : Stands (Node.step _ (.beginBlock timestamp proposer)) o₁.dropped := stands₁.moved .begun (fun wrong => by cases wrong)
  obtain ⟨o₂, last, ceiling'⟩ := stands₂.delivered ceiling (unmarked hdr ⟨data, buf, parsed⟩) smaller up'
  have held : ((Node.start ({} : Overlay L)).run (calls ++ checks.map .checkTransaction ++
      .beginBlock timestamp proposer :: done.map fun raw => .applyTransaction raw [])).manager.primary = some o₂ := by
    rw [Node.run_append, Node.run_append]
    exact last.primary
  obtain ⟨s', stored', related⟩ := twin.storage up held
  obtain rfl := Option.some.inj (primary.symm.trans stored')
  obtain ⟨o', valid⟩ := (validate_iff data).mpr (ceiling'.admits last.steady rfl rfl)
  have both := parallel_validate .apply hdr data s o₂ related
  rcases ran : PrimaryListener.validateTransaction .apply hdr data s with ⟨e | _, s'⟩
  · rw [ran] at both
    obtain ⟨_, wrong, _⟩ := both.of_error
    cases valid.symm.trans wrong
  · exact ⟨hdr, data, buf, s', parsed, ran⟩

/-- The genesis account mints, and mints again. -/
def mintAgain : ByteString :=
  ListenerManager.writeTx ListenerManager.genesis.account default 2 (.mintToken ⟨ListenerManager.genesis.token, 7⟩)

omit [Sha256] in
theorem mempool_delivers_mintAgain :
    let _ := zeroSha256
    ∃ hdr data buf s', ListenerManager.parseHeader mintAgain = .ok (hdr, data, buf) ∧
      PrimaryListener.validateTransaction .apply hdr data
        (textStorage [.initChain [], .checkTransaction mintOnce, .checkTransaction [], .checkTransaction mintAgain, .beginBlock 5 default,
          .applyTransaction mintOnce []]) = (.ok (), s') := by
  let _ := zeroSha256
  have pool : (textNode [.initChain []]).mempool [mintOnce, [], mintAgain] = [mintOnce, mintAgain] := by decide +kernel
  have passed : ([mintOnce] ++ mintAgain :: []).Sublist ((textNode [.initChain []]).mempool [mintOnce, [], mintAgain]) := by
    rw [pool]
    exact List.Sublist.refl _
  have up : (textNode [.initChain [], .checkTransaction mintOnce, .checkTransaction [], .checkTransaction mintAgain, .beginBlock 5 default,
      .applyTransaction mintOnce []]).down = false := by decide +kernel
  have unmarked : ∀ hdr, Heads mintAgain hdr → Unmarked hdr.user := by
    rintro hdr ⟨data, buf, parsed⟩ a named
    have sender : (ListenerManager.parseHeader mintAgain).map (fun parts => parts.1.user) = .ok ListenerManager.genesis.account := by
      decide +kernel
    rw [parsed] at sender
    have user : hdr.user = ListenerManager.genesis.account := Except.ok.inj sender
    rw [user] at named
    refine root_plain ?_
    rw [show root.ident.rawdata = _ from named]
    exact List.mem_append_right _ (by decide)
  have primary := textNode_primary up
  have all := @mempool_delivers _ Layout.text _ _ [.initChain []] [mintOnce, [], mintAgain] 5 default [mintOnce] [] mintAgain passed unmarked
  have same : (Node.start {}).run ([Call.initChain []] ++ [mintOnce, [], mintAgain].map .checkTransaction ++
      .beginBlock 5 default :: [mintOnce].map fun raw => .applyTransaction raw []) =
    textNode [.initChain [], .checkTransaction mintOnce, .checkTransaction [], .checkTransaction mintAgain, .beginBlock 5 default,
      .applyTransaction mintOnce []] := rfl
  rw [same] at all
  exact all up primary

end BandChain
