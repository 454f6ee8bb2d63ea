import BandChain.Listener.Run

/-! The nonces of the transactions that were applied. -/

namespace BandChain

variable {K : Type} {L : Layout K}

section

variable {σ : Type}

/-- The raw bytes of a record, where it is of an applied transaction. -/
def Record.appliedRaw (r : Record σ) : Option ByteString :=
  match r.call, r.outcome with
  | .applyTransaction raw _, .ok _ => some raw
  | _, _ => none

def appliedRaws (history : List (Record σ)) : List ByteString := history.filterMap Record.appliedRaw

def headerNonce [Sha256] (u : Ident) (raw : ByteString) : Option UInt64 :=
  match ListenerManager.parseHeader raw with
  | .ok (hdr, _, _) => if hdr.user = u then some hdr.nonce else none
  | .error _ => none

/-- The header nonces of the applied transactions of `u`, in order. -/
def appliedNonces [Sha256] (u : Ident) (history : List (Record σ)) : List UInt64 :=
  (appliedRaws history).filterMap (headerNonce u)

theorem appliedRaws_append (history : List (Record σ)) (r : Record σ) :
    appliedRaws (history ++ [r]) = appliedRaws history ++ r.appliedRaw.toList := by
  rw [appliedRaws, List.filterMap_append]
  rcases kept : r.appliedRaw with _ | raw <;> simp [appliedRaws, kept]

theorem headerNonce_self [Sha256] {raw data buf : ByteString} {hdr : HeaderMsg}
    (parsed : ListenerManager.parseHeader raw = .ok (hdr, data, buf)) : headerNonce hdr.user raw = some hdr.nonce := by
  rw [headerNonce, parsed]
  exact if_pos rfl

theorem headerNonce_ne [Sha256] {raw data buf : ByteString} {hdr : HeaderMsg} {u : Ident}
    (parsed : ListenerManager.parseHeader raw = .ok (hdr, data, buf)) (other : u ≠ hdr.user) : headerNonce u raw = none := by
  rw [headerNonce, parsed]
  exact if_neg other.symm

/-- Where the nonces of each user increase, no transaction occurs twice. -/
theorem nodup_of_increasing [Sha256] {raws : List ByteString}
    (parsed : ∀ raw ∈ raws, ∃ parts, ListenerManager.parseHeader raw = .ok parts)
    (increasing : ∀ u, (raws.filterMap (headerNonce u)).Pairwise (· < ·)) : raws.Nodup := by
  induction raws with
  | nil => exact .nil
  | cons raw raws ih =>
    have tail : ∀ u, (raws.filterMap (headerNonce u)).Pairwise (· < ·) := fun u =>
      (increasing u).sublist ((List.sublist_cons_self raw raws).filterMap _)
    refine List.nodup_cons.mpr ⟨fun again => ?_, ih (fun _ member => parsed _ (List.mem_cons_of_mem _ member)) tail⟩
    obtain ⟨⟨hdr, data, buf⟩, header⟩ := parsed raw List.mem_cons_self
    have nonce := headerNonce_self header
    have all := increasing hdr.user
    rw [List.filterMap_cons_some nonce] at all
    have smaller := List.rel_of_pairwise_cons all (List.mem_filterMap.mpr ⟨raw, again, nonce⟩)
    exact absurd smaller (UInt64.lt_irrefl _)

end

/-! ### A bound that survives every call -/

namespace Overlay

variable {o o' : Overlay L} {u : Ident} {k : Nat}

/-- The nonce that is stored for `u`, where `u` exists, is at least `k`. -/
def AtLeast (o : Overlay L) (u : Ident) (k : Nat) : Prop :=
  o.applyCache (L.key (.contract (.account u))) = some (ContractKey.account u).prefixedKey →
    ∀ n : UInt256, o.applyCache (L.key (.data (.nonce u))) = some (serialize n) → k ≤ n.val

/-- Nothing the store holds for the nonce of `u` is below `k`, and `u` cannot be created again. -/
structure Floor (o : Overlay L) (u : Ident) (k : Nat) : Prop where
  taken : o.applyCache (L.key (.contract (.account u))) ≠ none
  pending : ∀ n : UInt256, o.pending (.nonce u) = some n → k ≤ n.val
  stored : o.AtLeast u k

/-- A flush of apply mode will make it so. -/
structure Due (o : Overlay L) (u : Ident) (k : Nat) : Prop where
  taken : o.applyCache (L.key (.contract (.account u))) ≠ none
  pending : ∀ n : UInt256, o.pending (.nonce u) = some n → k ≤ n.val
  stored : o.pending (.nonce u) = none → o.AtLeast u k

theorem Floor.due (floor : o.Floor u k) : o.Due u k := { floor with stored := fun _ => floor.stored }

theorem flushed_ne_none {key : K} (taken : o.applyCache key ≠ none) : o.flushed key ≠ none := by
  by_cases touched : ∃ e, (key, e) ∈ WriteBack.writes (fun c => L.key (.data c)) encoded o.pending
  · unfold flushed
    rcases o.currentCache with _ | _ | _
    · exact taken
    · exact taken
    · simp only [WriteBack.commit, dif_pos touched]
      simp
  · rw [flushed_untouched]
    · exact taken
    · intro c same
      by_contra held
      obtain ⟨v, held⟩ := Option.ne_none_iff_exists'.mp held
      exact touched ⟨_, c, v, held, Prod.ext same.symm rfl⟩

theorem serialize_inj {m n : UInt256} (same : serialize m = serialize n) : m = n := by
  have first : deserialize (serialize m) = .ok m := deserialize_serialize rfl
  have second : deserialize (serialize n) = .ok n := deserialize_serialize rfl
  rw [same, second] at first
  exact (Except.ok.inj first).symm

theorem flushed_nonce (current : o.currentCache = some .apply) (separate : o.Separate) (u : Ident) :
    o.flushed (L.key (.data (.nonce u))) = match o.pending (.nonce u) with
      | some n => some (serialize n)
      | none => o.applyCache (L.key (.data (.nonce u))) := by
  split
  · rename_i n held
    exact flushed_pending current separate held
  · rename_i clear
    exact flushed_untouched fun c same => by rw [L.nonce_inj same, clear]

theorem Due.committed (due : o.Due u k) (current : o.currentCache = some .apply) (separate : o.Separate) :
    o.committed.Floor u k where
  taken := flushed_ne_none due.taken
  pending := fun _ held => by cases held
  stored := by
    intro marked n stored
    rw [committed_applyCache, flushed_nonce current separate] at stored
    split at stored
    · rename_i m held
      obtain rfl := serialize_inj (Option.some.inj stored)
      exact due.pending m held
    · rename_i clear
      exact due.stored clear (marker_of_flushed separate marked) n stored

theorem Floor.committed (floor : o.Floor u k) (separate : o.Separate) : o.committed.Floor u k := by
  by_cases current : o.currentCache = some .apply
  · exact floor.due.committed current separate
  · have same := flushed_of_check current
    refine ⟨flushed_ne_none floor.taken, fun _ held => (by cases held), ?_⟩
    intro marked n stored
    rw [committed_applyCache, same] at marked stored
    exact floor.stored marked n stored

theorem Floor.on (floor : o.Floor u k) (mode : PrimaryMode) : (o.on mode).Floor u k :=
  ⟨floor.taken, floor.pending, floor.stored⟩

theorem Floor.dropped (floor : o.Floor u k) : o.dropped.Floor u k :=
  ⟨floor.taken, fun _ held => (by cases held), floor.stored⟩

theorem Steady.value_nonce (steady : o.Steady) {mode : PrimaryMode} {n : UInt256}
    (found : (o.on mode).hasContract (.account u) = .ok true) (read : (o.on mode).value (.nonce u) = .ok n) :
    o.pending (.nonce u) = some n ∨
      o.pending (.nonce u) = none ∧ o.applyCache (L.key (.data (.nonce u))) = some (serialize n) := by
  rcases held : o.pending (.nonce u) with _ | m
  · refine Or.inr ⟨rfl, ?_⟩
    obtain ⟨m, stored⟩ := steady.recorded u (steady.founded_of_found found).1
    have holds : (o.on mode).map mode (L.key (.data (.nonce u))) = some (serialize m) := by
      cases mode with
      | apply => exact stored
      | check => exact (steady.agree (x := .data (.nonce u)) rfl).trans stored
    rw [value_eq_decoded (on_currentCache o mode) (c := .nonce u) held fun _ => rfl, holds] at read
    have decoded : deserialize (serialize m) = .ok m := deserialize_serialize rfl
    have same : m = n := Except.ok.inj (decoded.symm.trans read)
    rw [stored, same]
  · left
    rw [value_of_pending (o := o.on mode) (c := .nonce u) held rfl] at read
    rw [Except.ok.inj read]

theorem Floor.le_of_read (floor : o.Floor u k) (steady : o.Steady) {mode : PrimaryMode} {n : UInt256}
    (found : (o.on mode).hasContract (.account u) = .ok true) (read : (o.on mode).value (.nonce u) = .ok n) :
    k ≤ n.val := by
  rcases steady.value_nonce found read with held | ⟨_, stored⟩
  · exact floor.pending n held
  · exact floor.stored (steady.founded_of_found found).1 n stored

end Overlay

open Overlay (Steady Floor Due)

variable [DecidableEq K] {o o' : Overlay L} {blk : BlockMsg} {hdr : HeaderMsg} {msg : Msg} {u : Ident} {k : Nat}

theorem floor_validate {mode : PrimaryMode} {data : ByteString} {outcome : Except Stop Unit} (steady : o.Steady)
    (floor : o.Floor u k) (ran : PrimaryListener.validateTransaction mode hdr data o = (outcome, o')) :
    o'.Floor u k := by
  cases outcome with
  | error e =>
    rw [PrimaryListener.validate_error ran]
    exact floor.on mode
  | ok _ =>
    obtain ⟨found, stored, read, larger, rfl⟩ := PrimaryListener.validate_ok ran
    refine ⟨floor.taken, fun n held => ?_, floor.stored⟩
    by_cases same : u = hdr.user
    · subst same
      rw [Overlay.write_pending_self] at held
      obtain rfl := Option.some.inj held
      exact Nat.le_of_lt (Nat.lt_of_le_of_lt (floor.le_of_read steady found read) larger)
    · rw [Overlay.write_pending_ne _ _ _ (by simpa using same)] at held
      exact floor.pending n held

/-- A validated nonce is due, and above every bound of before. -/
theorem due_validate {mode : PrimaryMode} {data : ByteString} (steady : o.Steady)
    (ran : PrimaryListener.validateTransaction mode hdr data o = (.ok (), o')) :
    o'.Due hdr.user hdr.nonce.toNat ∧ ∀ k, o.Floor hdr.user k → k < hdr.nonce.toNat := by
  obtain ⟨found, stored, read, larger, rfl⟩ := PrimaryListener.validate_ok ran
  refine ⟨⟨?_, fun n held => ?_, fun clear => ?_⟩, fun k floor => ?_⟩
  · rw [Overlay.write_applyCache, Overlay.on_applyCache, (steady.founded_of_found found).1]
    simp
  · rw [Overlay.write_pending_self] at held
    rw [← Option.some.inj held]
    exact Nat.le_refl _
  · rw [Overlay.write_pending_self] at clear
    cases clear
  · exact Nat.lt_of_le_of_lt (floor.le_of_read steady found read) larger

omit [DecidableEq K] in
theorem Overlay.SameAccounts.due (same : o.SameAccounts o') (due : o.Due u k) : o'.Due u k := by
  have marker := same.applied (x := .contract (.account u)) rfl
  refine ⟨by rw [marker]; exact due.taken, by rw [same.nonces]; exact due.pending, fun clear => ?_⟩
  rw [same.nonces] at clear
  intro marked n stored
  rw [marker] at marked
  rw [same.applied (x := .data (.nonce u)) rfl] at stored
  exact due.stored clear marked n stored

/-- No account is created in the place of one that is taken, and its nonce is not overwritten by another's marker. -/
theorem due_withAccount {a : Ident} (verifyKey : VerifyKey) (current : o.currentCache = some .apply)
    (absent : o.hasContract (.account a) = .ok false) (due : o.Due u k) : (o.withAccount a verifyKey).Due u k := by
  have clear := (Overlay.hasContract_false current).mp absent
  have other : u ≠ a := fun same => due.taken (same ▸ clear)
  have marker : L.key (.contract (.account u)) ≠ L.key (.contract (.account a)) := fun same => by
    cases L.marker_inj same
    exact other rfl
  have pending : (o.withAccount a verifyKey).pending (.nonce u) = o.pending (.nonce u) :=
    Overlay.withAccount_pending_ne _ _ (by simpa using other)
  refine ⟨?_, by rw [pending]; exact due.pending, fun clear => ?_⟩
  · rw [Overlay.withAccount_applyCache current, Function.update_of_ne marker]
    exact due.taken
  · rw [pending] at clear
    intro marked n stored
    rw [Overlay.withAccount_applyCache current] at marked stored
    rw [Function.update_of_ne marker] at marked
    by_cases overwritten : L.key (.data (.nonce u)) = L.key (.contract (.account a))
    · rw [overwritten, Function.update_self] at stored
      exact (serialize_ne_prefixedKey _ n (Option.some.inj stored).symm).elim
    · rw [Function.update_of_ne overwritten] at stored
      exact due.stored clear marked n stored

theorem due_handle {res : Response} (current : o.currentCache = some .apply) (due : o.Due u k)
    (ran : PrimaryListener.handle blk hdr msg o = (.ok res, o')) : o'.Due u k := by
  rcases handle_accounts current ran with same | ⟨m, _, absent, rfl⟩
  · exact same.due due
  · exact due_withAccount m.vk current absent due

theorem floor_process_ok {res : Response} (steady : o.Steady) (due : o.Due u k)
    (ran : PrimaryListener.process blk hdr msg o = (.ok res, o')) : o'.Floor u k := by
  obtain ⟨o₁, handled, current, rfl⟩ := PrimaryListener.process_ok ran
  have separate := (handle_separate blk).of_ok (s := o.on .apply) ⟨steady.nonceOnly, rfl⟩ handled
  have due' : (o.on .apply).Due u k := ⟨due.taken, due.pending, due.stored⟩
  exact (due_handle (Overlay.on_currentCache o .apply) due' handled).committed current separate.1

theorem floor_process_throw {e : Exn} (floor : o.Floor u k)
    (ran : PrimaryListener.process blk hdr msg o = (.error (.throw e), o')) : o'.Floor u k := by
  obtain ⟨o₁, handled, rfl⟩ := PrimaryListener.process_throw ran
  have accounts {x : Slot} (account : x.owner = .account u) : o₁.applyCache (L.key x) = o.applyCache (L.key x) :=
    handle_throw_accounts (Overlay.on_currentCache o .apply) handled account
  have marker := accounts (x := .contract (.account u)) rfl
  refine ⟨by rw [Overlay.dropped_applyCache, marker]; exact floor.taken, fun _ held => (by cases held), ?_⟩
  intro marked n stored
  rw [Overlay.dropped_applyCache, marker] at marked
  rw [Overlay.dropped_applyCache, accounts (x := .data (.nonce u)) rfl] at stored
  exact floor.stored marked n stored

theorem floor_init {outcome : Except Stop Unit} (steady : o.Steady) (floor : o.Floor u k)
    (ran : PrimaryListener.init ListenerManager.genesis o = (outcome, o')) : o'.Floor u k := by
  rcases init_cases steady with ⟨_, refused⟩ | ⟨clear, _⟩
  · obtain ⟨_, rfl⟩ := Prod.mk.inj (ran.symm.trans refused)
    exact floor.on .apply
  · exact (floor.taken (clear _)).elim

theorem floor_effect [Sha256] {call : Call} {outcome : Except Stop ByteString} {notices : List Notice} {block : BlockMsg}
    (steady : o.Steady) (floor : o.Floor u k) (effect : Effect o blk call outcome o' notices block)
    (alive : outcome ≠ .error .crash) : o'.Floor u k := by
  cases effect with
  | genesis ran => exact floor_init steady floor ran
  | genesisRefused ran => exact floor_init steady floor ran
  | begun => exact floor.dropped
  | unchecked _ => exact floor
  | checked _ ran => exact floor_validate steady floor ran
  | malformed _ => exact floor
  | refused _ ran => exact floor_validate steady floor ran
  | undecoded _ ran _ => exact floor_validate steady floor ran
  | @failed _ _ e _ _ _ _ _ _ _ _ _ validated _ ran =>
    have floor' := floor_validate steady floor validated
    cases e with
    | crash => exact (alive rfl).elim
    | throw e => exact floor_process_throw floor' ran
  | applied _ validated _ ran =>
    exact floor_process_ok (steady_validate steady validated).1 (floor_validate steady floor validated).due ran
  | committed ran =>
    obtain ⟨_, rfl⟩ := Prod.mk.inj ((PrimaryListener.commit_apply _ steady.selected).symm.trans ran)
    exact floor.committed steady.nonceOnly.separate

/-! ### Runs -/

section

variable [Sha256]

/-- What a run has applied so far is below what the storage will accept. -/
structure Guarded (n : Node (Overlay L)) : Prop where
  floors : n.down = false → ∃ o, n.manager.primary = some o ∧ o.Steady ∧
    ∀ u, ∀ k ∈ appliedNonces u n.history, o.Floor u k.toNat
  increasing : ∀ u, (appliedNonces u n.history).Pairwise (· < ·)
  parsed : ∀ raw ∈ appliedRaws n.history, ∃ parts, ListenerManager.parseHeader raw = .ok parts

omit [DecidableEq K] in
theorem guarded_start : Guarded (L := L) (Node.start {}) where
  floors := fun _ => ⟨_, rfl, Overlay.steady_empty, fun _ _ member => by cases member⟩
  increasing := fun _ => .nil
  parsed := fun _ member => by cases member

namespace Guarded

variable {n n' : Node (Overlay L)} {r : Record (Overlay L)}

omit [DecidableEq K] in
theorem step_silent (guarded : Guarded n) (history : n'.history = n.history ++ [r]) (silent : r.appliedRaw = none)
    (floors : n'.down = false → ∃ o, n'.manager.primary = some o ∧ o.Steady ∧
      ∀ u, ∀ k ∈ appliedNonces u n.history, o.Floor u k.toNat) : Guarded n' := by
  have same : appliedRaws n'.history = appliedRaws n.history := by
    rw [history, appliedRaws_append, silent, Option.toList_none, List.append_nil]
  refine ⟨?_, ?_, ?_⟩
  · simp only [appliedNonces, same]
    exact floors
  · simp only [appliedNonces, same]
    exact guarded.increasing
  · rw [same]
    exact guarded.parsed

omit [DecidableEq K] in
theorem step_applied {raw data buf : ByteString} (guarded : Guarded n) (history : n'.history = n.history ++ [r])
    (applied : r.appliedRaw = some raw) (header : ListenerManager.parseHeader raw = .ok (hdr, data, buf))
    (above : ∀ k ∈ appliedNonces hdr.user n.history, k < hdr.nonce)
    (floors : ∃ o, n'.manager.primary = some o ∧ o.Steady ∧ o.Floor hdr.user hdr.nonce.toNat ∧
      ∀ u, ∀ k ∈ appliedNonces u n.history, o.Floor u k.toNat) : Guarded n' := by
  have raws : appliedRaws n'.history = appliedRaws n.history ++ [raw] := by
    rw [history, appliedRaws_append, applied, Option.toList_some]
  have nonces (u : Ident) : appliedNonces u n'.history = appliedNonces u n.history ++ (headerNonce u raw).toList := by
    rw [appliedNonces, raws, List.filterMap_append]
    rcases kept : headerNonce u raw with _ | k <;> simp [appliedNonces, kept]
  refine ⟨fun _ => ?_, fun u => ?_, fun raw' member => ?_⟩
  · obtain ⟨o, primary, steady, last, before⟩ := floors
    refine ⟨o, primary, steady, fun u k member => ?_⟩
    rw [nonces] at member
    rcases List.mem_append.mp member with earlier | latest
    · exact before u k earlier
    · by_cases same : u = hdr.user
      · subst same
        rw [headerNonce_self header, Option.toList_some] at latest
        rw [List.mem_singleton.mp latest]
        exact last
      · rw [headerNonce_ne header same] at latest
        cases latest
  · rw [nonces]
    by_cases same : u = hdr.user
    · subst same
      rw [headerNonce_self header, Option.toList_some]
      refine List.pairwise_append.mpr ⟨guarded.increasing _, List.pairwise_singleton .., fun k member k' latest => ?_⟩
      rw [List.mem_singleton.mp latest]
      exact above k member
    · rw [headerNonce_ne header same, Option.toList_none, List.append_nil]
      exact guarded.increasing u
  · rw [raws] at member
    rcases List.mem_append.mp member with earlier | latest
    · exact guarded.parsed raw' earlier
    · rw [List.mem_singleton.mp latest]
      exact ⟨_, header⟩

theorem step (guarded : Guarded n) (call : Call) : Guarded (n.step call) := by
  by_cases down : n.down = true
  · rwa [Node.step, if_pos down]
  have up : n.down = false := by simpa using down
  obtain ⟨o, primary, steady, before⟩ := guarded.floors up
  obtain ⟨outcome, o', notices, block, effect, after⟩ := step_effect up primary call
  rw [after]
  have floors : outcome ≠ .error .crash → o'.Steady ∧ ∀ u, ∀ k ∈ appliedNonces u n.history, o'.Floor u k.toNat :=
    fun alive => ⟨steady_effect steady effect alive, fun u k member => floor_effect steady (before u k member) effect alive⟩
  have live : crashed outcome = false → ∃ o₁, some o' = some o₁ ∧ o₁.Steady ∧
      ∀ u, ∀ k ∈ appliedNonces u n.history, o₁.Floor u k.toNat :=
    fun alive => ⟨o', rfl, floors (crashed_eq_false.mp alive)⟩
  cases effect with
  | applied parsed validated decoded ran =>
    obtain ⟨buf, header, _⟩ := parseTx_ok parsed
    obtain ⟨steady', floors⟩ := floors (by simp)
    obtain ⟨due, above⟩ := due_validate steady validated
    exact guarded.step_applied rfl rfl header
      (fun k member => UInt64.lt_iff_toNat_lt.mpr (above k.toNat (before _ k member)))
      ⟨o', rfl, steady', floor_process_ok (steady_validate steady validated).1 due ran, floors⟩
  | genesis _ | genesisRefused _ | begun | unchecked _ | checked _ _ | malformed _ | refused _ _ | undecoded _ _ _
    | failed _ _ _ _ | committed _ => exact guarded.step_silent rfl rfl live

theorem run (guarded : Guarded n) (calls : List Call) : Guarded (n.run calls) := by
  induction calls generalizing n with
  | nil => exact guarded
  | cons call calls ih => exact ih (guarded.step call)

end Guarded

omit [DecidableEq K] [Sha256] in
theorem Twin.appliedRaws {m : Node (StorageMap L)} {n : Node (Overlay L)} (twin : Twin m n) :
    appliedRaws m.history = appliedRaws n.history := by
  have all := twin.history
  generalize m.history = left at all
  generalize n.history = right at all
  induction all with
  | nil => rfl
  | @cons r r' left right same rest ih =>
    have head : r.appliedRaw = r'.appliedRaw := by rw [Record.appliedRaw, Record.appliedRaw, same.call, same.outcome]
    rw [BandChain.appliedRaws, BandChain.appliedRaws, List.filterMap_cons, List.filterMap_cons, head]
    rcases r'.appliedRaw with _ | raw
    · exact ih
    · exact congrArg (raw :: ·) ih

/-- The header nonces of the transactions that one user had applied increase over every run, so nothing is
applied twice. -/
theorem applied_increasing (calls : List Call) :
    (∀ u, (appliedNonces u ((Node.start ({} : StorageMap L)).run calls).history).Pairwise (· < ·)) ∧
      (appliedRaws ((Node.start ({} : StorageMap L)).run calls).history).Nodup := by
  have raws := ((twin_start (L := L)).run calls).appliedRaws
  have guarded := (guarded_start (L := L)).run calls
  simp only [appliedNonces, raws]
  exact ⟨guarded.increasing, nodup_of_increasing guarded.parsed guarded.increasing⟩

end

end BandChain
