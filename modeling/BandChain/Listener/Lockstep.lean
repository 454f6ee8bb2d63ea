import BandChain.Listener.Manager

/-!
The contracts, the primary listener and the manager on two storages: they run in step wherever the operations of the storages
do.
-/

namespace BandChain

open Exec (Sim Lockstep)

variable {σ τ α : Type} [Storage σ] [Storage τ] {R : List ContractKey → σ → τ → Prop} {ks : List ContractKey}

/-- Two storages that load and write in step, in a relation that speaks of the contracts loaded. -/
structure Storage.Writes (R : List ContractKey → σ → τ → Prop) : Prop where
  load : ∀ {ks} (k : ContractKey), Sim (R ks) (Storage.load k) (Storage.load k) (fun _ => R (k :: ks)) (fun _ => R ks)
  assign : ∀ {ks} {c : Cell}, c.contract ∈ ks → ∀ val : c.Val, Lockstep (R ks) (Storage.assign c val) (Storage.assign c val)
  forget : ∀ {ks k s t}, R (k :: ks) s t → R ks s t

structure Storage.Serves (R : List ContractKey → σ → τ → Prop) : Prop extends Storage.Writes R where
  read : ∀ {ks} {c : Cell}, c.contract ∈ ks → Lockstep (R ks) (Storage.read c) (Storage.read c)

/-! ### Contracts -/

/-- What follows a load may forget it at the end. -/
theorem Storage.Writes.with_load (writes : Storage.Writes R) {l : List ContractKey} {k : ContractKey} {x : Exec Stop σ α}
    {y : Exec Stop τ α} (rest : Lockstep (R (k :: l)) x y) :
    Lockstep (R l) (do Storage.load k; x) (do Storage.load k; y) :=
  (writes.load k).bind fun _ => rest.mono (fun _ _ => id) (fun _ _ _ => writes.forget) (fun _ _ _ => writes.forget)

theorem lockstep_account_init (writes : Storage.Writes R) {self : Ident} (loaded : .account self ∈ ks) (verifyKey : VerifyKey) :
    Lockstep (R ks) (Account.init self verifyKey) (Account.init self verifyKey) :=
  (writes.assign (c := .verifyKey self) loaded verifyKey).bind fun _ => writes.assign (c := .nonce self) loaded 0

theorem lockstep_setNonce {R : σ → τ → Prop} {self : Ident} (read : Lockstep R (Storage.read (.nonce self)) (Storage.read (.nonce self)))
    (assign : ∀ val : UInt256, Lockstep R (Storage.assign (.nonce self) val) (Storage.assign (.nonce self) val)) (nonce : UInt64) :
    Lockstep R (Account.setNonce self nonce) (Account.setNonce self nonce) := by
  apply read.bind
  intro stored
  split
  · exact Lockstep.stop _
  · exact assign _

theorem lockstep_token_init (writes : Storage.Writes R) {self : Ident} (loaded : .token self ∈ ks) (baseToken : Ident) (curve : Curve) :
    Lockstep (R ks) (Token.init self baseToken curve) (Token.init self baseToken curve) := by
  apply writes.with_load
  have loaded : .token self ∈ ContractKey.token baseToken :: ks := List.mem_cons_of_mem _ loaded
  apply (writes.assign (c := .curveData self) loaded curve).bind
  intro _
  apply (writes.assign (c := .baseIdent self) loaded baseToken).bind
  intro _
  exact writes.assign (c := .currentSupply self) loaded (0 : UInt256)

variable (serves : Storage.Serves R)

include serves

theorem lockstep_base {self : Ident} (loaded : .token self ∈ ks) :
    Lockstep (R ks) (Token.base self) (Token.base self) :=
  serves.read (c := .baseIdent self) loaded

theorem lockstep_mint {self : Ident} (loaded : .token self ∈ ks) (receiver : Ident) (value : UInt256) :
    Lockstep (R ks) (Token.mint self receiver value) (Token.mint self receiver value) := by
  apply (serves.read (c := .balances self receiver) loaded).bind
  intro balance
  apply (Lockstep.ofExcept _).bind
  intro increased
  apply (serves.assign (c := .balances self receiver) loaded increased).bind
  intro _
  apply (serves.read (c := .currentSupply self) loaded).bind
  intro supply
  apply (Lockstep.ofExcept _).bind
  intro issued
  exact serves.assign (c := .currentSupply self) loaded issued

theorem lockstep_transfer {self : Ident} (loaded : .token self ∈ ks) (src dst : Ident) (value : UInt256) :
    Lockstep (R ks) (Token.transfer self src dst value) (Token.transfer self src dst value) := by
  apply (serves.read (c := .balances self src) loaded).bind
  intro held
  split
  · exact Lockstep.stop _
  apply (serves.read (c := .balances self src) loaded).bind
  intro source
  apply (Lockstep.ofExcept _).bind
  intro reduced
  apply (serves.assign (c := .balances self src) loaded reduced).bind
  intro _
  apply (serves.read (c := .balances self dst) loaded).bind
  intro dest
  apply (Lockstep.ofExcept _).bind
  intro increased
  exact serves.assign (c := .balances self dst) loaded increased

theorem lockstep_buy {self : Ident} (loaded : .token self ∈ ks) (buyer : Ident) (value : UInt256) :
    Lockstep (R ks) (Token.buy self buyer value) (Token.buy self buyer value) := by
  apply (serves.read (c := .curveData self) loaded).bind
  intro curve
  apply (serves.read (c := .baseIdent self) loaded).bind
  intro baseToken
  apply serves.with_load
  have baseLoaded : .token baseToken ∈ ContractKey.token baseToken :: ks := List.mem_cons_self
  have loaded : .token self ∈ ContractKey.token baseToken :: ks := List.mem_cons_of_mem _ loaded
  apply (serves.read (c := .currentSupply self) loaded).bind
  intro supply
  apply (Lockstep.ofExcept _).bind
  intro raised
  apply (Lockstep.ofExcept _).bind
  intro upper
  apply (Lockstep.ofExcept _).bind
  intro lower
  apply (Lockstep.ofExcept _).bind
  intro buyTokens
  apply (serves.read (c := .balances baseToken buyer) baseLoaded).bind
  intro held
  split
  · exact Lockstep.stop _
  apply (serves.read (c := .balances baseToken buyer) baseLoaded).bind
  intro paid
  apply (Lockstep.ofExcept _).bind
  intro reduced
  apply (serves.assign (c := .balances baseToken buyer) baseLoaded reduced).bind
  intro _
  apply (serves.read (c := .balances self buyer) loaded).bind
  intro balance
  apply (Lockstep.ofExcept _).bind
  intro increased
  apply (serves.assign (c := .balances self buyer) loaded increased).bind
  intro _
  apply (serves.read (c := .currentSupply self) loaded).bind
  intro supply
  apply (Lockstep.ofExcept _).bind
  intro issued
  apply (serves.assign (c := .currentSupply self) loaded issued).bind
  intro _
  exact Lockstep.pure _

theorem lockstep_sell {self : Ident} (loaded : .token self ∈ ks) (seller : Ident) (value : UInt256) :
    Lockstep (R ks) (Token.sell self seller value) (Token.sell self seller value) := by
  apply (serves.read (c := .curveData self) loaded).bind
  intro curve
  apply (serves.read (c := .baseIdent self) loaded).bind
  intro baseToken
  apply serves.with_load
  have baseLoaded : .token baseToken ∈ ContractKey.token baseToken :: ks := List.mem_cons_self
  have loaded : .token self ∈ ContractKey.token baseToken :: ks := List.mem_cons_of_mem _ loaded
  apply (serves.read (c := .balances self seller) loaded).bind
  intro held
  split
  · exact Lockstep.stop _
  apply (serves.read (c := .currentSupply self) loaded).bind
  intro supply
  apply (Lockstep.ofExcept _).bind
  intro upper
  apply (Lockstep.ofExcept _).bind
  intro lowered
  apply (Lockstep.ofExcept _).bind
  intro lower
  apply (Lockstep.ofExcept _).bind
  intro sellTokens
  apply (serves.read (c := .balances self seller) loaded).bind
  intro balance
  apply (Lockstep.ofExcept _).bind
  intro reduced
  apply (serves.assign (c := .balances self seller) loaded reduced).bind
  intro _
  apply (serves.read (c := .balances baseToken seller) baseLoaded).bind
  intro received
  apply (Lockstep.ofExcept _).bind
  intro increased
  apply (serves.assign (c := .balances baseToken seller) baseLoaded increased).bind
  intro _
  apply (serves.read (c := .currentSupply self) loaded).bind
  intro supply
  apply (Lockstep.ofExcept _).bind
  intro redeemed
  apply (serves.assign (c := .currentSupply self) loaded redeemed).bind
  intro _
  exact Lockstep.pure _

/-! ### The primary listener -/

/-- A handler runs in step if the creation of contracts does. -/
theorem sim_handle_of {S : σ → τ → Prop} (weaker : ∀ s t, R [] s t → S s t)
    (account : ∀ (user : Ident) (vk : VerifyKey), Sim (R []) (Storage.create (.account user) (Account.init user vk))
      (Storage.create (.account user) (Account.init user vk)) (fun _ => S) (fun _ => S))
    (token : ∀ (user baseToken : Ident) (curve : Curve), Sim (R []) (Storage.create (.token user) (Token.init user baseToken curve))
      (Storage.create (.token user) (Token.init user baseToken curve)) (fun _ => S) (fun _ => S))
    (blk : BlockMsg) (hdr : HeaderMsg) (msg : Msg) :
    Sim (R []) (PrimaryListener.handle blk hdr msg) (PrimaryListener.handle blk hdr msg) (fun _ => S) (fun _ => S) := by
  have loaded : ∀ token : Ident, .token token ∈ [ContractKey.token token] := fun _ => List.mem_singleton.mpr rfl
  have ended : ∀ {x : Exec Stop σ Response} {y : Exec Stop τ Response}, Lockstep (R []) x y →
      Sim (R []) x y (fun _ => S) (fun _ => S) :=
    fun same => same.mono (fun _ _ => id) (fun _ => weaker) (fun _ => weaker)
  cases msg with
  | createAccount msg => exact (account msg.user msg.vk).bind fun _ => Lockstep.pure _
  | createToken msg => exact (token msg.createdToken msg.baseToken msg.curve).bind fun _ => Lockstep.pure _
  | mintToken msg =>
    exact ended (serves.with_load ((lockstep_mint serves (loaded msg.token) hdr.user msg.value).bind fun _ => Lockstep.pure _))
  | transferToken msg =>
    exact ended (serves.with_load ((lockstep_transfer serves (loaded msg.token) hdr.user msg.dest msg.value).bind fun _ =>
      Lockstep.pure _))
  | buyToken msg =>
    exact ended (serves.with_load ((lockstep_buy serves (loaded msg.token) hdr.user msg.value).bind fun _ =>
      (lockstep_base serves (loaded msg.token)).bind fun _ => Lockstep.pure _))
  | sellToken msg =>
    exact ended (serves.with_load ((lockstep_sell serves (loaded msg.token) hdr.user msg.value).bind fun _ =>
      (lockstep_base serves (loaded msg.token)).bind fun _ => Lockstep.pure _))
  | addWikiEdge _ | removeWikiEdge _ => exact Sim.pure weaker

omit serves

omit [Storage σ] [Storage τ] in
/-- A scope with a guard. After a crash of its body the guard does not run. -/
theorem sim_scopeExit {P Q S : σ → τ → Prop} {x : Exec Stop σ α} {y : Exec Stop τ α} {guard : Exec Stop σ Unit}
    {guard' : Exec Stop τ Unit} (body : Sim P x y (fun _ => Q) (fun _ => Q))
    (left : Sim Q guard guard' (fun _ => S) (fun _ => Q)) :
    Sim P (PrimaryListener.scopeExit guard x) (PrimaryListener.scopeExit guard' y) (fun _ => S)
      (fun e s t => (e ≠ .crash → S s t) ∧ (Q s t ∨ S s t)) := by
  have destructed : Sim Q (inDestructor guard) (inDestructor guard') (fun _ => S) (fun e s t => e = .crash ∧ Q s t) := by
    intro s t related
    have both := left s t related
    rcases ran : guard s with ⟨e | a, s'⟩
    · rw [ran] at both
      obtain ⟨t', other, post⟩ := both.of_error
      rw [inDestructor, inDestructor, ran, other]
      exact .error ⟨rfl, post⟩
    · rw [ran] at both
      obtain ⟨t', other, post⟩ := both.of_ok
      rw [inDestructor, inDestructor, ran, other]
      exact .ok post
  intro s t related
  have both := body s t related
  rcases ran : x s with ⟨e | a, s₁⟩
  · rw [ran] at both
    obtain ⟨t₁, other, post⟩ := both.of_error
    rw [PrimaryListener.scopeExit, PrimaryListener.scopeExit, ran, other]
    cases e with
    | crash => exact .error ⟨fun alive => (alive rfl).elim, Or.inl post⟩
    | throw e =>
      have after := destructed s₁ t₁ post
      rcases last : inDestructor guard s₁ with ⟨e' | _, s₂⟩
      · rw [last] at after
        obtain ⟨t₂, final, crash, post⟩ := after.of_error
        simp only [last, final]
        exact .error ⟨fun alive => (alive crash).elim, Or.inl post⟩
      · rw [last] at after
        obtain ⟨t₂, final, post⟩ := after.of_ok
        simp only [last, final]
        exact .error ⟨fun _ => post, Or.inr post⟩
  · rw [ran] at both
    obtain ⟨t₁, other, post⟩ := both.of_ok
    rw [PrimaryListener.scopeExit, PrimaryListener.scopeExit, ran, other]
    have after := destructed s₁ t₁ post
    rcases last : inDestructor guard s₁ with ⟨e' | _, s₂⟩
    · rw [last] at after
      obtain ⟨t₂, final, crash, post⟩ := after.of_error
      simp only [last, final]
      exact .error ⟨fun alive => (alive crash).elim, Or.inl post⟩
    · rw [last] at after
      obtain ⟨t₂, final, post⟩ := after.of_ok
      simp only [last, final]
      exact .ok post

/-! ### The manager -/

/-- Managers that differ only in how their storage is kept. -/
structure Alike (R : σ → τ → Prop) (m : ListenerManager σ) (n : ListenerManager τ) : Prop where
  notices : m.notices = n.notices
  block : m.block = n.block
  primary : (m.primary = none ∧ n.primary = none) ∨ ∃ s o, m.primary = some s ∧ n.primary = some o ∧ R s o

omit [Storage σ] [Storage τ] in
theorem Alike.mono {R R' : σ → τ → Prop} {m : ListenerManager σ} {n : ListenerManager τ} (h : Alike R m n)
    (weaker : ∀ s o, R s o → R' s o) : Alike R' m n :=
  { h with primary := h.primary.imp_right fun ⟨s, o, first, second, related⟩ => ⟨s, o, first, second, weaker s o related⟩ }

/-- The calls to two primary listeners: `R` relates the storages between calls, `F` after a header was validated, and `E` after
a stop. -/
structure PrimaryListener.Agrees [Storage σ] [Storage τ] (R F : σ → τ → Prop) (E : Stop → σ → τ → Prop) : Prop where
  survives : ∀ e s t, R s t → E e s t
  weaker : ∀ s t, F s t → R s t
  init : Sim R (init ListenerManager.genesis) (init ListenerManager.genesis) (fun _ => R) E
  begin : ∀ blk, Sim R (begin blk) (begin blk) (fun _ => R) E
  validate : ∀ mode hdr data, Sim R (validateTransaction mode hdr data) (validateTransaction mode hdr data) (fun _ => F) E
  process : ∀ blk hdr msg, Sim F (process blk hdr msg) (process blk hdr msg) (fun _ => R) E
  commit : ∀ blk, Sim R (commit blk) (commit blk) (fun _ => R) E

section

variable {P R F : σ → τ → Prop} {Q : α → σ → τ → Prop} {E : Stop → σ → τ → Prop}

omit [Storage σ] [Storage τ] in
theorem sim_onPrimary {x : Exec Stop σ α} {y : Exec Stop τ α} (call : Sim P x y Q E) (otherwise : Except Stop α) :
    Sim (Alike P) (ListenerManager.onPrimary x otherwise) (ListenerManager.onPrimary y otherwise)
      (fun a => Alike (Q a)) (fun e => Alike (E e)) := by
  rintro ⟨p, notices, block⟩ ⟨q, _, _⟩ ⟨rfl, rfl, primary⟩
  rcases primary with ⟨rfl, rfl⟩ | ⟨s, o, rfl, rfl, related⟩
  · cases otherwise with
    | ok a => exact .ok ⟨rfl, rfl, Or.inl ⟨rfl, rfl⟩⟩
    | error e => exact .error ⟨rfl, rfl, Or.inl ⟨rfl, rfl⟩⟩
  · have both := call s o related
    simp only [ListenerManager.onPrimary]
    rcases left : x s with ⟨e | a, s'⟩
    · rw [left] at both
      obtain ⟨o', right, post⟩ := both.of_error
      rw [right]
      exact .error ⟨rfl, rfl, Or.inr ⟨s', o', rfl, rfl, post⟩⟩
    · rw [left] at both
      obtain ⟨o', right, post⟩ := both.of_ok
      rw [right]
      exact .ok ⟨rfl, rfl, Or.inr ⟨s', o', rfl, rfl, post⟩⟩

omit [Storage σ] [Storage τ] in
theorem sim_notify (notice : Notice) {G : Stop → ListenerManager σ → ListenerManager τ → Prop} :
    Sim (Alike R) (ListenerManager.notify notice) (ListenerManager.notify notice) (fun _ => Alike R) G := by
  intro m n alike
  exact .ok ⟨congrArg (· ++ [notice]) alike.notices, alike.block, alike.primary⟩

omit [Storage σ] [Storage τ] in
theorem sim_answer (x : Except Stop α) (survives : ∀ e s t, R s t → E e s t) :
    Sim (Alike R) (Exec.ofExcept x) (Exec.ofExcept x) (fun _ => Alike R) (fun e => Alike (E e)) :=
  Sim.ofExcept (fun _ _ _ => id) (fun e _ _ alike => alike.mono (survives e))

omit [Storage σ] [Storage τ] in
theorem sim_passed {call : Exec Stop σ Unit} {call' : Exec Stop τ Unit} (same : Sim R call call' (fun _ => R) E) (notice : Notice) :
    Sim (Alike R)
      (do ListenerManager.onPrimary call (.ok ()); ListenerManager.notify notice)
      (do ListenerManager.onPrimary call' (.ok ()); ListenerManager.notify notice)
      (fun _ => Alike R) (fun e => Alike (E e)) :=
  (sim_onPrimary same (.ok ())).bind fun _ => sim_notify notice

variable [Sha256] (agrees : PrimaryListener.Agrees R F E)

include agrees

theorem sim_applyTransaction (raw rawResult : ByteString) :
    Sim (Alike R) (ListenerManager.applyTransaction raw rawResult) (ListenerManager.applyTransaction raw rawResult)
      (fun _ => Alike R) (fun e => Alike (E e)) := by
  apply (sim_answer (ListenerManager.parseHeader raw) agrees.survives).bind
  rintro ⟨hdr, data, buf⟩
  apply (sim_answer (ListenerManager.consume Serial.read buf) agrees.survives).bind
  rintro ⟨msgType, buf⟩
  apply (sim_onPrimary (agrees.validate .apply hdr data) (.ok ())).bind
  intro _
  apply (sim_answer (ListenerManager.consume (Msg.read msgType) buf) fun e s t related =>
    agrees.survives e s t (agrees.weaker s t related)).bind
  rintro ⟨msg, _⟩
  apply Sim.get_bind
  intro m n alike
  rw [alike.block]
  refine (sim_onPrimary (agrees.process n.block hdr msg) _).bind (fun res => ?_) m n alike
  exact (sim_notify _).bind fun _ => Sim.pure fun _ _ => id

theorem sim_checkTransaction (raw : ByteString) :
    Sim (Alike R) (ListenerManager.checkTransaction raw) (ListenerManager.checkTransaction raw)
      (fun _ => Alike R) (fun e => Alike (E e)) := by
  apply Sim.get_bind
  intro m n alike
  have both : m.primary.isNone = n.primary.isNone := by
    rcases alike.primary with ⟨first, second⟩ | ⟨s, o, first, second, _⟩ <;> rw [first, second] <;> rfl
  rw [both]
  have asked : Sim (Alike R)
      (do
        let parsed ← Exec.ofExcept (ListenerManager.parseHeader raw)
        ListenerManager.onPrimary (PrimaryListener.validateTransaction .check parsed.1 parsed.2.1) (.ok ()))
      (do
        let parsed ← Exec.ofExcept (ListenerManager.parseHeader raw)
        ListenerManager.onPrimary (PrimaryListener.validateTransaction .check parsed.1 parsed.2.1) (.ok ()))
      (fun _ => Alike R) (fun e => Alike (E e)) := by
    apply (sim_answer (ListenerManager.parseHeader raw) agrees.survives).bind
    rintro ⟨hdr, data, _⟩
    exact (sim_onPrimary (agrees.validate .check hdr data) (.ok ())).mono (fun _ _ => id)
      (fun _ _ _ after => after.mono agrees.weaker) (fun _ _ _ => id)
  cases n.primary.isNone with
  | true => exact Exec.InStep.error (alike.mono (agrees.survives _))
  | false => exact asked m n alike

theorem sim_call_exec (call : Call) :
    Sim (Alike R) call.exec call.exec (fun _ => Alike R) (fun e => Alike (E e)) := by
  have nothing : ∀ _ : Unit, Sim (Alike R) (Pure.pure [] : Exec Stop (ListenerManager σ) ByteString) (Pure.pure [])
      (fun _ => Alike R) (fun e => Alike (E e)) := fun _ => Sim.pure fun _ _ => id
  cases call with
  | initChain raw => exact (sim_passed agrees.init _).bind nothing
  | beginBlock timestamp proposer =>
    have block : Sim (Alike R) (Exec.modify fun m => { m with block := { timestamp, height := 0 + 1 } })
        (Exec.modify fun m => { m with block := { timestamp, height := 0 + 1 } }) (fun _ => Alike R) (fun e => Alike (E e)) :=
      fun _ _ alike => .ok ⟨alike.notices, rfl, alike.primary⟩
    exact (block.bind fun _ => sim_passed (agrees.begin _) _).bind nothing
  | checkTransaction raw => exact (sim_checkTransaction agrees raw).bind nothing
  | applyTransaction raw rawResult => exact sim_applyTransaction agrees raw rawResult
  | commitBlock =>
    refine Sim.bind (Sim.get_bind fun m n alike => ?_) nothing
    rw [alike.block]
    exact sim_passed (agrees.commit n.block) _ m n alike

end

end BandChain
