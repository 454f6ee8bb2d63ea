import BandChain.Contract.Ledger
import BandChain.Listener.Refine

/-! The supply of a token against the balances and the reserves, over any sequence of token calls. -/

namespace BandChain

/-- A call to a token contract. The contract is loaded first; `init` is reached through `Storage::create`. -/
inductive TokenCall where
  | init (token baseToken : Ident) (curve : Curve)
  | mint (token receiver : Ident) (value : UInt256)
  | transfer (token src dst : Ident) (value : UInt256)
  | buy (token buyer : Ident) (value : UInt256)
  | sell (token seller : Ident) (value : UInt256)
  | flush

namespace TokenCall

/-- The call, with the base amount it returns. -/
def exec {σ : Type} [Storage σ] : TokenCall → Exec Stop σ UInt256
  | init token baseToken curve => do
    Storage.create (.token token) (Token.init token baseToken curve)
    return 0
  | mint token receiver value => do
    Storage.load (.token token)
    Token.mint token receiver value
    return 0
  | transfer token src dst value => do
    Storage.load (.token token)
    Token.transfer token src dst value
    return 0
  | buy token buyer value => do
    Storage.load (.token token)
    Token.buy token buyer value
  | sell token seller value => do
    Storage.load (.token token)
    Token.sell token seller value
  | flush => do
    Storage.flush
    Storage.switchToApply
    return 0

/-- What a call that returned `base` adds to the net base amount paid for each token. -/
def paid : TokenCall → UInt256 → Ident → ℤ
  | buy token _ _, base, t => if t = token then base.val else 0
  | sell token _ _, base, t => if t = token then -base.val else 0
  | init _ _ _, _, _ | mint _ _ _, _, _ | transfer _ _ _ _, _, _ | flush, _, _ => 0

end TokenCall

/-- A storage in apply mode, and the net base amount paid for each token so far. -/
structure Book (σ : Type) where
  storage : σ
  net : Ident → ℤ

namespace Book

variable {σ : Type} [Storage σ]

/-- A call that throws is undone. -/
def step (b : Book σ) (call : TokenCall) : Book σ :=
  match call.exec b.storage with
  | (.ok base, storage) => { storage, net := fun t => b.net t + call.paid base t }
  | (.error _, _) => b

def run (b : Book σ) (calls : List TokenCall) : Book σ := calls.foldl step b

end Book

def Book.blank : Book (StorageMap Layout.free) := { storage := { currentCache := some .apply }, net := fun _ => 0 }

/-- `+storage.load<T>(key).field`. -/
def Storage.look {σ : Type} [Storage σ] (c : Cell) (s : σ) : Except Stop c.Val :=
  ((do Storage.load c.contract; Storage.read c : Exec Stop σ c.Val) s).1

theorem free_alone {x y : Slot} (same : Layout.free.key x = Layout.free.key y) : x = y := same

section

variable {K : Type} [DecidableEq K] {L : Layout K} {o : Overlay L} {c : Cell}

theorem look_of_found (found : o.hasContract c.contract = .ok true) : Storage.look c o = o.value c :=
  congrArg Prod.fst (Exec.bind_of_ok (Overlay.load_of_found found))

theorem found_of_look {v : c.Val} (looked : Storage.look c o = .ok v) : o.hasContract c.contract = .ok true := by
  rcases loaded : Overlay.load c.contract o with ⟨e | _, o'⟩
  · have failed : Storage.look c o = .error e := congrArg Prod.fst (Exec.bind_of_error loaded)
    rw [failed] at looked
    cases looked
  · exact (Overlay.load_ok loaded).2

theorem sim_look {s : StorageMap L} (live : Live .apply True [] s o) (c : Cell) : Storage.look c s = Storage.look c o := by
  have both : Exec.Sim (Live (L := L) .apply True []) (do Storage.load c.contract; Storage.read c)
      (do Storage.load c.contract; Storage.read c) (fun _ _ _ => True) (fun _ _ _ => True) := by
    apply Exec.Sim.bind ((sim_load (readable_apply c.contract)).mono (fun _ _ => id) (fun _ _ _ => id) (fun _ _ _ _ => trivial))
    intro _
    exact (sim_read List.mem_cons_self (readable_apply c.contract)).mono (fun _ _ => id) (fun _ _ _ _ => trivial)
      (fun _ _ _ _ => trivial)
  exact (both s o live).outcome

end

/-! ### The invariant of the overlay -/

/-- Every balance and every supply can be read. -/
structure Legible {K : Type} {L : Layout K} (o : Overlay L) : Prop where
  balances : ∀ t u, ∃ n : UInt256, o.value (.balances t u) = .ok n
  supply : ∀ t, ∃ n : UInt256, o.value (.currentSupply t) = .ok n

theorem Legible.write {K : Type} {L : Layout K} {o : Overlay L} (legible : Legible o) (c : Cell) {v : c.Val}
    (whole : intact v = true) : Legible (o.write c v) where
  balances t u := by
    by_cases same : .balances t u = c
    · subst same
      exact ⟨v, Overlay.write_value_self _ _ _ whole⟩
    · rw [Overlay.write_value_ne _ _ _ same]
      exact legible.balances t u
  supply t := by
    by_cases same : .currentSupply t = c
    · subst same
      exact ⟨v, Overlay.write_value_self _ _ _ whole⟩
    · rw [Overlay.write_value_ne _ _ _ same]
      exact legible.supply t

structure Accounted (o : Overlay Layout.free) (net : Ident → ℤ) : Prop where
  current : o.currentCache = some .apply
  balanced : (o.ledger net).Balanced
  /-- A token that does not exist has never been issued or paid for. -/
  unissued : ∀ t, o.hasContract (.token t) = .ok false → o.value (.currentSupply t) = .ok (0 : UInt256) ∧ net t = 0
  legible : Legible o
  whole : ∀ c val, o.pending c = some val → intact val = true

theorem whole_write {K : Type} {L : Layout K} {o : Overlay L} {c : Cell} {v : c.Val}
    (whole : ∀ c val, o.pending c = some val → intact val = true) (written : intact v = true) (c' : Cell) (val : c'.Val)
    (held : (o.write c v).pending c' = some val) : intact val = true := by
  by_cases same : c' = c
  · subst same
    rw [Overlay.write_pending_self] at held
    exact Option.some.inj held ▸ written
  · rw [Overlay.write_pending_ne _ _ _ same] at held
    exact whole c' val held

theorem accounted_blank : Accounted { currentCache := some .apply } (fun _ => 0) where
  current := rfl
  balanced := by
    intro b
    have none : ∀ t u : Ident, amount (Overlay.value ({ currentCache := some .apply } : Overlay Layout.free) (.balances t u)) = 0 :=
      fun _ _ => rfl
    simp only [Overlay.ledger, Ledger.held, Ledger.locked, none, Finset.sum_const_zero]
    rfl
  unissued := fun _ _ => ⟨rfl, rfl⟩
  legible := ⟨fun _ _ => ⟨0, rfl⟩, fun _ => ⟨0, rfl⟩⟩
  whole := fun _ _ held => by cases held

namespace Accounted

variable {o o' : Overlay Layout.free} {net : Ident → ℤ} {token : Ident}

open Overlay (write_value_ne)

theorem of_ledger (h : Accounted o net) {net' : Ident → ℤ} (found : o.hasContract (.token token) = .ok true)
    (current : o'.currentCache = o.currentCache) (balanced : (o'.ledger net').Balanced)
    (existence : ∀ k, o'.hasContract k = o.hasContract k)
    (others : ∀ t, t ≠ token → o'.value (.currentSupply t) = o.value (.currentSupply t) ∧ net' t = net t)
    (legible : Legible o') (whole : ∀ c val, o'.pending c = some val → intact val = true) : Accounted o' net' := by
  refine ⟨current.trans h.current, balanced, fun t absent => ?_, legible, whole⟩
  rw [existence] at absent
  have other : t ≠ token := by
    rintro rfl
    rw [found] at absent
    cases absent
  obtain ⟨supply, paid⟩ := others t other
  rw [supply, paid]
  exact h.unissued t absent

theorem mint {receiver : Ident} {value : UInt256} (h : Accounted o net) (found : o.hasContract (.token token) = .ok true)
    (m : Minted o token receiver value) : Accounted m.after net := by
  refine h.of_ledger found rfl ?_ (fun _ => rfl) (fun t other => ⟨?_, rfl⟩) ((h.legible.write _ rfl).write _ rfl)
    (whole_write (whole_write h.whole rfl) rfl)
  · rw [m.ledger]
    exact h.balanced.mint _ _ _
  · rw [Minted.after, write_value_ne _ _ _ (by simpa using other), write_value_ne _ _ _ (by simp)]

theorem transfer {src dst : Ident} {value : UInt256} (h : Accounted o net) (found : o.hasContract (.token token) = .ok true)
    (m : Transferred o token src dst value) : Accounted m.after net := by
  refine h.of_ledger found rfl ?_ (fun _ => rfl) (fun t _ => ⟨?_, rfl⟩) ((h.legible.write _ rfl).write _ rfl)
    (whole_write (whole_write h.whole rfl) rfl)
  · rw [m.ledger]
    exact h.balanced.transfer _ _ _ _
  · rw [Transferred.after, write_value_ne _ _ _ (by simp), write_value_ne _ _ _ (by simp)]

theorem buy {buyer : Ident} {value : UInt256} (h : Accounted o net) (found : o.hasContract (.token token) = .ok true)
    (p : Purchase o token buyer value) : Accounted p.after (fun t => net t + if t = token then (p.spent.val : ℤ) else 0) := by
  refine h.of_ledger found rfl ?_ (fun _ => rfl) (fun t other => ⟨?_, by rw [if_neg other, add_zero]⟩)
    (((h.legible.write _ rfl).write _ rfl).write _ rfl) (whole_write (whole_write (whole_write h.whole rfl) rfl) rfl)
  · have ledger : p.after.ledger (fun t => net t + if t = token then (p.spent.val : ℤ) else 0) = _ := p.ledger
    rw [ledger]
    exact h.balanced.trade (p.toQuote.base found) _ _ _
  · rw [Purchase.after, write_value_ne _ _ _ (by simpa using other), write_value_ne _ _ _ (by simp),
      write_value_ne _ _ _ (by simp)]

theorem sell {seller : Ident} {value : UInt256} (h : Accounted o net) (found : o.hasContract (.token token) = .ok true)
    (p : Sale o token seller value) : Accounted p.after (fun t => net t + if t = token then -(p.received.val : ℤ) else 0) := by
  refine h.of_ledger found rfl ?_ (fun _ => rfl) (fun t other => ⟨?_, by rw [if_neg other, add_zero]⟩)
    (((h.legible.write _ rfl).write _ rfl).write _ rfl) (whole_write (whole_write (whole_write h.whole rfl) rfl) rfl)
  · have ledger : p.after.ledger (fun t => net t + if t = token then -(p.received.val : ℤ) else 0) = _ := p.ledger
    rw [ledger]
    exact h.balanced.trade (p.toQuote.base found) _ _ _
  · rw [Sale.after, write_value_ne _ _ _ (by simpa using other), write_value_ne _ _ _ (by simp),
      write_value_ne _ _ _ (by simp)]

theorem init {base : Ident} {curve : Curve} (h : Accounted o net) (absent : o.hasContract (.token token) = .ok false)
    (whole : intact curve = true) : Accounted (o.withToken token base curve) net := by
  have alone (c : Cell) : Layout.free.key (.data c) ≠ Layout.free.key (.contract (.token token)) := fun same => by
    cases free_alone same
  obtain ⟨unissued, unpaid⟩ := h.unissued token absent
  have marked (c : Cell) : (o.mark (.token token)).value c = o.value c := Overlay.value_mark h.current (alone c)
  have legible : Legible (o.mark (.token token)) :=
    ⟨fun t u => by rw [marked]; exact h.legible.balances t u, fun t => by rw [marked]; exact h.legible.supply t⟩
  refine ⟨(Overlay.withToken_current ..).trans h.current, ?_, fun t missing => ?_,
    ((legible.write _ whole).write _ rfl).write _ rfl,
    whole_write (whole_write (whole_write (by rw [Overlay.mark_pending]; exact h.whole) whole) rfl) rfl⟩
  · rw [ledger_withToken h.current alone unissued]
    refine h.balanced.create base ?_ unpaid
    simp only [Overlay.ledger, Overlay.baseOf, absent]
  · have other : t ≠ token := by
      rintro rfl
      rw [show (o.withToken t base curve).hasContract (.token t) = .ok true from Overlay.hasContract_mark_self h.current _] at missing
      cases missing
    have before : o.hasContract (.token t) = .ok false :=
      (Overlay.hasContract_mark_ne h.current (by simpa using other)).symm.trans missing
    rw [Overlay.withToken, write_value_ne _ _ _ (by simpa using other), write_value_ne _ _ _ (by simp),
      write_value_ne _ _ _ (by simp), marked]
    exact h.unissued t before

theorem flush (h : Accounted o net) : Accounted o.rewound net := by
  have separate : o.Separate := fun _ _ _ _ same => Slot.data.inj (free_alone same)
  have value (c : Cell) : o.rewound.value c = o.value c :=
    Overlay.value_rewound h.current separate (h.whole c) fun _ same _ => Slot.data.inj (free_alone same)
  have contract (k : ContractKey) : o.rewound.hasContract k = o.hasContract k :=
    Overlay.hasContract_rewound h.current fun _ same => by cases free_alone same
  refine ⟨rfl, ?_, fun t absent => ?_, ⟨fun t u => ?_, fun t => ?_⟩, fun _ _ held => by cases held⟩
  · rw [ledger_rewound h.current free_alone h.whole]
    exact h.balanced
  · rw [value]
    exact h.unissued t ((contract _).symm.trans absent)
  · rw [value]
    exact h.legible.balances t u
  · rw [value]
    exact h.legible.supply t

/-- Every token call keeps the identity. -/
theorem exec {call : TokenCall} {base : UInt256} (h : Accounted o net) (ran : call.exec o = (.ok base, o')) :
    Accounted o' (fun t => net t + call.paid base t) := by
  have unpaid : (fun t => net t + 0) = net := funext fun t => add_zero _
  cases call with
  | init token baseToken curve =>
    obtain ⟨_, _, created, ran⟩ := Exec.bind_ok ran
    obtain ⟨_, rfl⟩ := Prod.mk.inj ran
    obtain ⟨absent, _, whole, rfl⟩ := create_token_ok created
    simp only [TokenCall.paid, unpaid]
    exact h.init absent whole
  | mint token receiver value =>
    obtain ⟨_, _, loaded, ran⟩ := Exec.bind_ok ran
    obtain ⟨rfl, found⟩ := Overlay.load_ok loaded
    obtain ⟨_, _, minted, ran⟩ := Exec.bind_ok ran
    obtain ⟨_, rfl⟩ := Prod.mk.inj ran
    obtain ⟨m, rfl⟩ := mint_ok minted
    simp only [TokenCall.paid, unpaid]
    exact h.mint found m
  | transfer token src dst value =>
    obtain ⟨_, _, loaded, ran⟩ := Exec.bind_ok ran
    obtain ⟨rfl, found⟩ := Overlay.load_ok loaded
    obtain ⟨_, _, moved, ran⟩ := Exec.bind_ok ran
    obtain ⟨_, rfl⟩ := Prod.mk.inj ran
    obtain ⟨m, rfl⟩ := transfer_ok moved
    simp only [TokenCall.paid, unpaid]
    exact h.transfer found m
  | buy token buyer value =>
    obtain ⟨_, _, loaded, ran⟩ := Exec.bind_ok ran
    obtain ⟨rfl, found⟩ := Overlay.load_ok loaded
    obtain ⟨p, rfl, rfl⟩ := buy_ok ran
    exact h.buy found p
  | sell token seller value =>
    obtain ⟨_, _, loaded, ran⟩ := Exec.bind_ok ran
    obtain ⟨rfl, found⟩ := Overlay.load_ok loaded
    obtain ⟨p, rfl, rfl⟩ := sell_ok ran
    exact h.sell found p
  | flush =>
    have flushed : Overlay.flush o = (.ok (), o.committed) := Overlay.flush_apply fun _ => by rw [h.current]; simp
    have run : TokenCall.flush.exec o = (.ok 0, o.rewound) := Exec.bind_of_ok flushed
    obtain ⟨_, rfl⟩ := Prod.mk.inj (run.symm.trans ran)
    simp only [TokenCall.paid, unpaid]
    exact h.flush

end Accounted

/-! ### The two books -/

/-- A book kept on a `StorageMap` and the same book kept on the overlay. -/
structure Tied (b : Book (StorageMap Layout.free)) (b' : Book (Overlay Layout.free)) : Prop where
  live : Live .apply True [] b.storage b'.storage
  net : b.net = b'.net

theorem sim_exec (call : TokenCall) :
    Exec.Sim (Live (L := Layout.free) .apply True []) call.exec call.exec (fun _ => Live .apply True [])
      (fun _ _ _ => True) := by
  have passed {α : Type} {x : Exec Stop (StorageMap Layout.free) α} {y : Exec Stop (Overlay Layout.free) α}
      (same : Exec.Lockstep (Live .apply True []) x y) :
      Exec.Sim (Live .apply True []) x y (fun _ => Live .apply True []) (fun _ _ _ => True) :=
    same.mono (fun _ _ => id) (fun _ _ _ => id) (fun _ _ _ _ => trivial)
  have serves : Storage.Serves (fun ks => Live (L := Layout.free) .apply True ks) := live_serves
  have loaded (token : Ident) : .token token ∈ [ContractKey.token token] := List.mem_singleton.mpr rfl
  cases call with
  | init token baseToken curve =>
    exact passed ((lockstep_create (fun _ same => by cases free_alone same)
      (lockstep_token_init live_writes List.mem_cons_self baseToken curve)).bind fun _ => Exec.Lockstep.pure _)
  | mint token receiver value =>
    exact passed (serves.with_load ((lockstep_mint serves (loaded token) receiver value).bind fun _ => Exec.Lockstep.pure _))
  | transfer token src dst value =>
    exact passed (serves.with_load ((lockstep_transfer serves (loaded token) src dst value).bind fun _ => Exec.Lockstep.pure _))
  | buy token buyer value => exact passed (serves.with_load (lockstep_buy serves (loaded token) buyer value))
  | sell token seller value => exact passed (serves.with_load (lockstep_sell serves (loaded token) seller value))
  | flush =>
    apply Exec.Sim.bind (sim_flush.mono (fun s o live => ⟨live.toLinked, fun _ _ _ _ same => Slot.data.inj (free_alone same),
      fun _ => by rw [← live.overlay, show s.overlay.currentCache = some .apply from live.current]; simp⟩)
      (fun _ _ _ => id) (fun _ _ _ => False.elim))
    intro _
    apply Exec.Sim.bind (sim_switchToApply.mono (fun _ _ settled => ⟨settled.toLinked, fun _ => settled.clean⟩)
      (fun _ _ _ => id) (fun _ _ _ => False.elim))
    exact fun _ => Exec.Sim.pure fun _ _ => id

theorem Tied.step {b : Book (StorageMap Layout.free)} {b' : Book (Overlay Layout.free)} (tied : Tied b b') (call : TokenCall) :
    Tied (b.step call) (b'.step call) := by
  have both := sim_exec call _ _ tied.live
  unfold Book.step
  rcases left : call.exec b.storage with ⟨e | base, s⟩ <;> rw [left] at both
  · obtain ⟨_, right, _⟩ := both.of_error
    rw [right]
    exact tied
  · obtain ⟨_, right, live⟩ := both.of_ok
    rw [right]
    exact ⟨live, by rw [tied.net]⟩

theorem Accounted.step {b : Book (Overlay Layout.free)} (h : Accounted b.storage b.net) (call : TokenCall) :
    Accounted (b.step call).storage (b.step call).net := by
  unfold Book.step
  rcases ran : call.exec b.storage with ⟨_ | base, o'⟩
  · exact h
  · exact h.exec ran

/-- Every run of the book has its overlay, and keeps the identity there. -/
theorem Tied.run {b : Book (StorageMap Layout.free)} {b' : Book (Overlay Layout.free)} (tied : Tied b b')
    (accounted : Accounted b'.storage b'.net) (calls : List TokenCall) :
    Tied (b.run calls) (b'.run calls) ∧ Accounted (b'.run calls).storage (b'.run calls).net := by
  induction calls generalizing b b' with
  | nil => exact ⟨tied, accounted⟩
  | cons call calls ih => exact ih (tied.step call) (accounted.step call)

theorem tied_blank : Tied Book.blank { storage := { currentCache := some .apply }, net := fun _ => 0 } where
  live := by
    have settled : Settled Book.blank.storage { currentCache := some .apply } :=
      settled_of_empty rfl rfl rfl rfl rfl fun _ => rfl
    exact
      { settled with
        current := rfl
        clean := fun _ => settled.clean
        loaded := fun _ member => by cases member
        agree := fun check => by cases check }
  net := rfl

/-- `storage.load<Token>(key)` succeeds. -/
def Storage.Loads {σ : Type} [Storage σ] (t : Ident) (s : σ) : Prop := (Storage.load (.token t) s).1 = .ok ()

def Storage.baseOf {σ : Type} [Storage σ] (t : Ident) (s : σ) : Option Ident := (Storage.look (.baseIdent t) s).toOption

section

variable {K : Type} [DecidableEq K] {L : Layout K} {o : Overlay L}

theorem found_of_loads {s : StorageMap L} {t : Ident} (live : Live .apply True [] s o) (loads : Storage.Loads t s) :
    o.hasContract (.token t) = .ok true := by
  have both := sim_load (readable_apply (.token t)) s o live
  rw [show StorageMap.load (.token t) s = (.ok (), (StorageMap.load (.token t) s).2) from Prod.ext loads rfl] at both
  obtain ⟨_, loaded, _⟩ := both.of_ok
  exact (Overlay.load_ok loaded).2

theorem loads_iff {s : StorageMap L} {t : Ident} (live : Live .apply True [] s o) :
    Storage.Loads t s ↔ o.hasContract (.token t) = .ok true := by
  refine ⟨found_of_loads live, fun found => ?_⟩
  refine (sim_load (readable_apply (.token t)) s o live).outcome.trans ?_
  exact congrArg Prod.fst (Overlay.load_of_found found)

theorem baseOf_overlay (t : Ident) : Storage.baseOf t o = o.baseOf t := by
  rw [Overlay.baseOf, Storage.baseOf]
  rcases answer : o.hasContract (.token t) with e | _ | _
  · rcases looked : Storage.look (.baseIdent t) o with _ | v
    · rfl
    · cases answer.symm.trans (found_of_look looked)
  · rcases looked : Storage.look (.baseIdent t) o with _ | v
    · rfl
    · cases answer.symm.trans (found_of_look looked)
  · rw [look_of_found answer]

end

/-- After any token calls, the supply of a token is what users hold of it and what was paid, and not got back, for the
tokens based on it. -/
theorem supply_accounted (calls : List TokenCall) {b : Ident} (loads : Storage.Loads b (Book.blank.run calls).storage) :
    ∃ supply, Storage.look (.currentSupply b) (Book.blank.run calls).storage = .ok supply ∧
      (∀ user, ∃ n, Storage.look (.balances b user) (Book.blank.run calls).storage = .ok n) ∧
      (supply.val : ℤ) = ∑ user, amount (Storage.look (.balances b user) (Book.blank.run calls).storage) +
        ∑ c with Storage.baseOf c (Book.blank.run calls).storage = some b, (Book.blank.run calls).net c := by
  obtain ⟨⟨live, net⟩, accounted⟩ := tied_blank.run accounted_blank calls
  have found := found_of_loads live loads
  obtain ⟨supply, read⟩ := accounted.legible.supply b
  have balance (user : Ident) := look_of_found (c := .balances b user) found
  have supplied := look_of_found (c := .currentSupply b) found
  have based (c : Ident) : Storage.baseOf c (Book.blank.run calls).storage = _ :=
    (congrArg Except.toOption (sim_look live (.baseIdent c))).trans (baseOf_overlay c)
  simp only [sim_look live, net, based]
  refine ⟨supply, supplied.trans read, fun user => ?_, ?_⟩
  · rw [balance user]
    exact accounted.legible.balances b user
  · have balanced := accounted.balanced b
    simp only [Overlay.ledger, Ledger.held, Ledger.locked, read, ← balance] at balanced
    exact balanced

/-- A token that is its own base, minted once and bought once. -/
def ownBase : List TokenCall :=
  let band : Ident := ListenerManager.genesis.token
  let user : Ident := ListenerManager.genesis.account
  [.init band band Curve.linear, .mint band user 7, .flush, .buy band user 3]

theorem supply_accounted_ownBase :
    ∃ supply, Storage.look (.currentSupply ListenerManager.genesis.token) (Book.blank.run ownBase).storage = .ok supply ∧
      (∀ user, ∃ n, Storage.look (.balances ListenerManager.genesis.token user) (Book.blank.run ownBase).storage = .ok n) ∧
      (supply.val : ℤ) =
        ∑ user, amount (Storage.look (.balances ListenerManager.genesis.token user) (Book.blank.run ownBase).storage) +
        ∑ c with Storage.baseOf c (Book.blank.run ownBase).storage = some ListenerManager.genesis.token,
          (Book.blank.run ownBase).net c :=
  supply_accounted ownBase (by unfold Storage.Loads; decide +kernel)

end BandChain
