import BandChain.Listener.Effect

/-!
What a node is for: accounts with nonces, tokens with their terms, and balances. Nothing here has a key, an encoding or a
cache; `Property/Chain.lean` shows that a node does what this machine does.
-/

namespace BandChain

/-- A token without terms took its name when its creation was refused. -/
structure World where
  accounts : Ident → Option VerifyKey := fun _ => none
  nonce : Ident → Nat := fun _ => 0
  tokens : Ident → Bool := fun _ => false
  terms : Ident → Option (Curve × Ident) := fun _ => none
  supply : Ident → Nat := fun _ => 0
  balance : Ident → Ident → Nat := fun _ _ => 0

namespace World

variable (w : World)

def setBalance (t u : Ident) (n : Nat) : World :=
  { w with balance := Function.update w.balance t (Function.update (w.balance t) u n) }

def setSupply (t : Ident) (n : Nat) : World := { w with supply := Function.update w.supply t n }

def withAccount (a : Ident) (vk : VerifyKey) : World :=
  { w with accounts := Function.update w.accounts a (some vk), nonce := Function.update w.nonce a 0 }

def takeName (t : Ident) : World := { w with tokens := Function.update w.tokens t true }

def withToken (t base : Ident) (curve : Curve) : World :=
  { w with tokens := Function.update w.tokens t true, terms := Function.update w.terms t (some (curve, base)),
           supply := Function.update w.supply t 0 }

def credit (t u : Ident) (n : Nat) : Option World :=
  if w.balance t u + n < 2 ^ 256 then some (w.setBalance t u (w.balance t u + n)) else none

def debit (t u : Ident) (n : Nat) : Option World :=
  if n ≤ w.balance t u then some (w.setBalance t u (w.balance t u - n)) else none

def issue (t : Ident) (n : Nat) : Option World :=
  if w.supply t + n < 2 ^ 256 then some (w.setSupply t (w.supply t + n)) else none

def redeem (t : Ident) (n : Nat) : Option World :=
  if n ≤ w.supply t then some (w.setSupply t (w.supply t - n)) else none

def price (curve : Curve) (n : Nat) : Option Nat :=
  if fits : n < 2 ^ 256 then (curve.apply ⟨n, fits⟩).toOption.map UInt256.val else none

/-- What the curve asks to go from one supply to another. -/
def cost (curve : Curve) (low high : Nat) : Option Nat := do
  let upper ← price curve high
  let lower ← price curve low
  if lower ≤ upper then return upper - lower else none

def buy (t buyer : Ident) (n : Nat) : Option (Response × World) := do
  let (curve, base) ← w.terms t
  if !w.tokens base then none
  let spent ← cost curve (w.supply t) (w.supply t + n)
  let w ← w.debit base buyer spent
  let w ← w.credit t buyer n
  return (.buyToken { baseToken := base, spent := .ofNat spent }, ← w.issue t n)

def sell (t seller : Ident) (n : Nat) : Option (Response × World) := do
  let (curve, base) ← w.terms t
  if !w.tokens base then none
  let received ← cost curve (w.supply t - n) (w.supply t)
  let w ← w.debit t seller n
  let w ← w.credit base seller received
  return (.sellToken { baseToken := base, received := .ofNat received }, ← w.redeem t n)

/-- What a message of `user` does, unless it is refused. -/
def execute (user : Ident) : Msg → Option (Response × World)
  | .createAccount msg => if (w.accounts msg.user).isSome then none else some (.createAccount, w.withAccount msg.user msg.vk)
  | .createToken msg =>
    if w.tokens msg.createdToken || !(w.tokens msg.baseToken || msg.baseToken = msg.createdToken) then none
    else some (.createToken, w.withToken msg.createdToken msg.baseToken msg.curve)
  | .mintToken msg =>
    if !w.tokens msg.token then none
    else do
      let w ← w.credit msg.token user msg.value.val
      return (.mintToken, ← w.issue msg.token msg.value.val)
  | .transferToken msg =>
    if !w.tokens msg.token then none
    else do
      let w ← w.debit msg.token user msg.value.val
      return (.transferToken, ← w.credit msg.token msg.dest msg.value.val)
  | .buyToken msg => if !w.tokens msg.token then none else w.buy msg.token user msg.value.val
  | .sellToken msg => if !w.tokens msg.token then none else w.sell msg.token user msg.value.val
  | .addWikiEdge _ => some (.addWikiEdge, w)
  | .removeWikiEdge _ => some (.removeWikiEdge, w)

/-- What a refused message leaves: the name of a token over a base that does not exist is taken. -/
def refuse : Msg → World
  | .createToken msg => w.takeName msg.createdToken
  | .createAccount _ | .mintToken _ | .transferToken _ | .buyToken _ | .sellToken _ | .addWikiEdge _ | .removeWikiEdge _ => w

theorem takeName_tokens (w : World) (t t' : Ident) : (w.takeName t).tokens t' = if t' = t then true else w.tokens t' :=
  Function.update_apply ..

theorem setSupply_supply (w : World) (t : Ident) (n : Nat) (t' : Ident) : (w.setSupply t n).supply t' = if t' = t then n else w.supply t' :=
  Function.update_apply ..

theorem setBalance_balance (w : World) (t u : Ident) (n : Nat) (t' u' : Ident) :
    (w.setBalance t u n).balance t' u' = if t' = t ∧ u' = u then n else w.balance t' u' := by
  unfold setBalance
  by_cases token : t' = t
  · subst token
    by_cases user : u' = u
    · simp [user]
    · simp [user]
  · simp [token]

variable {w} {w' : World} {t u : Ident} {n : Nat}

theorem credit_some : w.credit t u n = some w' ↔ w.balance t u + n < 2 ^ 256 ∧ w.setBalance t u (w.balance t u + n) = w' := by
  rw [credit, Option.ite_none_right_eq_some, Option.some.injEq]

theorem debit_some : w.debit t u n = some w' ↔ n ≤ w.balance t u ∧ w.setBalance t u (w.balance t u - n) = w' := by
  rw [debit, Option.ite_none_right_eq_some, Option.some.injEq]

theorem issue_some : w.issue t n = some w' ↔ w.supply t + n < 2 ^ 256 ∧ w.setSupply t (w.supply t + n) = w' := by
  rw [issue, Option.ite_none_right_eq_some, Option.some.injEq]

theorem redeem_some : w.redeem t n = some w' ↔ n ≤ w.supply t ∧ w.setSupply t (w.supply t - n) = w' := by
  rw [redeem, Option.ite_none_right_eq_some, Option.some.injEq]

theorem price_some {curve : Curve} {p : Nat} : price curve n = some p ↔ ∃ k c, k.val = n ∧ curve.apply k = .ok c ∧ c.val = p := by
  unfold price
  constructor
  · intro priced
    split at priced
    · rename_i fits
      obtain ⟨c, applied, rfl⟩ := Option.map_eq_some_iff.mp priced
      refine ⟨⟨n, fits⟩, c, rfl, ?_, rfl⟩
      rcases applies : curve.apply ⟨n, fits⟩ with e | c' <;> rw [applies] at applied <;> cases applied
      rfl
    · cases priced
  · rintro ⟨k, c, rfl, applied, rfl⟩
    rw [dif_pos k.isLt, applied]
    rfl

theorem cost_some {curve : Curve} {low high d : Nat} :
    cost curve low high = some d ↔ ∃ upper lower, price curve high = some upper ∧ price curve low = some lower ∧ lower ≤ upper ∧
      upper - lower = d := by
  unfold cost
  simp only [Option.bind_eq_bind, Option.bind_eq_some_iff]
  constructor
  · rintro ⟨upper, first, lower, second, paid⟩
    split at paid
    · exact ⟨upper, lower, first, second, ‹_›, Option.some.inj paid⟩
    · cases paid
  · rintro ⟨upper, lower, first, second, le, rfl⟩
    exact ⟨upper, first, lower, second, if_pos le⟩

theorem buy_some {res : Response} : w.buy t u n = some (res, w') ↔ ∃ curve base spent w₁ w₂, w.terms t = some (curve, base) ∧
    w.tokens base = true ∧ cost curve (w.supply t) (w.supply t + n) = some spent ∧ w.debit base u spent = some w₁ ∧
      w₁.credit t u n = some w₂ ∧ w₂.issue t n = some w' ∧ .buyToken { baseToken := base, spent := .ofNat spent } = res := by
  unfold buy
  simp only [Option.bind_eq_bind, Option.bind_eq_some_iff, Prod.exists]
  constructor
  · rintro ⟨curve, base, terms, done⟩
    split at done
    · cases done
    · rename_i there
      obtain ⟨spent, price, w₁, paid, w₂, credited, last, issued, made⟩ := by
        simpa only [Option.pure_def, Option.bind_eq_bind, Option.bind_eq_some_iff] using done
      obtain ⟨rfl, rfl⟩ := Prod.mk.inj (Option.some.inj made)
      exact ⟨curve, base, spent, w₁, w₂, terms, by simpa using there, price, paid, credited, issued, rfl⟩
  · rintro ⟨curve, base, spent, w₁, w₂, terms, there, price, paid, credited, issued, rfl⟩
    refine ⟨curve, base, terms, ?_⟩
    simp only [there, Bool.not_true, Bool.false_eq_true, if_false, price, paid, credited, issued, Option.bind_some, Option.pure_def]

theorem sell_some {res : Response} : w.sell t u n = some (res, w') ↔ ∃ curve base received w₁ w₂, w.terms t = some (curve, base) ∧
    w.tokens base = true ∧ cost curve (w.supply t - n) (w.supply t) = some received ∧ w.debit t u n = some w₁ ∧
      w₁.credit base u received = some w₂ ∧ w₂.redeem t n = some w' ∧
        .sellToken { baseToken := base, received := .ofNat received } = res := by
  unfold sell
  simp only [Option.bind_eq_bind, Option.bind_eq_some_iff, Prod.exists]
  constructor
  · rintro ⟨curve, base, terms, done⟩
    split at done
    · cases done
    · rename_i there
      obtain ⟨received, price, w₁, sold, w₂, credited, last, redeemed, made⟩ := by
        simpa only [Option.pure_def, Option.bind_eq_bind, Option.bind_eq_some_iff] using done
      obtain ⟨rfl, rfl⟩ := Prod.mk.inj (Option.some.inj made)
      exact ⟨curve, base, received, w₁, w₂, terms, by simpa using there, price, sold, credited, redeemed, rfl⟩
  · rintro ⟨curve, base, received, w₁, w₂, terms, there, price, sold, credited, redeemed, rfl⟩
    refine ⟨curve, base, terms, ?_⟩
    simp only [there, Bool.not_true, Bool.false_eq_true, if_false, price, sold, credited, redeemed, Option.bind_some, Option.pure_def]

def genesis : World :=
  let named := ListenerManager.genesis
  (World.withAccount {} named.account named.verifyKey).withToken named.token named.token Curve.linear

end World

/-- A world, the nonces that wait to be applied to it, and the map that is selected. -/
structure Chain where
  world : World := {}
  waiting : Ident → Option UInt64 := fun _ => none
  mode : Option PrimaryMode := none

namespace Chain

variable (c : Chain)

def nonce (a : Ident) : Nat := ((c.waiting a).map UInt64.toNat).getD (c.world.nonce a)

/-- The world with the nonces that wait. -/
def current : World := { c.world with nonce := c.nonce }

def admits (hdr : HeaderMsg) : Bool := (c.world.accounts hdr.user).isSome && c.nonce hdr.user < hdr.nonce.toNat

/-- The nonce of a valid header waits, whether it was checked or is applied. -/
def validate (mode : PrimaryMode) (hdr : HeaderMsg) : Chain :=
  if c.admits hdr then { c with waiting := Function.update c.waiting hdr.user (some hdr.nonce), mode := some mode }
  else { c with mode := some mode }

/-- What waits is applied with the message, or lost with it. -/
def execute (user : Ident) (msg : Msg) : Option Response × Chain :=
  match c.current.execute user msg with
  | some (res, w) => (some res, { world := w })
  | none => (none, { world := c.world.refuse msg, mode := some .apply })

variable [Sha256]

def deliver (raw : ByteString) : Option Response × Chain :=
  match ListenerManager.parseTx raw with
  | .error _ => (none, c)
  | .ok (hdr, _, type, body) =>
    if c.admits hdr then
      match ListenerManager.consume (Msg.read type) body with
      | .error _ => (none, c.validate .apply hdr)
      | .ok (msg, _) => (c.validate .apply hdr).execute hdr.user msg
    else (none, c.validate .apply hdr)

def step : Call → Option ByteString × Chain
  | .initChain _ =>
    if (c.world.accounts ListenerManager.genesis.account).isSome then (none, { c with mode := some .apply })
    else (some [], { world := World.genesis })
  | .beginBlock _ _ => (some [], { c with waiting := fun _ => none })
  | .checkTransaction raw =>
    match ListenerManager.parseHeader raw with
    | .error _ => (none, c)
    | .ok (hdr, _, _) => (if c.admits hdr then some [] else none, c.validate .check hdr)
  | .applyTransaction raw _ => ((c.deliver raw).1.map Response.write, (c.deliver raw).2)
  | .commitBlock => (some [], { world := if c.mode = some .apply then c.current else c.world })

/-- The answers to calls, with `none` for a refusal. -/
def answers : Chain → List Call → List (Option ByteString)
  | _, [] => []
  | c, call :: calls => (c.step call).1 :: answers (c.step call).2 calls

def run (c : Chain) (calls : List Call) : Chain := calls.foldl (fun c call => (c.step call).2) c

end Chain

end BandChain
