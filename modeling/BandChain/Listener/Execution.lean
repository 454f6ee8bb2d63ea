import BandChain.Listener.View

/-! A message does to what an overlay shows what it does to the world, and is refused where the world refuses it. -/

namespace BandChain

open Overlay (write_value_ne write_value_self)

theorem UInt256.add_of_lt {a b : UInt256} (fits : a.val + b.val < 2 ^ 256) : a.add b = .ok ⟨a.val + b.val, fits⟩ := dif_pos fits

/-- The names in a message. -/
def Msg.Plain : Msg → Prop
  | createAccount msg => msg.user.Plain
  | createToken msg => msg.createdToken.Plain ∧ msg.baseToken.Plain
  | mintToken msg => msg.token.Plain
  | transferToken msg => msg.token.Plain ∧ msg.dest.Plain
  | buyToken msg => msg.token.Plain
  | sellToken msg => msg.token.Plain
  | addWikiEdge _ | removeWikiEdge _ => True

variable {K : Type} [DecidableEq K] {L : Layout K} {o o' : Overlay L} {w w' : World} {t u : Ident} {v : UInt256}

omit [DecidableEq K] in
theorem Reads.eq {x : Except Stop UInt256} {n : Nat} (reads : Reads x n) {k : UInt256} (read : x = .ok k) : k.val = n := by
  obtain ⟨_, value, same⟩ := reads
  cases value.symm.trans read
  exact same

theorem price_reads {curve : Curve} {s : UInt256} {n p : Nat} (total : s.val = n) (priced : World.price curve n = some p) :
    ∃ c, curve.apply s = .ok c ∧ c.val = p := by
  obtain ⟨k, c, same, applied, rfl⟩ := World.price_some.mp priced
  obtain rfl : k = s := UInt256.ext (same.trans total.symm)
  exact ⟨c, applied, rfl⟩

section

variable (view : o.View w)

include view

theorem mint_shows (tame : o.Tame) (token : t.Plain) (user : u.Plain) (done : (w.credit t u v.val).bind (fun w => w.issue t v.val) = some w') :
    ∃ o', Token.mint t u v o = (.ok (), o') ∧ o'.View w' ∧ o'.Tame := by
  obtain ⟨w₁, credited, issued⟩ := Option.bind_eq_some_iff.mp done
  obtain ⟨fits, rfl⟩ := World.credit_some.mp credited
  obtain ⟨room, rfl⟩ := World.issue_some.mp issued
  obtain ⟨b, balance, held⟩ := view.balance t u token user
  obtain ⟨s, supply, total⟩ := view.supply t token
  rw [← held] at fits
  have room : s.val + v.val < 2 ^ 256 := by rwa [total]
  let m : Minted o t u v := ⟨b, ⟨_, fits⟩, s, ⟨_, room⟩, balance, UInt256.add_of_lt fits, supply, UInt256.add_of_lt room⟩
  refine ⟨m.after, mint_of m, ?_, (tame.write (c := .balances t u) ⟨token, user⟩ rfl).write (c := .currentSupply t) token rfl⟩
  exact (view.setBalance t u ⟨_, fits⟩ (congrArg (· + v.val) held)).setSupply t ⟨_, room⟩ (congrArg (· + v.val) total)

theorem mint_refused (token : t.Plain) (user : u.Plain) (refused : (w.credit t u v.val).bind (fun w => w.issue t v.val) = none) :
    Token.mint t u v o ≠ (.ok (), o') := by
  intro ran
  obtain ⟨m, _⟩ := mint_ok ran
  have held := (view.balance t u token user).eq m.balance_read
  have total := (view.supply t token).eq m.supply_read
  have fits := m.increased.isLt
  have room := m.issued.isLt
  rw [UInt256.add_ok m.increase, held] at fits
  rw [UInt256.add_ok m.issue, total] at room
  have issued : (w.setBalance t u (w.balance t u + v.val)).issue t v.val = some _ := World.issue_some.mpr ⟨room, rfl⟩
  rw [World.credit_some.mpr ⟨fits, rfl⟩, Option.bind_some, issued] at refused
  cases refused

theorem transfer_shows (tame : o.Tame) {dst : Ident} (token : t.Plain) (user : u.Plain) (dest : dst.Plain)
    (done : (w.debit t u v.val).bind (fun w => w.credit t dst v.val) = some w') :
    ∃ o', Token.transfer t u dst v o = (.ok (), o') ∧ o'.View w' ∧ o'.Tame := by
  obtain ⟨w₁, debited, credited⟩ := Option.bind_eq_some_iff.mp done
  obtain ⟨enough, rfl⟩ := World.debit_some.mp debited
  obtain ⟨fits, rfl⟩ := World.credit_some.mp credited
  obtain ⟨b, balance, held⟩ := view.balance t u token user
  have covered : v ≤ b := by rwa [UInt256.le_def, held]
  have paid := UInt256.sub_of_le covered
  have less := view.setBalance t u ⟨b.val - v.val, Nat.lt_of_le_of_lt (Nat.sub_le _ _) b.isLt⟩ (congrArg (· - v.val) held)
  obtain ⟨d, other, had⟩ := less.balance t dst token dest
  rw [← had] at fits
  let m : Transferred o t u dst v := ⟨b, _, d, ⟨_, fits⟩, balance, paid, other, UInt256.add_of_lt fits⟩
  refine ⟨m.after, transfer_of m, ?_, ?_⟩
  · exact less.setBalance t dst ⟨_, fits⟩ (congrArg (· + v.val) had)
  · exact (tame.write (c := .balances t u) ⟨token, user⟩ rfl).write (c := .balances t dst) ⟨token, dest⟩ rfl

theorem transfer_refused {dst : Ident} (token : t.Plain) (user : u.Plain) (dest : dst.Plain)
    (refused : (w.debit t u v.val).bind (fun w => w.credit t dst v.val) = none) : Token.transfer t u dst v o ≠ (.ok (), o') := by
  intro ran
  obtain ⟨m, _⟩ := transfer_ok ran
  have held := (view.balance t u token user).eq m.held_read
  obtain ⟨enough, reduced⟩ := UInt256.sub_ok m.reduce
  rw [held] at enough reduced
  have had := ((view.setBalance t u m.reduced reduced).balance t dst token dest).eq m.dest_read
  have fits := m.increased.isLt
  rw [UInt256.add_ok m.increase, had] at fits
  have credited : (w.setBalance t u (w.balance t u - v.val)).credit t dst v.val = some _ := World.credit_some.mpr ⟨fits, rfl⟩
  rw [World.debit_some.mpr ⟨enough, rfl⟩, Option.bind_some, credited] at refused
  cases refused

theorem buy_shows (tame : o.Tame) (token : t.Plain) (user : u.Plain) {res : Response} (done : w.buy t u v.val = some (res, w')) :
    ∃ o' base spent, Token.buy t u v o = (.ok spent, o') ∧ o'.value (.baseIdent t) = .ok base ∧
      res = .buyToken { baseToken := base, spent } ∧ o'.View w' ∧ o'.Tame := by
  obtain ⟨curve, base, spent, w₁, w₂, terms, there, price, paid, credited, issued, rfl⟩ := World.buy_some.mp done
  obtain ⟨upper, lower, above, below, le, rfl⟩ := World.cost_some.mp price
  obtain ⟨enough, rfl⟩ := World.debit_some.mp paid
  obtain ⟨fits, rfl⟩ := World.credit_some.mp credited
  obtain ⟨room, rfl⟩ := World.issue_some.mp issued
  obtain ⟨curveRead, baseRead, plain⟩ := view.terms t curve base token terms
  obtain ⟨s, supply, total⟩ := view.supply t token
  have space : s.val + v.val < 2 ^ 256 := by rwa [total]
  obtain ⟨high, highPrice, rfl⟩ := price_reads (s := ⟨s.val + v.val, space⟩) (congrArg (· + v.val) total) above
  obtain ⟨low, lowPrice, rfl⟩ := price_reads total below
  obtain ⟨b, balance, held⟩ := view.balance base u plain user
  have cost := UInt256.sub_of_le (a := high) (b := low) le
  have covered : (⟨high.val - low.val, Nat.lt_of_le_of_lt (Nat.sub_le _ _) high.isLt⟩ : UInt256) ≤ b := by rwa [UInt256.le_def, held]
  have pay := UInt256.sub_of_le covered
  have less := view.setBalance base u ⟨b.val - (high.val - low.val), Nat.lt_of_le_of_lt (Nat.sub_le _ _) b.isLt⟩
    (congrArg (· - (high.val - low.val)) held)
  obtain ⟨d, other, had⟩ := less.balance t u token user
  rw [← had] at fits
  let p : Purchase o t u v :=
    { curve, baseToken := base, supply := s, curve_read := curveRead, base_read := baseRead,
      base_exists := (view.tokens base plain).trans (congrArg Except.ok there), supply_read := supply,
      raised := ⟨_, space⟩, upper := high, lower := low, spent := _, held := b, reduced := _, balance := d, increased := ⟨_, fits⟩,
      raise := UInt256.add_of_lt space, upper_price := highPrice, lower_price := lowPrice, price := cost, held_read := balance,
      pay, balance_read := other, increase := UInt256.add_of_lt fits }
  refine ⟨p.after, base, p.spent, buy_of p, ?_, ?_, ?_, ?_⟩
  · rw [Purchase.after, write_value_ne _ _ _ (by simp), write_value_ne _ _ _ (by simp), write_value_ne _ _ _ (by simp)]
    exact baseRead
  · have small : high.val - low.val < 2 ^ 256 := Nat.lt_of_le_of_lt (Nat.sub_le _ _) high.isLt
    have same : UInt256.ofNat (high.val - low.val) = p.spent := UInt256.ext (Nat.mod_eq_of_lt small)
    rw [same]
  · exact (less.setBalance t u ⟨_, fits⟩ (congrArg (· + v.val) had)).setSupply t ⟨_, space⟩ (congrArg (· + v.val) total)
  · exact ((tame.write (c := .balances base u) ⟨plain, user⟩ rfl).write (c := .balances t u) ⟨token, user⟩ rfl).write
      (c := .currentSupply t) token rfl

omit [DecidableEq K] in
/-- A trade that found a curve found the terms of the token. -/
theorem quote_terms (token : t.Plain) (q : Quote o t) :
    w.terms t = some (q.curve, q.baseToken) ∧ q.baseToken.Plain ∧ w.tokens q.baseToken = true ∧ q.supply.val = w.supply t := by
  rcases terms : w.terms t with _ | ⟨curve, base⟩
  · cases (view.unpriced t token terms).symm.trans q.curve_read
  · obtain ⟨curveRead, baseRead, plain⟩ := view.terms t curve base token terms
    obtain rfl := Except.ok.inj (curveRead.symm.trans q.curve_read)
    obtain rfl : base = q.baseToken := Except.ok.inj (baseRead.symm.trans q.base_read)
    exact ⟨rfl, plain, Except.ok.inj ((view.tokens _ plain).symm.trans q.base_exists), (view.supply t token).eq q.supply_read⟩

theorem buy_refused (token : t.Plain) (user : u.Plain) {spent : UInt256} (refused : w.buy t u v.val = none) :
    Token.buy t u v o ≠ (.ok spent, o') := by
  intro ran
  obtain ⟨p, _⟩ := buy_ok ran
  obtain ⟨terms, plain, there, total⟩ := quote_terms view token p.toQuote
  obtain ⟨le, cost⟩ := UInt256.sub_ok p.price
  have raised := UInt256.add_ok p.raise
  have above : World.price p.curve (w.supply t + v.val) = some p.upper.val :=
    World.price_some.mpr ⟨p.raised, p.upper, by rw [raised, total], p.upper_price, rfl⟩
  have below : World.price p.curve (w.supply t) = some p.lower.val :=
    World.price_some.mpr ⟨p.supply, p.lower, total, p.lower_price, rfl⟩
  have held := (view.balance p.baseToken u plain user).eq p.held_read
  obtain ⟨enough, reduced⟩ := UInt256.sub_ok p.pay
  rw [held] at enough reduced
  have had := ((view.setBalance p.baseToken u p.reduced reduced).balance t u token user).eq p.balance_read
  have fits := p.increased.isLt
  rw [UInt256.add_ok p.increase, had] at fits
  have room := p.raised.isLt
  rw [raised, total] at room
  have bought := World.buy_some.mpr ⟨p.curve, p.baseToken, p.spent.val, _, _, terms, there,
    World.cost_some.mpr ⟨_, _, above, below, le, cost.symm⟩, World.debit_some.mpr ⟨enough, rfl⟩, World.credit_some.mpr ⟨fits, rfl⟩,
    World.issue_some.mpr ⟨room, rfl⟩, rfl⟩
  cases refused.symm.trans bought

theorem sell_shows (tame : o.Tame) (token : t.Plain) (user : u.Plain) {res : Response} (done : w.sell t u v.val = some (res, w')) :
    ∃ o' base received, Token.sell t u v o = (.ok received, o') ∧ o'.value (.baseIdent t) = .ok base ∧
      res = .sellToken { baseToken := base, received } ∧ o'.View w' ∧ o'.Tame := by
  obtain ⟨curve, base, received, w₁, w₂, terms, there, price, sold, credited, redeemed, rfl⟩ := World.sell_some.mp done
  obtain ⟨upper, lower, above, below, le, rfl⟩ := World.cost_some.mp price
  obtain ⟨enough, rfl⟩ := World.debit_some.mp sold
  obtain ⟨fits, rfl⟩ := World.credit_some.mp credited
  obtain ⟨issued, rfl⟩ := World.redeem_some.mp redeemed
  obtain ⟨curveRead, baseRead, plain⟩ := view.terms t curve base token terms
  obtain ⟨s, supply, total⟩ := view.supply t token
  have backed : v ≤ s := by
    rw [UInt256.le_def, total]
    exact issued
  obtain ⟨high, highPrice, rfl⟩ := price_reads total above
  obtain ⟨low, lowPrice, rfl⟩ := price_reads (s := ⟨s.val - v.val, Nat.lt_of_le_of_lt (Nat.sub_le _ _) s.isLt⟩)
    (congrArg (· - v.val) total) below
  obtain ⟨b, balance, held⟩ := view.balance t u token user
  have covered : v ≤ b := by rwa [UInt256.le_def, held]
  have cost := UInt256.sub_of_le (a := high) (b := low) le
  have less := view.setBalance t u ⟨b.val - v.val, Nat.lt_of_le_of_lt (Nat.sub_le _ _) b.isLt⟩ (congrArg (· - v.val) held)
  obtain ⟨d, other, had⟩ := less.balance base u plain user
  rw [← had] at fits
  let p : Sale o t u v :=
    { curve, baseToken := base, supply := s, curve_read := curveRead, base_read := baseRead,
      base_exists := (view.tokens base plain).trans (congrArg Except.ok there), supply_read := supply,
      lowered := _, upper := high, lower := low, received := ⟨high.val - low.val, Nat.lt_of_le_of_lt (Nat.sub_le _ _) high.isLt⟩,
      held := b, reduced := _, stock := d, increased := ⟨_, fits⟩, held_read := balance, lowering := UInt256.sub_of_le backed,
      upper_price := highPrice, lower_price := lowPrice, price := cost, reduce := UInt256.sub_of_le covered, stock_read := other,
      increase := UInt256.add_of_lt fits }
  refine ⟨p.after, base, p.received, sell_of p, ?_, ?_, ?_, ?_⟩
  · rw [Sale.after, write_value_ne _ _ _ (by simp), write_value_ne _ _ _ (by simp), write_value_ne _ _ _ (by simp)]
    exact baseRead
  · have small : high.val - low.val < 2 ^ 256 := Nat.lt_of_le_of_lt (Nat.sub_le _ _) high.isLt
    have same : UInt256.ofNat (high.val - low.val) = p.received := UInt256.ext (Nat.mod_eq_of_lt small)
    rw [same]
  · exact (less.setBalance base u ⟨_, fits⟩ (congrArg (· + (high.val - low.val)) had)).setSupply t p.lowered
      (congrArg (· - v.val) total)
  · exact ((tame.write (c := .balances t u) ⟨token, user⟩ rfl).write (c := .balances base u) ⟨plain, user⟩ rfl).write
      (c := .currentSupply t) token rfl

theorem sell_refused (token : t.Plain) (user : u.Plain) {received : UInt256} (refused : w.sell t u v.val = none) :
    Token.sell t u v o ≠ (.ok received, o') := by
  intro ran
  obtain ⟨p, _⟩ := sell_ok ran
  obtain ⟨terms, plain, there, total⟩ := quote_terms view token p.toQuote
  obtain ⟨le, cost⟩ := UInt256.sub_ok p.price
  obtain ⟨issued, lowered⟩ := UInt256.sub_ok p.lowering
  rw [total] at issued lowered
  have above : World.price p.curve (w.supply t) = some p.upper.val :=
    World.price_some.mpr ⟨p.supply, p.upper, total, p.upper_price, rfl⟩
  have below : World.price p.curve (w.supply t - v.val) = some p.lower.val :=
    World.price_some.mpr ⟨p.lowered, p.lower, lowered, p.lower_price, rfl⟩
  have held := (view.balance t u token user).eq p.held_read
  obtain ⟨enough, reduced⟩ := UInt256.sub_ok p.reduce
  rw [held] at enough reduced
  have had := ((view.setBalance t u p.reduced reduced).balance p.baseToken u plain user).eq p.stock_read
  have fits := p.increased.isLt
  rw [UInt256.add_ok p.increase, had] at fits
  have sold := World.sell_some.mpr ⟨p.curve, p.baseToken, p.received.val, _, _, terms, there,
    World.cost_some.mpr ⟨_, _, above, below, le, cost.symm⟩, World.debit_some.mpr ⟨enough, rfl⟩, World.credit_some.mpr ⟨fits, rfl⟩,
    World.redeem_some.mpr ⟨issued, rfl⟩, rfl⟩
  cases refused.symm.trans sold

variable {hdr : HeaderMsg} {msg : Msg} {res : Response} (blk : BlockMsg)

theorem load_shown (plain : t.Plain) (there : w.tokens t = true) : Storage.load (.token t) o = (.ok (), o) :=
  Overlay.load_of_found ((view.tokens t plain).trans (congrArg Except.ok there))

/-- One case for each type of message. -/
theorem handle_shows (tame : o.Tame) (user : hdr.user.Plain) (plain : msg.Plain) (whole : msg.Intact)
    (done : w.execute hdr.user msg = some (res, w')) :
    ∃ o', PrimaryListener.handle blk hdr msg o = (.ok res, o') ∧ o'.View w' ∧ o'.Tame := by
  have current := tame.current
  cases msg with
  | createAccount m =>
    have absent : o.hasContract (.account m.user) = .ok (w.accounts m.user).isSome := view.accounts m.user plain
    simp only [World.execute] at done
    split at done
    · cases done
    · rename_i missing
      obtain ⟨rfl, rfl⟩ := Prod.mk.inj (Option.some.inj done)
      rw [Bool.eq_false_iff.mpr missing] at absent
      have created : Storage.create (.account m.user) (Account.init m.user m.vk) o = (.ok (), o.withAccount m.user m.vk) :=
        (Exec.bind_of_ok (Overlay.place_of_absent absent)).trans (account_init_apply m.user m.vk _)
      exact ⟨_, Exec.bind_of_ok created, view.withAccount current plain m.vk, tame.withAccount plain m.vk⟩
  | createToken m =>
    obtain ⟨created, base⟩ := plain
    have absent := view.tokens m.createdToken created
    have present := (view.takeName current created).tokens m.baseToken base
    rw [World.takeName_tokens] at present
    simp only [World.execute] at done
    split at done
    · cases done
    · rename_i free
      obtain ⟨rfl, rfl⟩ := Prod.mk.inj (Option.some.inj done)
      obtain ⟨unused, based⟩ : w.tokens m.createdToken = false ∧ (w.tokens m.baseToken = false → m.baseToken = m.createdToken) := by
        simpa using free
      rw [unused] at absent
      have found : (o.mark (.token m.createdToken)).hasContract (.token m.baseToken) = .ok true := by
        rw [present]
        split
        · rfl
        · rename_i other
          rw [Bool.of_not_eq_false (mt based other)]
      have made : Storage.create (.token m.createdToken) (Token.init m.createdToken m.baseToken m.curve) o =
          (.ok (), o.withToken m.createdToken m.baseToken m.curve) :=
        (Exec.bind_of_ok (Overlay.place_of_absent absent)).trans (token_init_apply found whole)
      exact ⟨_, Exec.bind_of_ok made, view.withToken current created base whole, tame.withToken created m.baseToken whole⟩
  | mintToken m =>
    simp only [World.execute] at done
    split at done
    · cases done
    · rename_i there
      obtain ⟨w₁, credited, rest⟩ := Option.bind_eq_some_iff.mp done
      obtain ⟨w₂, issued, made⟩ := Option.bind_eq_some_iff.mp rest
      obtain ⟨rfl, rfl⟩ := Prod.mk.inj (Option.some.inj made)
      obtain ⟨o', ran, shows, tame'⟩ := mint_shows view tame plain user (Option.bind_eq_some_iff.mpr ⟨w₁, credited, issued⟩)
      exact ⟨o', (Exec.bind_of_ok (load_shown view plain (by simpa using there))).trans (Exec.bind_of_ok ran), shows, tame'⟩
  | transferToken m =>
    simp only [World.execute] at done
    split at done
    · cases done
    · rename_i there
      obtain ⟨w₁, debited, rest⟩ := Option.bind_eq_some_iff.mp done
      obtain ⟨w₂, credited, made⟩ := Option.bind_eq_some_iff.mp rest
      obtain ⟨rfl, rfl⟩ := Prod.mk.inj (Option.some.inj made)
      obtain ⟨o', ran, shows, tame'⟩ :=
        transfer_shows view tame plain.1 user plain.2 (Option.bind_eq_some_iff.mpr ⟨w₁, debited, credited⟩)
      exact ⟨o', (Exec.bind_of_ok (load_shown view plain.1 (by simpa using there))).trans (Exec.bind_of_ok ran), shows, tame'⟩
  | buyToken m =>
    simp only [World.execute] at done
    split at done
    · cases done
    · rename_i there
      obtain ⟨o', base, spent, ran, based, rfl, shows, tame'⟩ := buy_shows view tame plain user done
      refine ⟨o', (Exec.bind_of_ok (load_shown view plain (by simpa using there))).trans ?_, shows, tame'⟩
      exact (Exec.bind_of_ok ran).trans (Exec.bind_of_ok (read_of based))
  | sellToken m =>
    simp only [World.execute] at done
    split at done
    · cases done
    · rename_i there
      obtain ⟨o', base, received, ran, based, rfl, shows, tame'⟩ := sell_shows view tame plain user done
      refine ⟨o', (Exec.bind_of_ok (load_shown view plain (by simpa using there))).trans ?_, shows, tame'⟩
      exact (Exec.bind_of_ok ran).trans (Exec.bind_of_ok (read_of based))
  | addWikiEdge _ | removeWikiEdge _ =>
    obtain ⟨rfl, rfl⟩ := Prod.mk.inj (Option.some.inj done)
    exact ⟨o, rfl, view, tame⟩

/-- What the world refuses does not return. -/
theorem handle_refused (current : o.currentCache = some .apply) (user : hdr.user.Plain) (plain : msg.Plain)
    (refused : w.execute hdr.user msg = none) : PrimaryListener.handle blk hdr msg o ≠ (.ok res, o') := by
  intro ran
  cases msg with
  | createAccount m =>
    have present := view.accounts m.user plain
    rcases handle_createAccount ran with ⟨_, wrong, _⟩ | ⟨_, absent, _⟩
    · cases wrong
    · have unknown : (w.accounts m.user).isSome = false := Except.ok.inj (present.symm.trans absent)
      simp [World.execute, unknown] at refused
  | createToken m =>
    obtain ⟨created, base⟩ := plain
    obtain ⟨_, absent, found, _⟩ := handle_createToken_ok ran
    have unused : w.tokens m.createdToken = false := Except.ok.inj ((view.tokens _ created).symm.trans absent)
    have based : (w.takeName m.createdToken).tokens m.baseToken = true :=
      Except.ok.inj (((view.takeName current created).tokens _ base).symm.trans found)
    rw [World.takeName_tokens] at based
    by_cases own : m.baseToken = m.createdToken
    · simp [World.execute, unused, own] at refused
    · rw [if_neg own] at based
      simp [World.execute, unused, based] at refused
  | mintToken m =>
    obtain ⟨_, _, loaded, ran⟩ := Exec.bind_ok ran
    obtain ⟨rfl, found⟩ := Overlay.load_ok loaded
    obtain ⟨_, o₁, minted, _⟩ := Exec.bind_ok ran
    have there : w.tokens m.token = true := Except.ok.inj ((view.tokens _ plain).symm.trans found)
    refine mint_refused view plain user ?_ minted
    rcases credited : w.credit m.token hdr.user m.value.val with _ | w₁
    · rfl
    · rcases issued : w₁.issue m.token m.value.val with _ | w₂
      · exact issued
      · simp [World.execute, there, credited, issued] at refused
  | transferToken m =>
    obtain ⟨_, _, loaded, ran⟩ := Exec.bind_ok ran
    obtain ⟨rfl, found⟩ := Overlay.load_ok loaded
    obtain ⟨_, o₁, moved, _⟩ := Exec.bind_ok ran
    have there : w.tokens m.token = true := Except.ok.inj ((view.tokens _ plain.1).symm.trans found)
    refine transfer_refused view plain.1 user plain.2 ?_ moved
    rcases debited : w.debit m.token hdr.user m.value.val with _ | w₁
    · rfl
    · rcases credited : w₁.credit m.token m.dest m.value.val with _ | w₂
      · exact credited
      · simp [World.execute, there, debited, credited] at refused
  | buyToken m =>
    obtain ⟨_, _, loaded, ran⟩ := Exec.bind_ok ran
    obtain ⟨rfl, found⟩ := Overlay.load_ok loaded
    obtain ⟨_, o₁, bought, _⟩ := Exec.bind_ok ran
    have there : w.tokens m.token = true := Except.ok.inj ((view.tokens _ plain).symm.trans found)
    refine buy_refused view plain user ?_ bought
    simpa [World.execute, there] using refused
  | sellToken m =>
    obtain ⟨_, _, loaded, ran⟩ := Exec.bind_ok ran
    obtain ⟨rfl, found⟩ := Overlay.load_ok loaded
    obtain ⟨_, o₁, sold, _⟩ := Exec.bind_ok ran
    have there : w.tokens m.token = true := Except.ok.inj ((view.tokens _ plain).symm.trans found)
    refine sell_refused view plain user ?_ sold
    simpa [World.execute, there] using refused
  | addWikiEdge _ | removeWikiEdge _ => cases refused

end

end BandChain
