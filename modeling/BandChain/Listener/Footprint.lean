import BandChain.Contract.Effect
import BandChain.Listener.Primary

/-! What a message may write, and what the handlers keep because they write nothing else. -/

namespace BandChain

open Exec (Keeps)

namespace Msg

/-- The cells a message may assign. -/
def Touches (hdr : HeaderMsg) : Msg → Cell → Prop
  | createAccount msg, c => c = .verifyKey msg.user ∨ c = .nonce msg.user
  | createToken msg, c =>
    c = .curveData msg.createdToken ∨ c = .baseIdent msg.createdToken ∨ c = .currentSupply msg.createdToken
  | mintToken msg, c => c = .balances msg.token hdr.user ∨ c = .currentSupply msg.token
  | transferToken msg, c => c = .balances msg.token hdr.user ∨ c = .balances msg.token msg.dest
  | buyToken msg, c => (∃ t, c = .balances t hdr.user) ∨ c = .currentSupply msg.token
  | sellToken msg, c => (∃ t, c = .balances t hdr.user) ∨ c = .currentSupply msg.token
  | addWikiEdge _, _ | removeWikiEdge _, _ => False

def created : Msg → Option ContractKey
  | createAccount msg => some (.account msg.user)
  | createToken msg => some (.token msg.createdToken)
  | mintToken _ | transferToken _ | buyToken _ | sellToken _ | addWikiEdge _ | removeWikiEdge _ => none

end Msg

variable {K : Type} {L : Layout K}

namespace Overlay

variable {P : Overlay L → Prop}

theorem keeps_getContract (k : ContractKey) : Keeps P (getContract k) :=
  Exec.Triple.bind (Q := fun _ => P) (fun _ => id) fun _ => Keeps.ofExcept _

theorem keeps_load (k : ContractKey) : Keeps P (load k) := by
  apply (keeps_getContract k).bind
  intro found
  cases found with
  | true => exact Keeps.pure ()
  | false => exact Keeps.stop _

theorem keeps_read (c : Cell) : Keeps P (read c) :=
  Exec.Triple.bind (Q := fun _ => P) (fun _ => id) fun _ => Keeps.ofExcept _

theorem keeps_assign {c : Cell} {val : c.Val} (writes : ∀ o, intact val = true → P o → P (o.write c val)) :
    Keeps P (assign c val) := by
  intro o before
  rw [assign, Exec.bind_apply, Exec.ofExcept_apply]
  rcases copied : copy val with e | val'
  · exact before
  · obtain ⟨rfl, whole⟩ := copy_ok copied
    exact writes o whole before

theorem keeps_place [DecidableEq K] {k : ContractKey} (marks : ∀ o, P o → o.hasContract k = .ok false → P (o.mark k)) :
    Keeps P (place k) := by
  intro o before
  rw [place, Exec.bind_apply, getContract_apply]
  rcases answer : o.hasContract k with e | _ | _
  · exact before
  · exact marks o before answer
  · exact before

end Overlay

variable [DecidableEq K] {P : Overlay L → Prop}

open Overlay (keeps_load keeps_read keeps_assign keeps_place)

theorem keeps_account_init {self : Ident} (verifyKey : VerifyKey)
    (writes : ∀ o c v, c = .verifyKey self ∨ c = .nonce self → intact v = true → P o → P (Overlay.write o c v)) :
    Keeps P (Account.init self verifyKey) :=
  (keeps_assign (c := .verifyKey self) fun o => writes o _ _ (Or.inl rfl)).bind fun _ =>
    keeps_assign (c := .nonce self) fun o => writes o _ _ (Or.inr rfl)

theorem keeps_token_init {self : Ident} (baseToken : Ident) (curve : Curve)
    (writes : ∀ o c v, c = .curveData self ∨ c = .baseIdent self ∨ c = .currentSupply self → intact v = true → P o → P (Overlay.write o c v)) :
    Keeps P (Token.init self baseToken curve) :=
  (keeps_load (.token baseToken)).bind fun _ =>
    (keeps_assign (c := .curveData self) fun o => writes o _ _ (Or.inl rfl)).bind fun _ =>
      (keeps_assign (c := .baseIdent self) fun o => writes o _ _ (Or.inr (Or.inl rfl))).bind fun _ =>
        keeps_assign (c := .currentSupply self) fun o => writes o _ _ (Or.inr (Or.inr rfl))

theorem keeps_mint {self receiver : Ident} (value : UInt256)
    (writes : ∀ o c v, c = .balances self receiver ∨ c = .currentSupply self → intact v = true → P o → P (Overlay.write o c v)) :
    Keeps P (Token.mint self receiver value) :=
  (keeps_read (.balances self receiver)).bind fun _ => (Keeps.ofExcept _).bind fun _ =>
    (keeps_assign (c := .balances self receiver) fun o => writes o _ _ (Or.inl rfl)).bind fun _ =>
      (keeps_read (.currentSupply self)).bind fun _ => (Keeps.ofExcept _).bind fun _ =>
        keeps_assign (c := .currentSupply self) fun o => writes o _ _ (Or.inr rfl)

theorem keeps_transfer {self src dst : Ident} (value : UInt256)
    (writes : ∀ o c v, c = .balances self src ∨ c = .balances self dst → intact v = true → P o → P (Overlay.write o c v)) :
    Keeps P (Token.transfer self src dst value) := by
  apply (keeps_read (.balances self src)).bind
  intro held
  split
  · exact Keeps.stop _
  exact (keeps_read (.balances self src)).bind fun _ => (Keeps.ofExcept _).bind fun _ =>
    (keeps_assign (c := .balances self src) fun o => writes o _ _ (Or.inl rfl)).bind fun _ =>
      (keeps_read (.balances self dst)).bind fun _ => (Keeps.ofExcept _).bind fun _ =>
        keeps_assign (c := .balances self dst) fun o => writes o _ _ (Or.inr rfl)

theorem keeps_buy {self buyer : Ident} (value : UInt256)
    (writes : ∀ o c v, (∃ t, c = .balances t buyer) ∨ c = .currentSupply self → intact v = true → P o → P (Overlay.write o c v)) :
    Keeps P (Token.buy self buyer value) := by
  apply (keeps_read (.curveData self)).bind
  intro curve
  apply (keeps_read (.baseIdent self)).bind
  intro baseToken
  apply (keeps_load (.token baseToken)).bind
  intro _
  apply (keeps_read (.currentSupply self)).bind
  intro supply
  apply (Keeps.ofExcept _).bind
  intro raised
  apply (Keeps.ofExcept _).bind
  intro upper
  apply (Keeps.ofExcept _).bind
  intro lower
  apply (Keeps.ofExcept _).bind
  intro buyTokens
  apply (keeps_read (.balances baseToken buyer)).bind
  intro held
  split
  · exact Keeps.stop _
  exact (keeps_read (.balances baseToken buyer)).bind fun _ => (Keeps.ofExcept _).bind fun _ =>
    (keeps_assign (c := .balances baseToken buyer) fun o => writes o _ _ (Or.inl ⟨_, rfl⟩)).bind fun _ =>
      (keeps_read (.balances self buyer)).bind fun _ => (Keeps.ofExcept _).bind fun _ =>
        (keeps_assign (c := .balances self buyer) fun o => writes o _ _ (Or.inl ⟨_, rfl⟩)).bind fun _ =>
          (keeps_read (.currentSupply self)).bind fun _ => (Keeps.ofExcept _).bind fun _ =>
            (keeps_assign (c := .currentSupply self) fun o => writes o _ _ (Or.inr rfl)).bind fun _ => Keeps.pure _

theorem keeps_sell {self seller : Ident} (value : UInt256)
    (writes : ∀ o c v, (∃ t, c = .balances t seller) ∨ c = .currentSupply self → intact v = true → P o → P (Overlay.write o c v)) :
    Keeps P (Token.sell self seller value) := by
  apply (keeps_read (.curveData self)).bind
  intro curve
  apply (keeps_read (.baseIdent self)).bind
  intro baseToken
  apply (keeps_load (.token baseToken)).bind
  intro _
  apply (keeps_read (.balances self seller)).bind
  intro held
  split
  · exact Keeps.stop _
  apply (keeps_read (.currentSupply self)).bind
  intro supply
  apply (Keeps.ofExcept _).bind
  intro upper
  apply (Keeps.ofExcept _).bind
  intro lowered
  apply (Keeps.ofExcept _).bind
  intro lower
  apply (Keeps.ofExcept _).bind
  intro sellTokens
  exact (keeps_read (.balances self seller)).bind fun _ => (Keeps.ofExcept _).bind fun _ =>
    (keeps_assign (c := .balances self seller) fun o => writes o _ _ (Or.inl ⟨_, rfl⟩)).bind fun _ =>
      (keeps_read (.balances baseToken seller)).bind fun _ => (Keeps.ofExcept _).bind fun _ =>
        (keeps_assign (c := .balances baseToken seller) fun o => writes o _ _ (Or.inl ⟨_, rfl⟩)).bind fun _ =>
          (keeps_read (.currentSupply self)).bind fun _ => (Keeps.ofExcept _).bind fun _ =>
            (keeps_assign (c := .currentSupply self) fun o => writes o _ _ (Or.inr rfl)).bind fun _ => Keeps.pure _

/-- What holds through every write to a cell the message touches, and through the marker of the
contract it creates, holds after the handler, however it ends. -/
theorem keeps_handle (blk : BlockMsg) {hdr : HeaderMsg} {msg : Msg}
    (writes : ∀ o c v, msg.Touches hdr c → intact v = true → P o → P (Overlay.write o c v))
    (marks : ∀ o k, msg.created = some k → P o → o.hasContract k = .ok false → P (o.mark k)) :
    Keeps P (PrimaryListener.handle blk hdr msg) := by
  cases msg with
  | createAccount msg =>
    exact ((keeps_place fun o => marks o _ rfl).bind fun _ => keeps_account_init msg.vk writes).bind fun _ => Keeps.pure _
  | createToken msg =>
    exact ((keeps_place fun o => marks o _ rfl).bind fun _ =>
      keeps_token_init msg.baseToken msg.curve writes).bind fun _ => Keeps.pure _
  | mintToken msg => exact (keeps_load _).bind fun _ => (keeps_mint msg.value writes).bind fun _ => Keeps.pure _
  | transferToken msg => exact (keeps_load _).bind fun _ => (keeps_transfer msg.value writes).bind fun _ => Keeps.pure _
  | buyToken msg =>
    exact (keeps_load _).bind fun _ => (keeps_buy msg.value writes).bind fun _ =>
      (keeps_read (.baseIdent msg.token)).bind fun _ => Keeps.pure _
  | sellToken msg =>
    exact (keeps_load _).bind fun _ => (keeps_sell msg.value writes).bind fun _ =>
      (keeps_read (.baseIdent msg.token)).bind fun _ => Keeps.pure _
  | addWikiEdge _ => exact Keeps.pure _
  | removeWikiEdge _ => exact Keeps.pure _

/-- Only nonces wait for a flush; so it is between two calls. -/
def Overlay.NonceOnly (o : Overlay L) : Prop := ∀ c, o.pending c ≠ none → ∃ a, c = .nonce a

/-- A handler leaves at most balances of one token or of one user pending, so no two pending cells share a key. -/
theorem handle_separate (blk : BlockMsg) {hdr : HeaderMsg} {msg : Msg} :
    Exec.Triple (fun o : Overlay L => o.NonceOnly ∧ o.currentCache = some .apply) (PrimaryListener.handle blk hdr msg)
      (fun _ o => o.Separate ∧ o.currentCache = some .apply) (fun _ _ => True) := by
  have pending : Keeps (fun o : Overlay L => (∀ c, o.pending c ≠ none → (∃ a, c = .nonce a) ∨ msg.Touches hdr c) ∧
      o.currentCache = some .apply) (PrimaryListener.handle blk hdr msg) := by
    apply keeps_handle blk
    · rintro o c v touched _ ⟨before, current⟩
      refine ⟨fun c' held => ?_, current⟩
      by_cases same : c' = c
      · exact Or.inr (same ▸ touched)
      · rw [Overlay.write_pending_ne _ _ _ same] at held
        exact before c' held
    · rintro o k _ ⟨before, current⟩ _
      simp only [Overlay.mark_pending, Overlay.mark_currentCache]
      exact ⟨before, current⟩
  have apart : ∀ {s v t w : Ident}, s ≠ t → v ≠ w → msg.Touches hdr (.balances s v) → ¬ msg.Touches hdr (.balances t w) := by
    intro s v t w tokens users first second
    cases msg with
    | createAccount _ | createToken _ | addWikiEdge _ | removeWikiEdge _ => simp [Msg.Touches] at first
    | mintToken msg =>
      simp only [Msg.Touches, Cell.balances.injEq, reduceCtorEq, or_false] at first second
      exact tokens (first.1.trans second.1.symm)
    | transferToken msg =>
      simp only [Msg.Touches, Cell.balances.injEq] at first second
      rcases first with first | first <;> rcases second with second | second <;>
        exact tokens (first.1.trans second.1.symm)
    | buyToken msg | sellToken msg =>
      simp only [Msg.Touches, Cell.balances.injEq, reduceCtorEq, or_false] at first second
      obtain ⟨_, _, rfl⟩ := first
      obtain ⟨_, _, rfl⟩ := second
      exact users rfl
  intro o before
  have after := pending.after (s := o) ⟨fun c held => Or.inl (before.1 c held), before.2⟩
  rcases run : PrimaryListener.handle blk hdr msg o with ⟨e | res, o'⟩
  · trivial
  · rw [run] at after
    refine ⟨fun {c d} first second same => ?_, after.2⟩
    rcases L.cell_eq same with same | ⟨s, v, t, w, rfl, rfl, tokens, users⟩
    · exact same
    · rcases after.1 _ first with ⟨_, wrong⟩ | first
      · cases wrong
      rcases after.1 _ second with ⟨_, wrong⟩ | second
      · cases wrong
      exact (apart tokens users first second).elim

/-- A `CreateToken` of a new identifier over a base that does not exist. The marker of the token is
already stored when the missing base is found. -/
def Msg.Leaks (L : Layout K) (applied : K → Option ByteString) : Msg → Prop
  | createToken msg =>
    applied (L.key (.contract (.token msg.createdToken))) = none ∧ msg.baseToken ≠ msg.createdToken ∧
      applied (L.key (.contract (.token msg.baseToken))) ≠ some (ContractKey.token msg.baseToken).prefixedKey
  | createAccount _ | mintToken _ | transferToken _ | buyToken _ | sellToken _ | addWikiEdge _ | removeWikiEdge _ => False

section

variable {blk : BlockMsg} {hdr : HeaderMsg} {msg : Msg} {o o' : Overlay L}

theorem handle_createAccount {m : CreateAccountMsg} {res : Except Stop Response}
    (h : PrimaryListener.handle blk hdr (.createAccount m) o = (res, o')) :
    (∃ e, res = .error e ∧ o = o' ∧ o.hasContract (.account m.user) ≠ .ok false) ∨
      (res = .ok .createAccount ∧ o.hasContract (.account m.user) = .ok false ∧
        o' = o.withAccount m.user m.vk) := by
  rcases placed : Overlay.place (.account m.user) o with ⟨e | _, o₁⟩
  · have run : PrimaryListener.handle blk hdr (.createAccount m) o = (.error e, o₁) :=
      Exec.bind_of_error (Exec.bind_of_error placed)
    obtain ⟨rfl, rfl⟩ := Prod.mk.inj (run.symm.trans h)
    exact Or.inl ⟨e, rfl, Overlay.place_error placed⟩
  · obtain ⟨rfl, absent⟩ := Overlay.place_ok placed
    have created : Storage.create (.account m.user) (Account.init m.user m.vk) o =
        (.ok (), o.withAccount m.user m.vk) :=
      (Exec.bind_of_ok placed).trans (account_init_apply m.user m.vk _)
    obtain ⟨rfl, rfl⟩ := Prod.mk.inj ((Exec.bind_of_ok created).symm.trans h)
    exact Or.inr ⟨rfl, absent, rfl⟩

theorem handle_createToken_ok {m : CreateTokenMsg} {res : Response}
    (h : PrimaryListener.handle blk hdr (.createToken m) o = (.ok res, o')) :
    res = .createToken ∧ o.hasContract (.token m.createdToken) = .ok false ∧
      (o.mark (.token m.createdToken)).hasContract (.token m.baseToken) = .ok true ∧ intact m.curve = true ∧
      o' = o.withToken m.createdToken m.baseToken m.curve := by
  obtain ⟨_, _, created, h⟩ := Exec.bind_ok h
  obtain ⟨same, rfl⟩ := Prod.mk.inj h
  exact ⟨(Except.ok.inj same).symm, create_token_ok created⟩

theorem handle_createToken_throw {m : CreateTokenMsg} {e : Exn}
    (h : PrimaryListener.handle blk hdr (.createToken m) o = (.error (.throw e), o')) :
    (o = o' ∧ o.hasContract (.token m.createdToken) ≠ .ok false) ∨
      (o' = o.mark (.token m.createdToken) ∧ o.hasContract (.token m.createdToken) = .ok false ∧
        (o.mark (.token m.createdToken)).hasContract (.token m.baseToken) ≠ .ok true) := by
  rcases Exec.bind_error h with created | ⟨_, _, _, h⟩
  · rcases Exec.bind_error created with placed | ⟨_, _, placed, created⟩
    · exact Or.inl (Overlay.place_error placed)
    · obtain ⟨rfl, absent⟩ := Overlay.place_ok placed
      obtain ⟨rfl, missing⟩ := token_init_error created (by simp)
      exact Or.inr ⟨rfl, absent, missing⟩
  · cases h

/-- A handler that throws changes the map only by leaking a marker. -/
theorem handle_throw {e : Exn} (current : o.currentCache = some .apply)
    (h : PrimaryListener.handle blk hdr msg o = (.error (.throw e), o')) :
    o'.currentCache = some .apply ∧ o'.checkCache = o.checkCache ∧
      ((¬ msg.Leaks L o.applyCache ∧ o'.applyCache = o.applyCache) ∨
        (msg.Leaks L o.applyCache ∧ ∃ t, msg.created = some (.token t) ∧ o.applyCache (L.key (.contract (.token t))) = none ∧
          o'.applyCache = Function.update o.applyCache (L.key (.contract (.token t))) (some (ContractKey.token t).prefixedKey))) := by
  have unplaced : msg.created = none → o'.currentCache = some .apply ∧ o'.checkCache = o.checkCache ∧
      o'.applyCache = o.applyCache := by
    intro none
    have kept : Keeps (fun o₁ : Overlay L => o₁.currentCache = some .apply ∧ o₁.checkCache = o.checkCache ∧
        o₁.applyCache = o.applyCache) (PrimaryListener.handle blk hdr msg) :=
      keeps_handle blk (fun _ _ _ _ _ => id) (fun _ _ created => by rw [none] at created; cases created)
    have after := kept.after (s := o) ⟨current, rfl, rfl⟩
    rw [h] at after
    exact after
  cases msg with
  | createAccount m =>
    rcases handle_createAccount h with ⟨_, _, rfl, _⟩ | ⟨wrong, _⟩
    · exact ⟨current, rfl, Or.inl ⟨id, rfl⟩⟩
    · cases wrong
  | createToken m =>
    rcases handle_createToken_throw h with ⟨rfl, present⟩ | ⟨rfl, absent, missing⟩
    · refine ⟨current, rfl, Or.inl ⟨fun leaks => present ?_, rfl⟩⟩
      exact (Overlay.hasContract_false current).mpr leaks.1
    · have other : m.baseToken ≠ m.createdToken := by
        intro same
        rw [same, Overlay.hasContract_mark_self current] at missing
        exact missing rfl
      have unfound : o.hasContract (.token m.baseToken) ≠ .ok true := by
        rwa [Overlay.hasContract_mark_ne current (by simpa using other)] at missing
      have clear := (Overlay.hasContract_false current).mp absent
      refine ⟨by simpa using current, by rw [Overlay.mark_apply current], Or.inr ⟨⟨clear, other, ?_⟩, _, rfl, clear, ?_⟩⟩
      · exact fun held => unfound ((Overlay.hasContract_true current).mpr held)
      · rw [Overlay.mark_apply current]
  | mintToken _ | transferToken _ | buyToken _ | sellToken _ | addWikiEdge _ | removeWikiEdge _ =>
    obtain ⟨selected, checked, applied⟩ := unplaced rfl
    exact ⟨selected, checked, Or.inl ⟨id, applied⟩⟩

theorem handle_of_leaks (blk : BlockMsg) (hdr : HeaderMsg) (current : o.currentCache = some .apply) (leaks : msg.Leaks L o.applyCache) :
    ∃ e o', PrimaryListener.handle blk hdr msg o = (.error (.throw e), o') := by
  cases msg with
  | createToken m =>
    obtain ⟨clear, other, missing⟩ := leaks
    have placed := Overlay.place_of_absent ((Overlay.hasContract_false current).mpr clear)
    have unfound : (o.mark (.token m.createdToken)).hasContract (.token m.baseToken) ≠ .ok true := by
      rw [Overlay.hasContract_mark_ne current (by simpa using other)]
      exact fun found => missing ((Overlay.hasContract_true current).mp found)
    obtain ⟨e, loaded⟩ := Overlay.load_of_missing ((Overlay.mark_currentCache _ _).trans current) unfound
    have created : Storage.create (.token m.createdToken) (Token.init m.createdToken m.baseToken m.curve) o =
        (.error (.throw e), o.mark (.token m.createdToken)) :=
      (Exec.bind_of_ok placed).trans (Exec.bind_of_error loaded)
    exact ⟨e, _, Exec.bind_of_error created⟩
  | createAccount _ | mintToken _ | transferToken _ | buyToken _ | sellToken _ | addWikiEdge _ | removeWikiEdge _ =>
    exact leaks.elim

end

end BandChain
