import BandChain.Util.Equation
import BandChain.Util.Text
import Mathlib.Tactic.IntervalCases

/-!
The places of the key-value store: a marker for each contract and one key for each data cell of
its class (`store/data.h`, `store/map.h`). `Slot.text` is the key the source builds by
concatenation. The store itself is modelled over any `Layout` whose keys meet at most where those
texts do, so a result about every layout holds of the source's keys, and of keys that never meet.
-/

namespace BandChain

/-- The contracts, as `Storage` keys them: `T::KeyPrefix` and an identifier. -/
inductive ContractKey where
  | account (user : Ident)
  | token (token : Ident)
  deriving DecidableEq

namespace ContractKey

def keyPrefix : ContractKey → ByteString
  | account _ => ascii "u/"
  | token _ => ascii "t/"

def ident : ContractKey → Ident
  | account user => user
  | token t => t

def prefixedKey (k : ContractKey) : ByteString := k.keyPrefix ++ k.ident.rawdata

end ContractKey

/-- The data cells of `Account` and `Token`. -/
inductive Cell where
  | verifyKey (user : Ident)
  | nonce (user : Ident)
  | curveData (token : Ident)
  | baseIdent (token : Ident)
  | currentSupply (token : Ident)
  | balances (token user : Ident)
  deriving DecidableEq

namespace Cell

def contract : Cell → ContractKey
  | verifyKey user | nonce user => .account user
  | curveData token | baseIdent token | currentSupply token | balances token _ => .token token

abbrev Val : Cell → Type
  | verifyKey _ => VerifyKey
  | curveData _ => Curve
  | baseIdent _ => Ident
  | nonce _ | currentSupply _ | balances _ _ => UInt256

instance : (c : Cell) → Serial c.Val
  | verifyKey _ => inferInstanceAs (Serial VerifyKey)
  | curveData _ => inferInstanceAs (Serial Curve)
  | baseIdent _ => inferInstanceAs (Serial Ident)
  | nonce _ | currentSupply _ | balances _ _ => inferInstanceAs (Serial UInt256)

instance : (c : Cell) → LawfulSerial c.Val
  | verifyKey _ => inferInstanceAs (LawfulSerial VerifyKey)
  | curveData _ => inferInstanceAs (LawfulSerial Curve)
  | baseIdent _ => inferInstanceAs (LawfulSerial Ident)
  | nonce _ | currentSupply _ | balances _ _ => inferInstanceAs (LawfulSerial UInt256)

/-- `T{}`. -/
instance : (c : Cell) → Inhabited c.Val
  | verifyKey _ => inferInstanceAs (Inhabited VerifyKey)
  | curveData _ => inferInstanceAs (Inhabited Curve)
  | baseIdent _ => inferInstanceAs (Inhabited Ident)
  | nonce _ | currentSupply _ | balances _ _ => inferInstanceAs (Inhabited UInt256)

/-- What `DATA` and `DATAMAP` append to the key of the contract. -/
def suffix : Cell → ByteString
  | verifyKey _ => ascii "/verifyKey"
  | nonce _ => ascii "/nonce"
  | curveData _ => ascii "/curveData"
  | baseIdent _ => ascii "/baseIdent"
  | currentSupply _ => ascii "/currentSupply"
  | balances _ user => ascii "/balances/" ++ user.rawdata

end Cell

/-- A place of the store: the marker of a contract, or a cell. -/
inductive Slot where
  | contract (k : ContractKey)
  | data (c : Cell)
  deriving DecidableEq

namespace Slot

def owner : Slot → ContractKey
  | contract k => k
  | data c => c.contract

/-- The storage key of the source. -/
def text : Slot → ByteString
  | contract k => k.prefixedKey
  | data c => c.contract.prefixedKey ++ c.suffix

/-- The text of the balance of `v` in `s`, with the separator read at a later place: as the balance
of `w` in `t`. -/
def ReadLater (s v t w : Ident) : Prop :=
  (∃ mid, t.rawdata = s.rawdata ++ (ascii "/balances/" ++ mid) ∧
    v.rawdata = mid ++ (ascii "/balances/" ++ w.rawdata)) ∨
  (t.rawdata = s.rawdata ++ ascii "/balances" ∧ v.rawdata = ascii "balances/" ++ w.rawdata)

/-- The pairs of different slots with equal texts: an account `a/nonce` and the nonce of `a`, a token
`t/balances/w` and the balance of `w` in `t`, and two balances where the separator occurs twice. -/
inductive Clash : Slot → Slot → Prop where
  | markerNonce {x a : Ident} (same : x.rawdata = a.rawdata ++ ascii "/nonce") :
      Clash (contract (.account x)) (data (.nonce a))
  | nonceMarker {x a : Ident} (same : x.rawdata = a.rawdata ++ ascii "/nonce") :
      Clash (data (.nonce a)) (contract (.account x))
  | markerBalance {x t w : Ident} (same : x.rawdata = t.rawdata ++ (ascii "/balances/" ++ w.rawdata)) :
      Clash (contract (.token x)) (data (.balances t w))
  | balanceMarker {x t w : Ident} (same : x.rawdata = t.rawdata ++ (ascii "/balances/" ++ w.rawdata)) :
      Clash (data (.balances t w)) (contract (.token x))
  | balances {s v t w : Ident} (later : ReadLater s v t w) : Clash (data (.balances s v)) (data (.balances t w))
  | balancesSymm {s v t w : Ident} (later : ReadLater s v t w) :
      Clash (data (.balances t w)) (data (.balances s v))

/-- The later reading has a longer token and a shorter user. -/
theorem ReadLater.differ {s v t w : Ident} (h : ReadLater s v t w) : s ≠ t ∧ v ≠ w := by
  rcases h with ⟨mid, token, user⟩ | ⟨token, user⟩
  all_goals
    constructor
    · rintro rfl
      have := congrArg List.length token
      simp [ascii] at this
    · rintro rfl
      have := congrArg List.length user
      simp [ascii] at this
      omega

theorem Clash.ne {x y : Slot} (h : Clash x y) : x ≠ y := by
  cases h with
  | markerNonce _ | nonceMarker _ | markerBalance _ | balanceMarker _ => exact nofun
  | balances later | balancesSymm later =>
    intro same
    cases same
    exact later.differ.1 rfl

theorem Clash.symm {x y : Slot} (h : Clash x y) : Clash y x := by
  cases h with
  | markerNonce same => exact .nonceMarker same
  | nonceMarker same => exact .markerNonce same
  | markerBalance same => exact .balanceMarker same
  | balanceMarker same => exact .markerBalance same
  | balances later => exact .balancesSymm later
  | balancesSymm later => exact .balances later

/-- The text after the prefix of the contract's kind. -/
def body : Slot → ByteString
  | contract k => k.ident.rawdata
  | data c => c.contract.ident.rawdata ++ c.suffix

theorem text_eq_prefix_body (x : Slot) : x.text = x.owner.keyPrefix ++ x.body := by
  cases x with
  | contract k => rfl
  | data c => exact List.append_assoc _ _ _

theorem text_eq_text {x y : Slot} :
    x.text = y.text ↔ x.owner.keyPrefix = y.owner.keyPrefix ∧ x.body = y.body := by
  rw [text_eq_prefix_body, text_eq_prefix_body]
  constructor
  · intro same
    apply List.append_inj same
    cases x.owner <;> cases y.owner <;> rfl
  · rintro ⟨first, second⟩
    rw [first, second]

/-- The slots whose text has no upper-case letter: the name of the field decides. -/
def Lower : Slot → Prop
  | contract _ | data (.nonce _) | data (.balances _ _) => True
  | data (.verifyKey _) | data (.curveData _) | data (.baseIdent _) | data (.currentSupply _) => False

theorem lower_iff (x : Slot) : x.Lower ↔ ∀ c ∈ x.body, tolower c = c := by
  have lowered (a b : Ident) (sep : ByteString) (h : ∀ c ∈ sep, tolower c = c) :
      ∀ c ∈ a.rawdata ++ (sep ++ b.rawdata), tolower c = c := by
    intro c member
    rcases List.mem_append.mp member with first | member
    · exact a.tolower_mem c first
    · rcases List.mem_append.mp member with middle | last
      · exact h c middle
      · exact b.tolower_mem c last
  have upper (a : Ident) (name : ByteString) (c : UInt8) (member : c ∈ name) (changed : tolower c ≠ c) :
      ¬ ∀ c ∈ a.rawdata ++ name, tolower c = c :=
    fun all => changed (all c (List.mem_append_right _ member))
  cases x with
  | contract k => exact ⟨fun _ => k.ident.tolower_mem, fun _ => trivial⟩
  | data c =>
    cases c with
    | nonce a =>
      refine ⟨fun _ => ?_, fun _ => trivial⟩
      have all := lowered a default (ascii "/nonce") (by decide +kernel)
      rwa [show (default : Ident).rawdata = [] from rfl, List.append_nil] at all
    | balances t w => exact ⟨fun _ => lowered t w (ascii "/balances/") (by decide +kernel), fun _ => trivial⟩
    | verifyKey a => exact ⟨False.elim, upper a (ascii "/verifyKey") 75 (by decide) (by decide)⟩
    | curveData t => exact ⟨False.elim, upper t (ascii "/curveData") 68 (by decide) (by decide)⟩
    | baseIdent t => exact ⟨False.elim, upper t (ascii "/baseIdent") 73 (by decide) (by decide)⟩
    | currentSupply t => exact ⟨False.elim, upper t (ascii "/currentSupply") 83 (by decide) (by decide)⟩

theorem lower_of_body_eq {x y : Slot} (same : x.body = y.body) : x.Lower ↔ y.Lower := by
  rw [lower_iff, lower_iff, same]

/-- Two readings of one balance text agree, or one of them splits it later. -/
theorem balances_body {s v t w : Ident}
    (same : s.rawdata ++ (ascii "/balances/" ++ v.rawdata) = t.rawdata ++ (ascii "/balances/" ++ w.rawdata)) :
    (s = t ∧ v = w) ∨ ReadLater s v t w ∨ ReadLater t w s v := by
  have shorter : ∀ {s v t w : Ident} {d : ByteString}, t.rawdata = s.rawdata ++ d →
      ascii "/balances/" ++ v.rawdata = d ++ (ascii "/balances/" ++ w.rawdata) →
      (s = t ∧ v = w) ∨ ReadLater s v t w := by
    intro s v t w d token rest
    rcases List.append_eq_append_iff.mp rest with ⟨mid, rfl, user⟩ | ⟨tail, cut, rest⟩
    · exact Or.inr (Or.inl ⟨mid, token, user⟩)
    · -- The separator starts inside itself only at its last character.
      have size : d.length ≤ 10 := by
        have := congrArg List.length cut
        simp only [List.length_append] at this
        exact Nat.le_trans (Nat.le_add_right _ _) (Nat.le_of_eq this.symm)
      have head : d = (ascii "/balances/").take d.length := by rw [cut, List.take_left']; rfl
      have last : tail = (ascii "/balances/").drop d.length := by rw [cut, List.drop_left']; rfl
      rw [last] at rest
      rw [head] at token
      interval_cases d.length
      · have user : w.rawdata = v.rawdata := List.append_cancel_left rest
        refine Or.inl ⟨?_, Str.ext user.symm⟩
        exact Str.ext (token.trans (List.append_nil _)).symm
      iterate 8
        rw [show ascii "/balances/" = [47, 98, 97, 108, 97, 110, 99, 101, 115, 47] from rfl] at rest
        exact absurd (List.cons.inj rest).1 (by decide)
      · have user : ascii "balances/" ++ w.rawdata = v.rawdata :=
          List.append_cancel_left (show ascii "/" ++ _ = ascii "/" ++ _ from rest)
        exact Or.inr (Or.inr ⟨token, user.symm⟩)
      · exact Or.inr (Or.inl ⟨[], token, rest.symm⟩)
  rcases List.append_eq_append_iff.mp same with ⟨d, token, rest⟩ | ⟨d, token, rest⟩
  · exact (shorter token rest).imp id Or.inl
  · exact (shorter token rest).imp (fun ⟨a, b⟩ => ⟨a.symm, b.symm⟩) Or.inr

theorem kinds_differ : ascii "u/" ≠ ascii "t/" := by decide

theorem append_ne_append {a b p q : ByteString} (hp : p ≠ []) (hq : q ≠ []) (ends : p.getLast? ≠ q.getLast?) :
    a ++ p ≠ b ++ q := by
  intro same
  have last := congrArg List.getLast? same
  rw [List.getLast?_append, List.getLast?_append, List.getLast?_eq_some_getLast hp,
    List.getLast?_eq_some_getLast hq, Option.some_or, Option.some_or] at last
  rw [List.getLast?_eq_some_getLast hp, List.getLast?_eq_some_getLast hq] at ends
  exact ends last

/-- A field with an upper-case letter in its name is told apart by its last letter. -/
theorem eq_of_upper {c d : Cell} (upper : ¬ (data c).Lower) (upper' : ¬ (data d).Lower)
    (kind : c.contract.keyPrefix = d.contract.keyPrefix) (same : (data c).body = (data d).body) : c = d := by
  cases c with
  | nonce _ | balances _ _ => exact (upper trivial).elim
  | verifyKey a =>
    cases d with
    | nonce _ | balances _ _ => exact (upper' trivial).elim
    | verifyKey b => exact congrArg Cell.verifyKey (Str.ext (List.append_cancel_right same))
    | curveData _ | baseIdent _ | currentSupply _ => exact absurd kind kinds_differ
  | curveData t =>
    cases d with
    | nonce _ | balances _ _ => exact (upper' trivial).elim
    | curveData s => exact congrArg Cell.curveData (Str.ext (List.append_cancel_right same))
    | verifyKey _ => exact absurd kind kinds_differ.symm
    | baseIdent _ =>
      exact (append_ne_append (p := ascii "/curveData") (q := ascii "/baseIdent") (by decide) (by decide) (by decide) same).elim
    | currentSupply _ =>
      exact (append_ne_append (p := ascii "/curveData") (q := ascii "/currentSupply") (by decide) (by decide) (by decide) same).elim
  | baseIdent t =>
    cases d with
    | nonce _ | balances _ _ => exact (upper' trivial).elim
    | baseIdent s => exact congrArg Cell.baseIdent (Str.ext (List.append_cancel_right same))
    | verifyKey _ => exact absurd kind kinds_differ.symm
    | curveData _ =>
      exact (append_ne_append (p := ascii "/baseIdent") (q := ascii "/curveData") (by decide) (by decide) (by decide) same).elim
    | currentSupply _ =>
      exact (append_ne_append (p := ascii "/baseIdent") (q := ascii "/currentSupply") (by decide) (by decide) (by decide) same).elim
  | currentSupply t =>
    cases d with
    | nonce _ | balances _ _ => exact (upper' trivial).elim
    | currentSupply s => exact congrArg Cell.currentSupply (Str.ext (List.append_cancel_right same))
    | verifyKey _ => exact absurd kind kinds_differ.symm
    | curveData _ =>
      exact (append_ne_append (p := ascii "/currentSupply") (q := ascii "/curveData") (by decide) (by decide) (by decide) same).elim
    | baseIdent _ =>
      exact (append_ne_append (p := ascii "/currentSupply") (q := ascii "/baseIdent") (by decide) (by decide) (by decide) same).elim

theorem marker_clash {k : ContractKey} {c : Cell} (lower : (data c).Lower)
    (kind : k.keyPrefix = c.contract.keyPrefix) (same : (contract k).body = (data c).body) :
    Clash (contract k) (data c) := by
  cases c with
  | verifyKey _ | curveData _ | baseIdent _ | currentSupply _ => exact lower.elim
  | nonce a =>
    cases k with
    | account x => exact .markerNonce same
    | token x => exact absurd kind kinds_differ.symm
  | balances t w =>
    cases k with
    | account x => exact absurd kind kinds_differ
    | token x => exact .markerBalance same

theorem cell_clash {c d : Cell} (lower : (data c).Lower) (lower' : (data d).Lower)
    (kind : c.contract.keyPrefix = d.contract.keyPrefix) (same : (data c).body = (data d).body) :
    c = d ∨ Clash (data c) (data d) := by
  cases c with
  | verifyKey _ | curveData _ | baseIdent _ | currentSupply _ => exact lower.elim
  | nonce a =>
    cases d with
    | verifyKey _ | curveData _ | baseIdent _ | currentSupply _ => exact lower'.elim
    | nonce b => exact Or.inl (congrArg Cell.nonce (Str.ext (List.append_cancel_right same)))
    | balances _ _ => exact absurd kind kinds_differ
  | balances s v =>
    cases d with
    | verifyKey _ | curveData _ | baseIdent _ | currentSupply _ => exact lower'.elim
    | nonce _ => exact absurd kind kinds_differ.symm
    | balances t w =>
      rcases balances_body same with ⟨rfl, rfl⟩ | later | later
      · exact Or.inl rfl
      · exact Or.inr (.balances later)
      · exact Or.inr (.balancesSymm later)

theorem body_of_clash {x y : Slot} (h : Clash x y) :
    x.owner.keyPrefix = y.owner.keyPrefix ∧ x.body = y.body := by
  have balances : ∀ {s v t w : Ident}, ReadLater s v t w →
      s.rawdata ++ (ascii "/balances/" ++ v.rawdata) = t.rawdata ++ (ascii "/balances/" ++ w.rawdata) := by
    rintro s v t w (⟨mid, token, user⟩ | ⟨token, user⟩)
    · rw [token, user]
      simp only [List.append_assoc]
    · rw [token, user, List.append_assoc]
      rfl
  cases h with
  | markerNonce same => exact ⟨rfl, same⟩
  | nonceMarker same => exact ⟨rfl, same.symm⟩
  | markerBalance same => exact ⟨rfl, same⟩
  | balanceMarker same => exact ⟨rfl, same.symm⟩
  | balances later => exact ⟨rfl, balances later⟩
  | balancesSymm later => exact ⟨rfl, (balances later).symm⟩

/-- Exactly the listed pairs share a key. -/
theorem text_eq_iff {x y : Slot} : x.text = y.text ↔ x = y ∨ Clash x y := by
  constructor
  · intro same
    obtain ⟨kind, body⟩ := text_eq_text.mp same
    have lower := lower_of_body_eq body
    cases x with
    | contract k =>
      cases y with
      | contract l =>
        left
        cases k <;> cases l
        · exact congrArg (fun a => contract (.account a)) (Str.ext body)
        · exact absurd kind kinds_differ
        · exact absurd kind kinds_differ.symm
        · exact congrArg (fun t => contract (.token t)) (Str.ext body)
      | data d => exact Or.inr (marker_clash (lower.mp trivial) kind body)
    | data c =>
      cases y with
      | contract l => exact Or.inr (marker_clash (lower.mpr trivial) kind.symm body.symm).symm
      | data d =>
        by_cases low : (data c).Lower
        · exact (cell_clash low (lower.mp low) kind body).imp (congrArg data) id
        · exact Or.inl (congrArg data (eq_of_upper low (fun h => low (lower.mpr h)) kind body))
  · rintro (rfl | clash)
    · rfl
    · exact text_eq_text.mpr (body_of_clash clash)

end Slot

/-- A choice of keys for the slots. Two slots may share a key only where their texts do. -/
structure Layout (K : Type) where
  key : Slot → K
  key_eq : ∀ {x y : Slot}, key x = key y → x = y ∨ Slot.Clash x y

namespace Layout

/-- The keys of the source. -/
def text : Layout ByteString := ⟨Slot.text, Slot.text_eq_iff.mp⟩

/-- Every slot at a key of its own. -/
def free : Layout Slot := ⟨id, Or.inl⟩

variable {K : Type} (L : Layout K)

theorem marker_inj {k l : ContractKey} (same : L.key (.contract k) = L.key (.contract l)) : k = l := by
  rcases L.key_eq same with same | clash
  · exact Slot.contract.inj same
  · cases clash

/-- Two cells share a key only as balances of different tokens and different users. -/
theorem cell_eq {c d : Cell} (same : L.key (.data c) = L.key (.data d)) :
    c = d ∨ ∃ s v t w, c = .balances s v ∧ d = .balances t w ∧ s ≠ t ∧ v ≠ w := by
  rcases L.key_eq same with same | clash
  · exact Or.inl (Slot.data.inj same)
  · cases clash with
    | balances later => exact Or.inr ⟨_, _, _, _, rfl, rfl, later.differ⟩
    | balancesSymm later =>
      exact Or.inr ⟨_, _, _, _, rfl, rfl, later.differ.1.symm, later.differ.2.symm⟩

theorem owner_kind {x y : Slot} (same : L.key x = L.key y) : x.owner.keyPrefix = y.owner.keyPrefix := by
  rcases L.key_eq same with rfl | clash
  · rfl
  · exact (Slot.body_of_clash clash).1

theorem key_ne_of_kinds {x y : Slot} {a t : Ident} (account : x.owner = .account a) (token : y.owner = .token t) :
    L.key x ≠ L.key y := by
  intro same
  have kind := L.owner_kind same
  rw [account, token] at kind
  exact Slot.kinds_differ kind

/-- The key of an account's marker is met only by the nonce of a shorter name. -/
theorem key_account {x : Slot} {a : Ident} (same : L.key x = L.key (.contract (.account a))) :
    x = .contract (.account a) ∨ ∃ b : Ident, x = .data (.nonce b) ∧ a.rawdata = b.rawdata ++ ascii "/nonce" := by
  rcases L.key_eq same with rfl | clash
  · exact Or.inl rfl
  · cases clash with
    | nonceMarker named => exact Or.inr ⟨_, rfl, named⟩

/-- The key of a nonce is met only by the marker of a longer name. -/
theorem key_nonce {x : Slot} {a : Ident} (same : L.key x = L.key (.data (.nonce a))) :
    x = .data (.nonce a) ∨ ∃ b : Ident, x = .contract (.account b) ∧ b.rawdata = a.rawdata ++ ascii "/nonce" := by
  rcases L.key_eq same with rfl | clash
  · exact Or.inl rfl
  · cases clash with
    | markerNonce named => exact Or.inr ⟨_, rfl, named⟩

theorem nonce_inj {c : Cell} {a : Ident} (same : L.key (.data c) = L.key (.data (.nonce a))) : c = .nonce a := by
  rcases L.key_nonce same with same | ⟨_, same, _⟩
  · exact Slot.data.inj same
  · cases same

/-- The key of a token's marker is met only by a balance. -/
theorem key_token {x : Slot} {t : Ident} (same : L.key x = L.key (.contract (.token t))) :
    x = .contract (.token t) ∨
      ∃ s w : Ident, x = .data (.balances s w) ∧ t.rawdata = s.rawdata ++ (ascii "/balances/" ++ w.rawdata) := by
  rcases L.key_eq same with rfl | clash
  · exact Or.inl rfl
  · cases clash with
    | balanceMarker named => exact Or.inr ⟨_, _, rfl, named⟩

/-- A name without a separator shares its marker's key with nothing. -/
theorem key_plain {x : Slot} {k : ContractKey} (plain : (47 : UInt8) ∉ k.ident.rawdata)
    (same : L.key x = L.key (.contract k)) : x = .contract k := by
  cases k with
  | account a =>
    rcases L.key_account same with same | ⟨b, _, named⟩
    · exact same
    · exact (plain (show (47 : UInt8) ∈ a.rawdata by rw [named]; exact List.mem_append_right _ (by decide))).elim
  | token t =>
    rcases L.key_token same with same | ⟨s, w, _, named⟩
    · exact same
    · refine (plain (show (47 : UInt8) ∈ t.rawdata from ?_)).elim
      rw [named]
      exact List.mem_append_right _ (List.mem_append_left _ (by decide))

/-- No other slot has the key of the cell. -/
def Own (c : Cell) : Prop := ∀ x, L.key x = L.key (.data c) → x = .data c

theorem own_of_unclashed {c : Cell} (alone : ∀ x, ¬ Slot.Clash x (.data c)) : L.Own c :=
  fun x same => (L.key_eq same).resolve_right (alone x)

theorem own_curveData (t : Ident) : L.Own (.curveData t) := L.own_of_unclashed nofun

theorem own_baseIdent (t : Ident) : L.Own (.baseIdent t) := L.own_of_unclashed nofun

theorem own_currentSupply (t : Ident) : L.Own (.currentSupply t) := L.own_of_unclashed nofun

end Layout

end BandChain
