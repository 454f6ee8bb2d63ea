import BandChain.Net.TmApp
import BandChain.Util.Varint

/-! Which varints are read as the number they spell, and which lengths of requests can be used. -/

namespace BandChain

/-- A number is returned as its bytes spell it; otherwise nothing is read, and there was no number that fits. -/
def Exact (T : IntType) (buf : ByteString) : Prop :=
  match varintDecode T buf with
  | (.ok n, rest) => ∃ front, varintSplit buf = some (front, rest) ∧ n = digitSum 0 front ∧ digitSum 0 front < 2 ^ T.bits
  | (.error e, rest) => e ≠ .crash ∧ rest = buf ∧
      ∀ front rest, varintSplit buf = some (front, rest) → 2 ^ T.bits ≤ digitSum 0 front

theorem varint_exact_iff (T : IntType) (buf : ByteString) :
    Exact T buf ↔ T = .uint256 ∨ ∀ front rest, varintSplit buf = some (front, rest) → digitSum 0 front < 2 ^ T.bits := by
  have zero : (0 : Nat) < 2 ^ T.bits := Nat.two_pow_pos _
  unfold Exact varintDecode
  rcases split : varintSplit buf with _ | ⟨front, rest⟩
  · obtain ⟨e, refused⟩ : ∃ e, varintDecode.go T buf buf 0 0 = (.error (.throw e), buf) := varintDecode_go_endless buf split
    simp [refused]
  · by_cases fits : digitSum 0 front < 2 ^ T.bits
    · have returned : varintDecode.go T buf buf 0 0 = (.ok (0 + digitSum 0 front), rest) :=
        varintDecode_go_fits buf (by decide) split (by rwa [Nat.zero_add])
      rw [Nat.zero_add] at returned
      refine iff_of_true ?_ (Or.inr ?_)
      · rw [returned]
        exact ⟨front, rfl, rfl, fits⟩
      · rintro _ _ same
        cases same
        exact fits
    · by_cases word : T = .uint256
      · subst word
        have large : ∀ front' rest', varintSplit buf = some (front', rest') → 2 ^ 256 ≤ 0 + digitSum 0 front' := by
          rintro _ _ same
          cases split.symm.trans same
          rw [Nat.zero_add]
          exact Nat.le_of_not_lt fits
        obtain ⟨e, refused⟩ : ∃ e, varintDecode.go .uint256 buf buf 0 0 = (.error (.throw e), buf) :=
          varintDecode_go_refused buf (by decide) zero large
        refine iff_of_true ?_ (Or.inl rfl)
        rw [refused]
        refine ⟨by simp, rfl, fun front' rest' same => ?_⟩
        have wrong := large front' rest' (split.trans same)
        rwa [Nat.zero_add] at wrong
      · obtain ⟨n, _, returned⟩ : ∃ n < 2 ^ T.bits, varintDecode.go T buf buf 0 0 = (.ok n, rest) := varintDecode_go_word buf word split
        refine iff_of_false ?_ ?_
        · rw [returned]
          rintro ⟨_, same, _, small⟩
          cases same
          exact fits small
        · rintro (wrong | small)
          · exact word wrong
          · exact fits (small _ _ rfl)

/-- The number 65537 is read as the opcode 1. -/
theorem opcode_wraps : ¬ Exact .uint16 [0x81, 0x80, 0x04] := by
  have read : varintDecode .uint16 [0x81, 0x80, 0x04] = (.ok 1, []) := by decide
  unfold Exact
  rw [read]
  rintro ⟨front, split, _, small⟩
  have whole : varintSplit [0x81, 0x80, 0x04] = some ([0x81, 0x80, 0x04], []) := by decide
  cases whole.symm.trans split
  revert small
  decide

/-! ### The lengths of requests -/

namespace TmApp

/-- Where no length is read the buffer is left as it was, and where one is read that many bytes follow it. -/
def Usable (buf : ByteString) : Prop :=
  match readAhead buf with
  | (.ok none, rest) => rest = buf
  | (.ok (some size), rest) => (∃ front, varintSplit buf = some (front, rest)) ∧ 0 ≤ size ∧ size ≤ rest.length
  | (.error _, _) => False

/-- The bits that the digits of a length, numbered from `idx` on, set in an `int`. A shift counts modulo 32. -/
def lengthBits (idx : Nat) : ByteString → Nat
  | [] => 0
  | raw :: front => IntType.uint32.or ((raw.toNat &&& 0x7F) <<< (7 * idx % 32) % 2 ^ 32) (lengthBits (idx + 1) front)

/-- A digit, numbered from `idx` on, reaches the sign bit of the `int`. -/
def Signs (idx : Nat) (front : ByteString) : Prop :=
  ∃ (i : Nat) (raw : UInt8), front[i]? = some raw ∧ ∃ j < 7, 7 * (idx + i) % 32 + j = 31 ∧ raw.toNat.testBit j = true

theorem signs_cons {idx : Nat} {raw : UInt8} {front : ByteString} :
    Signs idx (raw :: front) ↔ (∃ j < 7, 7 * idx % 32 + j = 31 ∧ raw.toNat.testBit j = true) ∨ Signs (idx + 1) front := by
  constructor
  · rintro ⟨i, raw', found, j, small, place, set⟩
    cases i with
    | zero =>
      obtain rfl := Option.some.inj found
      exact Or.inl ⟨j, small, place, set⟩
    | succ i => exact Or.inr ⟨i, raw', found, j, small, by rwa [Nat.add_right_comm idx 1 i], set⟩
  · rintro (⟨j, small, place, set⟩ | ⟨i, raw', found, j, small, place, set⟩)
    · exact ⟨0, raw, rfl, j, small, place, set⟩
    · exact ⟨i + 1, raw', found, j, small, by rwa [Nat.add_right_comm idx 1 i] at place, set⟩

/-- The sign bit of a shifted digit. -/
theorem testBit_digit (raw : UInt8) (count : Nat) (small : count < 32) :
    ((raw.toNat &&& 0x7F) <<< count % 2 ^ 32).testBit 31 = true ↔ ∃ j < 7, count + j = 31 ∧ raw.toNat.testBit j = true := by
  have mask : raw.toNat &&& 0x7F = raw.toNat % 2 ^ 7 := Nat.and_two_pow_sub_one_eq_mod raw.toNat 7
  rw [Nat.testBit_mod_two_pow, Nat.testBit_shiftLeft, mask, Nat.testBit_mod_two_pow]
  simp only [Nat.reduceLT, decide_true, Bool.true_and, Bool.and_eq_true, decide_eq_true_eq]
  constructor
  · rintro ⟨_, inside, set⟩
    exact ⟨31 - count, inside, by omega, set⟩
  · rintro ⟨j, inside, place, set⟩
    obtain rfl : j = 31 - count := by omega
    exact ⟨by omega, inside, set⟩

theorem lengthBits_lt (idx : Nat) (front : ByteString) : lengthBits idx front < 2 ^ 32 := by
  cases front with
  | nil => exact Nat.two_pow_pos 32
  | cons raw front => exact IntType.uint32.or_lt _ _

theorem uint32_or_assoc (a b c : Nat) : IntType.uint32.or (IntType.uint32.or a b) c = IntType.uint32.or a (IntType.uint32.or b c) := by
  refine Nat.eq_of_testBit_eq fun i => ?_
  simp only [IntType.or, Nat.testBit_mod_two_pow, Nat.testBit_or, Bool.and_or_distrib_left]
  cases decide (i < IntType.uint32.bits) <;> simp [Bool.or_assoc]

theorem testBit_sign {n : Nat} (small : n < 2 ^ 32) : n.testBit 31 = true ↔ 2 ^ 31 ≤ n := by
  rw [Nat.testBit_eq_decide_div_mod_eq, decide_eq_true_eq]
  omega

/-- The sign is set by the digits that reach it. -/
theorem signs_iff (idx : Nat) (front : ByteString) : Signs idx front ↔ 2 ^ 31 ≤ lengthBits idx front := by
  rw [← testBit_sign (lengthBits_lt idx front)]
  induction front generalizing idx with
  | nil =>
    refine iff_of_false ?_ (by simp [lengthBits])
    rintro ⟨i, raw, found, _⟩
    cases found
  | cons raw front ih =>
    have digit := testBit_digit raw (7 * idx % 32) (Nat.mod_lt _ (by decide))
    have joined : (lengthBits idx (raw :: front)).testBit 31 =
        (((raw.toNat &&& 0x7F) <<< (7 * idx % 32) % 2 ^ 32).testBit 31 || (lengthBits (idx + 1) front).testBit 31) := by
      rw [lengthBits, IntType.or, show IntType.uint32.bits = 32 from rfl, Nat.testBit_mod_two_pow, Nat.testBit_or]
      simp
    rw [signs_cons, ih, ← digit, joined, Bool.or_eq_true]

/-- The loop of `read_ahead` ends where the length does, with the bits of its digits. -/
theorem go_found {left front rest : ByteString} (idx : Nat) {val : Nat} (split : varintSplit left = some (front, rest)) :
    readAhead.go left idx val = readAhead.found (idx + front.length - 1) (IntType.uint32.or val (lengthBits idx front)) := by
  induction left generalizing front rest idx val with
  | nil => cases split
  | cons raw left ih =>
    by_cases last : raw.toNat &&& 0x80 = 0
    · rw [varintSplit_last last] at split
      cases split
      simp only [readAhead.go, if_pos last, List.length_singleton, Nat.add_sub_cancel]
      rw [lengthBits, ← uint32_or_assoc]
      refine congrArg _ ?_
      rw [lengthBits, IntType.or, IntType.or, Nat.or_zero, Nat.mod_mod]
    · rw [varintSplit_more last] at split
      obtain ⟨⟨front', rest'⟩, later, same⟩ := Option.map_eq_some_iff.mp split
      cases same
      simp only [readAhead.go, if_neg last]
      rw [ih (idx + 1) later, List.length_cons, lengthBits, uint32_or_assoc]
      congr 1
      omega

theorem go_endless {left : ByteString} {idx val : Nat} (endless : varintSplit left = none) (buf : ByteString) :
    readAhead.go left idx val buf = (.ok none, buf) := by
  induction left generalizing idx val with
  | nil => rfl
  | cons raw left ih =>
    by_cases last : raw.toNat &&& 0x80 = 0
    · rw [varintSplit_last last] at endless
      cases endless
    · rw [varintSplit_more last, Option.map_eq_none_iff] at endless
      simp only [readAhead.go, if_neg last]
      exact ih endless

/-- What is read of a buffer that starts with a length. -/
theorem readAhead_apply {buf front rest : ByteString} (split : varintSplit buf = some (front, rest)) :
    readAhead buf = readAhead.found (front.length - 1) (lengthBits 0 front) buf := by
  have bits : IntType.uint32.or 0 (lengthBits 0 front) = lengthBits 0 front := by
    rw [IntType.or, Nat.zero_or]
    exact Nat.mod_eq_of_lt (lengthBits_lt 0 front)
  unfold readAhead
  rw [Exec.bind_of_ok (Exec.get_apply buf), go_found 0 split, bits, Nat.zero_add]

theorem usable_of_waits {buf front rest : ByteString} (split : varintSplit buf = some (front, rest))
    (missing : ¬ int32 ((front.length - 1 : Nat) + int32 (lengthBits 0 front) / 2) < buf.length) : Usable buf := by
  unfold Usable
  rw [readAhead_apply split, found_waits missing]

/-- A length of less than 2^31 bytes is taken off the buffer. -/
theorem usable_of_arrived {buf front rest : ByteString} (split : varintSplit buf = some (front, rest)) (short : front.length < 2 ^ 31)
    (arrived : int32 ((front.length - 1 : Nat) + int32 (lengthBits 0 front) / 2) < buf.length) :
    Usable buf ↔ 0 ≤ int32 (lengthBits 0 front) / 2 ∧ int32 (lengthBits 0 front) / 2 ≤ rest.length := by
  obtain ⟨parts, _⟩ := varintSplit_append split
  obtain ⟨positive, length⟩ := varintSplit_length split
  have taken : int32 (1 + (front.length - 1 : Nat)) = front.length := by
    rw [int32_of_lt (by omega) (by omega)]
    omega
  have consumed : consume (int32 (1 + (front.length - 1 : Nat))) buf = (.ok (), rest) := by
    rw [taken, consume_of (by omega), Int.toNat_natCast, parts, List.drop_left]
  unfold Usable
  rw [readAhead_apply split, found_taken arrived consumed]
  exact and_iff_right ⟨front, split⟩

/-- A longer one is not. -/
theorem long_unusable {buf front rest : ByteString} (split : varintSplit buf = some (front, rest)) (long : 2 ^ 31 ≤ front.length) :
    ¬ Usable buf := by
  obtain ⟨_, length⟩ := varintSplit_length split
  have below := int32_lt ((front.length - 1 : Nat) + int32 (lengthBits 0 front) / 2)
  have less := int32_lt (1 + (front.length - 1 : Nat))
  have read := (readAhead_apply split).trans (found_apply (by omega))
  generalize int32 (1 + (front.length - 1 : Nat)) = count at less read
  unfold Usable
  by_cases inside : 0 ≤ count ∧ count ≤ buf.length
  · rw [read, Exec.bind_of_ok (consume_of inside), split]
    rintro ⟨⟨_, same⟩, _⟩
    have fewer := congrArg List.length (Prod.mk.inj (Option.some.inj same)).2
    rw [List.length_drop] at fewer
    omega
  · rw [read, Exec.bind_of_error (consume_crash inside)]
    exact False.elim

/-- A negative length passes the test, whatever has arrived. -/
theorem signed_unusable {buf front rest : ByteString} (split : varintSplit buf = some (front, rest)) (short : front.length < 2 ^ 31)
    (signs : 2 ^ 31 ≤ lengthBits 0 front) : ¬ Usable buf := by
  obtain ⟨positive, length⟩ := varintSplit_length split
  have taken := usable_of_arrived split short
  have word := lengthBits_lt 0 front
  generalize lengthBits 0 front = val at *
  have negative : int32 val = val - 2 ^ 32 := int32_of_le (by omega) (by omega)
  rw [negative] at taken
  have arrived : int32 ((front.length - 1 : Nat) + (val - 2 ^ 32) / 2) < buf.length := by
    rw [int32_of_lt (by omega) (by omega)]
    omega
  intro usable
  have size := ((taken arrived).mp usable).1
  omega

theorem int32_half {val : Nat} (small : val < 2 ^ 31) : int32 val / 2 = (val / 2 : Nat) := by
  rw [int32_of_lt (by omega) (by omega)]
  omega

/-- Where the number of the last byte of the message is an `int`, the test is whether that byte has arrived. -/
theorem usable_of_numbered {buf front rest : ByteString} (split : varintSplit buf = some (front, rest)) (short : front.length < 2 ^ 31)
    (unsigned : lengthBits 0 front < 2 ^ 31) (numbered : front.length + lengthBits 0 front / 2 ≤ 2 ^ 31) : Usable buf := by
  obtain ⟨positive, length⟩ := varintSplit_length split
  have waits := usable_of_waits split
  have taken := usable_of_arrived split short
  rw [int32_half unsigned] at waits taken
  have number : int32 ((front.length - 1 : Nat) + (lengthBits 0 front / 2 : Nat)) = (front.length - 1 + lengthBits 0 front / 2 : Nat) :=
    int32_of_lt (by omega) (by omega)
  rw [number] at waits taken
  by_cases arrived : front.length - 1 + lengthBits 0 front / 2 < buf.length
  · exact (taken (by omega)).mpr (by omega)
  · exact waits (by omega)

/-- Where it is not, it wraps, and the test passes. -/
theorem usable_of_wrapped {buf front rest : ByteString} (split : varintSplit buf = some (front, rest)) (short : front.length < 2 ^ 31)
    (unsigned : lengthBits 0 front < 2 ^ 31) (wraps : 2 ^ 31 < front.length + lengthBits 0 front / 2) :
    Usable buf ↔ lengthBits 0 front / 2 ≤ rest.length := by
  have taken := usable_of_arrived split short
  rw [int32_half unsigned] at taken
  have number : int32 ((front.length - 1 : Nat) + (lengthBits 0 front / 2 : Nat)) =
      (front.length - 1 : Nat) + (lengthBits 0 front / 2 : Nat) - 2 ^ 32 := int32_of_le (by omega) (by omega)
  rw [taken (by omega)]
  omega

/-- A length is usable where it takes less than 2^31 bytes, no digit of it reaches the sign, and the last byte of the message has
a number below 2^31, or has arrived. -/
theorem readAhead_usable_iff (buf : ByteString) :
    Usable buf ↔ ∀ front rest, varintSplit buf = some (front, rest) →
      front.length < 2 ^ 31 ∧ ¬ Signs 0 front ∧
        (front.length + lengthBits 0 front / 2 ≤ 2 ^ 31 ∨ lengthBits 0 front / 2 ≤ rest.length) := by
  rcases split : varintSplit buf with _ | ⟨front, rest⟩
  · have none : readAhead buf = (.ok none, buf) := (Exec.bind_of_ok (Exec.get_apply buf)).trans (go_endless split buf)
    unfold Usable
    rw [none]
    simp
  · have only {P : ByteString → ByteString → Prop} : (∀ front' rest', some (front, rest) = some (front', rest') → P front' rest') ↔
        P front rest := ⟨fun all => all front rest rfl, fun one _ _ same => by cases same; exact one⟩
    rw [only, signs_iff]
    by_cases long : 2 ^ 31 ≤ front.length
    · exact iff_of_false (long_unusable split long) fun fits => absurd fits.1 (Nat.not_lt.mpr long)
    have short := Nat.lt_of_not_le long
    by_cases signs : 2 ^ 31 ≤ lengthBits 0 front
    · exact iff_of_false (signed_unusable split short signs) fun fits => fits.2.1 signs
    have unsigned := Nat.lt_of_not_le signs
    by_cases numbered : front.length + lengthBits 0 front / 2 ≤ 2 ^ 31
    · exact iff_of_true (usable_of_numbered split short unsigned numbered) ⟨short, signs, Or.inl numbered⟩
    · rw [usable_of_wrapped split short unsigned (Nat.lt_of_not_le numbered)]
      constructor
      · intro whole
        exact ⟨short, signs, Or.inr whole⟩
      · intro fits
        exact fits.2.2.resolve_left numbered

/-- Bit 3 of the fifth byte is the sign. -/
theorem negative_length : ¬ Usable [0x80, 0x80, 0x80, 0x80, 0x08] := by
  have read : readAhead [0x80, 0x80, 0x80, 0x80, 0x08] = (.ok (some (-1073741824)), []) := by decide +kernel
  unfold Usable
  rw [read]
  rintro ⟨_, wrong, _⟩
  revert wrong
  decide

end TmApp

end BandChain
