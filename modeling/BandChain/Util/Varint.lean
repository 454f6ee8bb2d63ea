import BandChain.Util.Buffer

/-! Where a varint ends, the number that its bytes spell, and what the decoder makes of bytes that no encoder wrote. -/

namespace BandChain

/-- The bytes up to and including the first one with a clear top bit, and the bytes after them. -/
def varintSplit : ByteString → Option (ByteString × ByteString)
  | [] => none
  | raw :: rest =>
    if raw.toNat &&& 0x80 = 0 then some ([raw], rest) else (varintSplit rest).map fun (front, rest) => (raw :: front, rest)

/-- The sum of `(b & 0x7F) * 2 ^ (7 * i)` over bytes `b` that are numbered from `idx` on. -/
def digitSum (idx : Nat) : ByteString → Nat
  | [] => 0
  | raw :: rest => (raw.toNat &&& 0x7F) * 2 ^ (7 * idx) + digitSum (idx + 1) rest

theorem varintSplit_last {raw : UInt8} (last : raw.toNat &&& 0x80 = 0) (rest : ByteString) :
    varintSplit (raw :: rest) = some ([raw], rest) := by
  rw [varintSplit, if_pos last]

theorem varintSplit_more {raw : UInt8} (more : ¬ raw.toNat &&& 0x80 = 0) (rest : ByteString) :
    varintSplit (raw :: rest) = (varintSplit rest).map fun (front, rest) => (raw :: front, rest) := by
  rw [varintSplit, if_neg more]

theorem varintSplit_append {buf front rest : ByteString} (split : varintSplit buf = some (front, rest)) :
    buf = front ++ rest ∧ front ≠ [] := by
  induction buf generalizing front rest with
  | nil => cases split
  | cons raw left ih =>
    by_cases last : raw.toNat &&& 0x80 = 0
    · rw [varintSplit_last last] at split
      cases split
      exact ⟨rfl, by simp⟩
    · rw [varintSplit_more last] at split
      obtain ⟨⟨front', rest'⟩, later, same⟩ := Option.map_eq_some_iff.mp split
      cases same
      obtain ⟨rfl, _⟩ := ih later
      exact ⟨rfl, by simp⟩

theorem varintSplit_length {buf front rest : ByteString} (split : varintSplit buf = some (front, rest)) :
    0 < front.length ∧ buf.length = front.length + rest.length := by
  obtain ⟨rfl, some⟩ := varintSplit_append split
  exact ⟨List.length_pos_iff.mpr some, List.length_append⟩

theorem mask_lt (raw : UInt8) : raw.toNat &&& 0x7F < 128 := Nat.lt_succ_of_le Nat.and_le_right

/-- A sum of digits stays below the place after its last digit. -/
theorem digitSum_lt (idx : Nat) (front : ByteString) {val : Nat} (low : val < 2 ^ (7 * idx)) :
    val + digitSum idx front < 2 ^ (7 * (idx + front.length)) := by
  induction front generalizing idx val with
  | nil => exact low
  | cons raw front ih =>
    obtain ⟨below, _⟩ := digit_step (raw.toNat &&& 0x7F) low
    rw [Nat.mod_eq_of_lt (mask_lt raw)] at below
    have more := ih (idx + 1) below
    rw [digitSum, ← Nat.add_assoc, List.length_cons]
    rwa [Nat.add_right_comm idx 1 front.length] at more

/-- The decoder throws at a byte that does not fit `uint256_t`, and never at any other type. -/
theorem IntType.shl_error {T : IntType} {b count : Nat} {e : Stop} (failed : T.shl b count = .error e) :
    T = .uint256 ∧ 2 ^ 256 ≤ b * 2 ^ count ∧ e = .throw .overflowError := by
  cases T with
  | uint256 =>
    simp only [shl, Nat.shiftLeft_eq] at failed
    split at failed
    · cases failed
    · cases failed
      exact ⟨rfl, Nat.le_of_not_lt ‹_›, rfl⟩
  | uint8 | uint16 | uint32 | uint64 => cases failed

/-- Digits of `uint256_t` that fit one by one fit together. -/
theorem digit_fits {val b count : Nat} (low : val < 2 ^ count) (fits : val < 2 ^ 256) (digit : b * 2 ^ count < 2 ^ 256) :
    val + b * 2 ^ count < 2 ^ 256 := by
  have joined : val ||| b * 2 ^ count = val + b * 2 ^ count := by
    rw [Nat.mul_comm b, Nat.or_comm, ← Nat.two_pow_add_eq_or_of_lt low, Nat.add_comm]
  rw [← joined]
  exact Nat.or_lt_two_pow fits digit

/-! ### How the decoder ends -/

section

variable {T : IntType} {left front rest : ByteString} {idx val : Nat} (buf : ByteString)

theorem IntType.or_lt (T : IntType) (val x : Nat) : T.or val x < 2 ^ T.bits := Nat.mod_lt _ (Nat.two_pow_pos _)

theorem varintDecode_go_word (word : T ≠ .uint256) (split : varintSplit left = some (front, rest)) :
    ∃ n < 2 ^ T.bits, varintDecode.go T buf left idx val = (.ok n, rest) := by
  induction left generalizing front rest idx val with
  | nil => cases split
  | cons raw left ih =>
    unfold varintDecode.go
    rcases shifted : T.shl (raw.toNat &&& 0x7F) (7 * idx) with e | x
    · exact (word (IntType.shl_error shifted).1).elim
    · by_cases last : raw.toNat &&& 0x80 = 0
      · rw [varintSplit_last last] at split
        cases split
        exact ⟨T.or val x, T.or_lt val x, by simp only [if_pos last]⟩
      · rw [varintSplit_more last] at split
        obtain ⟨⟨front', rest'⟩, later, same⟩ := Option.map_eq_some_iff.mp split
        cases same
        simp only [if_neg last]
        exact ih later

theorem varintDecode_go_fits (low : val < 2 ^ (7 * idx)) (split : varintSplit left = some (front, rest))
    (fits : val + digitSum idx front < 2 ^ T.bits) :
    varintDecode.go T buf left idx val = (.ok (val + digitSum idx front), rest) := by
  induction left generalizing front rest idx val with
  | nil => cases split
  | cons raw left ih =>
    obtain ⟨below, _⟩ := digit_step (raw.toNat &&& 0x7F) low
    rw [Nat.mod_eq_of_lt (mask_lt raw)] at below
    have step (digit : val + (raw.toNat &&& 0x7F) * 2 ^ (7 * idx) < 2 ^ T.bits) :
        varintDecode.go T buf (raw :: left) idx val =
          if raw.toNat &&& 0x80 = 0 then (.ok (val + (raw.toNat &&& 0x7F) * 2 ^ (7 * idx)), left)
          else varintDecode.go T buf left (idx + 1) (val + (raw.toNat &&& 0x7F) * 2 ^ (7 * idx)) := by
      rw [varintDecode.go, T.shl_of_fits (Nat.lt_of_le_of_lt (Nat.le_add_left _ val) digit)]
      simp only [T.or_of_fits low digit]
    by_cases last : raw.toNat &&& 0x80 = 0
    · rw [varintSplit_last last] at split
      cases split
      simp only [digitSum, Nat.add_zero] at fits ⊢
      rw [step fits, if_pos last]
    · rw [varintSplit_more last] at split
      obtain ⟨⟨front', rest'⟩, later, same⟩ := Option.map_eq_some_iff.mp split
      cases same
      rw [digitSum, ← Nat.add_assoc] at fits ⊢
      rw [step (Nat.lt_of_le_of_lt (Nat.le_add_right _ _) fits), if_neg last]
      exact ih below later fits

theorem varintDecode_go_refused (low : val < 2 ^ (7 * idx)) (small : val < 2 ^ 256)
    (large : ∀ front rest, varintSplit left = some (front, rest) → 2 ^ 256 ≤ val + digitSum idx front) :
    ∃ e, varintDecode.go .uint256 buf left idx val = (.error (.throw e), buf) := by
  induction left generalizing idx val with
  | nil => exact ⟨_, rfl⟩
  | cons raw left ih =>
    obtain ⟨below, _⟩ := digit_step (raw.toNat &&& 0x7F) low
    rw [Nat.mod_eq_of_lt (mask_lt raw)] at below
    unfold varintDecode.go
    by_cases digit : (raw.toNat &&& 0x7F) * 2 ^ (7 * idx) < 2 ^ 256
    · have together := digit_fits low small digit
      rw [IntType.shl_of_fits (T := .uint256) digit]
      simp only [IntType.or_of_fits (T := .uint256) low together]
      by_cases last : raw.toNat &&& 0x80 = 0
      · have wrong := large _ _ (varintSplit_last last left)
        simp only [digitSum, Nat.add_zero] at wrong
        omega
      · simp only [if_neg last]
        refine ih below together fun front rest later => ?_
        have wrong := large (raw :: front) rest (by rw [varintSplit_more last, later]; rfl)
        rwa [digitSum, ← Nat.add_assoc] at wrong
    · rw [show IntType.shl .uint256 (raw.toNat &&& 0x7F) (7 * idx) = .error (.throw .overflowError) by
        simp only [IntType.shl, Nat.shiftLeft_eq]
        exact if_neg digit]
      exact ⟨_, rfl⟩

theorem varintDecode_go_endless (endless : varintSplit left = none) :
    ∃ e, varintDecode.go T buf left idx val = (.error (.throw e), buf) := by
  induction left generalizing idx val with
  | nil => exact ⟨_, rfl⟩
  | cons raw left ih =>
    have more : ¬ raw.toNat &&& 0x80 = 0 := by
      intro last
      rw [varintSplit_last last] at endless
      cases endless
    rw [varintSplit_more more, Option.map_eq_none_iff] at endless
    unfold varintDecode.go
    rcases shifted : T.shl (raw.toNat &&& 0x7F) (7 * idx) with e | x
    · obtain ⟨_, _, rfl⟩ := IntType.shl_error shifted
      exact ⟨_, rfl⟩
    · simp only [if_neg more]
      exact ih endless

end

/-! ### The length of an encoding -/

theorem varintEncode_go_length {fuel v k : Nat} (small : v < 2 ^ (7 * (k + 1))) : (varintEncode.go fuel v).length ≤ k + 1 := by
  induction fuel generalizing v k with
  | zero => simp [varintEncode.go]
  | succ fuel ih =>
    have shift : v >>> 7 = v / 128 := Nat.shiftRight_eq_div_pow v 7
    simp only [varintEncode.go, shift]
    split
    · rename_i more
      cases k with
      | zero => omega
      | succ k =>
        have less : v / 128 < 2 ^ (7 * (k + 1)) := by
          rw [Nat.mul_add, Nat.pow_add] at small
          exact (Nat.div_lt_iff_lt_mul (by decide)).mpr small
        have shorter := ih less
        simp only [List.length_cons]
        omega
    · simp

/-- The encoder writes no more bytes than the number was read from. -/
theorem varintEncode_length_le {v : Nat} {front : ByteString} (some : front ≠ []) (small : v < 2 ^ (7 * front.length)) :
    (varintEncode v).length ≤ front.length := by
  obtain ⟨k, length⟩ : ∃ k, front.length = k + 1 := ⟨front.length - 1, by have := List.length_pos_iff.mpr some; omega⟩
  rw [length] at small ⊢
  exact varintEncode_go_length small

/-- A number that was read: the bytes it was read from, and its value where the type checks. -/
theorem varintDecode_ok {T : IntType} {buf rest : ByteString} {n : Nat} (ran : varintDecode T buf = (.ok n, rest)) :
    ∃ front, varintSplit buf = some (front, rest) ∧ (T = .uint256 → n = digitSum 0 front) := by
  rcases split : varintSplit buf with _ | ⟨front, rest'⟩
  · obtain ⟨e, refused⟩ : ∃ e, varintDecode T buf = (.error (.throw e), buf) := varintDecode_go_endless buf split
    cases ran.symm.trans refused
  · by_cases fits : 0 + digitSum 0 front < 2 ^ T.bits
    · have returned : varintDecode T buf = (.ok (0 + digitSum 0 front), rest') := varintDecode_go_fits buf (by decide) split fits
      rw [Nat.zero_add] at returned
      cases ran.symm.trans returned
      exact ⟨front, rfl, fun _ => rfl⟩
    · by_cases word : T = .uint256
      · subst word
        have large : ∀ front' rest'', varintSplit buf = some (front', rest'') → 2 ^ 256 ≤ 0 + digitSum 0 front' := by
          rintro front' rest'' same
          cases split.symm.trans same
          exact Nat.le_of_not_lt fits
        obtain ⟨e, refused⟩ : ∃ e, varintDecode .uint256 buf = (.error (.throw e), buf) :=
          varintDecode_go_refused buf (by decide) (by decide) large
        cases ran.symm.trans refused
      · obtain ⟨m, _, returned⟩ : ∃ m < 2 ^ T.bits, varintDecode T buf = (.ok m, rest') := varintDecode_go_word buf word split
        cases ran.symm.trans returned
        exact ⟨front, rfl, fun wrong => (word wrong).elim⟩

end BandChain
