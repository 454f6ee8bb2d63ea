import BandChain.Util.Buffer
import Mathlib.Tactic.IntervalCases

/-! The text of bytes and of numbers: `bytes_to_hex`, `Bytes::hex`, and `str()` and the constructor of `uint256_t`. -/

namespace BandChain

/-! ### Hexadecimal -/

/-- A digit of `{:02x}`. -/
def hexChar (digit : Nat) : UInt8 := if digit < 10 then UInt8.ofNat (48 + digit) else UInt8.ofNat (87 + digit)

def bytesToHex (data : ByteString) : ByteString := data.flatMap fun b => [hexChar (b.toNat / 16), hexChar (b.toNat % 16)]

def hexToByte (hexDigit : UInt8) : Except Stop UInt8 :=
  if 48 ≤ hexDigit ∧ hexDigit ≤ 57 then .ok (hexDigit - 48)
  else if 97 ≤ hexDigit ∧ hexDigit ≤ 102 then .ok (hexDigit - 97 + 10)
  else if 65 ≤ hexDigit ∧ hexDigit ≤ 70 then .ok (hexDigit - 65 + 10)
  else .error (.throw (.error .hexDigit))

namespace Bytes

def hexLoop : (size : Nat) → ByteString → Except Stop (Bytes size)
  | 0, _ => .ok ⟨[], rfl⟩
  | size + 1, high :: low :: rest => do
    let high ← hexToByte high
    let low ← hexToByte low
    let tail ← hexLoop size rest
    return ⟨(high <<< 4 ||| low) :: tail.rawdata, congrArg (· + 1) tail.length_eq⟩
  | size + 1, rest => .error (.throw (.error (.hexLength (size + 1) rest.length)))

def hex (size : Nat) (hexString : ByteString) : Except Stop (Bytes size) :=
  if hexString.length ≠ 2 * size then .error (.throw (.error (.hexLength size hexString.length)))
  else hexLoop size hexString

def toString {size : Nat} (bytes : Bytes size) : ByteString := bytesToHex bytes.rawdata

end Bytes

theorem hexToByte_hexChar {digit : Nat} (small : digit < 16) : hexToByte (hexChar digit) = .ok (UInt8.ofNat digit) := by
  interval_cases digit <;> rfl

theorem halves (b : UInt8) : UInt8.ofNat (b.toNat / 16) <<< 4 ||| UInt8.ofNat (b.toNat % 16) = b := by
  have below := b.toNat_lt
  have low : b.toNat % 16 < 2 ^ 4 := by omega
  have high : (UInt8.ofNat (b.toNat / 16) <<< 4).toNat = (b.toNat / 16) <<< 4 := by
    rw [UInt8.toNat_shiftLeft, UInt8.toNat_ofNat_of_lt' (show b.toNat / 16 < 256 by omega), show UInt8.toNat 4 % 8 = 4 from rfl, Nat.shiftLeft_eq]
    omega
  rw [← UInt8.toNat_inj, UInt8.toNat_or, high, UInt8.toNat_ofNat_of_lt' (show b.toNat % 16 < 256 by omega), ← Nat.shiftLeft_add_eq_or_of_lt low,
    Nat.shiftLeft_eq]
  omega

theorem bytesToHex_length (data : ByteString) : (bytesToHex data).length = 2 * data.length := by
  induction data with
  | nil => rfl
  | cons b data ih =>
    rw [bytesToHex, List.flatMap_cons, List.length_append, ← bytesToHex, ih]
    simp
    omega

theorem hexLoop_bytesToHex (data : ByteString) {size : Nat} (length_eq : data.length = size) :
    Bytes.hexLoop size (bytesToHex data) = .ok ⟨data, length_eq⟩ := by
  induction data generalizing size with
  | nil =>
    subst length_eq
    rfl
  | cons b data ih =>
    obtain _ | size := size
    · cases length_eq
    have tail := ih (Nat.succ.inj length_eq)
    have below := b.toNat_lt
    have high : hexToByte (hexChar (b.toNat / 16)) = .ok (UInt8.ofNat (b.toNat / 16)) := hexToByte_hexChar (by omega)
    have low : hexToByte (hexChar (b.toNat % 16)) = .ok (UInt8.ofNat (b.toNat % 16)) := hexToByte_hexChar (by omega)
    change Bytes.hexLoop (size + 1) (hexChar (b.toNat / 16) :: hexChar (b.toNat % 16) :: bytesToHex data) = _
    simp only [Bytes.hexLoop, high, low, tail, bind, Except.bind, pure, Except.pure, halves]

/-- The text of bytes reads back as the bytes. -/
theorem hex_toString {size : Nat} (bytes : Bytes size) : Bytes.hex size bytes.toString = .ok bytes := by
  have long : bytes.toString.length = 2 * size := by rw [Bytes.toString, bytesToHex_length, bytes.length_eq]
  rw [Bytes.hex, if_neg (fun other => other long), Bytes.toString, hexLoop_bytesToHex _ bytes.length_eq]

/-! ### Numbers -/

/-- A digit of a base up to 16. -/
def digitValue (base : Nat) (c : UInt8) : Except Stop Nat :=
  match hexToByte c with
  | .ok digit => if digit.toNat < base then .ok digit.toNat else .error (.throw .runtimeError)
  | .error _ => .error (.throw .runtimeError)

namespace UInt256

/-- The digits after those that gave `n`. -/
def ofDigits (base : Nat) : ByteString → UInt256 → Except Stop UInt256
  | [], n => .ok n
  | c :: rest, n => do
    let digit ← digitValue base c
    ofDigits base rest (← checked (base * n.val + digit))

/-- The constructor from a string. A leading zero is the mark of another base; signs are left out. -/
def ofString : ByteString → Except Stop UInt256
  | 48 :: 120 :: digits | 48 :: 88 :: digits => ofDigits 16 digits 0
  | 48 :: digits => ofDigits 8 digits 0
  | digits => ofDigits 10 digits 0

def str (n : UInt256) : ByteString := ascii (ToString.toString n.val)

end UInt256

def decimal (n : Nat) : ByteString := (Nat.toDigits 10 n).map fun c => UInt8.ofNat c.toNat

theorem str_eq_decimal (n : UInt256) : n.str = decimal n.val := by
  rw [UInt256.str, ascii, Nat.toString_eq_repr, Nat.toList_repr, decimal]

theorem decimal_of_lt {n : Nat} (small : n < 10) : decimal n = [UInt8.ofNat (48 + n)] := by
  rw [decimal, Nat.toDigits_of_lt_base small]
  interval_cases n <;> rfl

theorem decimal_of_le {n : Nat} (large : 10 ≤ n) : decimal n = decimal (n / 10) ++ decimal (n % 10) := by
  rw [decimal, Nat.toDigits_of_base_le (by decide) large, List.map_append, decimal, decimal,
    Nat.toDigits_of_lt_base (Nat.mod_lt n (by decide))]

theorem digitValue_decimal {n : Nat} (small : n < 10) : digitValue 10 (UInt8.ofNat (48 + n)) = .ok n := by
  interval_cases n <;> rfl

/-- A number that is not zero does not begin with one. -/
theorem decimal_head {n : Nat} (some : n ≠ 0) : ∃ c rest, decimal n = c :: rest ∧ c ≠ 48 := by
  induction n using Nat.strong_induction_on with
  | _ n ih =>
    by_cases small : n < 10
    · refine ⟨_, _, decimal_of_lt small, ?_⟩
      interval_cases n <;> first | exact (some rfl).elim | decide
    · obtain ⟨c, rest, begins, other⟩ := ih (n / 10) (by omega) (by omega)
      exact ⟨c, rest ++ decimal (n % 10), by rw [decimal_of_le (by omega), begins, List.cons_append], other⟩

theorem ofDigits_decimal {n : Nat} (fits : n < 2 ^ 256) (rest : ByteString) :
    UInt256.ofDigits 10 (decimal n ++ rest) 0 = UInt256.ofDigits 10 rest ⟨n, fits⟩ := by
  induction n using Nat.strong_induction_on generalizing rest with
  | _ n ih =>
    have digit (d : Nat) (small : d < 10) (m : UInt256) (total : 10 * m.val + d = n) :
        UInt256.ofDigits 10 (decimal d ++ rest) m = UInt256.ofDigits 10 rest ⟨n, fits⟩ := by
      have value : UInt256.checked (10 * m.val + d) = .ok ⟨n, fits⟩ := by
        simp only [UInt256.checked, total, dif_pos fits]
      rw [decimal_of_lt small]
      simp only [List.singleton_append, UInt256.ofDigits, digitValue_decimal small, value, bind, Except.bind]
    by_cases small : n < 10
    · exact digit n small 0 (by simp)
    · rw [decimal_of_le (by omega), List.append_assoc, ih (n / 10) (by omega) (by omega)]
      exact digit (n % 10) (Nat.mod_lt n (by decide)) _ (by simp only; omega)

/-- The text of a number reads back as the number. -/
theorem ofString_str (n : UInt256) : UInt256.ofString n.str = .ok n := by
  rw [str_eq_decimal]
  by_cases zero : n.val = 0
  · rw [zero]
    exact congrArg Except.ok (UInt256.ext zero.symm)
  · obtain ⟨c, rest, begins, other⟩ := decimal_head zero
    have base : UInt256.ofString (decimal n.val) = UInt256.ofDigits 10 (decimal n.val) 0 := by
      rw [begins]
      unfold UInt256.ofString
      split <;> simp_all
    have read := ofDigits_decimal n.isLt []
    rw [List.append_nil] at read
    rw [base, read]
    rfl

end BandChain
