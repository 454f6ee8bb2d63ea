import BandChain.Lib.Exec
import BandChain.Util.Essential

/-!
`util/buffer.h` and `util/bytes.h`: varints, spans, strings and fixed-size byte arrays, and the
`Serial` interface of everything that can be written to a `Buffer` and read back.
-/

namespace BandChain

/-- Reads from the front of a buffer. -/
abbrev Decoder (α : Type) := Exec Stop ByteString α

/-- The types `varint_decode` is instantiated at. -/
inductive IntType where
  | uint8 | uint16 | uint32 | uint64 | uint256
  deriving DecidableEq

namespace IntType

def bits : IntType → Nat
  | uint8 => 8
  | uint16 => 16
  | uint32 => 32
  | uint64 => 64
  | uint256 => 256

/-- `T(byte & 0x7F) << count`. The small types are promoted to a 32-bit int, and a machine shift
takes its count modulo the width; only the 256-bit type checks. -/
def shl : IntType → Nat → Nat → Except Stop Nat
  | uint8, b, count | uint16, b, count | uint32, b, count => .ok ((b <<< (count % 32)) % 2 ^ 32)
  | uint64, b, count => .ok ((b <<< (count % 64)) % 2 ^ 64)
  | uint256, b, count => if b <<< count < 2 ^ 256 then .ok (b <<< count) else .error (.throw .overflowError)

/-- `val |= x`, cut to the type. -/
def or (T : IntType) (val x : Nat) : Nat := (val ||| x) % 2 ^ T.bits

end IntType

/-- The loop of `varint_encode`; the value bounds the number of rounds. -/
def varintEncode.go : Nat → Nat → ByteString
  | 0, _ => []
  | fuel + 1, val =>
    let towrite := UInt8.ofNat (val &&& 0x7F)
    if val >>> 7 ≠ 0 then (towrite ||| 0x80) :: go fuel (val >>> 7) else [towrite]

def varintEncode (val : Nat) : ByteString := varintEncode.go (val + 1) val

/-- The loop of `varint_decode` over the bytes left. A throw consumes nothing of `buf`. The source counts in an `int`, where `7 * idx`
is exact for every buffer of at most 306783379 bytes. -/
def varintDecode.go (T : IntType) (buf : ByteString) : ByteString → Nat → Nat → Except Stop Nat × ByteString
  | [], _, _ => (.error (.throw (.error .invalidVarint)), buf)
  | raw :: rest, idx, val =>
    match T.shl (raw.toNat &&& 0x7F) (7 * idx) with
    | .error e => (.error e, buf)
    | .ok x =>
      if raw.toNat &&& 0x80 = 0 then (.ok (T.or val x), rest) else go T buf rest (idx + 1) (T.or val x)

def varintDecode (T : IntType) : Decoder Nat := fun buf => varintDecode.go T buf buf 0 0

structure Bytes (size : Nat) where
  rawdata : ByteString
  length_eq : rawdata.length = size
  deriving DecidableEq

abbrev Address := Bytes 20
abbrev Hash := Bytes 32
abbrev VerifyKey := Bytes 32
abbrev Signature := Bytes 64

def Bytes.zero (size : Nat) : Bytes size := ⟨List.replicate size 0, List.length_replicate⟩

instance (size : Nat) : Inhabited (Bytes size) := ⟨Bytes.zero size⟩

/-- `operator>>` into a span of `size` bytes. -/
def readSpan (size : Nat) : Decoder (Bytes size) := fun buf =>
  if short : buf.length < size then (.error (.throw (.error .bufferParse)), buf)
  else (.ok ⟨buf.take size, List.length_take_of_le (Nat.le_of_not_lt short)⟩, buf.drop size)

/-- `std::string::resize`, of a string that is filled from the buffer next. A string as long as what is left in the buffer
there can be; of longer ones that is known only where the exceptions are caught. -/
def resize (length : Nat) : Decoder Unit := do
  if (← Exec.get).length < length then Exec.stop (.throw (.resize length))

def readString : Decoder ByteString := do
  let length ← varintDecode .uint64
  resize length
  let raw ← readSpan length
  return raw.rawdata

def writeString (val : ByteString) : ByteString := varintEncode (UInt64.ofNat val.length).toNat ++ val

/-- Types with `operator<<` and `operator>>` on a `Buffer`. A value that is not `intact` holds a
null pointer: copying it follows the pointer, and writing it throws. -/
class Serial (α : Type) where
  intact : α → Bool := fun _ => true
  write : α → ByteString
  read : Decoder α

export Serial (intact)

/-- `Buffer::serialize`. -/
def serialize [Serial α] (val : α) : ByteString := Serial.write val

/-- `Buffer::deserialize`; bytes left over are ignored. -/
def deserialize [Serial α] (raw : ByteString) : Except Stop α := (Serial.read raw).1

instance : Serial UInt16 where
  write val := varintEncode val.toNat
  read := do return UInt16.ofNat (← varintDecode .uint16)

instance : Serial UInt64 where
  write val := varintEncode val.toNat
  read := do return UInt64.ofNat (← varintDecode .uint64)

instance : Serial UInt256 where
  write val := varintEncode val.val
  read := do return UInt256.ofNat (← varintDecode .uint256)

instance (size : Nat) : Serial (Bytes size) where
  write val := val.rawdata
  read := readSpan size

/-! ### Reading numbers throws or succeeds -/

theorem IntType.shl_throws {T : IntType} {b count : Nat} {e : Stop} (h : T.shl b count = .error e) : e ≠ .crash := by
  cases T with
  | uint256 =>
    simp only [shl] at h
    split at h
    · cases h
    · cases h; simp
  | uint8 | uint16 | uint32 | uint64 => cases h

theorem varintDecode_throws (T : IntType) : Exec.Stops (· ≠ .crash) (varintDecode T) := by
  intro buf _
  have loop : ∀ (left : ByteString) (idx val : Nat) {e : Stop} {rest : ByteString},
      varintDecode.go T buf left idx val = (.error e, rest) → e ≠ .crash := by
    intro left
    induction left with
    | nil => intro idx val e rest h; cases h; simp
    | cons raw left ih =>
      intro idx val e rest h
      unfold varintDecode.go at h
      split at h
      · rename_i shifted
        cases h
        exact IntType.shl_throws shifted
      · split at h
        · cases h
        · exact ih _ _ h
  rcases run : varintDecode T buf with ⟨e | val, rest⟩
  · exact loop buf 0 0 run
  · trivial

theorem readSpan_throws (size : Nat) : Exec.Stops (· ≠ .crash) (readSpan size) := by
  intro buf _
  by_cases short : buf.length < size
  · rw [readSpan, dif_pos short]
    simp
  · rw [readSpan, dif_neg short]
    trivial

theorem resize_apply (length : Nat) (buf : ByteString) :
    resize length buf = (if buf.length < length then .error (.throw (.resize length)) else .ok (), buf) := by
  rw [resize, Exec.bind_of_ok (Exec.get_apply buf)]
  split <;> rfl

theorem readString_throws : Exec.Stops (· ≠ .crash) readString := by
  apply (varintDecode_throws .uint64).bind
  intro length
  have resized : Exec.Stops (· ≠ .crash) (resize length) := by
    intro buf _
    by_cases short : buf.length < length <;> simp [resize_apply, short]
  exact resized.bind fun _ => (readSpan_throws length).bind fun raw => .pure _

theorem deserialize_uint256_throws {raw : ByteString} {e : Stop} (h : deserialize (α := UInt256) raw = .error e) :
    e ≠ .crash := by
  have run : Serial.read (α := UInt256) raw = (.error e, (Serial.read (α := UInt256) raw).2) := by rw [← h]; rfl
  exact ((varintDecode_throws .uint256).bind fun _ => .pure _).of_error trivial run

/-! ### What is written is read back -/

/-- Reading undoes writing, whatever follows in the buffer. -/
class LawfulSerial (α : Type) [Serial α] : Prop where
  read_write : ∀ (val : α) (rest : ByteString), intact val = true →
    Serial.read (Serial.write val ++ rest) = (.ok val, rest)

theorem read_bind {α β : Type} [Serial α] [LawfulSerial α] {val : α} (whole : intact val = true) (f : α → Decoder β)
    (rest : ByteString) : (Serial.read >>= f) (Serial.write val ++ rest) = f val rest :=
  Exec.bind_of_ok (LawfulSerial.read_write val rest whole)

theorem deserialize_serialize [Serial α] [LawfulSerial α] {val : α} (whole : intact val = true) :
    deserialize (serialize val) = .ok val := by
  have read := LawfulSerial.read_write val [] whole
  rw [List.append_nil] at read
  exact congrArg Prod.fst read

/-- A machine shift by less than the width, of a value that still fits. -/
theorem word_shl {width b count : Nat} (small : count < width) (fits : b * 2 ^ count < 2 ^ width) :
    (b <<< (count % width)) % 2 ^ width = b * 2 ^ count := by
  rw [Nat.mod_eq_of_lt small, Nat.shiftLeft_eq, Nat.mod_eq_of_lt fits]

theorem IntType.shl_of_fits {T : IntType} {b count : Nat} (fits : b * 2 ^ count < 2 ^ T.bits) :
    T.shl b count = .ok (b * 2 ^ count) := by
  rcases Nat.eq_zero_or_pos b with rfl | positive
  · cases T <;> simp [shl]
  have small : count < T.bits := by
    apply (Nat.pow_lt_pow_iff_right (Nat.lt_succ_self 1)).mp
    exact Nat.lt_of_le_of_lt (Nat.le_mul_of_pos_left _ positive) fits
  cases T with
  | uint256 => simp only [shl, Nat.shiftLeft_eq]; exact if_pos fits
  | uint64 => exact congrArg Except.ok (word_shl small fits)
  | uint32 => exact congrArg Except.ok (word_shl small fits)
  | uint16 | uint8 =>
    exact congrArg Except.ok (word_shl (Nat.lt_trans small (by decide)) (Nat.lt_trans fits (by decide)))

theorem IntType.or_of_fits {T : IntType} {val b count : Nat} (low : val < 2 ^ count)
    (fits : val + b * 2 ^ count < 2 ^ T.bits) : T.or val (b * 2 ^ count) = val + b * 2 ^ count := by
  have joined : val ||| b * 2 ^ count = val + b * 2 ^ count := by
    rw [Nat.mul_comm b, Nat.or_comm, ← Nat.two_pow_add_eq_or_of_lt low, Nat.add_comm]
  rw [or, joined, Nat.mod_eq_of_lt fits]

/-- A digit and its continuation bit, as both loops see them. -/
theorem digit_bits {m : Nat} (h : m < 128) :
    (UInt8.ofNat m).toNat &&& 0x7F = m ∧ (UInt8.ofNat m).toNat &&& 0x80 = 0 ∧
    (UInt8.ofNat m ||| 0x80).toNat &&& 0x7F = m ∧ (UInt8.ofNat m ||| 0x80).toNat &&& 0x80 ≠ 0 := by
  have all : ∀ m : Fin 128,
      (UInt8.ofNat m).toNat &&& 0x7F = m ∧ (UInt8.ofNat m).toNat &&& 0x80 = 0 ∧
      (UInt8.ofNat m ||| 0x80).toNat &&& 0x7F = m ∧ (UInt8.ofNat m ||| 0x80).toNat &&& 0x80 ≠ 0 := by
    decide
  exact all ⟨m, h⟩

/-- What is known of the value after one more digit, and of the digits left. -/
theorem digit_step {idx val : Nat} (v : Nat) (low : val < 2 ^ (7 * idx)) :
    val + v % 128 * 2 ^ (7 * idx) < 2 ^ (7 * (idx + 1)) ∧
      val + v % 128 * 2 ^ (7 * idx) + v / 128 * 2 ^ (7 * (idx + 1)) = val + v * 2 ^ (7 * idx) := by
  have grow : 2 ^ (7 * (idx + 1)) = 128 * 2 ^ (7 * idx) := by
    rw [Nat.mul_add, Nat.pow_add, Nat.mul_comm]
  have bound : v % 128 * 2 ^ (7 * idx) ≤ 127 * 2 ^ (7 * idx) := Nat.mul_le_mul_right _ (by omega)
  refine ⟨by rw [grow]; omega, ?_⟩
  conv => rhs; rw [← Nat.mod_add_div v 128]
  rw [grow, Nat.add_mul, Nat.add_assoc, Nat.mul_comm 128 (v / 128), Nat.mul_assoc]

theorem varintDecode_go {T : IntType} (buf rest : ByteString) {fuel v idx val : Nat} (enough : v < fuel)
    (low : val < 2 ^ (7 * idx)) (fits : val + v * 2 ^ (7 * idx) < 2 ^ T.bits) :
    varintDecode.go T buf (varintEncode.go fuel v ++ rest) idx val = (.ok (val + v * 2 ^ (7 * idx)), rest) := by
  induction fuel generalizing v idx val with
  | zero => omega
  | succ fuel ih =>
    have mask : v &&& 0x7F = v % 128 := Nat.and_two_pow_sub_one_eq_mod v 7
    have shift : v >>> 7 = v / 128 := Nat.shiftRight_eq_div_pow v 7
    obtain ⟨last, stop, more, go⟩ := digit_bits (m := v % 128) (Nat.mod_lt _ (by decide))
    have digit : val + v % 128 * 2 ^ (7 * idx) < 2 ^ T.bits :=
      Nat.lt_of_le_of_lt (Nat.add_le_add_left (Nat.mul_le_mul_right _ (Nat.mod_le _ _)) _) fits
    have shl := T.shl_of_fits (Nat.lt_of_le_of_lt (Nat.le_add_left _ val) digit)
    have or := T.or_of_fits low digit
    simp only [varintEncode.go, mask, shift]
    by_cases small : v / 128 = 0
    · have whole : v % 128 = v := Nat.mod_eq_of_lt (by omega)
      simp only [small, ne_eq, not_true, if_false, List.cons_append, List.nil_append, varintDecode.go, last, stop,
        shl, or, if_true]
      rw [whole]
    · simp only [small, ne_eq, not_false_eq_true, if_true, List.cons_append, varintDecode.go, more, shl, or,
        if_neg go]
      obtain ⟨below, split⟩ := digit_step v low
      rw [ih (by omega) below (by rw [split]; exact fits), split]

/-- Reading a varint gives back the value written, and consumes exactly its bytes. -/
theorem varintDecode_encode {T : IntType} {v : Nat} (fits : v < 2 ^ T.bits) (rest : ByteString) :
    varintDecode T (varintEncode v ++ rest) = (.ok v, rest) := by
  have run : varintDecode.go T (varintEncode v ++ rest) (varintEncode.go (v + 1) v ++ rest) 0 0 =
      (.ok (0 + v * 2 ^ (7 * 0)), rest) :=
    varintDecode_go (varintEncode v ++ rest) rest (Nat.lt_succ_self v) (by decide) (by simpa using fits)
  simpa [varintDecode, varintEncode] using run

/-- A varint of several bytes starts with a continuation byte. -/
theorem varintEncode_head (v : Nat) :
    (∃ b, varintEncode v = [b]) ∨ ∃ b rest, varintEncode v = b :: rest ∧ 128 ≤ b.toNat := by
  have mask : v &&& 0x7F = v % 128 := Nat.and_two_pow_sub_one_eq_mod v 7
  have high : ∀ m : Fin 128, 128 ≤ (UInt8.ofNat m ||| 0x80).toNat := by decide
  rw [varintEncode, varintEncode.go]
  split
  · refine Or.inr ⟨_, _, rfl, ?_⟩
    rw [mask]
    exact high ⟨v % 128, Nat.mod_lt _ (by decide)⟩
  · exact Or.inl ⟨_, rfl⟩

theorem readSpan_append {size : Nat} (val : Bytes size) (rest : ByteString) :
    readSpan size (val.rawdata ++ rest) = (.ok val, rest) := by
  obtain ⟨raw, rfl⟩ := val
  have long : ¬ (raw ++ rest).length < raw.length := by simp
  rw [readSpan, dif_neg long]
  simp

theorem readString_write {val : ByteString} (fits : val.length < 2 ^ 64) (rest : ByteString) :
    readString (writeString val ++ rest) = (.ok val, rest) := by
  have length : (UInt64.ofNat val.length).toNat = val.length := UInt64.toNat_ofNat_of_lt' fits
  have resized : resize val.length (val ++ rest) = (.ok (), val ++ rest) := by
    rw [resize_apply, if_neg (by simp)]
  unfold readString writeString
  rw [length, List.append_assoc, Exec.bind_of_ok (varintDecode_encode fits _), Exec.bind_of_ok resized]
  simp only [Exec.bind_apply, Exec.pure_apply, readSpan_append ⟨val, rfl⟩ rest]

instance : LawfulSerial UInt16 where
  read_write val rest _ := by
    have run := varintDecode_encode (T := .uint16) val.toNat_lt rest
    simp only [Serial.read, Serial.write, Exec.bind_of_ok run, Exec.pure_apply, UInt16.ofNat_toNat]

instance : LawfulSerial UInt64 where
  read_write val rest _ := by
    have run := varintDecode_encode (T := .uint64) val.toNat_lt rest
    simp only [Serial.read, Serial.write, Exec.bind_of_ok run, Exec.pure_apply, UInt64.ofNat_toNat]

instance : LawfulSerial UInt256 where
  read_write val rest _ := by
    have run := varintDecode_encode (T := .uint256) val.isLt rest
    simp only [Serial.read, Serial.write, Exec.bind_of_ok run, Exec.pure_apply, Prod.mk.injEq, Except.ok.injEq,
      and_true]
    exact UInt256.ext (Nat.mod_eq_of_lt val.isLt)

instance (size : Nat) : LawfulSerial (Bytes size) where
  read_write val rest _ := readSpan_append val rest

end BandChain
