import Mathlib.Algebra.Group.Nat.Defs

/-!
The exceptions of `inc/exception.h`, the ways a call can end early, and `uint256_t`, the checked
256-bit integer of `inc/essential.h`.
-/

namespace BandChain

/-- A string or span of the source: raw bytes. -/
abbrev ByteString := List UInt8

/-- The bytes of an ASCII literal. -/
def ascii (s : String) : ByteString := s.toList.map fun c => UInt8.ofNat c.toNat

/-- The `Error`s the modelled code throws, one constructor for each message. -/
inductive Error where
  | bufferParse
  | invalidVarint
  | stringTooLong (maxLength length : Nat)
  | unprintable (maxLength : Nat)
  | invalidMsgType
  | invalidOpCode
  | nullEquation
  | deletedObject
  | noDefaultCtor
  | contractMissing (prefixedKey : ByteString)
  | contractExists (prefixedKey : ByteString)
  | contractInconsistent (prefixedKey value : ByteString)
  | nonceTooSmall (given stored : Nat)
  | transferInsufficient
  | buyInsufficient
  | sellInsufficient
  | nodeNotFound
  | vectorDestroyed
  | indexOutOfRange
  | vectorEmpty
  | hexLength (size length : Nat)
  | hexDigit
  deriving DecidableEq

/-- `what()`. The instance of `String` with 20 characters ignores case, the one with 128 does not. -/
def Error.what : Error → ByteString
  | bufferParse => ascii "Buffer parse error"
  | invalidVarint => ascii "Invalid varint decode"
  | stringTooLong maxLength length =>
    let letterCase := if maxLength = 20 then "InSensitive" else "Sensitive"
    ascii s!"String<{maxLength}, {letterCase}>::validate: String's length ({length}) exceed maximum length."
  | unprintable maxLength =>
    let letterCase := if maxLength = 20 then "InSensitive" else "Sensitive"
    ascii s!"String<{maxLength}, {letterCase}>::validate: rawdata contains unprintable characters"
  | invalidMsgType => ascii "MsgType::_from_integral: invalid argument"
  | invalidOpCode => ascii "OpCode::_from_integral: invalid argument"
  | nullEquation => ascii "Curve::apply: Equation does not exist"
  | deletedObject => ascii "Data::operator+: cannot access deleted object"
  | noDefaultCtor => ascii "Data::operator+: construct object without default ctor"
  | contractMissing prefixedKey => ascii "Storage::load: contract key " ++ prefixedKey ++ ascii " does not exist"
  | contractExists prefixedKey => ascii "Storage::create: contract key " ++ prefixedKey ++ ascii " already exists"
  | contractInconsistent prefixedKey value =>
    ascii "Storage::getContract: contract key " ++ prefixedKey ++ ascii " is not consistent with the value " ++ value
  | nonceTooSmall given stored => ascii s!"Account::setNonce: nonce is too small {given} <= {stored}"
  | transferInsufficient => ascii "Token::transfer: sender has insufficient tokens"
  | buyInsufficient => ascii "Token::buy: buyer has insufficient base tokens"
  | sellInsufficient => ascii "Token::sell: seller has insufficient tokens"
  | nodeNotFound => ascii "Node not found."
  | vectorDestroyed => ascii "Vector has been destroyed."
  | indexOutOfRange => ascii "index out of range"
  | vectorEmpty => ascii "Cannot get last element."
  | hexLength size length => ascii s!"Bytes<{size}>::hex: Invalid hex string length {length}"
  | hexDigit => ascii "hex_to_bytes: Invalid hex digit character"

/-- The `Failure`s: "this must not happen". -/
inductive Failure where
  /-- "<StorageMap::get> currentCache points to nullptr" -/
  | getUnselected
  /-- "<StorageMap::put> currentCache points to nullptr" -/
  | putUnselected
  /-- "<StorageMap::del> currentCache points to nullptr" -/
  | delUnselected
  /-- "endBlock: called without primary listener set" -/
  | noPrimary
  /-- "Value missing at index {}." -/
  | valueMissing
  deriving DecidableEq

inductive Exn where
  | error (e : Error)
  | failure (f : Failure)
  | rangeError
  | overflowError
  | runtimeError
  /-- Of a string that was resized to `length`, with fewer bytes left to fill it: `length_error` or `bad_alloc` where the machine
  cannot have such a string, and the `Error` of the span where it can. -/
  | resize (length : Nat)
  deriving DecidableEq

/-- How a call ends early: with an exception, or with the end of the process (a null pointer is
followed, or an exception leaves a destructor). -/
inductive Stop where
  | throw (e : Exn)
  | crash
  deriving DecidableEq

/-- `boost::multiprecision::checked_uint256_t`. -/
structure UInt256 where
  val : Nat
  isLt : val < 2 ^ 256
  deriving DecidableEq

namespace UInt256

@[ext] theorem ext {a b : UInt256} (h : a.val = b.val) : a = b := by
  cases a; cases b; cases h; rfl

def ofNat (n : Nat) : UInt256 := ⟨n % 2 ^ 256, Nat.mod_lt _ (by decide)⟩

instance : OfNat UInt256 n := ⟨ofNat n⟩

instance : Inhabited UInt256 := ⟨0⟩

def ofUInt64 (n : UInt64) : UInt256 := ⟨n.toNat, Nat.lt_trans n.toNat_lt (by decide)⟩

instance : LE UInt256 := ⟨fun a b => a.val ≤ b.val⟩
instance : LT UInt256 := ⟨fun a b => a.val < b.val⟩
instance (a b : UInt256) : Decidable (a ≤ b) := inferInstanceAs (Decidable (a.val ≤ b.val))
instance (a b : UInt256) : Decidable (a < b) := inferInstanceAs (Decidable (a.val < b.val))

theorem le_def {a b : UInt256} : a ≤ b ↔ a.val ≤ b.val := Iff.rfl

theorem lt_def {a b : UInt256} : a < b ↔ a.val < b.val := Iff.rfl

@[simp] theorem val_ofNat (n : Nat) : (ofNat n).val = n % 2 ^ 256 := rfl

@[simp] theorem val_zero : (0 : UInt256).val = 0 := rfl

@[simp] theorem val_ofUInt64 (n : UInt64) : (ofUInt64 n).val = n.toNat := rfl

/-- A value computed over the naturals, or `overflow_error` where it does not fit. -/
def checked (n : Nat) : Except Stop UInt256 :=
  if h : n < 2 ^ 256 then .ok ⟨n, h⟩ else .error (.throw .overflowError)

def add (a b : UInt256) : Except Stop UInt256 := checked (a.val + b.val)

def sub (a b : UInt256) : Except Stop UInt256 :=
  if b ≤ a then .ok ⟨a.val - b.val, Nat.lt_of_le_of_lt (Nat.sub_le _ _) a.isLt⟩
  else .error (.throw .rangeError)

def mul (a b : UInt256) : Except Stop UInt256 := checked (a.val * b.val)

def div (a b : UInt256) : Except Stop UInt256 :=
  if b.val = 0 then .error (.throw .overflowError) else checked (a.val / b.val)

def mod (a b : UInt256) : Except Stop UInt256 :=
  if b.val = 0 then .error (.throw .overflowError) else checked (a.val % b.val)

/-- The loop of `pow`, with `n` rounds left. -/
def powLoop (l : UInt256) : Nat → UInt256 → Except Stop UInt256
  | 0, v => .ok v
  | n + 1, v => do powLoop l n (← v.mul l)

def pow (l r : UInt256) : Except Stop UInt256 := powLoop l r.val 1

theorem checked_ok {n : Nat} {c : UInt256} (h : checked n = .ok c) : c.val = n := by
  unfold checked at h
  split at h
  · cases h; rfl
  · cases h

theorem add_ok {a b c : UInt256} (h : a.add b = .ok c) : c.val = a.val + b.val := checked_ok h

theorem sub_ok {a b c : UInt256} (h : a.sub b = .ok c) : b.val ≤ a.val ∧ c.val = a.val - b.val := by
  unfold sub at h
  split at h
  · rename_i le
    cases h
    exact ⟨le, rfl⟩
  · cases h

theorem sub_of_le {a b : UInt256} (h : b ≤ a) :
    a.sub b = .ok ⟨a.val - b.val, Nat.lt_of_le_of_lt (Nat.sub_le _ _) a.isLt⟩ := if_pos h

end UInt256

end BandChain
