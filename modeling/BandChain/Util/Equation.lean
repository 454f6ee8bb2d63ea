import BandChain.Util.Buffer

/-!
`util/equation.h`: expression trees over one variable, their evaluation in checked 256-bit
arithmetic, and their prefix encoding.
-/

namespace BandChain

/-- The operators of `EqBinary`. -/
inductive BinaryOp where
  | add | sub | mul | div | mod | exp
  deriving DecidableEq

/-- `Eq` and its subclasses. -/
inductive Equation where
  | binary (op : BinaryOp) (leftExpr rightExpr : Equation)
  | constant (constant : UInt256)
  | var
  deriving DecidableEq

inductive OpCode where
  | add | sub | mul | div | mod | exp | constant | var
  deriving DecidableEq

namespace OpCode

def toIntegral : OpCode → Nat
  | add => 1
  | sub => 2
  | mul => 3
  | div => 4
  | mod => 5
  | exp => 6
  | constant => 7
  | var => 8

/-- `OpCode::_from_integral`. -/
def fromIntegral : Nat → Except Stop OpCode
  | 1 => .ok add
  | 2 => .ok sub
  | 3 => .ok mul
  | 4 => .ok div
  | 5 => .ok mod
  | 6 => .ok exp
  | 7 => .ok constant
  | 8 => .ok var
  | _ => .error (.throw (.error .invalidOpCode))

instance : Serial OpCode where
  write op := varintEncode op.toIntegral
  read := do Exec.ofExcept (fromIntegral (← varintDecode .uint16))

instance : LawfulSerial OpCode where
  read_write op rest _ := by
    have run := varintDecode_encode (T := .uint16) (v := op.toIntegral) (by cases op <;> decide) rest
    simp only [Serial.read, Serial.write, Exec.bind_of_ok run, Exec.ofExcept_apply]
    cases op <;> rfl

end OpCode

/-- The opcode of each `EqBinary` instance. -/
def BinaryOp.opCode : BinaryOp → OpCode
  | add => .add
  | sub => .sub
  | mul => .mul
  | div => .div
  | mod => .mod
  | exp => .exp

/-- The last step of `EqAdd::apply` to `EqExp::apply`. -/
def BinaryOp.apply : BinaryOp → UInt256 → UInt256 → Except Stop UInt256
  | add => UInt256.add
  | sub => UInt256.sub
  | mul => UInt256.mul
  | div => UInt256.div
  | mod => UInt256.mod
  | exp => UInt256.pow

namespace Equation

def apply (x : UInt256) : Equation → Except Stop UInt256
  | binary op leftExpr rightExpr => do
    let l ← leftExpr.apply x
    let r ← rightExpr.apply x
    op.apply l r
  | constant c => .ok c
  | var => .ok x

def dump : Equation → ByteString
  | binary op leftExpr rightExpr => Serial.write op.opCode ++ leftExpr.dump ++ rightExpr.dump
  | constant c => Serial.write OpCode.constant ++ Serial.write c
  | var => Serial.write OpCode.var

/-- `EqBinary(Buffer&)`, with the parser of its operands. -/
def operands (op : BinaryOp) (operand : Decoder Equation) : Decoder Equation := do
  let leftExpr ← operand
  let rightExpr ← operand
  return binary op leftExpr rightExpr

/-- `Eq::parse`. Every node consumes a byte, so the length of the buffer bounds the nesting; without
fuel the recursion would be on the call stack. -/
def parse : Nat → Decoder Equation
  | 0 => Exec.stop .crash
  | fuel + 1 => do
    let opcode ← Serial.read (α := OpCode)
    match opcode with
    | .add => operands .add (parse fuel)
    | .sub => operands .sub (parse fuel)
    | .mul => operands .mul (parse fuel)
    | .div => operands .div (parse fuel)
    | .mod => operands .mod (parse fuel)
    | .exp => operands .exp (parse fuel)
    | .constant => do return constant (← Serial.read)
    | .var => return var

/-- The number of nested calls a tree takes to parse. -/
def depth : Equation → Nat
  | binary _ leftExpr rightExpr => max leftExpr.depth rightExpr.depth + 1
  | constant _ => 1
  | var => 1

theorem varintEncode_ne_nil (v : Nat) : varintEncode v ≠ [] := by
  unfold varintEncode
  rw [varintEncode.go]
  split <;> simp

theorem depth_le_dump (e : Equation) : e.depth ≤ e.dump.length := by
  have positive : ∀ op : OpCode, 1 ≤ (Serial.write op).length := by
    intro op
    exact List.length_pos_iff.mpr (varintEncode_ne_nil _)
  induction e with
  | binary op l r hl hr =>
    have := positive op.opCode
    simp only [depth, dump, List.length_append]
    omega
  | constant c =>
    have := positive OpCode.constant
    simp only [depth, dump, List.length_append]
    omega
  | var => exact positive OpCode.var

theorem parse_operands {fuel : Nat} {l r : Equation} (op : BinaryOp) (rest : ByteString)
    (left : ∀ tail, parse fuel (l.dump ++ tail) = (.ok l, tail))
    (right : ∀ tail, parse fuel (r.dump ++ tail) = (.ok r, tail)) :
    operands op (parse fuel) (l.dump ++ (r.dump ++ rest)) = (.ok (binary op l r), rest) := by
  unfold operands
  rw [Exec.bind_of_ok (left _), Exec.bind_of_ok (right _), Exec.pure_apply]

/-- With fuel for its depth, a tree is parsed back from its own encoding. -/
theorem parse_dump {e : Equation} {fuel : Nat} (enough : e.depth ≤ fuel) (rest : ByteString) :
    parse fuel (e.dump ++ rest) = (.ok e, rest) := by
  induction e generalizing fuel rest with
  | binary op l r hl hr =>
    obtain ⟨fuel, rfl⟩ : ∃ k, fuel = k + 1 := ⟨fuel - 1, by simp only [depth] at enough; omega⟩
    simp only [depth, Nat.add_le_add_iff_right, Nat.max_le] at enough
    have inner := parse_operands op rest (fun tail => hl enough.1 tail) (fun tail => hr enough.2 tail)
    rw [parse, dump, List.append_assoc, List.append_assoc, Exec.bind_of_ok (LawfulSerial.read_write op.opCode _ rfl)]
    cases op <;> exact inner
  | constant c =>
    obtain ⟨fuel, rfl⟩ : ∃ k, fuel = k + 1 := ⟨fuel - 1, by simp only [depth] at enough; omega⟩
    rw [parse, dump, List.append_assoc, Exec.bind_of_ok (LawfulSerial.read_write OpCode.constant _ rfl)]
    exact Exec.bind_of_ok (LawfulSerial.read_write c rest rfl)
  | var =>
    obtain ⟨fuel, rfl⟩ : ∃ k, fuel = k + 1 := ⟨fuel - 1, by simp only [depth] at enough; omega⟩
    rw [parse, dump, Exec.bind_of_ok (LawfulSerial.read_write OpCode.var _ rfl)]
    rfl

end Equation

/-- A curve owns its equation; a default-constructed one has none. -/
structure Curve where
  equation : Option Equation := none
  deriving DecidableEq

namespace Curve

def apply (curve : Curve) (x : UInt256) : Except Stop UInt256 :=
  match curve.equation with
  | none => .error (.throw (.error .nullEquation))
  | some equation => equation.apply x

def linear : Curve := ⟨some .var⟩

instance : Inhabited Curve := ⟨{}⟩

/-- Copying a curve clones `*equation`, and writing one without an equation throws a `Failure`. -/
instance : Serial Curve where
  intact curve := curve.equation.isSome
  write curve := (curve.equation.map Equation.dump).getD []
  read := fun buf => (do return ⟨some (← Equation.parse (buf.length + 1))⟩ : Decoder Curve) buf

instance : LawfulSerial Curve where
  read_write curve rest whole := by
    obtain ⟨_ | e⟩ := curve
    · cases whole
    have enough : e.depth ≤ (e.dump ++ rest).length + 1 := by
      have := e.depth_le_dump
      rw [List.length_append]
      omega
    simp only [Serial.read, Serial.write, Option.map_some, Option.getD_some,
      Exec.bind_of_ok (Equation.parse_dump enough rest), Exec.pure_apply]

end Curve

end BandChain
