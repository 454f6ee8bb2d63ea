import BandChain.Net.Caught
import BandChain.Util.Varint

/-! Curves: what the parser makes of any bytes, and what evaluation makes of any number. -/

namespace BandChain

/-! ### Parsing -/

theorem opCode_length (op : OpCode) : (Serial.write op).length = 1 := by cases op <;> decide

/-- An opcode takes a byte at least. -/
theorem opCode_front {op : OpCode} {buf rest : ByteString} (ran : Serial.read buf = (.ok op, rest)) :
    ∃ front, buf = front ++ rest ∧ 1 ≤ front.length := by
  obtain ⟨_, _, integral, converted⟩ := Exec.bind_ok ran
  obtain ⟨rfl, _⟩ := Exec.ofExcept_ok converted
  obtain ⟨front, split, _⟩ := varintDecode_ok integral
  obtain ⟨parts, some⟩ := varintSplit_append split
  exact ⟨front, parts, List.length_pos_iff.mpr some⟩

/-- A constant is written with no more bytes than it was read from. -/
theorem constant_front {c : UInt256} {buf rest : ByteString} (ran : Serial.read buf = (.ok c, rest)) :
    ∃ front, buf = front ++ rest ∧ (Serial.write c).length ≤ front.length := by
  obtain ⟨n, _, decoded, made⟩ := Exec.bind_ok ran
  cases made
  obtain ⟨front, split, spelled⟩ := varintDecode_ok decoded
  obtain ⟨parts, some⟩ := varintSplit_append split
  refine ⟨front, parts, varintEncode_length_le some ?_⟩
  have below : 0 + digitSum 0 front < 2 ^ (7 * (0 + front.length)) := digitSum_lt 0 front (Nat.two_pow_pos _)
  rw [Nat.zero_add, Nat.zero_add, ← spelled rfl] at below
  exact Nat.lt_of_le_of_lt (Nat.mod_le _ _) below

namespace Equation

/-- A tree is written with no more bytes than it was parsed from. -/
theorem parse_front {fuel : Nat} {e : Equation} {buf rest : ByteString} (ran : parse fuel buf = (.ok e, rest)) :
    ∃ front, buf = front ++ rest ∧ e.dump.length ≤ front.length := by
  induction fuel generalizing e buf rest with
  | zero => cases ran
  | succ fuel ih =>
    obtain ⟨op, left, opcode, ran⟩ := Exec.bind_ok ran
    obtain ⟨first, rfl, byte⟩ := opCode_front opcode
    have binary {bop : BinaryOp} (ran : operands bop (parse fuel) left = (.ok e, rest)) :
        ∃ front, first ++ left = front ++ rest ∧ e.dump.length ≤ front.length := by
      obtain ⟨l, _, leftRan, ran⟩ := Exec.bind_ok ran
      obtain ⟨r, _, rightRan, made⟩ := Exec.bind_ok ran
      cases made
      obtain ⟨second, rfl, short⟩ := ih leftRan
      obtain ⟨third, rfl, short'⟩ := ih rightRan
      refine ⟨first ++ second ++ third, by simp, ?_⟩
      simp only [dump, List.length_append, opCode_length]
      omega
    cases op with
    | add | sub | mul | div | mod | exp => exact binary ran
    | constant =>
      obtain ⟨c, _, constant, made⟩ := Exec.bind_ok ran
      cases made
      obtain ⟨second, rfl, short⟩ := constant_front constant
      refine ⟨first ++ second, by simp, ?_⟩
      simp only [dump, List.length_append, opCode_length]
      omega
    | var =>
      cases ran
      exact ⟨first, rfl, by rw [dump, opCode_length]; exact byte⟩

/-- Fuel beyond the length of the buffer changes nothing. -/
theorem parse_fuel {fuel : Nat} {buf : ByteString} (enough : buf.length < fuel) : parse (fuel + 1) buf = parse fuel buf := by
  induction fuel generalizing buf with
  | zero => omega
  | succ fuel ih =>
    rw [parse, parse]
    rcases opcode : Serial.read (α := OpCode) buf with ⟨e | op, left⟩
    · rw [Exec.bind_of_error opcode, Exec.bind_of_error opcode]
    · rw [Exec.bind_of_ok opcode, Exec.bind_of_ok opcode]
      have short : left.length < fuel := by
        have := opCode_shorter opcode
        omega
      have binary (bop : BinaryOp) : operands bop (parse (fuel + 1)) left = operands bop (parse fuel) left := by
        unfold operands
        rw [Exec.bind_apply, Exec.bind_apply, ih short]
        rcases ran : parse fuel left with ⟨e | l, right⟩
        · rfl
        · have shorter : right.length < fuel := (parse_shorter ran).trans short
          simp only [Exec.bind_apply, ih shorter]
      cases op with
      | add | sub | mul | div | mod | exp => exact binary _
      | constant => rfl
      | var => rfl

theorem parse_enough {fuel : Nat} {buf : ByteString} (enough : buf.length < fuel) : parse fuel buf = parse (buf.length + 1) buf := by
  induction fuel with
  | zero => omega
  | succ fuel ih =>
    rcases Nat.lt_or_ge buf.length fuel with less | more
    · rw [parse_fuel less, ih less]
    · rw [Nat.le_antisymm more (Nat.le_of_lt_succ enough)]

/-- Whatever the buffer, the parser ends. It throws, or takes bytes off the front for a tree that is written with no more bytes
and is read back from them. -/
theorem parse_total (buf : ByteString) :
    (∀ fuel, buf.length < fuel → parse fuel buf = parse (buf.length + 1) buf) ∧
      match parse (buf.length + 1) buf with
      | (.error e, _) => e ≠ .crash
      | (.ok e, rest) => ∃ front, buf = front ++ rest ∧ e.dump.length ≤ front.length ∧
          ∀ (after : ByteString) fuel, (e.dump ++ after).length < fuel → parse fuel (e.dump ++ after) = (.ok e, after) := by
  refine ⟨fun fuel => parse_enough, ?_⟩
  rcases ran : parse (buf.length + 1) buf with ⟨e | e, rest⟩
  · rintro rfl
    let _ := roomyMemory
    exact parse_fails (Nat.lt_succ_self _) ⟨.crash, rest, ran, trivial⟩
  · obtain ⟨front, parts, short⟩ := parse_front ran
    refine ⟨front, parts, short, fun after fuel enough => parse_dump ?_ after⟩
    have deep := e.depth_le_dump
    rw [List.length_append] at enough
    omega

end Equation

/-! ### Evaluation -/

/-- A natural number, where it has 256 bits at most. -/
def bounded (n : Nat) : Option Nat := if n < 2 ^ 256 then some n else none

def BinaryOp.exact : BinaryOp → Nat → Nat → Option Nat
  | add, l, r => bounded (l + r)
  | sub, l, r => if r ≤ l then some (l - r) else none
  | mul, l, r => bounded (l * r)
  | div, l, r => if r = 0 then none else some (l / r)
  | mod, l, r => if r = 0 then none else some (l % r)
  | exp, l, r => bounded (l ^ r)

/-- The value of a tree over the natural numbers, where every subtree has one below `2 ^ 256`. -/
def Equation.eval (x : Nat) : Equation → Option Nat
  | binary op leftExpr rightExpr => do
    let l ← leftExpr.eval x
    let r ← rightExpr.eval x
    op.exact l r
  | constant c => some c.val
  | var => some x

/-- A checked result is the exact one, or an arithmetic exception where there is none. -/
def Agrees (exact : Option Nat) (result : Except Stop UInt256) : Prop :=
  match exact with
  | some n => ∃ c : UInt256, result = .ok c ∧ c.val = n
  | none => result = .error (.throw .overflowError) ∨ result = .error (.throw .rangeError)

theorem agrees_checked (n : Nat) : Agrees (bounded n) (UInt256.checked n) := by
  unfold bounded UInt256.checked
  by_cases fits : n < 2 ^ 256
  · rw [if_pos fits, dif_pos fits]
    exact ⟨_, rfl, rfl⟩
  · rw [if_neg fits, dif_neg fits]
    exact Or.inl rfl

/-- The loop overflows exactly where the power does. -/
theorem agrees_powLoop (l v : UInt256) (n : Nat) : Agrees (bounded (v.val * l.val ^ n)) (UInt256.powLoop l n v) := by
  induction n generalizing v with
  | zero =>
    rw [Nat.pow_zero, Nat.mul_one, bounded, if_pos v.isLt]
    exact ⟨v, rfl, rfl⟩
  | succ n ih =>
    rw [Nat.pow_succ', ← Nat.mul_assoc, UInt256.powLoop, UInt256.mul]
    by_cases fits : v.val * l.val < 2 ^ 256
    · rw [UInt256.checked, dif_pos fits]
      exact ih ⟨v.val * l.val, fits⟩
    · have base : 0 < l.val := by
        rcases Nat.eq_zero_or_pos l.val with zero | positive
        · rw [zero, Nat.mul_zero] at fits
          exact (fits (by decide)).elim
        · exact positive
      have power : ¬ v.val * l.val * l.val ^ n < 2 ^ 256 := by
        have grows := Nat.le_mul_of_pos_right (v.val * l.val) (Nat.pow_pos (n := n) base)
        omega
      rw [bounded, if_neg power, UInt256.checked, dif_neg fits]
      exact Or.inl rfl

theorem agrees_op (op : BinaryOp) (l r : UInt256) : Agrees (op.exact l.val r.val) (op.apply l r) := by
  cases op with
  | add => exact agrees_checked _
  | mul => exact agrees_checked _
  | sub =>
    simp only [BinaryOp.exact, BinaryOp.apply, UInt256.sub, UInt256.le_def]
    by_cases enough : r.val ≤ l.val
    · rw [if_pos enough, if_pos enough]
      exact ⟨_, rfl, rfl⟩
    · rw [if_neg enough, if_neg enough]
      exact Or.inr rfl
  | div =>
    simp only [BinaryOp.exact, BinaryOp.apply, UInt256.div]
    by_cases zero : r.val = 0
    · rw [if_pos zero, if_pos zero]
      exact Or.inl rfl
    · rw [if_neg zero, if_neg zero, UInt256.checked, dif_pos (Nat.lt_of_le_of_lt (Nat.div_le_self _ _) l.isLt)]
      exact ⟨_, rfl, rfl⟩
  | mod =>
    simp only [BinaryOp.exact, BinaryOp.apply, UInt256.mod]
    by_cases zero : r.val = 0
    · rw [if_pos zero, if_pos zero]
      exact Or.inl rfl
    · rw [if_neg zero, if_neg zero, UInt256.checked, dif_pos (Nat.lt_of_le_of_lt (Nat.mod_le _ _) l.isLt)]
      exact ⟨_, rfl, rfl⟩
  | exp =>
    have loop := agrees_powLoop l 1 r.val
    rwa [show (1 : UInt256).val = 1 from rfl, Nat.one_mul] at loop

/-- A curve is evaluated as over the natural numbers, and throws where that has no value. -/
theorem curve_apply_exact (e : Equation) (x : UInt256) : Agrees (e.eval x.val) (Curve.apply ⟨some e⟩ x) := by
  change Agrees (e.eval x.val) (e.apply x)
  induction e with
  | binary op l r left right =>
    rw [Equation.eval, Equation.apply]
    rcases lv : l.eval x.val with _ | a <;> rw [lv] at left
    · rcases left with failed | failed <;> rw [failed]
      · exact Or.inl rfl
      · exact Or.inr rfl
    · obtain ⟨a', ran, rfl⟩ := left
      rw [ran]
      rcases rv : r.eval x.val with _ | b <;> rw [rv] at right
      · rcases right with failed | failed <;> rw [failed]
        · exact Or.inl rfl
        · exact Or.inr rfl
      · obtain ⟨b', ran', rfl⟩ := right
        rw [ran']
        exact agrees_op op a' b'
  | constant c => exact ⟨c, rfl, rfl⟩
  | var => exact ⟨x, rfl, rfl⟩

end BandChain
