import BandChain.Listener.Effect
import BandChain.Net.TmApp

/-! Which inputs make the decoders throw what `tmapp` does not catch. -/

namespace BandChain

open Exec (Fails Stops fails_bind fails_pure fails_map)

/-! ### What is left of a buffer -/

section

variable {buf : ByteString}

theorem varintDecode_go_shorter {T : IntType} {left : ByteString} {idx val n : Nat} {rest : ByteString}
    (ran : varintDecode.go T buf left idx val = (.ok n, rest)) : rest.length < left.length := by
  induction left generalizing idx val with
  | nil => cases ran
  | cons raw left ih =>
    unfold varintDecode.go at ran
    split at ran
    · cases ran
    · split at ran
      · cases ran
        exact Nat.lt_succ_self _
      · exact Nat.lt_succ_of_lt (ih ran)

theorem varintDecode_shorter {T : IntType} {val : Nat} {rest : ByteString} (ran : varintDecode T buf = (.ok val, rest)) :
    rest.length < buf.length := varintDecode_go_shorter ran

theorem opCode_shorter {op : OpCode} {rest : ByteString} (ran : Serial.read buf = (.ok op, rest)) : rest.length < buf.length := by
  obtain ⟨_, _, integral, converted⟩ := Exec.bind_ok ran
  obtain ⟨rfl, _⟩ := Exec.ofExcept_ok converted
  exact varintDecode_shorter integral

theorem operands_shorter {op : BinaryOp} {operand : Decoder Equation} {e : Equation} {rest : ByteString}
    (shorter : ∀ {buf e rest}, operand buf = (.ok e, rest) → rest.length < buf.length)
    (ran : Equation.operands op operand buf = (.ok e, rest)) : rest.length < buf.length := by
  obtain ⟨_, _, left, ran⟩ := Exec.bind_ok ran
  obtain ⟨_, _, right, made⟩ := Exec.bind_ok ran
  cases made
  exact (shorter right).trans (shorter left)

theorem parse_shorter {fuel : Nat} {e : Equation} {rest : ByteString} (ran : Equation.parse fuel buf = (.ok e, rest)) :
    rest.length < buf.length := by
  induction fuel generalizing buf e rest with
  | zero => cases ran
  | succ fuel ih =>
    obtain ⟨op, _, opcode, ran⟩ := Exec.bind_ok ran
    have first := opCode_shorter opcode
    cases op with
    | add | sub | mul | div | mod | exp => exact (operands_shorter ih ran).trans first
    | constant =>
      obtain ⟨_, _, constant, made⟩ := Exec.bind_ok ran
      obtain ⟨_, _, ran, val⟩ := Exec.bind_ok constant
      cases made
      cases val
      exact (varintDecode_shorter ran).trans first
    | var =>
      cases ran
      exact first

/-- A curve that was read has an equation. -/
theorem intact_of_read {curve : Curve} {rest : ByteString} (ran : Serial.read buf = (.ok curve, rest)) : intact curve = true := by
  obtain ⟨_, _, _, made⟩ := Exec.bind_ok (show (do return ⟨some (← Equation.parse (buf.length + 1))⟩ : Decoder Curve) buf = _ from ran)
  cases made
  rfl

end

/-! ### What is not caught -/

variable [Memory]

/-- It ends the process: an exception of no caught type, or a crash. -/
def Stop.Uncaught : Stop → Prop
  | .throw e => e.caught = none
  | .crash => True

/-- The string at the front of the buffer says that it is longer than what is left, and than any that `resize` delivers. -/
def Oversized (buf : ByteString) : Prop :=
  ∃ length rest, varintDecode .uint64 buf = (.ok length, rest) ∧ rest.length < length ∧ Memory.resizeLimit < length

/-- One of `n` strings that follow each other is oversized, and those before it are read. -/
def OversizedAmong (α : Type) [Serial α] : Nat → ByteString → Prop
  | 0, _ => False
  | n + 1, buf => Oversized buf ∨ ∃ val rest, Serial.read (α := α) buf = (.ok val, rest) ∧ OversizedAmong α n rest

/-- A string of the message is oversized. -/
def MsgType.Oversized (buf : ByteString) : MsgType → Prop
  | createAccount => ∃ vk rest, readSpan 32 buf = (.ok vk, rest) ∧ OversizedAmong Ident 1 rest
  | createToken | transferToken => OversizedAmong Ident 2 buf
  | mintToken | buyToken | sellToken => OversizedAmong Ident 1 buf
  | addWikiEdge | removeWikiEdge => OversizedAmong NodeID 4 buf

/-! ### Decoders -/

section

variable {buf : ByteString}

theorem shl_caught {T : IntType} {b count : Nat} {e : Stop} (failed : T.shl b count = .error e) : ¬ e.Uncaught := by
  cases T with
  | uint256 =>
    simp only [IntType.shl] at failed
    split at failed
    · cases failed
    · cases failed
      intro uncaught
      cases uncaught
  | uint8 | uint16 | uint32 | uint64 => cases failed

theorem varintDecode_fails (T : IntType) : ¬ Fails Stop.Uncaught (varintDecode T) buf := by
  have loop (left : ByteString) (idx val : Nat) {e : Stop} {rest : ByteString}
      (ran : varintDecode.go T buf left idx val = (.error e, rest)) : ¬ e.Uncaught := by
    induction left generalizing idx val with
    | nil =>
      cases ran
      exact nofun
    | cons raw left ih =>
      unfold varintDecode.go at ran
      split at ran
      · rename_i shifted
        cases ran
        exact shl_caught shifted
      · split at ran
        · cases ran
        · exact ih _ _ ran
  rintro ⟨e, rest, ran, uncaught⟩
  exact loop _ _ _ ran uncaught

theorem readSpan_fails (size : Nat) : ¬ Fails Stop.Uncaught (readSpan size) buf := by
  rintro ⟨e, rest, ran, uncaught⟩
  unfold readSpan at ran
  split at ran
  · cases ran
    cases uncaught
  · cases ran

theorem resize_fails (length : Nat) : Fails Stop.Uncaught (resize length) buf ↔ buf.length < length ∧ Memory.resizeLimit < length := by
  unfold Fails
  rw [resize_apply]
  by_cases short : buf.length < length
  · rw [if_pos short, and_iff_right short]
    constructor
    · rintro ⟨e, rest, failed, uncaught⟩
      cases failed
      by_contra inside
      rw [Stop.Uncaught, Exn.caught, if_pos (Nat.le_of_not_lt inside)] at uncaught
      cases uncaught
    · intro beyond
      exact ⟨_, _, rfl, if_neg (Nat.not_le.mpr beyond)⟩
  · rw [if_neg short]
    refine iff_of_false ?_ fun long => short long.1
    rintro ⟨e, rest, failed, _⟩
    cases failed

theorem readString_fails : Fails Stop.Uncaught readString buf ↔ Oversized buf := by
  unfold readString
  simp only [fails_bind, varintDecode_fails, false_or]
  refine exists_congr fun length => exists_congr fun rest => and_congr_right fun _ => ?_
  refine (or_iff_left ?_).trans (resize_fails length)
  rintro ⟨_, _, _, failed | ⟨_, _, _, failed⟩⟩
  · exact readSpan_fails length failed
  · exact fails_pure failed

theorem validate_caught {maxLength : Nat} {letterCase : StringCase} {raw : ByteString} {e : Stop}
    (failed : (Str.validate raw : Except Stop (Str maxLength letterCase)) = .error e) : ¬ e.Uncaught := by
  unfold Str.validate at failed
  split at failed
  · split at failed
    · cases failed
    · cases failed
      intro gone
      cases gone
  · cases failed
    intro gone
    cases gone

theorem ofExcept_fails {α : Type} {x : Except Stop α} (caught : ∀ e, x = .error e → ¬ e.Uncaught) :
    ¬ Fails Stop.Uncaught (Exec.ofExcept x) buf := by
  rintro ⟨e, _, ran, uncaught⟩
  exact caught e (Prod.mk.inj ran).1 uncaught

theorem str_fails {maxLength : Nat} {letterCase : StringCase} :
    Fails Stop.Uncaught (Serial.read (α := Str maxLength letterCase)) buf ↔ Oversized buf := by
  refine fails_bind.trans ((or_iff_left ?_).trans readString_fails)
  rintro ⟨raw, rest, _, failed⟩
  exact ofExcept_fails (fun _ => validate_caught) failed

theorem bytes_fails {size : Nat} : ¬ Fails Stop.Uncaught (Serial.read (α := Bytes size)) buf := readSpan_fails size

theorem uint64_fails : ¬ Fails Stop.Uncaught (Serial.read (α := UInt64)) buf :=
  fun failed => varintDecode_fails .uint64 (fails_map.mp failed)

theorem uint256_fails : ¬ Fails Stop.Uncaught (Serial.read (α := UInt256)) buf :=
  fun failed => varintDecode_fails .uint256 (fails_map.mp failed)

theorem enum_fails {α : Type} {fromIntegral : Nat → Except Stop α} (caught : ∀ n e, fromIntegral n = .error e → ¬ e.Uncaught) :
    ¬ Fails Stop.Uncaught (do Exec.ofExcept (fromIntegral (← varintDecode .uint16))) buf := by
  rw [fails_bind]
  rintro (failed | ⟨n, rest, _, failed⟩)
  · exact varintDecode_fails _ failed
  · exact ofExcept_fails (caught n) failed

theorem msgType_fails : ¬ Fails Stop.Uncaught (Serial.read (α := MsgType)) buf := by
  refine enum_fails fun n e failed => ?_
  unfold MsgType.fromIntegral at failed
  split at failed <;> cases failed
  nofun

theorem opCode_fails : ¬ Fails Stop.Uncaught (Serial.read (α := OpCode)) buf := by
  refine enum_fails fun n e failed => ?_
  unfold OpCode.fromIntegral at failed
  split at failed <;> cases failed
  nofun

theorem operands_fails {op : BinaryOp} {operand : Decoder Equation} {size : Nat} (short : buf.length < size)
    (shorter : ∀ {buf e rest}, operand buf = (.ok e, rest) → rest.length < buf.length)
    (caught : ∀ {buf}, buf.length < size → ¬ Fails Stop.Uncaught operand buf) :
    ¬ Fails Stop.Uncaught (Equation.operands op operand) buf := by
  unfold Equation.operands
  rw [fails_bind]
  rintro (failed | ⟨_, _, left, failed⟩)
  · exact caught short failed
  · exact caught ((shorter left).trans short) (fails_map.mp failed)

theorem parse_fails {fuel : Nat} (enough : buf.length < fuel) : ¬ Fails Stop.Uncaught (Equation.parse fuel) buf := by
  induction fuel generalizing buf with
  | zero => omega
  | succ fuel ih =>
    rw [Equation.parse, fails_bind]
    rintro (failed | ⟨op, rest, opcode, failed⟩)
    · exact opCode_fails failed
    · have short : rest.length < fuel := by
        have := opCode_shorter opcode
        omega
      cases op with
      | add | sub | mul | div | mod | exp => exact operands_fails short parse_shorter ih failed
      | constant => exact uint256_fails (fails_map.mp failed)
      | var => exact fails_pure failed

theorem curve_fails : ¬ Fails Stop.Uncaught (Serial.read (α := Curve)) buf := by
  intro failed
  have parsed : Fails Stop.Uncaught (do return ⟨some (← Equation.parse (buf.length + 1))⟩ : Decoder Curve) buf := failed
  exact parse_fails (Nat.lt_succ_self _) (fails_map.mp parsed)

section

variable {α : Type} {maxLength : Nat} {letterCase : StringCase}

theorem str_then {n : Nat} {f : Str maxLength letterCase → Decoder α}
    (rest : ∀ {val buf}, Fails Stop.Uncaught (f val) buf ↔ OversizedAmong (Str maxLength letterCase) n buf) :
    Fails Stop.Uncaught (Serial.read >>= f) buf ↔ OversizedAmong (Str maxLength letterCase) (n + 1) buf :=
  fails_bind.trans (or_congr str_fails (exists_congr fun _ => exists_congr fun _ => and_congr_right fun _ => rest))

/-- The last field, which is no string. -/
theorem last_field {β : Type} [Serial β] {f : β → α} (caught : ∀ {buf}, ¬ Fails Stop.Uncaught (Serial.read (α := β)) buf) :
    Fails Stop.Uncaught (do return f (← Serial.read)) buf ↔ OversizedAmong (Str maxLength letterCase) 0 buf :=
  fails_map.trans (iff_of_false caught id)

theorem no_field {a : α} : Fails Stop.Uncaught (pure a : Decoder α) buf ↔ OversizedAmong (Str maxLength letterCase) 0 buf :=
  iff_of_false fails_pure id

end

/-- Only strings that are too long keep a message from being read or refused. -/
theorem msg_fails (type : MsgType) (buf : ByteString) : Fails Stop.Uncaught (Msg.read type) buf ↔ type.Oversized buf := by
  have wikiEdge : Fails Stop.Uncaught (Serial.read (α := WikiEdgeMsg)) buf ↔ OversizedAmong NodeID 4 buf :=
    str_then (str_then (str_then (str_then no_field)))
  cases type with
  | createAccount =>
    refine fails_map.trans (fails_bind.trans ((or_iff_right (readSpan_fails 32)).trans ?_))
    exact exists_congr fun _ => exists_congr fun _ => and_congr_right fun _ => str_then no_field
  | createToken => exact fails_map.trans (str_then (str_then (last_field curve_fails)))
  | transferToken => exact fails_map.trans (str_then (str_then (last_field uint256_fails)))
  | mintToken | buyToken | sellToken => exact fails_map.trans (str_then (last_field uint256_fails))
  | addWikiEdge | removeWikiEdge => exact fails_map.trans wikiEdge

/-! ### Results -/

/-- It is an error that ends the process. -/
def Fatal {α : Type} (x : Except Stop α) : Prop := ∃ e, x = .error e ∧ e.Uncaught

theorem fatal_error {α : Type} {e : Stop} : Fatal (.error e : Except Stop α) ↔ e.Uncaught :=
  ⟨fun ⟨_, same, uncaught⟩ => Except.error.inj same ▸ uncaught, fun uncaught => ⟨e, rfl, uncaught⟩⟩

theorem fatal_bind {α β : Type} {x : Except Stop α} {f : α → Except Stop β} :
    Fatal (x >>= f) ↔ Fatal x ∨ ∃ a, x = .ok a ∧ Fatal (f a) := by
  cases x with
  | error e =>
    rw [or_iff_left fun ⟨_, wrong, _⟩ => by cases wrong]
    exact fatal_error.trans fatal_error.symm
  | ok a =>
    constructor
    · exact fun failed => Or.inr ⟨a, rfl, failed⟩
    · rintro (⟨_, wrong, _⟩ | ⟨_, same, failed⟩)
      · cases wrong
      · rwa [← Except.ok.inj same] at failed

theorem not_fatal_ok {α : Type} {a : α} : ¬ Fatal (.ok a : Except Stop α) := by
  rintro ⟨_, wrong, _⟩
  cases wrong

theorem fatal_result {α : Type} {x : Decoder α} : Fatal (x buf).1 ↔ Fails Stop.Uncaught x buf := by
  constructor
  · rintro ⟨e, failed, uncaught⟩
    exact ⟨e, _, Prod.ext failed rfl, uncaught⟩
  · rintro ⟨e, _, ran, uncaught⟩
    exact ⟨e, congrArg Prod.fst ran, uncaught⟩

theorem fatal_consume {α : Type} {read : Decoder α} : Fatal (ListenerManager.consume read buf) ↔ Fails Stop.Uncaught read buf := by
  unfold ListenerManager.consume
  split
  · rename_i ran
    refine iff_of_false not_fatal_ok ?_
    rintro ⟨_, _, failed, _⟩
    cases ran.symm.trans failed
  · rename_i ran
    constructor
    · rintro ⟨_, same, uncaught⟩
      exact ⟨_, _, ran, Except.error.inj same ▸ uncaught⟩
    · rintro ⟨_, _, failed, uncaught⟩
      cases ran.symm.trans failed
      exact ⟨_, rfl, uncaught⟩

/-- The user is the first thing that is read. -/
theorem fatal_parseHeader [Sha256] {raw : ByteString} : Fatal (ListenerManager.parseHeader raw) ↔ Oversized raw := by
  refine fatal_bind.trans ((or_iff_left ?_).trans (fatal_consume.trans str_fails))
  rintro ⟨_, _, failed⟩
  rcases fatal_bind.mp failed with failed | ⟨_, _, failed⟩
  · exact bytes_fails (fatal_consume.mp failed)
  rcases fatal_bind.mp failed with failed | ⟨_, _, failed⟩
  · exact uint64_fails (fatal_consume.mp failed)
  · exact not_fatal_ok failed

theorem fatal_parseTx [Sha256] {raw : ByteString} : Fatal (ListenerManager.parseTx raw) ↔ Oversized raw := by
  have parts : ListenerManager.parseTx raw = (do
      let header ← ListenerManager.parseHeader raw
      let typed ← ListenerManager.consume (Serial.read (α := MsgType)) header.2.2
      .ok (header.1, header.2.1, typed.1, typed.2)) := by
    unfold ListenerManager.parseTx
    rcases ListenerManager.parseHeader raw with _ | ⟨hdr, data, buf⟩
    · rfl
    · simp only [bind, Except.bind]
      rcases ListenerManager.consume (Serial.read (α := MsgType)) buf with _ | _ <;> rfl
  rw [parts]
  refine fatal_bind.trans ((or_iff_left ?_).trans fatal_parseHeader)
  rintro ⟨_, _, failed⟩
  rcases fatal_bind.mp failed with failed | ⟨_, _, failed⟩
  · exact msgType_fails (fatal_consume.mp failed)
  · exact not_fatal_ok failed

end

/-! ### Arithmetic -/

theorem checked_caught {n : Nat} : ¬ Fatal (UInt256.checked n) := by
  rintro ⟨_, failed, uncaught⟩
  unfold UInt256.checked at failed
  split at failed
  · cases failed
  · cases failed
    cases uncaught

theorem add_caught {a b : UInt256} : ¬ Fatal (a.add b) := checked_caught

theorem sub_caught {a b : UInt256} : ¬ Fatal (a.sub b) := by
  rintro ⟨_, failed, uncaught⟩
  unfold UInt256.sub at failed
  split at failed
  · cases failed
  · cases failed
    cases uncaught

/-- A division and a remainder: `overflow_error` by zero. -/
theorem quotient_caught {b : UInt256} {n : Nat} :
    ¬ Fatal (if b.val = 0 then .error (.throw .overflowError) else UInt256.checked n) := by
  split
  · rintro ⟨_, failed, uncaught⟩
    cases failed
    cases uncaught
  · exact checked_caught

theorem pow_caught {l r : UInt256} : ¬ Fatal (l.pow r) := by
  have loop (n : Nat) (v : UInt256) : ¬ Fatal (l.powLoop n v) := by
    induction n generalizing v with
    | zero => exact not_fatal_ok
    | succ n ih =>
      rw [UInt256.powLoop, fatal_bind]
      rintro (failed | ⟨_, _, failed⟩)
      · exact checked_caught failed
      · exact ih _ failed
  exact loop r.val 1

theorem op_caught (op : BinaryOp) {l r : UInt256} : ¬ Fatal (op.apply l r) := by
  cases op with
  | add => exact add_caught
  | sub => exact sub_caught
  | mul => exact checked_caught
  | div | mod => exact quotient_caught
  | exp => exact pow_caught

theorem equation_caught {e : Equation} {x : UInt256} : ¬ Fatal (e.apply x) := by
  induction e with
  | binary op left right ihLeft ihRight =>
    rw [Equation.apply, fatal_bind]
    rintro (failed | ⟨l, _, failed⟩)
    · exact ihLeft failed
    rcases fatal_bind.mp failed with failed | ⟨r, _, failed⟩
    · exact ihRight failed
    · exact op_caught op failed
  | constant c => exact not_fatal_ok
  | var => exact not_fatal_ok

theorem curve_caught {curve : Curve} {x : UInt256} : ¬ Fatal (curve.apply x) := by
  unfold Curve.apply
  cases curve.equation with
  | none =>
    rintro ⟨_, failed, uncaught⟩
    cases failed
    cases uncaught
  | some e => exact equation_caught

end BandChain
