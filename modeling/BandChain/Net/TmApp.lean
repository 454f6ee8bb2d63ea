import BandChain.Listener.Manager

/-! `net/tmapp.cc`, with the `check` and `apply` of `main/bandlog.cc`. -/

namespace BandChain

/-- The fields that are set in a `ResponseCheckTx` and a `ResponseDeliverTx`. -/
structure ResponseTx where
  code : Nat := 0
  data : ByteString := []
  info : ByteString := []
  deriving DecidableEq

/-- What is not known of the machine and its library. -/
class Memory where
  /-- The largest length that `std::string::resize` delivers: `max_size`, or less where there is not so much memory. -/
  resizeLimit : Nat
  /-- No string is as long as `npos`. -/
  below_npos : resizeLimit < 2 ^ 64 - 1

/-- A stand-in to run the node with: strings of less than `2 ^ 62` bytes, and memory for each of them. -/
@[reducible] def roomyMemory : Memory := ⟨2 ^ 62 - 1, by decide⟩

/-- A `const char*` as a string: up to the first NUL. -/
def cString (text : ByteString) : ByteString := text.takeWhile (· ≠ 0)

/-- The handlers of `do_check_tx` and `do_deliver_tx`: the info for an exception of a type they catch. A string that was resized
has yet to be filled. -/
def Exn.info : Exn → Option ByteString
  | .error e => some (cString e.what)
  | .rangeError => some (ascii "uint256 integer range error")
  | .overflowError => some (ascii "uint256 integer overflow error")
  | .resize _ => some (cString Error.bufferParse.what)
  | .failure _ | .runtimeError => none

/-- A string that could not be resized threw something else. -/
def Exn.caught [Memory] : Exn → Option ByteString
  | .resize length => if length ≤ Memory.resizeLimit then (Exn.resize length).info else none
  | e => e.info

theorem Exn.info_of_caught [Memory] {e : Exn} {info : ByteString} (caught : e.caught = some info) : e.info = some info := by
  cases e with
  | resize length =>
    by_cases delivered : length ≤ Memory.resizeLimit
    · exact (if_pos delivered).symm.trans caught
    · cases (if_neg delivered).symm.trans caught
  | error _ | rangeError | overflowError | failure _ | runtimeError => exact caught

namespace TmApp

/-- What an `int` makes of a number: its low 32 bits, with a sign. -/
def int32 (n : Int) : Int := n.bmod (2 ^ 32)

/-- `Buffer::consume`. A negative `int` is a `size_t` past the end of every buffer, and there nothing can be erased. -/
def consume (length : Int) : Decoder Unit := fun buf =>
  if 0 ≤ length ∧ length ≤ buf.length then (.ok (), buf.drop length.toNat) else (.error .crash, buf)

theorem int32_lt (n : Int) : int32 n < 2 ^ 31 := by
  have high := Int.bmod_lt (x := n) (m := 2 ^ 32) (by decide)
  unfold int32
  omega

theorem int32_of_lt {n : Int} (low : -2 ^ 31 ≤ n) (high : n < 2 ^ 31) : int32 n = n := Int.bmod_eq_of_le_mul_two (by omega) (by omega)

/-- Past its largest value an `int` is negative. -/
theorem int32_of_le {n : Int} (low : 2 ^ 31 ≤ n) (high : n < 2 ^ 32) : int32 n = n - 2 ^ 32 := by
  refine (Int.sub_bmod_right n (2 ^ 32)).symm.trans ?_
  exact Int.bmod_eq_of_le_mul_two (by omega) (by omega)

theorem consume_of {length : Int} {buf : ByteString} (inside : 0 ≤ length ∧ length ≤ buf.length) :
    consume length buf = (.ok (), buf.drop length.toNat) := if_pos inside

theorem consume_crash {length : Int} {buf : ByteString} (outside : ¬ (0 ≤ length ∧ length ≤ buf.length)) :
    consume length buf = (.error .crash, buf) := if_neg outside

theorem consume_ok {length : Int} {buf rest : ByteString} (ran : consume length buf = (.ok (), rest)) :
    (0 ≤ length ∧ length ≤ buf.length) ∧ rest = buf.drop length.toNat := by
  by_cases inside : 0 ≤ length ∧ length ≤ buf.length
  · rw [consume_of inside] at ran
    exact ⟨inside, (Prod.mk.inj ran).2.symm⟩
  · rw [consume_crash inside] at ran
    cases ran

/-- The end of a length in `read_ahead`, the byte numbered `idx`: the size of the message, if the message is there. The shift of
an `int` keeps its sign. -/
def readAhead.found (idx val : Nat) : Decoder (Option Int) := do
  let value := int32 val / 2
  if int32 (idx + value) < (← Exec.get).length then
    consume (int32 (1 + idx))
    return some value
  else return none

theorem found_waits {idx val : Nat} {buf : ByteString} (missing : ¬ int32 (idx + int32 val / 2) < buf.length) :
    readAhead.found idx val buf = (.ok none, buf) := by
  unfold readAhead.found
  rw [Exec.bind_of_ok (Exec.get_apply buf), if_neg missing]
  rfl

theorem found_apply {idx val : Nat} {buf : ByteString} (arrived : int32 (idx + int32 val / 2) < buf.length) :
    readAhead.found idx val buf = (do consume (int32 (1 + idx)); return some (int32 val / 2)) buf := by
  unfold readAhead.found
  rw [Exec.bind_of_ok (Exec.get_apply buf), if_pos arrived]

theorem found_taken {idx val : Nat} {buf rest : ByteString} (arrived : int32 (idx + int32 val / 2) < buf.length)
    (consumed : consume (int32 (1 + idx)) buf = (.ok (), rest)) :
    readAhead.found idx val buf = (.ok (some (int32 val / 2)), rest) := by
  rw [found_apply arrived, Exec.bind_of_ok consumed, Exec.pure_apply]

theorem found_ok {idx val : Nat} {size : Int} {buf rest : ByteString} (found : readAhead.found idx val buf = (.ok (some size), rest)) :
    int32 (idx + int32 val / 2) < buf.length ∧ consume (int32 (1 + idx)) buf = (.ok (), rest) ∧ int32 val / 2 = size := by
  by_cases arrived : int32 (idx + int32 val / 2) < buf.length
  · rw [found_apply arrived] at found
    refine ⟨arrived, ?_⟩
    generalize int32 (1 + idx) = count at found
    obtain ⟨_, _, consumed, made⟩ := Exec.bind_ok found
    obtain ⟨same, rfl⟩ := Prod.mk.inj made
    exact ⟨consumed, Option.some.inj (Except.ok.inj same)⟩
  · rw [found_waits arrived] at found
    cases found

/-- The loop of `read_ahead` over the bytes left. `val` has the bits of the `int`. -/
def readAhead.go : ByteString → Nat → Nat → Decoder (Option Int)
  | [], _, _ => return none
  | raw :: rest, idx, val =>
    let val := IntType.uint32.or val ((raw.toNat &&& 0x7F) <<< (7 * idx % 32) % 2 ^ 32)
    if raw.toNat &&& 0x80 = 0 then readAhead.found idx val else readAhead.go rest (idx + 1) val

def readAhead : Decoder (Option Int) := do readAhead.go (← Exec.get) 0 0

/-- `read_ahead`, with the bytes that `ParseFromArray` reads after it and `consume` erases. -/
def takeRequest : Decoder (Option ByteString) := do
  match ← readAhead with
  | none => return none
  | some size =>
    let buf ← Exec.get
    consume size
    return some (buf.take size.toNat)

/-- A message as `process` writes its replies. -/
def frame (payload : ByteString) : ByteString := varintEncode (UInt64.ofNat payload.length <<< 1).toNat ++ payload

section

variable {σ : Type} [Storage σ] [Sha256] [Memory]

def answering (call : Exec Stop (ListenerManager σ) ResponseTx) : Exec Stop (ListenerManager σ) ResponseTx := fun m =>
  match call m with
  | (.error (.throw e), m') =>
    match e.caught with
    | some info => (.ok { code := 1, info }, m')
    | none => (.error (.throw e), m')
  | (result, m') => (result, m')

def doCheckTx (tx : ByteString) : Exec Stop (ListenerManager σ) ResponseTx :=
  answering do
    ListenerManager.checkTransaction tx
    return {}

def doDeliverTx (tx : ByteString) : Exec Stop (ListenerManager σ) ResponseTx :=
  answering do return { data := ← ListenerManager.applyTransaction tx [] }

end

end TmApp

end BandChain
