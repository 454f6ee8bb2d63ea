import BandChain.Lib.Json

/-! Requests of HTTP/1.1 with a body of stated length: a request reads back as it was written, with what follows it. -/

namespace Http

structure Request where
  method : List UInt8
  target : List UInt8
  headers : List (List UInt8 × List UInt8)
  body : List UInt8

/-- "HTTP/1.1" -/
def version : List UInt8 := [72, 84, 84, 80, 47, 49, 46, 49]

/-- "Content-Length" -/
def contentLength : List UInt8 := [67, 111, 110, 116, 101, 110, 116, 45, 76, 101, 110, 103, 116, 104]

/-! ### Writing -/

def crlf : List UInt8 := [13, 10]

def field (header : List UInt8 × List UInt8) : List UInt8 := header.1 ++ 58 :: 32 :: header.2

def Request.start (r : Request) : List UInt8 := r.method ++ 32 :: (r.target ++ 32 :: version)

def Request.write (r : Request) : List UInt8 :=
  r.start ++ crlf ++ (r.headers.map fun header => field header ++ crlf).flatten ++ crlf ++ r.body

/-! ### Reading -/

/-- What is before the first `c`, and what is after it. -/
def splitAt (c : UInt8) (text : List UInt8) : List UInt8 × List UInt8 :=
  (text.takeWhile (· ≠ c), (text.dropWhile (· ≠ c)).drop 1)

/-- The first line, and the text after it. -/
def readLine : List UInt8 → Option (List UInt8 × List UInt8)
  | 13 :: 10 :: rest => some ([], rest)
  | c :: rest => (readLine rest).map fun (line, rest) => (c :: line, rest)
  | [] => none

/-- The headers up to the empty line. -/
def readHeaders : (fuel : Nat) → List UInt8 → Option (List (List UInt8 × List UInt8) × List UInt8)
  | 0, _ => none
  | fuel + 1, text =>
    match readLine text with
    | none => none
    | some ([], rest) => some ([], rest)
    | some (line, rest) =>
      let (name, value) := splitAt 58 line
      (readHeaders fuel rest).map fun (headers, rest) => ((name, value.drop 1) :: headers, rest)

def read (text : List UInt8) : Option (Request × List UInt8) := do
  let (start, rest) ← readLine text
  let (method, start) := splitAt 32 start
  let (target, version) := splitAt 32 start
  if version ≠ Http.version then none
  let (headers, rest) ← readHeaders (rest.length + 1) rest
  let length := (Json.readDigits (← headers.lookup contentLength)).1
  if rest.length < length then none
  return ({ method, target, headers, body := rest.take length }, rest.drop length)

/-! ### Round trip -/

/-- Nothing in the parts looks like the end of a part, and the length of the body is stated. -/
structure Request.WellFormed (r : Request) : Prop where
  method : (32 : UInt8) ∉ r.method ∧ (13 : UInt8) ∉ r.method
  target : (32 : UInt8) ∉ r.target ∧ (13 : UInt8) ∉ r.target
  names : ∀ header ∈ r.headers, (58 : UInt8) ∉ header.1 ∧ (13 : UInt8) ∉ header.1
  values : ∀ header ∈ r.headers, (13 : UInt8) ∉ header.2
  length : r.headers.lookup contentLength = some (Json.digits r.body.length)

theorem splitAt_append {c : UInt8} {before : List UInt8} (clear : c ∉ before) (rest : List UInt8) :
    splitAt c (before ++ c :: rest) = (before, rest) := by
  have passes : ∀ b ∈ before, decide (b ≠ c) = true := by
    rintro b mem
    refine decide_eq_true ?_
    rintro rfl
    exact clear mem
  rw [splitAt, List.takeWhile_append_of_pos passes, List.dropWhile_append_of_pos passes]
  simp

theorem readLine_append {line : List UInt8} (clear : (13 : UInt8) ∉ line) (rest : List UInt8) :
    readLine (line ++ crlf ++ rest) = some (line, rest) := by
  induction line with
  | nil => rfl
  | cons c line ih =>
    obtain ⟨other, clear⟩ := not_or.mp (mt List.mem_cons.mpr clear)
    rw [List.cons_append, List.cons_append, readLine, ih clear, Option.map_some]
    rintro _ rfl
    exact absurd rfl other

theorem field_clear {header : List UInt8 × List UInt8} (name : (13 : UInt8) ∉ header.1) (value : (13 : UInt8) ∉ header.2) :
    (13 : UInt8) ∉ field header := by
  simp [field, name, value]

theorem readHeaders_append {headers : List (List UInt8 × List UInt8)}
    (names : ∀ header ∈ headers, (58 : UInt8) ∉ header.1 ∧ (13 : UInt8) ∉ header.1)
    (values : ∀ header ∈ headers, (13 : UInt8) ∉ header.2) (rest : List UInt8) {fuel : Nat} (enough : headers.length < fuel) :
    readHeaders fuel ((headers.map fun header => field header ++ crlf).flatten ++ crlf ++ rest) = some (headers, rest) := by
  induction headers generalizing fuel with
  | nil =>
    obtain ⟨fuel, rfl⟩ : ∃ k, fuel = k + 1 := ⟨fuel - 1, by omega⟩
    have empty : readLine ([] ++ crlf ++ rest) = some ([], rest) := readLine_append List.not_mem_nil rest
    rw [List.nil_append] at empty
    rw [List.map_nil, List.flatten_nil, List.nil_append, readHeaders, empty]
  | cons header headers ih =>
    obtain ⟨fuel, rfl⟩ : ∃ k, fuel = k + 1 := ⟨fuel - 1, by omega⟩
    obtain ⟨name, names⟩ := List.forall_mem_cons.mp names
    obtain ⟨value, values⟩ := List.forall_mem_cons.mp values
    have shape : ((header :: headers).map fun header => field header ++ crlf).flatten ++ crlf ++ rest =
        field header ++ crlf ++ ((headers.map fun header => field header ++ crlf).flatten ++ crlf ++ rest) := by
      simp only [List.map_cons, List.flatten_cons, List.append_assoc]
    have parts : splitAt 58 (field header) = (header.1, 32 :: header.2) := splitAt_append name.1 _
    have some : ∃ c line, field header = c :: line := by
      cases start : header.1 with
      | nil => exact ⟨58, 32 :: header.2, by rw [field, start]; rfl⟩
      | cons c line => exact ⟨c, line ++ 58 :: 32 :: header.2, by rw [field, start]; rfl⟩
    obtain ⟨c, line, shown⟩ := some
    have others := ih names values (Nat.lt_of_succ_lt_succ enough)
    rw [shape, readHeaders, readLine_append (field_clear name.2 value)]
    simp only [shown]
    rw [← shown, parts]
    simp only [others, Option.map_some, List.drop_succ_cons, List.drop_zero]

theorem headers_length (headers : List (List UInt8 × List UInt8)) (rest : List UInt8) :
    headers.length ≤ ((headers.map fun header => field header ++ crlf).flatten ++ crlf ++ rest).length := by
  induction headers with
  | nil => exact Nat.zero_le _
  | cons header headers ih =>
    simp only [List.map_cons, List.flatten_cons, List.length_append, List.length_cons, field, crlf, List.length_nil] at ih ⊢
    omega

/-- What is written is read, whatever follows. -/
theorem read_write {r : Request} (wellFormed : r.WellFormed) (rest : List UInt8) : read (r.write ++ rest) = some (r, rest) := by
  have clear : (13 : UInt8) ∉ r.start := by
    have version : (13 : UInt8) ∉ version := by decide
    simp [Request.start, wellFormed.method.2, wellFormed.target.2, version]
  have shape : r.write ++ rest = r.start ++ crlf ++
      ((r.headers.map fun header => field header ++ crlf).flatten ++ crlf ++ (r.body ++ rest)) := by
    simp only [Request.write, List.append_assoc]
  have headers := readHeaders_append wellFormed.names wellFormed.values (r.body ++ rest)
    (Nat.lt_succ_of_le (headers_length r.headers (r.body ++ rest)))
  have method : splitAt 32 r.start = (r.method, r.target ++ 32 :: version) := splitAt_append wellFormed.method.1 _
  have target : splitAt 32 (r.target ++ 32 :: version) = (r.target, version) := splitAt_append wellFormed.target.1 _
  have length : (Json.readDigits (Json.digits r.body.length)).1 = r.body.length := by
    have whole : Json.readDigits (Json.digits r.body.length ++ []) = _ := Json.readDigits_digits (fun _ _ none => by cases none)
    rw [List.append_nil] at whole
    rw [whole]
  have sized : ¬ (r.body ++ rest).length < r.body.length := by
    rw [List.length_append]
    omega
  simp only [read, shape, readLine_append clear, Option.bind_eq_bind, Option.bind_some, method, target, ne_eq, not_true_eq_false, if_false,
    headers, wellFormed.length, length, sized, List.take_left, List.drop_left]
  rfl

end Http
