import Mathlib.Data.UInt
import Mathlib.Tactic.IntervalCases

/-!
JSON texts of numbers, strings, arrays and objects, without white space. A text reads back as the value it was
written for, whatever follows it, so no two values share a text.
-/

namespace Json

inductive Value where
  | number (n : Nat)
  | string (s : List UInt8)
  | array (items : List Value)
  | object (members : List (List UInt8 × Value))

/-! ### Writing -/

def digits (n : Nat) : List UInt8 := (Nat.toDigits 10 n).map fun c => UInt8.ofNat c.toNat

def hexDigit (n : Nat) : UInt8 := if n < 10 then UInt8.ofNat (48 + n) else UInt8.ofNat (87 + n)

/-- A byte inside a string. Control characters, the quotation mark and the backslash are escaped. -/
def escape (c : UInt8) : List UInt8 :=
  if c = 0x08 then [0x5C, 0x62]
  else if c = 0x09 then [0x5C, 0x74]
  else if c = 0x0A then [0x5C, 0x6E]
  else if c = 0x0C then [0x5C, 0x66]
  else if c = 0x0D then [0x5C, 0x72]
  else if c = 0x22 then [0x5C, 0x22]
  else if c = 0x5C then [0x5C, 0x5C]
  else if c.toNat ≤ 0x1F then [0x5C, 0x75, 0x30, 0x30, hexDigit (c.toNat / 16), hexDigit (c.toNat % 16)]
  else [c]

def quoted (s : List UInt8) : List UInt8 := 0x22 :: (s.flatMap escape ++ [0x22])

mutual

def Value.dump : Value → List UInt8
  | .number n => digits n
  | .string s => quoted s
  | .array [] => [0x5B, 0x5D]
  | .array (v :: rest) => 0x5B :: (v.dump ++ dumpItems rest)
  | .object [] => [0x7B, 0x7D]
  | .object ((key, v) :: rest) => 0x7B :: (quoted key ++ 0x3A :: (v.dump ++ dumpMembers rest))

/-- The items after the first, and the bracket. -/
def dumpItems : List Value → List UInt8
  | [] => [0x5D]
  | v :: rest => 0x2C :: (v.dump ++ dumpItems rest)

def dumpMembers : List (List UInt8 × Value) → List UInt8
  | [] => [0x7D]
  | (key, v) :: rest => 0x2C :: (quoted key ++ 0x3A :: (v.dump ++ dumpMembers rest))

end

/-! ### Reading -/

def isDigit (c : UInt8) : Bool := 48 ≤ c.toNat && c.toNat ≤ 57

def readDigits (text : List UInt8) : Nat × List UInt8 :=
  ((text.takeWhile isDigit).foldl (fun n c => 10 * n + (c.toNat - 48)) 0, text.dropWhile isDigit)

def hexValue (c : UInt8) : Option Nat :=
  if 48 ≤ c.toNat ∧ c.toNat ≤ 57 then some (c.toNat - 48)
  else if 97 ≤ c.toNat ∧ c.toNat ≤ 102 then some (c.toNat - 87)
  else none

/-- The byte that a letter stands for after a backslash. -/
def unescape (e : UInt8) : Option UInt8 :=
  if e = 0x62 then some 0x08
  else if e = 0x74 then some 0x09
  else if e = 0x6E then some 0x0A
  else if e = 0x66 then some 0x0C
  else if e = 0x72 then some 0x0D
  else if e = 0x22 ∨ e = 0x5C then some e
  else none

/-- A string after its first quotation mark, and the text after the last one. -/
def readString : List UInt8 → Option (List UInt8 × List UInt8)
  | [] => none
  | c :: text =>
    if c = 0x22 then some ([], text)
    else if c = 0x5C then
      match text with
      | [] => none
      | e :: text =>
        if e = 0x75 then
          match text with
          | a :: b :: h :: l :: text =>
            match hexValue h, hexValue l with
            | some high, some low =>
              if a = 0x30 ∧ b = 0x30 ∧ high < 8 then (readString text).map fun (s, rest) => (UInt8.ofNat (16 * high + low) :: s, rest)
              else none
            | _, _ => none
          | _ => none
        else
          match unescape e with
          | some c => (readString text).map fun (s, rest) => (c :: s, rest)
          | none => none
    else if c.toNat ≤ 0x1F then none
    else (readString text).map fun (s, rest) => (c :: s, rest)

/-- A quoted key with the colon. -/
def readKey : List UInt8 → Option (List UInt8 × List UInt8)
  | 0x22 :: text =>
    match readString text with
    | some (key, 0x3A :: rest) => some (key, rest)
    | _ => none
  | _ => none

mutual

/-- A value at the front of a text, nested less than `fuel` deep. -/
def read : Nat → List UInt8 → Option (Value × List UInt8)
  | 0, _ | _ + 1, [] => none
  | fuel + 1, c :: text =>
    if c = 0x22 then (readString text).map fun (s, rest) => (.string s, rest)
    else if c = 0x5B then
      if text.head? = some 0x5D then some (.array [], text.tail)
      else
        match read fuel text with
        | some (v, text) => (readItems fuel text).map fun (items, rest) => (.array (v :: items), rest)
        | none => none
    else if c = 0x7B then
      if text.head? = some 0x7D then some (.object [], text.tail)
      else
        match readKey text with
        | some (key, text) =>
          match read fuel text with
          | some (v, text) => (readMembers fuel text).map fun (members, rest) => (.object ((key, v) :: members), rest)
          | none => none
        | none => none
    else if isDigit c then some (.number (readDigits (c :: text)).1, (readDigits (c :: text)).2)
    else none

def readItems : Nat → List UInt8 → Option (List Value × List UInt8)
  | 0, _ => none
  | fuel + 1, text =>
    match text with
    | 0x5D :: text => some ([], text)
    | 0x2C :: text =>
      match read fuel text with
      | some (v, text) => (readItems fuel text).map fun (items, rest) => (v :: items, rest)
      | none => none
    | _ => none

def readMembers : Nat → List UInt8 → Option (List (List UInt8 × Value) × List UInt8)
  | 0, _ => none
  | fuel + 1, text =>
    match text with
    | 0x7D :: text => some ([], text)
    | 0x2C :: text =>
      match readKey text with
      | some (key, text) =>
        match read fuel text with
        | some (v, text) => (readMembers fuel text).map fun (members, rest) => ((key, v) :: members, rest)
        | none => none
      | none => none
    | _ => none

end

/-! ### What is written is read back -/

theorem hexValue_hexDigit {n : Nat} (small : n < 16) : hexValue (hexDigit n) = some n := by
  interval_cases n <;> rfl

theorem readString_letter {c e : UInt8} (text : List UInt8) (letter : unescape e = some c) :
    readString (0x5C :: e :: text) = (readString text).map fun (s, rest) => (c :: s, rest) := by
  have other : e ≠ 0x75 := by
    rintro rfl
    cases letter
  rw [readString.eq_def]
  simp only [if_neg (show ¬ (0x5C : UInt8) = 0x22 by decide), if_true, if_neg other, letter]

theorem readString_escape (c : UInt8) (text : List UInt8) :
    readString (escape c ++ text) = (readString text).map fun (s, rest) => (c :: s, rest) := by
  unfold escape
  split_ifs with backspace tab newline formfeed carriage quote slash control
  · exact backspace ▸ readString_letter text rfl
  · exact tab ▸ readString_letter text rfl
  · exact newline ▸ readString_letter text rfl
  · exact formfeed ▸ readString_letter text rfl
  · exact carriage ▸ readString_letter text rfl
  · exact readString_letter text (by rw [quote]; rfl)
  · exact readString_letter text (by rw [slash]; rfl)
  · have high : hexValue (hexDigit (c.toNat / 16)) = some (c.toNat / 16) := hexValue_hexDigit (by omega)
    have low : hexValue (hexDigit (c.toNat % 16)) = some (c.toNat % 16) := hexValue_hexDigit (by omega)
    have whole : UInt8.ofNat (16 * (c.toNat / 16) + c.toNat % 16) = c := by
      rw [Nat.div_add_mod]
      exact UInt8.ofNat_toNat
    have below : c.toNat / 16 < 8 := by omega
    rw [List.cons_append, readString.eq_def]
    simp only [List.cons_append, List.nil_append, if_neg (show ¬ (0x5C : UInt8) = 0x22 by decide), if_true, high, low, below, and_self,
      whole]
  · rw [List.singleton_append, readString.eq_def]
    simp only [if_neg quote, if_neg slash, if_neg control]

theorem readString_quoted (s rest : List UInt8) : readString (s.flatMap escape ++ 0x22 :: rest) = some (s, rest) := by
  induction s with
  | nil =>
    rw [List.flatMap_nil, List.nil_append, readString.eq_def]
    exact if_pos rfl
  | cons c s ih =>
    rw [List.flatMap_cons, List.append_assoc, readString_escape, ih]
    rfl

theorem readKey_quoted (key rest : List UInt8) : readKey (quoted key ++ 0x3A :: rest) = some (key, rest) := by
  rw [quoted, List.cons_append, List.append_assoc, List.singleton_append]
  simp only [readKey, readString_quoted]

/-- No digit follows. -/
def Ends (rest : List UInt8) : Prop := ∀ c text, rest = c :: text → isDigit c = false

theorem digitByte {c : Char} (decimal : c.isDigit = true) :
    (UInt8.ofNat c.toNat).toNat = c.toNat ∧ isDigit (UInt8.ofNat c.toNat) = true := by
  simp only [Char.isDigit, Bool.and_eq_true, decide_eq_true_eq, UInt32.le_iff_toNat_le] at decimal
  have low : 48 ≤ c.toNat := decimal.1
  have high : c.toNat ≤ 57 := decimal.2
  have byte : (UInt8.ofNat c.toNat).toNat = c.toNat := UInt8.toNat_ofNat_of_lt' (show c.toNat < 256 by omega)
  refine ⟨byte, ?_⟩
  rw [isDigit, byte]
  simpa using ⟨low, high⟩

theorem readDigits_digits {n : Nat} {rest : List UInt8} (ends : Ends rest) : readDigits (digits n ++ rest) = (n, rest) := by
  have decimal {c : Char} (mem : c ∈ Nat.toDigits 10 n) : c.isDigit = true := Nat.isDigit_of_mem_toDigits (by decide) (by decide) mem
  have taken : ∀ c ∈ digits n, isDigit c = true := by
    intro c mem
    obtain ⟨d, digit, rfl⟩ := List.mem_map.mp mem
    exact (digitByte (decimal digit)).2
  have stops : rest.takeWhile isDigit = [] ∧ rest.dropWhile isDigit = rest := by
    cases rest with
    | nil => exact ⟨rfl, rfl⟩
    | cons c text => simp [ends c text rfl]
  have value : (digits n).foldl (fun m c => 10 * m + (c.toNat - 48)) 0 = n := by
    rw [digits, List.foldl_map]
    calc
      _ = (Nat.toDigits 10 n).foldl (fun m c => 10 * m + (c.toNat - '0'.toNat)) 0 :=
        List.foldl_ext _ _ _ fun m c mem => by rw [(digitByte (decimal mem)).1]; rfl
      _ = n := by rw [← Nat.ofDigitChars_eq_foldl, Nat.ofDigitChars_ten_toDigits]
  rw [readDigits, List.takeWhile_append_of_pos taken, List.dropWhile_append_of_pos taken, stops.1, stops.2, List.append_nil, value]

theorem ends_items (items : List Value) (rest : List UInt8) : Ends (dumpItems items ++ rest) := by
  intro c text begins
  cases items <;> rw [dumpItems] at begins <;> cases begins <;> rfl

theorem ends_members (members : List (List UInt8 × Value)) (rest : List UInt8) : Ends (dumpMembers members ++ rest) := by
  intro c text begins
  rcases members with _ | ⟨⟨key, v⟩, members⟩ <;> rw [dumpMembers] at begins <;> cases begins <;> rfl

theorem digits_head (n : Nat) : ∃ c text, digits n = c :: text ∧ isDigit c = true := by
  obtain ⟨d, rest, begins⟩ := List.exists_cons_of_ne_nil (Nat.toDigits_ne_nil (b := 10) (n := n))
  have decimal : d.isDigit = true := Nat.isDigit_of_mem_toDigits (by decide) (by decide) (begins ▸ List.mem_cons_self)
  exact ⟨_, _, by rw [digits, begins, List.map_cons], (digitByte decimal).2⟩

theorem dump_head (v : Value) : ∃ c text, v.dump = c :: text ∧ c ≠ 0x5D := by
  cases v with
  | number n =>
    obtain ⟨c, text, begins, digit⟩ := digits_head n
    refine ⟨c, text, by rw [Value.dump, begins], ?_⟩
    rintro rfl
    cases digit
  | string s => exact ⟨0x22, _, by rw [Value.dump, quoted], by decide⟩
  | array items =>
    cases items with
    | nil => exact ⟨0x5B, _, by rw [Value.dump], by decide⟩
    | cons v items => exact ⟨0x5B, _, by rw [Value.dump], by decide⟩
  | object members =>
    rcases members with _ | ⟨⟨key, v⟩, members⟩
    · exact ⟨0x7B, _, by rw [Value.dump], by decide⟩
    · exact ⟨0x7B, _, by rw [Value.dump], by decide⟩

theorem read_number {fuel n : Nat} {rest : List UInt8} (ends : Ends rest) :
    read (fuel + 1) (digits n ++ rest) = some (.number n, rest) := by
  obtain ⟨c, text, begins, digit⟩ := digits_head n
  have whole := readDigits_digits (n := n) ends
  have other {d : UInt8} (none : isDigit d = false) : c ≠ d := by
    rintro rfl
    cases digit.symm.trans none
  rw [begins, List.cons_append] at whole ⊢
  rw [read, if_neg (other rfl), if_neg (other rfl), if_neg (other rfl), if_pos digit, whole]

theorem read_dumped (fuel : Nat) :
    (∀ v rest, v.dump.length < fuel → Ends rest → read fuel (v.dump ++ rest) = some (v, rest)) ∧
    (∀ items rest, (dumpItems items).length < fuel → readItems fuel (dumpItems items ++ rest) = some (items, rest)) ∧
    ∀ members rest, (dumpMembers members).length < fuel → readMembers fuel (dumpMembers members ++ rest) = some (members, rest) := by
  induction fuel with
  | zero => exact ⟨fun _ _ enough => absurd enough (Nat.not_lt_zero _), fun _ _ enough => absurd enough (Nat.not_lt_zero _),
      fun _ _ enough => absurd enough (Nat.not_lt_zero _)⟩
  | succ fuel ih =>
    obtain ⟨value, items, members⟩ := ih
    refine ⟨fun v rest enough ends => ?_, fun vs rest enough => ?_, fun ms rest enough => ?_⟩
    · cases v with
      | number n => exact read_number ends
      | string s =>
        rw [Value.dump, quoted, List.cons_append, List.append_assoc, List.singleton_append, read, if_pos rfl, readString_quoted,
          Option.map_some]
      | array vs =>
        cases vs with
        | nil => rfl
        | cons v vs =>
          simp only [Value.dump, List.length_cons, List.length_append] at enough
          have first := value v (dumpItems vs ++ rest) (by omega) (ends_items vs rest)
          have others := items vs rest (by omega)
          have item : (v.dump ++ (dumpItems vs ++ rest)).head? ≠ some 0x5D := by
            obtain ⟨c, text, begins, other⟩ := dump_head v
            rw [begins]
            exact fun same => other (Option.some.inj same)
          rw [Value.dump, List.cons_append, List.append_assoc, read, if_neg (by decide), if_pos rfl, if_neg item]
          simp only [first, others, Option.map_some]
      | object ms =>
        rcases ms with _ | ⟨⟨key, v⟩, ms⟩
        · rfl
        · simp only [Value.dump, List.length_cons, List.length_append] at enough
          have first := value v (dumpMembers ms ++ rest) (by omega) (ends_members ms rest)
          have others := members ms rest (by omega)
          have key' : (quoted key ++ 0x3A :: (v.dump ++ (dumpMembers ms ++ rest))).head? ≠ some 0x7D := by
            rw [quoted]
            exact fun same => absurd (Option.some.inj same) (by decide)
          rw [Value.dump, List.cons_append, List.append_assoc, List.cons_append, List.append_assoc, read, if_neg (by decide),
            if_neg (by decide), if_pos rfl, if_neg key']
          simp only [readKey_quoted, first, others, Option.map_some]
    · cases vs with
      | nil => rfl
      | cons v vs =>
        simp only [dumpItems, List.length_cons, List.length_append] at enough
        rw [dumpItems, List.cons_append, List.append_assoc]
        simp only [readItems, value v (dumpItems vs ++ rest) (by omega) (ends_items vs rest), items vs rest (by omega), Option.map_some]
    · rcases ms with _ | ⟨⟨key, v⟩, ms⟩
      · rfl
      · simp only [dumpMembers, List.length_cons, List.length_append] at enough
        rw [dumpMembers, List.cons_append, List.append_assoc, List.cons_append, List.append_assoc]
        simp only [readMembers, readKey_quoted, value v (dumpMembers ms ++ rest) (by omega) (ends_members ms rest),
          members ms rest (by omega), Option.map_some]

theorem read_dump (v : Value) {rest : List UInt8} (ends : Ends rest) {fuel : Nat} (enough : v.dump.length < fuel) :
    read fuel (v.dump ++ rest) = some (v, rest) :=
  (read_dumped fuel).1 v rest enough ends

/-- The value of a whole text. -/
def parse (text : List UInt8) : Option Value :=
  match read (text.length + 1) text with
  | some (v, []) => some v
  | _ => none

theorem parse_dump (v : Value) : parse v.dump = some v := by
  have whole : read (v.dump.length + 1) (v.dump ++ []) = _ := read_dump v (fun _ _ none => by cases none) (Nat.lt_succ_self _)
  rw [List.append_nil] at whole
  rw [parse, whole]

end Json
