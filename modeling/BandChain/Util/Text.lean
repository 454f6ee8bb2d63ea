import BandChain.Util.Buffer

/-!
`util/string.h`: strings of bounded length with printable characters. A value carries what
`validate` establishes, so an `Ident` that no constructor could have built does not exist.
-/

namespace BandChain

inductive StringCase where
  | sensitive
  | inSensitive
  deriving DecidableEq

/-- `std::isprint` in the "C" locale. -/
def isprint (c : UInt8) : Bool := 0x20 ≤ c.toNat && c.toNat ≤ 0x7E

def tolower (c : UInt8) : UInt8 := if 0x41 ≤ c.toNat ∧ c.toNat ≤ 0x5A then c + 0x20 else c

theorem tolower_toNat (c : UInt8) :
    (tolower c).toNat = if 0x41 ≤ c.toNat ∧ c.toNat ≤ 0x5A then c.toNat + 0x20 else c.toNat := by
  unfold tolower
  split
  · rw [UInt8.toNat_add]
    change (c.toNat + 32) % 256 = _
    omega
  · rfl

theorem tolower_tolower (c : UInt8) : tolower (tolower c) = tolower c := by
  apply UInt8.toNat_inj.mp
  rw [tolower_toNat (tolower c), tolower_toNat c]
  by_cases upper : 0x41 ≤ c.toNat ∧ c.toNat ≤ 0x5A
  · rw [if_pos upper, if_neg (by omega)]
  · rw [if_neg upper, if_neg upper]

theorem isprint_tolower {c : UInt8} (h : isprint c = true) : isprint (tolower c) = true := by
  simp only [isprint, Bool.and_eq_true, decide_eq_true_eq, tolower_toNat] at h ⊢
  split <;> omega

/-- What `validate` leaves behind. -/
def Validated (maxLength : Nat) (letterCase : StringCase) (raw : ByteString) : Prop :=
  raw.length ≤ maxLength ∧ (∀ c ∈ raw, isprint c = true) ∧
    (letterCase = .inSensitive → ∀ c ∈ raw, tolower c = c)

instance : Decidable (Validated maxLength letterCase raw) :=
  inferInstanceAs (Decidable (_ ∧ _ ∧ (_ → _)))

/-- `String<MAX_LENGTH, CASE>`. -/
structure Str (maxLength : Nat) (letterCase : StringCase) where
  rawdata : ByteString
  validated : Validated maxLength letterCase rawdata
  deriving DecidableEq

namespace Str

variable {maxLength : Nat} {letterCase : StringCase}

@[ext] theorem ext {a b : Str maxLength letterCase} (h : a.rawdata = b.rawdata) : a = b := by
  cases a; cases b; cases h; rfl

/-- The case folding at the end of `validate`. -/
def fold (letterCase : StringCase) (raw : ByteString) : ByteString :=
  if letterCase = .inSensitive then raw.map tolower else raw

theorem fold_validated {raw : ByteString} (short : raw.length ≤ maxLength)
    (printable : raw.any (fun c => !isprint c) = false) : Validated maxLength letterCase (fold letterCase raw) := by
  have print : ∀ c ∈ raw, isprint c = true := by
    intro c member
    simpa using List.any_eq_false.mp printable c member
  unfold fold
  split
  · rename_i folded
    refine ⟨by simpa using short, ?_, ?_⟩
    · intro c member
      obtain ⟨d, present, rfl⟩ := List.mem_map.mp member
      exact isprint_tolower (print d present)
    · intro _ c member
      obtain ⟨d, _, rfl⟩ := List.mem_map.mp member
      exact tolower_tolower d
  · rename_i kept
    exact ⟨short, print, fun folded => (kept folded).elim⟩

theorem fold_of_validated {raw : ByteString} (h : Validated maxLength letterCase raw) : fold letterCase raw = raw := by
  unfold fold
  split
  · rename_i folded
    exact (List.map_congr_left (h.2.2 folded)).trans (List.map_id' raw)
  · rfl

/-- The constructor from a string, and the end of `operator>>`: `validate`. -/
def validate (raw : ByteString) : Except Stop (Str maxLength letterCase) :=
  if short : raw.length ≤ maxLength then
    if printable : raw.any (fun c => !isprint c) = false then
      .ok ⟨fold letterCase raw, fold_validated short printable⟩
    else .error (.throw (.error (.unprintable maxLength)))
  else .error (.throw (.error (.stringTooLong maxLength raw.length)))

theorem validate_rawdata (s : Str maxLength letterCase) : validate s.rawdata = .ok s := by
  obtain ⟨raw, short, print, lower⟩ := s
  have printable : raw.any (fun c => !isprint c) = false := by
    apply List.any_eq_false.mpr
    intro c member
    simp [print c member]
  unfold validate
  rw [dif_pos short, dif_pos printable]
  exact congrArg Except.ok (ext (fold_of_validated ⟨short, print, lower⟩))

/-- The default constructor. -/
instance : Inhabited (Str maxLength letterCase) := ⟨⟨[], by simp [Validated]⟩⟩

instance : Serial (Str maxLength letterCase) where
  write s := writeString s.rawdata
  read := do Exec.ofExcept (validate (← readString))

theorem read_throws : Exec.Stops (· ≠ .crash) (Serial.read (α := Str maxLength letterCase)) := by
  apply readString_throws.bind
  intro raw
  apply Exec.Stops.ofExcept
  intro e failed
  unfold validate at failed
  split at failed
  · split at failed
    · cases failed
    · cases failed; simp
  · cases failed; simp

end Str

/-- 20-char readable ident. -/
abbrev Ident := Str 20 .inSensitive

/-- 128-length string represent node in graph database. -/
abbrev NodeID := Str 128 .sensitive

theorem Ident.length_le (a : Ident) : a.rawdata.length ≤ 20 := a.validated.1

theorem Ident.tolower_mem (a : Ident) : ∀ c ∈ a.rawdata, tolower c = c := a.validated.2.2 rfl

theorem Str.read_write {maxLength : Nat} {letterCase : StringCase} (fits : maxLength < 2 ^ 64) (s : Str maxLength letterCase)
    (rest : ByteString) : Serial.read (Serial.write s ++ rest) = (.ok s, rest) := by
  have short : s.rawdata.length < 2 ^ 64 := Nat.lt_of_le_of_lt s.validated.1 fits
  simp only [Serial.read, Serial.write, Exec.bind_of_ok (readString_write short rest), Exec.ofExcept_apply,
    Str.validate_rawdata]

instance : LawfulSerial Ident where
  read_write s rest _ := Str.read_write (by decide) s rest

instance : LawfulSerial NodeID where
  read_write s rest _ := Str.read_write (by decide) s rest

end BandChain
