import Mathlib.Tactic.Ring

/-!
The Gregorian calendar. Years are counted from March, so that the day a leap year adds is its last; an era is 400 years, a
century of it 100, and a quad four years. Days are counted from 1970-01-01.
-/

namespace Calendar

def daysOfDate (year month day : Int) : Int :=
  let year := if month ≤ 2 then year - 1 else year
  let month := if month ≤ 2 then month + 9 else month - 3
  year / 400 * 146097 + (year % 400 * 365 + year % 400 / 4 - year % 400 / 100) + ((153 * month + 2) / 5 + day - 1) - 719468

/-- The last century of an era is a day longer. -/
def century (dayOfEra : Int) : Int := min (dayOfEra / 36524) 3

def dayOfCentury (dayOfEra : Int) : Int := dayOfEra - 36524 * century dayOfEra

def dayOfQuad (dayOfEra : Int) : Int := dayOfCentury dayOfEra % 1461

/-- The last year of a quad is a day longer. -/
def yearOfQuad (dayOfEra : Int) : Int := min (dayOfQuad dayOfEra / 365) 3

def yearOfEra (dayOfEra : Int) : Int := 100 * century dayOfEra + 4 * (dayOfCentury dayOfEra / 1461) + yearOfQuad dayOfEra

def dayOfYear (dayOfEra : Int) : Int := dayOfQuad dayOfEra - 365 * yearOfQuad dayOfEra

/-- The year, month and day of a day of a year, that begins in March. -/
def dateOfYear (year day : Int) : Int × Int × Int :=
  let month := (5 * day + 2) / 153
  (if month < 10 then year else year + 1, if month < 10 then month + 3 else month - 9, day - (153 * month + 2) / 5 + 1)

def dateOfDays (days : Int) : Int × Int × Int :=
  let dayOfEra := (days + 719468) % 146097
  dateOfYear ((days + 719468) / 146097 * 400 + yearOfEra dayOfEra) (dayOfYear dayOfEra)

variable {dayOfEra : Int}

theorem century_le (inside : 0 ≤ dayOfEra ∧ dayOfEra < 146097) :
    0 ≤ century dayOfEra ∧ century dayOfEra ≤ 3 ∧ 0 ≤ dayOfCentury dayOfEra ∧ dayOfCentury dayOfEra ≤ 36524 := by
  unfold dayOfCentury century
  omega

theorem yearOfQuad_le (dayOfEra : Int) : 0 ≤ yearOfQuad dayOfEra ∧ yearOfQuad dayOfEra ≤ 3 ∧ 0 ≤ dayOfYear dayOfEra ∧ dayOfYear dayOfEra < 366 := by
  unfold dayOfYear yearOfQuad dayOfQuad
  omega

theorem year_of_era (inside : 0 ≤ dayOfEra ∧ dayOfEra < 146097) :
    0 ≤ yearOfEra dayOfEra ∧ yearOfEra dayOfEra < 400 ∧
      yearOfEra dayOfEra * 365 + yearOfEra dayOfEra / 4 - yearOfEra dayOfEra / 100 + dayOfYear dayOfEra = dayOfEra := by
  obtain ⟨_, _, _, _⟩ := century_le inside
  obtain ⟨_, _, _, _⟩ := yearOfQuad_le dayOfEra
  have leap : yearOfEra dayOfEra / 4 = 25 * century dayOfEra + dayOfCentury dayOfEra / 1461 := by
    unfold yearOfEra
    omega
  have common : yearOfEra dayOfEra / 100 = century dayOfEra := by
    unfold yearOfEra
    omega
  have split : dayOfCentury dayOfEra = 1461 * (dayOfCentury dayOfEra / 1461) + dayOfQuad dayOfEra :=
    (Int.mul_ediv_add_emod _ _).symm
  have rest : dayOfEra = 36524 * century dayOfEra + dayOfCentury dayOfEra := by
    unfold dayOfCentury
    omega
  rw [leap, common]
  unfold yearOfEra dayOfYear
  omega

theorem daysOfDate_dateOfYear (year : Int) {day : Int} (inside : 0 ≤ day ∧ day < 366) :
    daysOfDate (dateOfYear year day).1 (dateOfYear year day).2.1 (dateOfYear year day).2.2 =
      year / 400 * 146097 + (year % 400 * 365 + year % 400 / 4 - year % 400 / 100) + day - 719468 := by
  simp only [dateOfYear, daysOfDate]
  have months : 0 ≤ (5 * day + 2) / 153 ∧ (5 * day + 2) / 153 < 12 := by omega
  by_cases early : (5 * day + 2) / 153 < 10
  · have late : ¬ (5 * day + 2) / 153 + 3 ≤ 2 := by omega
    simp only [if_pos early, if_neg late, Int.add_sub_cancel]
    omega
  · have wraps : (5 * day + 2) / 153 - 9 ≤ 2 := by omega
    simp only [if_neg early, if_pos wraps, Int.add_sub_cancel, Int.sub_add_cancel]
    omega

/-- The days to the date of a day are that day. -/
theorem daysOfDate_dateOfDays (days : Int) :
    daysOfDate (dateOfDays days).1 (dateOfDays days).2.1 (dateOfDays days).2.2 = days := by
  have inside : 0 ≤ (days + 719468) % 146097 ∧ (days + 719468) % 146097 < 146097 := by omega
  obtain ⟨least, most, era⟩ := year_of_era inside
  obtain ⟨_, _, first, last⟩ := yearOfQuad_le ((days + 719468) % 146097)
  have year : ((days + 719468) / 146097 * 400 + yearOfEra ((days + 719468) % 146097)) / 400 = (days + 719468) / 146097 := by omega
  have rest : ((days + 719468) / 146097 * 400 + yearOfEra ((days + 719468) % 146097)) % 400 =
      yearOfEra ((days + 719468) % 146097) := by omega
  rw [dateOfDays, daysOfDate_dateOfYear _ ⟨first, last⟩, year, rest]
  omega

end Calendar
