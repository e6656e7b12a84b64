/-
  The calendar — dates of the proleptic Gregorian calendar and their texts.

  Days are counted from 1970-01-01.  Counting years from March makes the leap day the last day of its
  year, and 400 years are always 146097 days, so a date follows from two divisions.

  The years 0 to 9999 are written with four digits, all others with a sign and at least four.
-/

namespace Idempotence

/-- **A date.** -/
structure Date where
  year : Int
  month : Nat
  day : Nat
  deriving DecidableEq, Repr

namespace Date

/-- Days in 400 years. -/
def daysPerEra : Int := 146097

/-- Days from 0000-03-01 to 1970-01-01. -/
def epochShift : Int := 719468

/-- **The date of a day**, counted from 1970-01-01. -/
def ofDays (days : Int) : Date :=
  let shifted := days + epochShift
  let era := Int.fdiv shifted daysPerEra
  let dayOfEra := (Int.fmod shifted daysPerEra).toNat
  let yearOfEra := (dayOfEra - dayOfEra / 1460 + dayOfEra / 36524 - dayOfEra / 146096) / 365
  let dayOfYear := dayOfEra - (365 * yearOfEra + yearOfEra / 4 - yearOfEra / 100)
  let marchMonth := (5 * dayOfYear + 2) / 153
  let month := if marchMonth < 10 then marchMonth + 3 else marchMonth - 9
  { year := era * 400 + yearOfEra + (if month ≤ 2 then 1 else 0)
    month := month
    day := dayOfYear - (153 * marchMonth + 2) / 5 + 1 }

/-- The digits of a natural, with zeros in front up to `width`. -/
def padded (width n : Nat) : String := String.ofList ((Nat.toDigits 10 n).leftpad width '0')

/-- The text of a year. -/
def yearText (year : Int) : String :=
  if 0 ≤ year ∧ year ≤ 9999 then padded 4 year.toNat
  else (if year < 0 then "-" else "+") ++ padded 4 year.natAbs

/-- **The text of a date**: year, month and day with hyphens. -/
def text (d : Date) : String := s!"{yearText d.year}-{padded 2 d.month}-{padded 2 d.day}"

end Date

end Idempotence
