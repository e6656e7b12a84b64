/-
  Instants and durations, to the nanosecond.

  An instant is a second of UTC, counted from 1970-01-01 00:00:00 in days of 86400 seconds, and how many
  nanoseconds have passed of it.  The last second of a minute may have a leap second behind it: that is no
  second of its own, but a second more of the one before it, so a whole second and more has passed of that
  one.  Instants lie between the first moment of the year −262143 and the last second of the year +262142,
  the leap second behind it included; the bounds are part of the type.  A duration is a whole number of
  nanoseconds that is not negative.

  Adding a duration is exact while the sum is an instant: `add?`; a deadline saturates instead: `deadline`.
  Subtracting is `subtract?`.  Both take account of the leap second in which they start, and of no other.
-/
import Idempotence.Number.Power
import Idempotence.Time.Calendar

namespace Idempotence

/-- **A length of time** in nanoseconds. -/
structure Duration where
  nanos : Nat
  deriving DecidableEq, Repr, Inhabited

/-- Nanoseconds in a second. -/
def nanosPerSecond : Nat := 1000000000

/-- Seconds in a day. -/
def secondsPerDay : Nat := 86400

namespace Duration

/-- That many seconds and nanoseconds. -/
def ofParts (seconds nanos : Nat) : Duration := ⟨seconds * nanosPerSecond + nanos⟩

/-- That many seconds. -/
def ofSeconds (seconds : Nat) : Duration := ofParts seconds 0

/-- That many milliseconds. -/
def ofMillis (millis : Nat) : Duration := ⟨millis * 1000000⟩

/-- That many days. -/
def ofDays (days : Nat) : Duration := ofSeconds (days * secondsPerDay)

/-- Whole milliseconds, rounded down. -/
def millis (d : Duration) : Nat := d.nanos / 1000000

/-- Whole seconds, rounded down. -/
def seconds (d : Duration) : Nat := d.nanos / nanosPerSecond

/-- The longest duration that can be taken as a signed offset: 2^63 − 1 milliseconds. -/
def offsetLimit : Nat := (twoTo 63 - 1) * 1000000

/-- The duration as a signed offset between instants, if it is short enough. -/
def offset? (d : Duration) : Option Int := if d.nanos ≤ offsetLimit then some d.nanos else none

/-- `whole` and `fraction / scale` of a unit, the fraction without trailing zeros. -/
def fractionText (whole fraction width : Nat) (unit : String) : String :=
  let digits := (((Nat.toDigits 10 fraction).leftpad width '0').reverse.dropWhile (· == '0')).reverse
  let tail := if digits = [] then "" else "." ++ String.ofList digits
  s!"{whole}{tail}{unit}"

/-- **The text of a duration** in the largest of `s`, `ms`, `µs` and `ns` that gives a whole part. -/
def text (d : Duration) : String :=
  if nanosPerSecond ≤ d.nanos then fractionText (d.nanos / nanosPerSecond) (d.nanos % nanosPerSecond) 9 "s"
  else if 1000000 ≤ d.nanos then fractionText (d.nanos / 1000000) (d.nanos % 1000000) 6 "ms"
  else if 1000 ≤ d.nanos then fractionText (d.nanos / 1000) (d.nanos % 1000) 3 "µs"
  else fractionText d.nanos 0 1 "ns"

end Duration

/-! ## Instants -/

/-- The first second: −262143-01-01 00:00:00. -/
def firstSecond : Int := -8334601228800

/-- The last second: +262142-12-31 23:59:59. -/
def lastSecond : Int := 8210266876799

/-- **A moment** in UTC. -/
structure Instant where
  /-- The second, counted from 1970-01-01 00:00:00. -/
  seconds : Int
  /-- The nanoseconds that have passed of it. -/
  fraction : Nat
  first_le : firstSecond ≤ seconds
  le_last : seconds ≤ lastSecond
  /-- Only the last second of a minute has a leap second behind it. -/
  fraction_lt : fraction < nanosPerSecond ∨ seconds % 60 = 59 ∧ fraction < 2 * nanosPerSecond
  deriving DecidableEq

namespace Instant

/-- **Within a leap second.** -/
def IsLeap (t : Instant) : Prop := nanosPerSecond ≤ t.fraction

instance (t : Instant) : Decidable t.IsLeap := inferInstanceAs (Decidable (_ ≤ _))

/-- Nanoseconds from 1970-01-01 to a moment.  The leap second in which it lies counts, and no other. -/
def nanos (t : Instant) : Int := t.seconds * nanosPerSecond + t.fraction

/-! ### The order of time -/

instance : LT Instant := ⟨fun a b => a.seconds < b.seconds ∨ a.seconds = b.seconds ∧ a.fraction < b.fraction⟩

instance : LE Instant := ⟨fun a b => a.seconds < b.seconds ∨ a.seconds = b.seconds ∧ a.fraction ≤ b.fraction⟩

instance (a b : Instant) : Decidable (a < b) := inferInstanceAs (Decidable (_ ∨ _))

instance (a b : Instant) : Decidable (a ≤ b) := inferInstanceAs (Decidable (_ ∨ _))

section

variable {a b c : Instant}

theorem lt_def : a < b ↔ a.seconds < b.seconds ∨ a.seconds = b.seconds ∧ a.fraction < b.fraction := Iff.rfl

theorem le_def : a ≤ b ↔ a.seconds < b.seconds ∨ a.seconds = b.seconds ∧ a.fraction ≤ b.fraction := Iff.rfl

theorem le_refl (a : Instant) : a ≤ a := .inr ⟨rfl, Nat.le_refl _⟩

theorem lt_irrefl (a : Instant) : ¬ a < a := by
  rw [lt_def]
  omega

theorem le_total (a b : Instant) : a ≤ b ∨ b ≤ a := by
  rw [le_def, le_def]
  omega

theorem le_trans (h : a ≤ b) (h' : b ≤ c) : a ≤ c := by
  rw [le_def] at *
  omega

theorem le_of_lt (h : a < b) : a ≤ b := by
  rw [lt_def] at h
  rw [le_def]
  omega

theorem lt_of_le_of_lt (h : a ≤ b) (h' : b < c) : a < c := by
  rw [le_def] at h
  rw [lt_def] at *
  omega

theorem lt_of_lt_of_le (h : a < b) (h' : b ≤ c) : a < c := by
  rw [le_def] at h'
  rw [lt_def] at *
  omega

theorem lt_trans (h : a < b) (h' : b < c) : a < c := lt_of_lt_of_le h (le_of_lt h')

theorem not_lt : ¬ a < b ↔ b ≤ a := by
  rw [lt_def, le_def]
  omega

theorem not_le : ¬ a ≤ b ↔ b < a := by
  rw [lt_def, le_def]
  omega

theorem le_antisymm (h : a ≤ b) (h' : b ≤ a) : a = b := by
  obtain ⟨s, f, _, _, _⟩ := a
  obtain ⟨s', f', _, _, _⟩ := b
  simp only [le_def] at h h'
  obtain rfl : s = s' := by omega
  obtain rfl : f = f' := by omega
  rfl

theorem lt_or_eq_of_le (h : a ≤ b) : a < b ∨ a = b := by
  by_cases hlt : a < b
  · exact .inl hlt
  · exact .inr (le_antisymm h (not_lt.1 hlt))

end

/-! ### Reading and calculating -/

/-- The instant of that second of which so much has passed, if there is one. -/
def ofParts? (seconds : Int) (fraction : Nat) : Option Instant :=
  if h : (firstSecond ≤ seconds ∧ seconds ≤ lastSecond) ∧
      (fraction < nanosPerSecond ∨ seconds % 60 = 59 ∧ fraction < 2 * nanosPerSecond) then
    some ⟨seconds, fraction, h.1.1, h.1.2, h.2⟩
  else none

/-- The instant that many nanoseconds after 1970-01-01, if there is one.  It lies in no leap second. -/
def ofNanos? (nanos : Int) : Option Instant :=
  ofParts? (nanos / nanosPerSecond) (nanos % nanosPerSecond).toNat

/-- 1970-01-01 00:00:00. -/
def epoch : Instant := ⟨0, 0, by decide, by decide, by decide⟩

/-- The first instant. -/
def first : Instant := ⟨firstSecond, 0, by decide, by decide, by decide⟩

/-- The last instant that lies in no leap second. -/
def last : Instant := ⟨lastSecond, nanosPerSecond - 1, by decide, by decide, by decide⟩

instance : Inhabited Instant := ⟨epoch⟩

/-- The instant a duration later, if the duration is a possible offset and the sum is an instant.  From within
    a leap second it stays there as long as that lasts; behind it, the leap second has gone by. -/
def add? (t : Instant) (d : Duration) : Option Instant := do
  let offset ← d.offset?
  if t.IsLeap then
    if t.fraction + d.nanos < 2 * nanosPerSecond then ofParts? t.seconds (t.fraction + d.nanos)
    else ofNanos? (t.nanos + offset - nanosPerSecond)
  else ofNanos? (t.nanos + offset)

/-- **When a lock obtained at `now` expires**: a timeout later, or at the last instant. -/
def deadline (now : Instant) (timeout : Duration) : Instant := (now.add? timeout).getD last

/-- The instant a duration earlier, if there is one.  Less than a second before a moment of a leap second is
    the leap second, or the second before. -/
def subtract? (t : Instant) (d : Duration) : Option Instant :=
  if t.IsLeap ∧ d.nanos < nanosPerSecond then ofParts? t.seconds (t.fraction - d.nanos)
  else ofNanos? (t.nanos - d.nanos)

/-! ## Texts -/

/-- The calendar date of an instant. -/
def date (t : Instant) : Date := Date.ofDays (t.seconds / secondsPerDay)

/-- Seconds since midnight. -/
def secondOfDay (t : Instant) : Nat := (t.seconds % secondsPerDay).toNat

/-- The second of the minute; a leap second is the sixtieth one. -/
def second (t : Instant) : Nat := t.secondOfDay % 60 + t.fraction / nanosPerSecond

/-- The nanoseconds of that second. -/
def subsecond (t : Instant) : Nat := t.fraction % nanosPerSecond

/-- Hours, minutes and seconds. -/
def clockText (t : Instant) : String :=
  s!"{Date.padded 2 (t.secondOfDay / 3600)}:{Date.padded 2 (t.secondOfDay / 60 % 60)}:{Date.padded 2 t.second}"

/-- The fraction of the second: nothing, or the first of 3, 6 and 9 digits that is exact. -/
def fractionText (t : Instant) : String :=
  let n := t.subsecond
  if n = 0 then ""
  else if n % 1000000 = 0 then "." ++ Date.padded 3 (n / 1000000)
  else if n % 1000 = 0 then "." ++ Date.padded 6 (n / 1000)
  else "." ++ Date.padded 9 n

/-- **The text for readers**: `2024-01-01 00:00:00 UTC`. -/
def text (t : Instant) : String := s!"{t.date.text} {t.clockText}{t.fractionText} UTC"

/-- **The text for machines**: `2024-01-01T00:00:00Z`. -/
def isoText (t : Instant) : String := s!"{t.date.text}T{t.clockText}{t.fractionText}Z"

/-- **The text for sorting**: as `isoText`, always with nine digits of fraction. -/
def indexText (t : Instant) : String := s!"{t.date.text}T{t.clockText}.{Date.padded 9 t.subsecond}Z"

end Instant

end Idempotence
