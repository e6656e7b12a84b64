/-
  Chronology — sorting by text is sorting by time.

  The durable store finds old records by walking an index whose keys are texts, so its clean-ups are
  right only if the order of the texts is the order of the moments.

  1. **Dates** — the calendar turns a later day into a later date, compared by year, month and day
     (`Date.before_ofDays`).  Years are counted from March, so January and February end a year; the
     formula for the year of a day is not plainly monotone, but it is a difference of two things that
     are (`yearOfEra_mono`), and a year contains exactly its days (`yearOfEra_bounds`).

  2. **Forms** — numbers written with fixed widths and fixed marks between them are in the order of
     the numbers (`Form.fill_lt`).  Nothing here is about time.

  3. **Moments and keys** — the text for sorting is a form, as long as the year has four digits
     (`Instant.indexText_lt`); the keys of the index begin with it (`indexKey_lt`), a threshold parts
     them by time (`indexKey_lt_indexText`), and in any year a key tells its record
     (`code_of_indexKey`).
-/
import Idempotence.Proofs.KeyCodes
import Idempotence.Store.Durable

namespace Idempotence

namespace Date

/-! ## Years from March to February -/

/-- The year of its era, from March to February, in which a day lies. -/
def yearOfEra (day : Nat) : Nat := (day - day / 1460 + day / 36524 - day / 146096) / 365

/-- The first day of a year of an era. -/
def yearStart (year : Nat) : Nat := 365 * year + year / 4 - year / 100

/-- Later days lie in no earlier year. -/
theorem yearOfEra_mono {m n : Nat} (h : m ≤ n) : yearOfEra m ≤ yearOfEra n := by
  have leap : m - m / 1460 ≤ n - n / 1460 := by omega
  have century : m / 36524 - m / 36524 / 4 ≤ n / 36524 - n / 36524 / 4 := by omega
  have hm : m / 146096 = m / 36524 / 4 := by rw [Nat.div_div_eq_div_mul]
  have hn : n / 146096 = n / 36524 / 4 := by rw [Nat.div_div_eq_div_mul]
  apply Nat.div_le_div_right
  rw [hm, hn]
  omega

/-- A year of an era contains its first day and not the day before. -/
theorem yearOfEra_yearStart : ∀ y < 400, yearOfEra (yearStart y) = y ∧
    (0 < y → yearOfEra (yearStart y - 1) < y) := by
  decide +kernel

/-- A day of an era is one of the 366 days of its year. -/
theorem yearOfEra_bounds {day : Nat} (h : day < 146097) :
    yearOfEra day < 400 ∧ yearStart (yearOfEra day) ≤ day ∧ day ≤ yearStart (yearOfEra day) + 365 := by
  have hlast : yearOfEra day ≤ yearOfEra 146096 := yearOfEra_mono (by omega)
  have hyear : yearOfEra day < 400 := Nat.lt_of_le_of_lt hlast (by decide +kernel)
  refine ⟨hyear, ?_, ?_⟩
  · apply Nat.le_of_not_lt
    intro hbefore
    have hpositive : 0 < yearOfEra day := by
      apply Nat.pos_of_ne_zero
      intro h0
      simp [h0, yearStart] at hbefore
    have := (yearOfEra_yearStart _ hyear).2 hpositive
    have := yearOfEra_mono (show day ≤ yearStart (yearOfEra day) - 1 by omega)
    omega
  · apply Nat.le_of_not_lt
    intro hafter
    generalize hy : yearOfEra day = y at *
    by_cases hnext : y + 1 < 400
    · have hstart : yearStart (y + 1) ≤ day := by unfold yearStart at *; omega
      have hsame := (yearOfEra_yearStart _ hnext).1
      have hmono := yearOfEra_mono hstart
      omega
    · obtain rfl : y = 399 := by omega
      simp only [yearStart] at hafter
      omega

/-- The month of a year from March to February, March being zero, in which a day of it lies. -/
def marchMonth (dayOfYear : Nat) : Nat := (5 * dayOfYear + 2) / 153

/-- The date of a day of a year that begins in March. -/
def ofMarchYear (year : Int) (dayOfYear : Nat) : Date :=
  let month := if marchMonth dayOfYear < 10 then marchMonth dayOfYear + 3 else marchMonth dayOfYear - 9
  { year := year + (if month ≤ 2 then 1 else 0)
    month := month
    day := dayOfYear - (153 * marchMonth dayOfYear + 2) / 5 + 1 }

/-- A date is found through the year from March to February. -/
theorem ofDays_eq (days : Int) : ofDays days =
    let dayOfEra := ((days + epochShift) % daysPerEra).toNat
    ofMarchYear ((days + epochShift) / daysPerEra * 400 + yearOfEra dayOfEra)
      (dayOfEra - yearStart (yearOfEra dayOfEra)) := by
  have hera : (0 : Int) ≤ daysPerEra := by decide
  rw [← Int.fdiv_eq_ediv_of_nonneg _ hera, ← Int.fmod_eq_emod_of_nonneg _ hera]
  rfl

/-! ## The order of dates -/

/-- **The order of dates**: by year, then by month, then by day. -/
def Before (a b : Date) : Prop :=
  a.year < b.year ∨ a.year = b.year ∧ (a.month < b.month ∨ a.month = b.month ∧ a.day < b.day)

/-- Months and days of a year from March to February have at most two digits. -/
theorem ofMarchYear_small (year : Int) {dayOfYear : Nat} (h : dayOfYear ≤ 365) :
    (ofMarchYear year dayOfYear).month < 100 ∧ (ofMarchYear year dayOfYear).day < 100 := by
  have hmonth : marchMonth dayOfYear ≤ 11 := by unfold marchMonth; omega
  have hday : dayOfYear - (153 * marchMonth dayOfYear + 2) / 5 < 99 := by unfold marchMonth; omega
  simp only [ofMarchYear]
  generalize marchMonth dayOfYear = m at *
  constructor
  · split <;> omega
  · omega

/-- Within a year from March to February the dates are in order. -/
theorem before_of_day {year : Int} {m n : Nat} (hmn : m < n) (hn : n ≤ 365) :
    (ofMarchYear year m).Before (ofMarchYear year n) := by
  have hlast : marchMonth n ≤ 11 := by unfold marchMonth; omega
  have hmonths : marchMonth m ≤ marchMonth n := by unfold marchMonth; omega
  have hdays : marchMonth m = marchMonth n →
      m - (153 * marchMonth m + 2) / 5 < n - (153 * marchMonth n + 2) / 5 := by
    intro hsame
    have : (153 * marchMonth m + 2) / 5 ≤ m := by unfold marchMonth; omega
    rw [← hsame]
    omega
  simp only [Before, ofMarchYear]
  generalize marchMonth m = a at *
  generalize marchMonth n = b at *
  -- January and February are the only months whose year is the next one.
  rcases Nat.lt_or_eq_of_le hmonths with hlt | heq
  · by_cases ha : a < 10 <;> by_cases hb : b < 10 <;> simp only [ha, hb, if_true, if_false]
    all_goals (split <;> split <;> omega)
  · subst heq
    exact .inr ⟨rfl, .inr ⟨rfl, by have := hdays rfl; omega⟩⟩

/-- The dates of an earlier year from March to February are before those of a later one. -/
theorem before_of_year {y z : Int} {m n : Nat} (hyz : y < z) (hm : m ≤ 365) :
    (ofMarchYear y m).Before (ofMarchYear z n) := by
  have hlast : marchMonth m ≤ 11 := by unfold marchMonth; omega
  simp only [Before, ofMarchYear]
  generalize marchMonth m = a at *
  generalize marchMonth n = b at *
  by_cases ha : a < 10 <;> by_cases hb : b < 10 <;> simp only [ha, hb, if_true, if_false]
  all_goals (split <;> split <;> omega)

/-- **Later days have later dates.** -/
theorem before_ofDays {a b : Int} (h : a < b) : (ofDays a).Before (ofDays b) := by
  rw [ofDays_eq, ofDays_eq]
  unfold epochShift daysPerEra
  have ha : ((a + 719468) % 146097).toNat < 146097 := by omega
  have hb : ((b + 719468) % 146097).toNat < 146097 := by omega
  have horder : (a + 719468) / 146097 < (b + 719468) / 146097 ∨
      (a + 719468) / 146097 = (b + 719468) / 146097 ∧
        ((a + 719468) % 146097).toNat < ((b + 719468) % 146097).toNat := by omega
  generalize ((a + 719468) % 146097).toNat = m at *
  generalize ((b + 719468) % 146097).toNat = n at *
  generalize (a + 719468) / 146097 = c at *
  generalize (b + 719468) / 146097 = d at *
  obtain ⟨hm400, hmstart, hmend⟩ := yearOfEra_bounds ha
  obtain ⟨hn400, hnstart, hnend⟩ := yearOfEra_bounds hb
  show (ofMarchYear (c * 400 + yearOfEra m) (m - yearStart (yearOfEra m))).Before
    (ofMarchYear (d * 400 + yearOfEra n) (n - yearStart (yearOfEra n)))
  rcases horder with hera | ⟨rfl, hday⟩
  · exact before_of_year (by omega) (by omega)
  · rcases Nat.lt_or_eq_of_le (yearOfEra_mono (Nat.le_of_lt hday)) with hyear | hyear
    · exact before_of_year (by omega) (by omega)
    · rw [← hyear] at hnstart hnend ⊢
      exact before_of_day (by omega) (by omega)

/-- Later days lie in no earlier year of the calendar. -/
theorem year_ofDays_mono {a b : Int} (h : a ≤ b) : (ofDays a).year ≤ (ofDays b).year := by
  rcases Int.lt_or_eq_of_le h with hlt | rfl
  · rcases before_ofDays hlt with hyear | ⟨hyear, -⟩
    · exact Int.le_of_lt hyear
    · exact Int.le_of_eq hyear
  · exact Int.le_refl _

/-- Months and days have at most two digits. -/
theorem ofDays_small (days : Int) : (ofDays days).month < 100 ∧ (ofDays days).day < 100 := by
  rw [ofDays_eq]
  refine ofMarchYear_small _ ?_
  have h : ((days + epochShift) % daysPerEra).toNat < 146097 := by
    unfold epochShift daysPerEra
    omega
  have := yearOfEra_bounds h
  omega

end Date
/-! ## Numbers of a fixed width -/

/-- The last `width` decimal digits of a number. -/
def digits : Nat → Nat → List Char
  | 0, _ => []
  | width + 1, n => digits width (n / 10) ++ [Nat.digitChar (n % 10)]

@[simp] theorem length_digits (width n : Nat) : (digits width n).length = width := by
  induction width generalizing n with
  | zero => rfl
  | succ width ih => simp [digits, ih]

theorem digits_zero (width : Nat) : digits width 0 = List.replicate width '0' := by
  induction width with
  | zero => rfl
  | succ width ih => simp [digits, ih, List.replicate_succ']

/-- A number that fits is padded to its digits. -/
theorem toList_padded {width n : Nat} (hwidth : 0 < width) (hn : n < tenTo width) :
    (Date.padded width n).toList = digits width n := by
  have hlen : (Nat.toDigits 10 n).length ≤ width :=
    (Nat.length_toDigits_le_iff (by decide) hwidth).2 hn
  have hpad : ∀ width n, (Nat.toDigits 10 n).length ≤ width →
      List.replicate (width - (Nat.toDigits 10 n).length) '0' ++ Nat.toDigits 10 n = digits width n := by
    intro width
    induction width with
    | zero =>
      intro n h
      have := Nat.length_toDigits_pos (b := 10) (n := n)
      omega
    | succ width ih =>
      intro n h
      by_cases hsmall : n < 10
      · rw [Nat.toDigits_of_lt_base hsmall, digits, Nat.div_eq_of_lt hsmall, digits_zero,
          Nat.mod_eq_of_lt hsmall]
        rfl
      · rw [Nat.toDigits_of_base_le (by decide) (by omega)] at h ⊢
        simp only [List.length_append, List.length_singleton] at h ⊢
        rw [digits, ← ih (n / 10) (by omega), Nat.add_sub_add_right, List.append_assoc]
  rw [Date.padded, String.toList_ofList, List.leftpad]
  exact hpad width n hlen

theorem mem_digits {width n : Nat} {c : Char} (h : c ∈ digits width n) :
    ∃ d < 10, c = Nat.digitChar d := by
  induction width generalizing n with
  | zero => cases h
  | succ width ih =>
    rw [digits, List.mem_append, List.mem_singleton] at h
    rcases h with h | rfl
    · exact ih h
    · exact ⟨n % 10, Nat.mod_lt _ (by decide), rfl⟩

/-- A text of characters of one byte has as many bytes as characters. -/
theorem utf8ByteSize_ofList {l : List Char} (h : ∀ c ∈ l, c.utf8Size = 1) :
    (String.ofList l).utf8ByteSize = l.length := by
  induction l with
  | nil => rfl
  | cons c l ih =>
    rw [String.ofList_cons, String.utf8ByteSize_append, String.utf8ByteSize_singleton,
      ih fun c hc => h c (List.mem_cons_of_mem _ hc), h c (List.mem_cons_self ..), List.length_cons]
    omega

/-- Digits grow with their value. -/
theorem digitChar_lt : ∀ d < 10, ∀ e < 10, d < e → Nat.digitChar d < Nat.digitChar e := by
  decide

/-- What is smaller than a list of the same length stays smaller whatever follows. -/
theorem append_lt_append {α : Type} [LT α] {l m : List α} (hlen : l.length = m.length) (h : l < m)
    (s t : List α) : l ++ s < m ++ t := by
  induction l generalizing m with
  | nil =>
    cases m with
    | nil => exact absurd h (List.not_lt_nil _)
    | cons y m => cases hlen
  | cons x l ih =>
    cases m with
    | nil => cases hlen
    | cons y m =>
      rw [List.cons_append, List.cons_append, List.cons_lt_cons_iff]
      rcases List.cons_lt_cons_iff.1 h with hxy | ⟨hxy, hlm⟩
      · exact .inl hxy
      · exact .inr ⟨hxy, ih (by simpa using hlen) hlm⟩

/-- No list is before its beginning. -/
theorem not_append_lt {l s : List Char} : ¬ l ++ s < l := by
  induction l with
  | nil => exact List.not_lt_nil _
  | cons x l ih =>
    rw [List.cons_append, List.cons_lt_cons_iff]
    rintro (h | ⟨-, h⟩)
    · exact Char.lt_irrefl _ h
    · exact ih h

/-- **Digits of a fixed width are in the order of the numbers.** -/
theorem digits_lt {width m n : Nat} (hmn : m < n) (hn : n < tenTo width) :
    digits width m < digits width n := by
  induction width generalizing m n with
  | zero =>
    rw [tenTo_zero] at hn
    omega
  | succ width ih =>
    have htens : n / 10 < tenTo width := by
      rw [tenTo_succ] at hn
      omega
    rw [digits, digits]
    rcases Nat.lt_or_eq_of_le (show m / 10 ≤ n / 10 by omega) with hlt | heq
    · exact append_lt_append (by simp) (ih hlt htens) _ _
    · rw [heq]
      apply List.append_left_lt
      rw [List.cons_lt_cons_iff]
      exact .inl (digitChar_lt _ (by omega) _ (by omega) (by omega))

/-! ## Forms -/

/-- **A form**: fields of fixed widths, each with a mark behind it. -/
abbrev Form := List (Nat × Char)

namespace Form

/-- The form with numbers in its fields. -/
def fill : Form → List Nat → List Char
  | (width, mark) :: form, n :: ns => digits width n ++ mark :: fill form ns
  | _, _ => []

/-- Every field has its number, and every number its width. -/
def Takes : Form → List Nat → Prop
  | (width, _) :: form, n :: ns => n < 10 ^ width ∧ Takes form ns
  | [], [] => True
  | _, _ => False

/-- Number of characters. -/
def width : Form → Nat
  | [] => 0
  | (w, _) :: form => w + 1 + width form

theorem length_fill {form : Form} {ns : List Nat} (h : form.Takes ns) :
    (form.fill ns).length = form.width := by
  induction form generalizing ns with
  | nil => rfl
  | cons field form ih =>
    obtain ⟨w, mark⟩ := field
    cases ns with
    | nil => exact h.elim
    | cons n ns =>
      simp only [fill, width, List.length_append, List.length_cons, length_digits, ih h.2]
      omega

/-- **Filled forms are in the order of their numbers**, the first one counting most. -/
theorem fill_lt {form : Form} {ms ns : List Nat} (hms : form.Takes ms) (hns : form.Takes ns)
    (h : ms < ns) : form.fill ms < form.fill ns := by
  induction form generalizing ms ns with
  | nil =>
    cases ns with
    | nil => exact absurd h (List.not_lt_nil _)
    | cons n ns => exact hns.elim
  | cons field form ih =>
    obtain ⟨w, mark⟩ := field
    cases ms with
    | nil => exact hms.elim
    | cons m ms =>
      cases ns with
      | nil => exact hns.elim
      | cons n ns =>
        rw [fill, fill]
        rcases List.cons_lt_cons_iff.1 h with hmn | ⟨rfl, hrest⟩
        · exact append_lt_append (by simp) (digits_lt hmn hns.1) _ _
        · apply List.append_left_lt
          rw [List.cons_lt_cons_iff]
          exact .inr ⟨rfl, ih hms.2 hns.2 hrest⟩

/-- A character of a filled form is a digit or a mark. -/
theorem mem_fill {form : Form} {ns : List Nat} {c : Char} (h : c ∈ form.fill ns) :
    (∃ d < 10, c = Nat.digitChar d) ∨ ∃ field ∈ form, c = field.2 := by
  induction form generalizing ns with
  | nil => cases ns <;> cases h
  | cons field form ih =>
    obtain ⟨w, mark⟩ := field
    cases ns with
    | nil => cases h
    | cons n ns =>
      rw [fill, List.mem_append, List.mem_cons] at h
      rcases h with h | rfl | h
      · exact .inl (mem_digits h)
      · exact .inr ⟨_, List.mem_cons_self .., rfl⟩
      · rcases ih h with hdigit | ⟨field, hmem, rfl⟩
        · exact .inl hdigit
        · exact .inr ⟨field, List.mem_cons_of_mem _ hmem, rfl⟩

end Form

/-! ## The text for sorting -/

namespace Instant

/-- Whether the year of an instant is written with four digits. -/
def YearFits (t : Instant) : Prop := 0 ≤ t.date.year ∧ t.date.year ≤ 9999

instance (t : Instant) : Decidable t.YearFits := inferInstanceAs (Decidable (_ ∧ _))

/-- The form of the text for sorting, in years of four digits. -/
def sortForm : Form := [(4, '-'), (2, '-'), (2, 'T'), (2, ':'), (2, ':'), (2, '.'), (9, 'Z')]

/-- The numbers of the text for sorting. -/
def sortFields (t : Instant) : List Nat :=
  [t.date.year.toNat, t.date.month, t.date.day, t.secondOfDay / 3600, t.secondOfDay / 60 % 60, t.second,
    t.subsecond]

/-- The second of the minute and the nanoseconds of it, within a leap second or not. -/
theorem second_subsecond (t : Instant) :
    (¬ t.IsLeap ∧ t.second = t.secondOfDay % 60 ∧ t.subsecond = t.fraction) ∨
      (t.IsLeap ∧ t.secondOfDay % 60 = 59 ∧ t.second = 60 ∧ t.subsecond + nanosPerSecond = t.fraction) := by
  have hfraction := t.fraction_lt
  unfold IsLeap second subsecond secondOfDay secondsPerDay nanosPerSecond at *
  omega

theorem takes_sortFields {t : Instant} (h : t.YearFits) : sortForm.Takes t.sortFields := by
  obtain ⟨hfirst, hlast⟩ := h
  obtain ⟨hmonth, hday⟩ := Date.ofDays_small (t.seconds / secondsPerDay)
  have hclock : t.secondOfDay < 86400 := by
    unfold secondOfDay secondsPerDay
    omega
  have hsubsecond : t.subsecond < 1000000000 := Nat.mod_lt _ (by decide)
  have hsecond : t.second < 100 := by
    rcases t.second_subsecond with ⟨-, h, -⟩ | ⟨-, -, h, -⟩ <;> omega
  refine ⟨?_, hmonth, hday, ?_, ?_, hsecond, hsubsecond, trivial⟩ <;> omega

theorem indexText_eq (t : Instant) : t.indexText =
    Date.yearText t.date.year ++ "-" ++ Date.padded 2 t.date.month ++ "-" ++ Date.padded 2 t.date.day
      ++ "T" ++ (Date.padded 2 (t.secondOfDay / 3600) ++ ":" ++ Date.padded 2 (t.secondOfDay / 60 % 60) ++ ":"
        ++ Date.padded 2 t.second) ++ "." ++ Date.padded 9 t.subsecond ++ "Z" := rfl

/-- The text for sorting is its form, filled in. -/
theorem toList_indexText {t : Instant} (h : t.YearFits) :
    t.indexText.toList = sortForm.fill t.sortFields := by
  obtain ⟨hyear, hmonth, hday, hhour, hminute, hsecond, hnano, -⟩ := takes_sortFields h
  have hyearText : Date.yearText t.date.year = Date.padded 4 t.date.year.toNat := if_pos h
  rw [indexText_eq, hyearText]
  simp only [String.toList_append, toList_padded (by decide) hyear, toList_padded (by decide) hmonth,
    toList_padded (by decide) hday, toList_padded (by decide) hhour, toList_padded (by decide) hminute,
    toList_padded (by decide) hsecond, toList_padded (by decide) hnano]
  simp [sortForm, sortFields, Form.fill]

/-- The fields of a later instant are larger. -/
theorem sortFields_lt {a b : Instant} (hab : a < b) (ha : a.YearFits) (hb : b.YearFits) :
    a.sortFields < b.sortFields := by
  obtain ⟨hfirst, -⟩ := ha
  obtain ⟨hfirst', -⟩ := hb
  have hdays : a.seconds / secondsPerDay < b.seconds / secondsPerDay ∨
      a.seconds / secondsPerDay = b.seconds / secondsPerDay ∧ (a.secondOfDay < b.secondOfDay ∨
        a.secondOfDay = b.secondOfDay ∧ a.fraction < b.fraction) := by
    rw [lt_def] at hab
    unfold secondOfDay secondsPerDay
    omega
  unfold sortFields
  simp only [List.cons_lt_cons_iff]
  rcases hdays with hdays | ⟨hdays, hclock⟩
  · rcases Date.before_ofDays hdays with hyear | ⟨hyear, hmonth | ⟨hmonth, hday⟩⟩
    · exact .inl (show a.date.year.toNat < b.date.year.toNat by unfold date at *; omega)
    · exact .inr ⟨congrArg Int.toNat hyear, .inl hmonth⟩
    · exact .inr ⟨congrArg Int.toNat hyear, .inr ⟨hmonth, .inl hday⟩⟩
  · have hdate : a.date = b.date := congrArg Date.ofDays hdays
    refine .inr ⟨by rw [hdate], .inr ⟨by rw [hdate], .inr ⟨by rw [hdate], ?_⟩⟩⟩
    -- A leap second is later than the second that it is behind, and earlier than the next minute.
    have hsecond := a.second_subsecond
    have hsecond' := b.second_subsecond
    unfold IsLeap nanosPerSecond at *
    omega

/-- **Texts for sorting are in the order of time**, in years of four digits. -/
theorem indexText_lt {a b : Instant} (hab : a < b) (ha : a.YearFits) (hb : b.YearFits) :
    a.indexText < b.indexText := by
  rw [String.lt_iff, toList_indexText ha, toList_indexText hb]
  exact Form.fill_lt (takes_sortFields ha) (takes_sortFields hb) (sortFields_lt hab ha hb)

/-- In years of four digits the text for sorting has thirty bytes. -/
theorem size_indexText {t : Instant} (h : t.YearFits) : t.indexText.utf8ByteSize = 30 := by
  have hchars : ∀ c ∈ t.indexText.toList, c.utf8Size = 1 := by
    intro c hc
    rw [toList_indexText h] at hc
    rcases Form.mem_fill hc with ⟨d, hd, rfl⟩ | ⟨field, hfield, rfl⟩
    · clear hc
      revert d
      decide
    · clear hc
      revert field
      decide
  have hlen : t.indexText.toList.length = 30 := by
    rw [toList_indexText h, Form.length_fill (takes_sortFields h)]
    rfl
  rw [← String.ofList_toList (s := t.indexText), utf8ByteSize_ofList hchars, hlen]

/-- A padded number is written with digits. -/
theorem separator_not_mem_padded (width n : Nat) : '\x1f' ∉ (Date.padded width n).toList := by
  intro h
  rw [Date.padded, String.toList_ofList, List.leftpad, List.mem_append] at h
  rcases h with h | h
  · exact absurd (List.eq_of_mem_replicate h) (by decide)
  · exact absurd (Nat.isDigit_of_mem_toDigits (by decide) (by decide) h) (by decide)

/-- The separator of the index stands in no text for sorting, whatever the year. -/
theorem separator_not_mem_indexText (t : Instant) : '\x1f' ∉ t.indexText.toList := by
  have hyear : '\x1f' ∉ (Date.yearText t.date.year).toList := by
    unfold Date.yearText
    split
    · exact separator_not_mem_padded _ _
    · rw [String.toList_append, List.mem_append]
      rintro (h | h)
      · split at h <;> exact absurd h (by decide)
      · exact separator_not_mem_padded _ _ h
  rw [indexText_eq]
  simp [hyear, separator_not_mem_padded]

end Instant

/-! ## The keys of the index -/

namespace DurableStore

theorem toList_indexKey (t : Instant) (code : String) :
    (indexKey t code).toList = t.indexText.toList ++ '\x1f' :: code.toList := by
  have h : indexKey t code = t.indexText ++ "\x1f" ++ code := rfl
  simp [h]

/-- **The key of an entry tells its record.** -/
theorem code_of_indexKey {t u : Instant} {code code' : String}
    (h : indexKey t code = indexKey u code') : code = code' := by
  have hlist := congrArg String.toList h
  rw [toList_indexKey, toList_indexKey] at hlist
  exact String.toList_injective (KeyCode.split_at_mark (Instant.separator_not_mem_indexText t)
    (Instant.separator_not_mem_indexText u) hlist).2

/-- In years of four digits the key of an entry is 31 bytes longer than the code of its record. -/
theorem size_indexKey {t : Instant} (h : t.YearFits) (code : String) :
    (indexKey t code).utf8ByteSize = code.utf8ByteSize + 31 := by
  have hkey : indexKey t code = t.indexText ++ "\x1f" ++ code := rfl
  have hmark : "\x1f".utf8ByteSize = 1 := by decide
  rw [hkey, String.utf8ByteSize_append, String.utf8ByteSize_append, Instant.size_indexText h, hmark]
  omega

/-- Texts for sorting keep their order whatever follows them. -/
theorem indexText_append_lt {a b : Instant} (hab : a < b) (ha : a.YearFits) (hb : b.YearFits)
    (s t : List Char) : a.indexText.toList ++ s < b.indexText.toList ++ t := by
  have hlen : a.indexText.toList.length = b.indexText.toList.length := by
    rw [Instant.toList_indexText ha, Instant.toList_indexText hb,
      Form.length_fill (Instant.takes_sortFields ha), Form.length_fill (Instant.takes_sortFields hb)]
  exact append_lt_append hlen (String.lt_iff.1 (Instant.indexText_lt hab ha hb)) s t

/-- **The index is in the order of time**, in years of four digits. -/
theorem indexKey_lt {a b : Instant} (hab : a < b) (ha : a.YearFits) (hb : b.YearFits)
    (code code' : String) : indexKey a code < indexKey b code' := by
  rw [String.lt_iff, toList_indexKey, toList_indexKey]
  exact indexText_append_lt hab ha hb _ _

/-- **A threshold parts the index by time**, in years of four digits. -/
theorem indexKey_lt_indexText {t threshold : Instant} (ht : t.YearFits) (hthreshold : threshold.YearFits)
    (code : String) : indexKey t code < threshold.indexText ↔ t < threshold := by
  rw [String.lt_iff, toList_indexKey]
  constructor
  · intro h
    apply Instant.not_le.1
    intro hle
    rcases Instant.lt_or_eq_of_le hle with hlt | rfl
    · have hback := indexText_append_lt hlt hthreshold ht [] ('\x1f' :: code.toList)
      rw [List.append_nil] at hback
      exact List.lt_asymm h hback
    · -- At the threshold itself the key goes on where the text ends.
      exact not_append_lt h
  · intro h
    simpa using indexText_append_lt h ht hthreshold ('\x1f' :: code.toList) []

end DurableStore

end Idempotence
