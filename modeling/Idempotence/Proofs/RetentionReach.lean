/-
  The reach of retention — how far back the period of retention may reach.

  1. **Days** — time has a first day.  A period of whole days can be taken off a moment just as long as it
     has no more days than lie behind that moment (`subtract?_ofDays`), and how many these are is known from
     the calendar (`daysBehind_bounds`).

  2. **One run** — `cleanUp_ends`: a run crashes where there are records and the period is longer than that;
     anywhere else it answers with a report, and what it counts fits 64 bits.  The check of a configuration
     does not ask for the former (`cleanUp_overreaches`).
-/
import Idempotence.Proofs.Chronology
import Idempotence.Proofs.RetentionInMemory

namespace Idempotence

variable {ε : Type}

/-! ## Days since the first one -/

namespace Instant

/-- The number of a day, counting from 1970-01-01.  The leap second behind a day counts to the next one. -/
def dayNumber (t : Instant) : Int := t.nanos / (secondsPerDay * nanosPerSecond)

/-- The number of the first day. -/
def firstDay : Int := -96465292

theorem nanos_first_eq : first.nanos = firstDay * (secondsPerDay * nanosPerSecond) := by decide

/-- **How many days lie behind a moment**, from the first day on. -/
def daysBehind (t : Instant) : Nat := (t.dayNumber - firstDay).toNat

/-- No day is before the first one. -/
theorem firstDay_le (t : Instant) : firstDay ≤ t.dayNumber := by
  have hfirst := t.first_le
  unfold dayNumber firstDay Instant.nanos firstSecond secondsPerDay nanosPerSecond at *
  omega

/-- **A period of whole days can be taken off** unless it has more days than lie behind. -/
theorem subtract?_ofDays (t : Instant) (days : Nat) :
    t.subtract? (Duration.ofDays days) = none ↔ t.daysBehind < days := by
  have hnanos : (Duration.ofDays days).nanos = days * (secondsPerDay * nanosPerSecond) := by
    show days * secondsPerDay * nanosPerSecond + 0 = _
    rw [Nat.add_zero, Nat.mul_assoc]
  have hday : t.daysBehind = t.dayNumber - firstDay :=
    Int.toNat_of_nonneg (Int.sub_nonneg.2 t.firstDay_le)
  -- The first instant begins a day, so the time of the day does not matter.
  rw [subtract?_eq_none_iff, hnanos, nanos_first_eq]
  unfold dayNumber secondsPerDay nanosPerSecond at *
  omega

/-- The number of a day is that of its date, but for the leap second behind it. -/
theorem dayNumber_bounds (t : Instant) :
    t.seconds / secondsPerDay ≤ t.dayNumber ∧ t.dayNumber ≤ t.seconds / secondsPerDay + 1 ∧
      (¬ t.IsLeap → t.dayNumber = t.seconds / secondsPerDay) := by
  have hfraction := t.fraction_lt
  unfold dayNumber IsLeap Instant.nanos secondsPerDay nanosPerSecond at *
  omega

/-- **Between 2025 and 2099** so many days lie behind. -/
theorem daysBehind_bounds {t : Instant} :
    (2025 ≤ t.date.year → 96485381 ≤ t.daysBehind) ∧
      (t.date.year ≤ 2099 → t.daysBehind ≤ 96512773 + if t.IsLeap then 1 else 0) := by
  have hbefore : (Date.ofDays 20088).year = 2024 := by decide
  have hafter : (Date.ofDays 47482).year = 2100 := by decide
  have hdate : t.date.year = (Date.ofDays (t.seconds / secondsPerDay)).year := rfl
  obtain ⟨hsame, hnext, hplain⟩ := t.dayNumber_bounds
  constructor
  · intro hyear
    have hday : 20088 < t.seconds / secondsPerDay := by
      apply Int.not_le.1
      intro hle
      have := Date.year_ofDays_mono hle
      omega
    unfold daysBehind firstDay
    omega
  · intro hyear
    have hday : t.seconds / secondsPerDay < 47482 := by
      apply Int.not_le.1
      intro hle
      have := Date.year_ofDays_mono hle
      omega
    unfold daysBehind firstDay
    split
    · omega
    · next hleap =>
      have hdate := hplain hleap
      omega

end Instant

/-! ## One run -/

namespace CleanupConfig

variable {config : CleanupConfig} {records : Part ε MemoryStore} {locks : Part ε (LockTable RecordKey)}

/-- **A period reaches too far** where there are records and it has more days than lie behind the moment. -/
def Overreaches (config : CleanupConfig) (s : MemoryStore) (now : Instant) : Prop :=
  s.size ≠ 0 ∧ now.daysBehind < config.retentionDays.toNat

instance (config : CleanupConfig) (s : MemoryStore) (now : Instant) : Decidable (config.Overreaches s now) :=
  inferInstanceAs (Decidable (_ ∧ _))

/-- What a run comes to that finds no records. -/
theorem cleanUp_nothing (hconfig : config.check = .ok ()) (now : Instant) {w : World ε}
    (hnone : (records.get w.env).size = 0) :
    (config.cleanUp (.memory records locks) now).run w =
      (.value (.ok {}), { w with trace := w.trace.tell .nothingToClean }) := by
  have hcount : (RetentionStore.memory records locks).count.run w = (.value (.ok 0), w) := by
    rw [← hnone]
    rfl
  simp only [cleanUp, hconfig, Process.run_bind, hcount]
  rfl

/-- What a run comes to that cannot take its period off. -/
theorem cleanUp_crashes (hconfig : config.check = .ok ()) {now : Instant}
    (hretained : now.subtract? config.retention = none) {w : World ε}
    (hsome : (records.get w.env).size ≠ 0) :
    (config.cleanUp (.memory records locks) now).run w =
      (.crashed "`DateTime - TimeDelta` overflowed", w) := by
  have hcount : (RetentionStore.memory records locks).count.run w =
      (.value (.ok (records.get w.env).size), w) := rfl
  have hclean : (config.clean (.memory records locks) now).run w =
      (.crashed "`DateTime - TimeDelta` overflowed", w) := by
    rw [clean, hretained, Process.run_crash]
  cases hsize : (records.get w.env).size with
  | zero => exact absurd hsize hsome
  | succ n => simp only [cleanUp, hconfig, Process.run_bind, hcount, hsize, hclean]

/-- **A run that does not reach too far answers**, and its counters have room. -/
theorem cleanUp_answers (hapart : records.Apart locks) (hconfig : config.check = .ok ()) {now : Instant}
    {w : World ε} (h : ¬ config.Overreaches (records.get w.env) now) :
    ∃ report w', (config.cleanUp (.memory records locks) now).run w = (.value (.ok report), w') ∧
      report.removedRecords ≤ config.maxRecords.toNat ∧ report.removedRecords + 1 < Config.limit64 ∧
      report.removedLocks ≤ (locks.get w.env).size := by
  by_cases hsome : (records.get w.env).size = 0
  · exact ⟨_, _, cleanUp_nothing hconfig now hsome, Nat.zero_le _, by decide, Nat.zero_le _⟩
  · cases hretained : now.subtract? config.retention with
    | none => exact absurd ⟨hsome, (now.subtract?_ofDays _).1 hretained⟩ h
    | some retained =>
      have hcount := config.countBefore_threshold (records.get w.env) retained
      have hbeyond : config.firstBeyond ≤ config.maxRecords.toNat + 1 := Nat.min_le_left ..
      have hlimit : config.firstBeyond ≤ Config.limit64 - 1 := Nat.min_le_right ..
      obtain ⟨trace, hrun⟩ := cleanUp_found hapart hconfig hretained w hsome
        (Prod.eta (threshold retained ((records.get w.env).nthOldest config.firstBeyond))).symm
      refine ⟨_, _, hrun, ?_, ?_, List.countP_le_length⟩
      · show (records.get w.env).countBefore _ ≤ _
        omega
      · show (records.get w.env).countBefore _ + 1 < _
        omega

/-- **When a run of retention ends well.**  Under a configuration that has passed its check, and whatever is
    stored, a run crashes just where there are records and the period has more days than lie behind `now`;
    nothing has changed then.  Anywhere else it answers with a report, and what it has counted is within the
    limit and fits 64 bits.

    So between 2025 and 2099 a period of up to 96485381 days is safe, and one of 96512774 days or more crashes any
    run that finds a record, unless that is within a leap second; then a day more does. -/
theorem cleanUp_ends (hapart : records.Apart locks) (hconfig : config.check = .ok ()) (now : Instant)
    (w : World ε) :
    ((config.cleanUp (.memory records locks) now).run w =
        (.crashed "`DateTime - TimeDelta` overflowed", w) ↔
      config.Overreaches (records.get w.env) now) ∧
    (¬ config.Overreaches (records.get w.env) now →
      ∃ report w', (config.cleanUp (.memory records locks) now).run w = (.value (.ok report), w') ∧
        report.removedRecords ≤ config.maxRecords.toNat ∧ report.removedRecords + 1 < Config.limit64 ∧
        report.removedLocks ≤ (locks.get w.env).size) ∧
    (2025 ≤ now.date.year → config.retentionDays.toNat ≤ 96485381 →
      ¬ config.Overreaches (records.get w.env) now) ∧
    (now.date.year ≤ 2099 → (records.get w.env).size ≠ 0 →
      96512774 + (if now.IsLeap then 1 else 0) ≤ config.retentionDays.toNat →
      config.Overreaches (records.get w.env) now) := by
  obtain ⟨hearly, hlate⟩ := now.daysBehind_bounds
  refine ⟨⟨?_, ?_⟩, cleanUp_answers hapart hconfig, ?_, ?_⟩
  · intro hcrash
    apply Decidable.byContradiction
    intro hwell
    obtain ⟨report, w', hrun, -⟩ := cleanUp_answers hapart hconfig hwell
    rw [hrun] at hcrash
    cases hcrash
  · rintro ⟨hsome, hbehind⟩
    exact cleanUp_crashes hconfig ((now.subtract?_ofDays _).2 hbehind) hsome
  · rintro hyear hdays ⟨-, hbehind⟩
    have := hearly hyear
    omega
  · intro hyear hsome hdays
    have := hlate hyear
    refine ⟨hsome, ?_⟩
    omega

end CleanupConfig

/-! ## In the archive -/

namespace Archive

/-- A period of a thousand years. -/
def millennium : CleanupConfig := { retentionDays := 365243 }

/-- **A thousand years are not too long**: such a run answers, on the first day of 2025. -/
theorem cleanUp_ends_millennium : millennium.check = .ok () ∧ (day 20089).date = ⟨2025, 1, 1⟩ ∧
    ∃ report w', (millennium.cleanUp (.memory records locks) (day 20089)).run stock =
      (.value (.ok report), w') ∧ report.removedRecords + 1 < Config.limit64 := by
  have hapart : records.Apart locks := ⟨fun _ _ => rfl, fun _ _ => rfl⟩
  have hconfig : millennium.check = .ok () := rfl
  have hdate : (day 20089).date = ⟨2025, 1, 1⟩ := by decide +kernel
  have hyear : 2025 ≤ (day 20089).date.year := by decide +kernel
  obtain ⟨-, hanswers, hsafe, -⟩ := CleanupConfig.cleanUp_ends hapart hconfig (day 20089) stock
  have hwell : ¬ millennium.Overreaches (records.get stock.env) (day 20089) := hsafe hyear (by decide)
  obtain ⟨report, w', hrun, -, hroom, -⟩ := hanswers hwell
  exact ⟨hconfig, hdate, report, w', hrun, hroom⟩

/-- The longest period that there is. -/
def everything : CleanupConfig := { retentionDays := 4294967295 }

/-- **A period may pass its check and crash every run**: on a day of 2025 the longest one does, as there are
    records. -/
theorem cleanUp_overreaches : everything.check = .ok () ∧ (day 20089).date = ⟨2025, 1, 1⟩ ∧
    ∀ report, ((everything.cleanUp (.memory records locks) (day 20089)).run stock).1 ≠ .value report := by
  have hretained : (day 20089).subtract? everything.retention = none := by decide +kernel
  have hsome : (records.get stock.env).size ≠ 0 := by decide +kernel
  refine ⟨rfl, by decide +kernel, fun report hvalue => ?_⟩
  rw [CleanupConfig.cleanUp_crashes rfl hretained hsome] at hvalue
  cases hvalue

end Archive

end Idempotence
