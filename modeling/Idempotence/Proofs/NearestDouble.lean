/-
  The nearest double — the double nearest to a quotient.

  1. **Units** — a quotient in units of `2^e` is a rational (`inUnits`), and scaling computes it
     (`scaled_eq`).  There is one exponent at which a quotient fits a mantissa (`Fits.unique`), and it is the
     target exponent (`fits_targetExponent`).

  2. **Rounding** — a quotient within half a unit of a natural is rounded to it (`roundedQuotient_eq`).

  3. **Rounding intervals** — every double that is nearest to something is canonical (`canonical_nearest`), and a
     canonical double is the nearest one to all that lies in its rounding interval (`Canonical.nearest_eq`).

  4. **Exact arithmetic** — naturals of few digits are doubles as they stand (`ofNat_few`), so the quotient of
     two of them is rounded but once, and a decimal is read as the double that it names
     (`Canonical.assemble_eq`).
-/
import Mathlib.Algebra.Order.Field.Power
import Mathlib.Tactic.FieldSimp
import Mathlib.Tactic.Linarith
import Mathlib.Tactic.Positivity
import Mathlib.Tactic.Ring
import Idempotence.Json.Scalar
import Idempotence.Number.Shortest

namespace Idempotence.Double

/-! ## Units -/

theorem cast_twoTo (k : Nat) : ((twoTo k : Nat) : ℚ) = 2 ^ k := by
  simp [twoTo]

theorem cast_tenTo (k : Nat) : ((tenTo k : Nat) : ℚ) = 10 ^ k := by
  simp [tenTo]

theorem twoTo_pos (k : Nat) : 0 < twoTo k := Nat.pow_pos (by omega)

theorem tenTo_pos (k : Nat) : 0 < tenTo k := Nat.pow_pos (by omega)

/-- A power with an exponent from zero up is one with a natural exponent. -/
theorem zpow_of_nonneg (b : ℚ) {e : Int} (h : 0 ≤ e) : b ^ e = b ^ e.natAbs := by
  rw [← zpow_natCast]
  congr 1
  omega

/-- A power with a negative exponent is the reciprocal of one with a natural exponent. -/
theorem zpow_of_neg (b : ℚ) {e : Int} (h : e < 0) : b ^ e = (b ^ e.natAbs)⁻¹ := by
  rw [← zpow_natCast, ← zpow_neg]
  congr 1
  omega

/-- A power of two of either sign. -/
theorem two_zpow_pos (e : Int) : (0 : ℚ) < 2 ^ e := zpow_pos (by norm_num) e

variable {num den : Nat}

/-- **A quotient in units of `2^e`.** -/
def inUnits (num den : Nat) (e : Int) : ℚ := (num : ℚ) / den / 2 ^ e

/-- Twice as many units of half the size. -/
theorem inUnits_pred (num den : Nat) (e : Int) : inUnits num den (e - 1) = 2 * inUnits num den e := by
  have hpos := two_zpow_pos e
  unfold inUnits
  rw [zpow_sub₀ (by norm_num), zpow_one]
  field_simp

/-- The larger the units, the fewer of them. -/
theorem inUnits_anti (num den : Nat) {e e' : Int} (h : e ≤ e') : inUnits num den e' ≤ inUnits num den e := by
  unfold inUnits
  have hpower : (2 : ℚ) ^ e ≤ 2 ^ e' := zpow_le_zpow_right₀ (by norm_num) h
  exact div_le_div_of_nonneg_left (by positivity) (two_zpow_pos e) hpower

/-- **Scaling** computes the units. -/
theorem scaled_eq (num : Nat) (hden : 0 < den) (e : Int) :
    0 < (scaled num den e).2 ∧ ((scaled num den e).1 : ℚ) / (scaled num den e).2 = inUnits num den e := by
  have hden' : (0 : ℚ) < den := by exact_mod_cast hden
  unfold scaled inUnits
  split
  · rename_i hneg
    refine ⟨hden, ?_⟩
    rw [zpow_of_neg 2 hneg]
    push_cast [cast_twoTo]
    field_simp
  · rename_i hpos
    refine ⟨Nat.mul_pos hden (twoTo_pos _), ?_⟩
    rw [zpow_of_nonneg 2 (Int.not_lt.1 hpos)]
    push_cast [cast_twoTo]
    field_simp

/-- **An exponent at which a quotient fits a mantissa**: the mantissa is full, or the exponent is the least. -/
structure Fits (num den : Nat) (e : Int) : Prop where
  least : leastExponent ≤ e
  below : inUnits num den e < 2 ^ 53
  full : e = leastExponent ∨ 2 ^ 52 ≤ inUnits num den e

/-- **There is only one exponent** at which a quotient fits a mantissa. -/
theorem Fits.unique {e e' : Int} (h : Fits num den e) (h' : Fits num den e') : e = e' := by
  have hle : ∀ {e e' : Int}, Fits num den e → Fits num den e' → ¬ e < e' := by
    intro e e' h h' hlt
    have hfull : 2 ^ 52 ≤ inUnits num den e' := h'.full.resolve_left (by have := h.least; omega)
    have hunits : inUnits num den (e' - 1) ≤ inUnits num den e := inUnits_anti num den (by omega)
    rw [inUnits_pred] at hunits
    have hbelow := h.below
    linarith
  have h₁ := hle h h'
  have h₂ := hle h' h
  omega

/-- The two powers of two around a natural. -/
theorem log2_bounds {n : Nat} (h : 0 < n) : (2 : ℚ) ^ (n.log2 : Int) ≤ n ∧ (n : ℚ) < 2 * 2 ^ (n.log2 : Int) := by
  have hle : 2 ^ n.log2 ≤ n := Nat.log2_self_le (by omega)
  have hlt : n < 2 * 2 ^ n.log2 := by
    have h := Nat.lt_log2_self (n := n)
    rwa [Nat.pow_succ, Nat.mul_comm] at h
  constructor
  · exact_mod_cast hle
  · exact_mod_cast hlt

/-- Units of the size that the powers of two around a quotient suggest. -/
theorem inUnits_guess (hnum : 0 < num) (hden : 0 < den) :
    2 ^ 51 ≤ inUnits num den ((num.log2 : Int) - den.log2 - 52) ∧
      inUnits num den ((num.log2 : Int) - den.log2 - 52) < 2 ^ 53 := by
  obtain ⟨hnum_le, hnum_lt⟩ := log2_bounds hnum
  obtain ⟨hden_le, hden_lt⟩ := log2_bounds hden
  have hden' : (0 : ℚ) < den := by exact_mod_cast hden
  have hpower : (2 : ℚ) ^ (num.log2 : Int) =
      2 ^ 52 * (2 ^ (den.log2 : Int) * 2 ^ ((num.log2 : Int) - den.log2 - 52)) := by
    rw [← zpow_natCast (2 : ℚ) 52, ← zpow_add₀ (by norm_num), ← zpow_add₀ (by norm_num)]
    congr 1
    push_cast
    ring
  have hunit := two_zpow_pos ((num.log2 : Int) - den.log2 - 52)
  unfold inUnits
  generalize (2 : ℚ) ^ ((num.log2 : Int) - den.log2 - 52) = unit at *
  rw [div_div, le_div_iff₀ (by positivity), div_lt_iff₀ (by positivity)]
  constructor
  · calc 2 ^ 51 * (den * unit) ≤ 2 ^ 51 * (2 * 2 ^ (den.log2 : Int) * unit) := by gcongr
      _ = 2 ^ (num.log2 : Int) := by rw [hpower]; ring
      _ ≤ num := hnum_le
  · calc (num : ℚ) < 2 * 2 ^ (num.log2 : Int) := hnum_lt
      _ = 2 ^ 53 * (2 ^ (den.log2 : Int) * unit) := by rw [hpower]; ring
      _ ≤ 2 ^ 53 * (den * unit) := by gcongr

/-- **The target exponent** is the one. -/
theorem fits_targetExponent (hnum : 0 < num) (hden : 0 < den) : Fits num den (targetExponent num den) := by
  obtain ⟨habove, hbelow⟩ := inUnits_guess hnum hden
  unfold targetExponent
  generalize (num.log2 : Int) - den.log2 - 52 = guess at *
  obtain ⟨hpos, hscaled⟩ := scaled_eq num hden guess
  have hfull : (scaled num den guess).1 < (scaled num den guess).2 * twoTo 52 ↔
      inUnits num den guess < 2 ^ 52 := by
    have hpos' : (0 : ℚ) < (scaled num den guess).2 := by exact_mod_cast hpos
    rw [← hscaled, div_lt_iff₀ hpos', mul_comm, ← Nat.cast_lt (α := ℚ), Nat.cast_mul, cast_twoTo]
  -- The units are halved once if there are too few of them, and then they are as small as may be.
  have hexact : ∀ e : Int, 2 ^ 52 ≤ inUnits num den e → inUnits num den e < 2 ^ 53 →
      Fits num den (max leastExponent e) := by
    intro e hfull hbelow
    refine ⟨le_max_left .., lt_of_le_of_lt (inUnits_anti num den (le_max_right ..)) hbelow, ?_⟩
    rcases le_total e leastExponent with hle | hle
    · exact .inl (max_eq_left hle)
    · exact .inr ((max_eq_right hle).symm ▸ hfull)
  simp only [hfull]
  split
  · rename_i hfew
    refine hexact _ ?_ ?_ <;> rw [inUnits_pred] <;> linarith
  · rename_i henough
    exact hexact _ (not_lt.1 henough) hbelow

/-! ## Rounding -/

/-- **A quotient within half a unit of a natural** is rounded to it; at half a unit just if it is even. -/
theorem roundedQuotient_eq {n d m : Nat} (hd : 0 < d) (hlow : 2 * (m * d) ≤ 2 * n + d)
    (hhigh : 2 * n ≤ 2 * (m * d) + d)
    (hodd : m % 2 = 1 → 2 * (m * d) < 2 * n + d ∧ 2 * n < 2 * (m * d) + d) : roundedQuotient n d = m := by
  have hn : d * (n / d) + n % d = n := Nat.div_add_mod n d
  have hrest : n % d < d := Nat.mod_lt n hd
  unfold roundedQuotient
  generalize n / d = q at *
  generalize n % d = rest at *
  rw [Nat.mul_comm] at hn
  -- The quotient is the natural or the one below.
  rcases Nat.lt_trichotomy q m with hlt | rfl | hgt
  · have hstep : (q + 1) * d ≤ m * d := Nat.mul_le_mul_right d hlt
    rw [Nat.succ_mul] at hstep
    rcases Nat.lt_or_ge (q + 1) m with hfar | hnear
    · have hstep' : (q + 1 + 1) * d ≤ m * d := Nat.mul_le_mul_right d hfar
      rw [Nat.succ_mul, Nat.succ_mul] at hstep'
      omega
    · obtain rfl : m = q + 1 := by omega
      rw [Nat.succ_mul] at hlow hhigh hodd
      exact if_pos (by omega)
  · exact if_neg (by omega)
  · have hstep : (m + 1) * d ≤ q * d := Nat.mul_le_mul_right d hgt
    rw [Nat.succ_mul] at hstep
    omega

/-- A quotient within half a unit of a natural in units of `2^e` is rounded to it, once it is scaled. -/
theorem rounded_scaled (hden : 0 < den) {e : Int} {m : Nat} (hlow : (m : ℚ) - 1 / 2 ≤ inUnits num den e)
    (hhigh : inUnits num den e ≤ m + 1 / 2)
    (hodd : m % 2 = 1 → (m : ℚ) - 1 / 2 < inUnits num den e ∧ inUnits num den e < m + 1 / 2) :
    roundedQuotient (scaled num den e).1 (scaled num den e).2 = m := by
  obtain ⟨hd, hunits⟩ := scaled_eq num hden e
  rw [← hunits] at hlow hhigh hodd
  generalize (scaled num den e).1 = n at *
  generalize (scaled num den e).2 = d at *
  have hd' : (0 : ℚ) < d := by exact_mod_cast hd
  rw [le_div_iff₀ hd'] at hlow
  rw [div_le_iff₀ hd'] at hhigh
  rw [lt_div_iff₀ hd', div_lt_iff₀ hd'] at hodd
  have hnat : ∀ a b : Nat, (a : ℚ) ≤ b → a ≤ b := fun a b h => by exact_mod_cast h
  have hnat' : ∀ a b : Nat, (a : ℚ) < b → a < b := fun a b h => by exact_mod_cast h
  refine roundedQuotient_eq hd (hnat _ _ ?_) (hnat _ _ ?_) fun hm => ⟨hnat' _ _ ?_, hnat' _ _ ?_⟩
  · push_cast
    linarith
  · push_cast
    linarith
  · have h := (hodd hm).1
    push_cast
    linarith
  · have h := (hodd hm).2
    push_cast
    linarith

/-! ## Rounding intervals -/

/-- **The canonical form of a double**: its mantissa is full, or its exponent is the least. -/
structure Canonical (x : Double) : Prop where
  least : leastExponent ≤ x.exponent
  greatest : x.exponent ≤ greatestExponent
  below : x.mantissa < twoTo precision
  full : x.exponent = leastExponent ∨ twoTo 52 ≤ x.mantissa

/-- How far the rounding interval reaches down, in quarters of a unit. -/
def reach (x : Double) : Nat := if x.mantissa = twoTo 52 ∧ x.exponent ≠ leastExponent then 1 else 2

/-- The rounding interval in units of the double. -/
theorem interval_eq (x : Double) : ∃ up down : Nat, 0 < up ∧ 0 < down ∧ (up : ℚ) / down = 2 ^ x.exponent ∧
    x.interval = ⟨(4 * x.mantissa - x.reach) * up, 4 * x.mantissa * up, (4 * x.mantissa + 2) * up, 4 * down,
      x.mantissa % 2 == 0⟩ := by
  by_cases hneg : x.exponent < 0
  · refine ⟨1, twoTo x.exponent.natAbs, Nat.one_pos, twoTo_pos _, ?_, by simp only [interval, if_pos hneg, reach]⟩
    rw [zpow_of_neg 2 hneg, cast_twoTo, Nat.cast_one, one_div]
  · refine ⟨twoTo x.exponent.natAbs, 1, twoTo_pos _, Nat.one_pos, ?_, by simp only [interval, if_neg hneg, reach]⟩
    rw [zpow_of_nonneg 2 (Int.not_lt.1 hneg), cast_twoTo, Nat.cast_one, div_one]

/-- **What lies in the rounding interval** of a double, in its units. -/
theorem holds_inUnits {x : Double} (hx : 0 < x.mantissa) (hden : 0 < den)
    (h : x.interval.holds num den = true) :
    (x.mantissa : ℚ) - x.reach / 4 ≤ inUnits num den x.exponent ∧
      inUnits num den x.exponent ≤ x.mantissa + 1 / 2 ∧
      (x.mantissa % 2 = 1 → (x.mantissa : ℚ) - x.reach / 4 < inUnits num den x.exponent ∧
        inUnits num den x.exponent < x.mantissa + 1 / 2) := by
  obtain ⟨up, down, hup, hdown, hpower, hinterval⟩ := interval_eq x
  have hreach : x.reach ≤ 4 * x.mantissa := by
    unfold reach
    split <;> omega
  have hunits : inUnits num den x.exponent = (num * (4 * down) : ℕ) / (4 * (up * den) : ℕ) := by
    have hup' : (0 : ℚ) < up := by exact_mod_cast hup
    have hdown' : (0 : ℚ) < down := by exact_mod_cast hdown
    have hden' : (0 : ℚ) < den := by exact_mod_cast hden
    rw [inUnits, ← hpower]
    push_cast
    field_simp
  have hpos : (0 : ℚ) < (4 * (up * den) : ℕ) := by exact_mod_cast (by positivity : 0 < 4 * (up * den))
  -- In quarters of a unit all of it is about naturals.
  have hquarters : ∀ k : ℕ, (k : ℚ) / 4 = (k * up * den : ℕ) / (4 * (up * den) : ℕ) := by
    intro k
    have hup' : (0 : ℚ) < up := by exact_mod_cast hup
    have hden' : (0 : ℚ) < den := by exact_mod_cast hden
    push_cast
    field_simp
  have hlower : (x.mantissa : ℚ) - x.reach / 4 = ((4 * x.mantissa - x.reach : ℕ) : ℚ) / 4 := by
    push_cast [Nat.cast_sub hreach]
    ring
  have hupper : (x.mantissa : ℚ) + 1 / 2 = ((4 * x.mantissa + 2 : ℕ) : ℚ) / 4 := by
    push_cast
    ring
  rw [hlower, hupper, hunits, hquarters, hquarters]
  simp only [div_le_div_iff_of_pos_right hpos, div_lt_div_iff_of_pos_right hpos, Nat.cast_le, Nat.cast_lt]
  rw [hinterval, Interval.holds] at h
  rcases Nat.mod_two_eq_zero_or_one x.mantissa with heven | hodd
  · simp only [heven, beq_self_eq_true, if_true, decide_eq_true_eq] at h
    exact ⟨h.1, h.2, fun hodd => by omega⟩
  · simp only [hodd, Nat.reduceBEq, Bool.false_eq_true, if_false, decide_eq_true_eq] at h
    exact ⟨h.1.le, h.2.le, fun _ => h⟩

/-- Where a quotient fits a mantissa it is rounded, and once more if the mantissa then overflows. -/
theorem nearest_eq (hnum : 0 < num) (hden : 0 < den) {e : Int} (hfits : Fits num den e) {m : Nat}
    (hrounded : roundedQuotient (scaled num den e).1 (scaled num den e).2 = m) (negative : Bool) :
    nearest negative num den =
      if m = twoTo precision then
        if greatestExponent < e + 1 then none else some ⟨negative, twoTo 52, e + 1⟩
      else if greatestExponent < e then none else some ⟨negative, m, e⟩ := by
  have htarget : targetExponent num den = e := (fits_targetExponent hnum hden).unique hfits
  rw [nearest, if_neg (by omega), htarget]
  simp only [hrounded]
  split <;> rfl

/-- **What lies in the rounding interval of a double** has it as its nearest one. -/
theorem Canonical.nearest_eq {x : Double} (hx : x.Canonical) (hpos : 0 < x.mantissa) (hnum : 0 < num)
    (hden : 0 < den) (h : x.interval.holds num den = true) (negative : Bool) :
    nearest negative num den = some ⟨negative, x.mantissa, x.exponent⟩ := by
  obtain ⟨hlow, hhigh, hodd⟩ := holds_inUnits hpos hden h
  have hbelow : (x.mantissa : ℚ) + 1 ≤ 2 ^ 53 := by exact_mod_cast hx.below
  have hgreatest := hx.greatest
  by_cases hfull : x.exponent = leastExponent ∨ 2 ^ 52 ≤ inUnits num den x.exponent
  · have hfits : Fits num den x.exponent := ⟨hx.least, by linarith, hfull⟩
    have hreach : (x.reach : ℚ) / 4 ≤ 1 / 2 := by
      unfold reach
      split <;> norm_num
    have hrounded := rounded_scaled hden (by linarith) hhigh fun hm => ⟨by linarith [(hodd hm).1], (hodd hm).2⟩
    rw [Double.nearest_eq hnum hden hfits hrounded, if_neg (Nat.ne_of_lt hx.below), if_neg (by omega)]
  -- Just below a power of two the units are half as large, and the mantissa overflows.
  · obtain ⟨hleast, hfew⟩ : x.exponent ≠ leastExponent ∧ inUnits num den x.exponent < 2 ^ 52 := by
      simpa only [not_or, not_le] using hfull
    have hfew' : (2 : ℚ) ^ 52 ≤ x.mantissa := by exact_mod_cast hx.full.resolve_left hleast
    have hmantissa : x.mantissa = twoTo 52 := by
      by_contra hne
      have hreach : x.reach = 2 := if_neg fun hreach => hne hreach.1
      have hmore : (2 : ℚ) ^ 52 + 1 ≤ x.mantissa := by
        exact_mod_cast Nat.lt_of_le_of_ne (hx.full.resolve_left hleast) (Ne.symm hne)
      rw [hreach] at hlow
      push_cast at hlow
      linarith
    have hreach : x.reach = 1 := if_pos ⟨hmantissa, hleast⟩
    rw [hreach] at hlow
    push_cast at hlow
    have hunits := inUnits_pred num den x.exponent
    have hleast' := hx.least
    have hfits : Fits num den (x.exponent - 1) := ⟨by omega, by linarith, .inr (by linarith)⟩
    have hrounded : roundedQuotient (scaled num den (x.exponent - 1)).1 (scaled num den (x.exponent - 1)).2 =
        twoTo precision := by
      have hcast : ((twoTo precision : ℕ) : ℚ) = 2 ^ 53 := cast_twoTo 53
      exact rounded_scaled hden (by linarith) (by linarith) fun hm => absurd hm (by decide)
    rw [Double.nearest_eq hnum hden hfits hrounded, if_pos rfl, hmantissa]
    rw [Int.sub_add_cancel, if_neg (by omega)]

/-- **A decimal names a double**: it lies in its rounding interval, by whatever quotient it is given. -/
def Names (x : Double) (q : ℚ) : Prop :=
  ∀ num den : Nat, 0 < den → (num : ℚ) / den = q → x.interval.holds num den = true

/-- Equal quotients lie in the same intervals. -/
theorem names_of_holds {x : Double} (hden : 0 < den) (h : x.interval.holds num den = true) :
    x.Names ((num : ℚ) / den) := by
  intro num' den' hden' heq
  have hcross : num' * den = num * den' := by
    have h : (den : ℚ) ≠ 0 := by exact_mod_cast hden.ne'
    have h' : (den' : ℚ) ≠ 0 := by exact_mod_cast hden'.ne'
    rw [div_eq_div_iff h' h] at heq
    exact_mod_cast heq
  have hscale : ∀ c : Nat, num' * c * den = num * c * den' := fun c => by
    rw [Nat.mul_right_comm, hcross, Nat.mul_right_comm]
  have hlow : ∀ a c : Nat, a * den' ≤ num' * c ↔ a * den ≤ num * c := fun a c => by
    calc a * den' ≤ num' * c ↔ a * den' * den ≤ num' * c * den := (Nat.mul_le_mul_right_iff hden).symm
      _ ↔ a * den * den' ≤ num * c * den' := by rw [hscale, Nat.mul_right_comm a]
      _ ↔ a * den ≤ num * c := Nat.mul_le_mul_right_iff hden'
  have hhigh : ∀ a c : Nat, num' * c ≤ a * den' ↔ num * c ≤ a * den := fun a c => by
    calc num' * c ≤ a * den' ↔ num' * c * den ≤ a * den' * den := (Nat.mul_le_mul_right_iff hden).symm
      _ ↔ num * c * den' ≤ a * den * den' := by rw [hscale, Nat.mul_right_comm a]
      _ ↔ num * c ≤ a * den := Nat.mul_le_mul_right_iff hden'
  unfold Interval.holds at h ⊢
  simp only [← Nat.not_le, hlow, hhigh] at h ⊢
  exact h

/-! ## Exact arithmetic -/

/-- **The magnitude of a double** as a rational. -/
def magnitude (x : Double) : ℚ := x.mantissa * 2 ^ x.exponent

theorem quotient_eq (x : Double) : 0 < x.quotient.2 ∧ (x.quotient.1 : ℚ) / x.quotient.2 = x.magnitude := by
  unfold quotient magnitude
  split
  · rename_i hneg
    refine ⟨twoTo_pos _, ?_⟩
    rw [zpow_of_neg 2 hneg, cast_twoTo, div_eq_mul_inv]
  · rename_i hpos
    refine ⟨Nat.one_pos, ?_⟩
    rw [zpow_of_nonneg 2 (Int.not_lt.1 hpos)]
    push_cast [cast_twoTo]
    rw [div_one]

/-- **A natural of few digits**, in the binary system and without the zeros behind them. -/
def Few (n : Nat) : Prop := ∃ m j : Nat, m < 2 ^ 53 ∧ (j : Int) ≤ greatestExponent ∧ n = m * 2 ^ j

/-- The powers of ten up to the 22nd are such. -/
theorem few_tenTo {k : Nat} (h : k ≤ 22) : Few (tenTo k) := by
  refine ⟨5 ^ k, k, ?_, by unfold greatestExponent; omega, ?_⟩
  · calc 5 ^ k ≤ 5 ^ 22 := Nat.pow_le_pow_right (by omega) h
      _ < 2 ^ 53 := by decide
  · rw [← Nat.mul_pow]
    rfl

/-- **A natural of few digits is a double as it stands.** -/
theorem ofNat_few {n : Nat} (hpos : 0 < n) (h : Few n) :
    ∃ y, ofNat n = some y ∧ y.negative = false ∧ y.magnitude = n := by
  obtain ⟨m, j, hm, hj, rfl⟩ := h
  obtain ⟨e, hfits⟩ : ∃ e, Fits (m * 2 ^ j) 1 e := ⟨_, fits_targetExponent hpos Nat.one_pos⟩
  have hunits : ∀ k : Nat, inUnits (m * 2 ^ j) 1 ((j : Int) - k) = (m * 2 ^ k : ℕ) := by
    intro k
    have hpower := two_zpow_pos j
    unfold inUnits
    rw [zpow_sub₀ (by norm_num)]
    push_cast
    rw [zpow_natCast] at hpower ⊢
    rw [zpow_natCast]
    field_simp
  -- Units larger than the zeros account for are too few.
  have hle : e ≤ j := by
    by_contra hgt
    have hfull := hfits.full.resolve_left (by unfold leastExponent; omega)
    have hall : inUnits (m * 2 ^ j) 1 j = m := by simpa using hunits 0
    have hhalf := inUnits_pred (m * 2 ^ j) 1 (j + 1)
    rw [Int.add_sub_cancel, hall] at hhalf
    have hless := inUnits_anti (m * 2 ^ j) 1 (show (j : Int) + 1 ≤ e by omega)
    have hm' : (m : ℚ) < 2 ^ 53 := by exact_mod_cast hm
    linarith
  obtain ⟨k, rfl⟩ : ∃ k : Nat, e = (j : Int) - k := ⟨((j : Int) - e).toNat, by omega⟩
  have hbelow : m * 2 ^ k < twoTo precision := by
    have h := hfits.below
    rw [hunits] at h
    exact_mod_cast h
  have hrounded : roundedQuotient (scaled (m * 2 ^ j) 1 ((j : Int) - k)).1 (scaled (m * 2 ^ j) 1 ((j : Int) - k)).2 =
      m * 2 ^ k := by
    refine rounded_scaled Nat.one_pos ?_ ?_ fun _ => ⟨?_, ?_⟩ <;> rw [hunits] <;> linarith
  refine ⟨⟨false, m * 2 ^ k, (j : Int) - k⟩, ?_, rfl, ?_⟩
  · rw [ofNat, Double.nearest_eq hpos Nat.one_pos hfits hrounded, if_neg (Nat.ne_of_lt hbelow), if_neg (by omega)]
  · rw [magnitude, zpow_sub₀ (by norm_num), zpow_natCast, zpow_natCast]
    push_cast
    field_simp

/-- **Scaling by a power of ten that is exact** rounds only once. -/
theorem scaleByTen_eq (y : Double) {e : Int} (h : e.natAbs ≤ 22) :
    ∃ num den : Nat, 0 < den ∧ (num : ℚ) / den = y.magnitude * 10 ^ e ∧
      Json.scaleByTen y 8 e = nearest y.negative num den := by
  obtain ⟨p, hp, -, hpower⟩ := ofNat_few (tenTo_pos e.natAbs) (few_tenTo h)
  obtain ⟨hy_pos, hy⟩ := y.quotient_eq
  obtain ⟨hp_pos, hp'⟩ := p.quotient_eq
  rw [hpower, cast_tenTo] at hp'
  have hp_num : 0 < p.quotient.1 := by
    refine Nat.pos_of_ne_zero fun hzero => ?_
    rw [hzero, Nat.cast_zero, zero_div] at hp'
    exact (pow_ne_zero _ (by norm_num)) hp'.symm
  have hlimit : e.natAbs ≤ Json.largestPower := Nat.le_trans h (by decide)
  rw [Json.scaleByTen, if_pos hlimit, ← hy]
  split
  · rename_i hup
    refine ⟨y.quotient.1 * p.quotient.1, _, Nat.mul_pos hy_pos hp_pos, ?_,
      by rw [timesPowerOfTen, hp, Option.bind_eq_bind, Option.bind_some]⟩
    rw [zpow_of_nonneg 10 hup, ← hp', div_mul_div_comm, Nat.cast_mul, Nat.cast_mul]
  · rename_i hdown
    refine ⟨y.quotient.1 * p.quotient.2, _, Nat.mul_pos hy_pos hp_num, ?_,
      by rw [overPowerOfTen, hp, Option.bind_eq_bind, Option.bind_some]⟩
    rw [zpow_of_neg 10 (Int.not_le.1 hdown), ← hp', inv_div, div_mul_div_comm, Nat.cast_mul, Nat.cast_mul]

/-- **A decimal of few digits is read as the double that it names.** -/
theorem Canonical.assemble_eq {x : Double} (hx : x.Canonical) (hpos : 0 < x.mantissa) {significand : Nat}
    (hsignificand : 0 < significand) (hfew : Few significand) {e : Int} (he : e.natAbs ≤ 22)
    (hnames : x.Names (significand * 10 ^ e)) (rest : List Char) :
    Json.assemble x.negative significand e rest = .ok (x, rest) := by
  obtain ⟨y, hy, hnegative, hmagnitude⟩ := ofNat_few hsignificand hfew
  obtain ⟨num, den, hden, hquotient, hscaled⟩ := scaleByTen_eq y he
  rw [hmagnitude] at hquotient
  have hnum : 0 < num := by
    refine Nat.pos_of_ne_zero fun hzero => ?_
    have hten : (0 : ℚ) < significand * 10 ^ e := by positivity
    rw [← hquotient, hzero, Nat.cast_zero, zero_div] at hten
    exact lt_irrefl _ hten
  have hnearest := hx.nearest_eq hpos hnum hden (hnames num den hden hquotient) y.negative
  rw [Json.assemble, hy, Option.bind_eq_bind, Option.bind_some, hscaled, hnearest, hnegative]
  obtain ⟨negative, mantissa, exponent⟩ := x
  cases negative <;> rfl

end Idempotence.Double
