/-
  Short reals — short reals are read back as they were.

  Reading a real is quick: it gathers its digits in a natural, and scales the double nearest to that.  Where
  the natural and the power of ten are doubles as they stand, there is only one rounding, and then quick is
  as good as exact.

  1. **What texts spell** — a fraction or an exponent is read as scaling the number of its digits
     (`spells_fraction`, `spells_exponent`), if they fit.

  2. **What digits name** — the shortest decimal of a double names it (`names_shortest`).

  3. **The result** — a real of up to 15 digits lasts, unless they are far from the point
     (`Brief.realLasts`).
-/
import Idempotence.Proofs.NearestDouble
import Idempotence.Proofs.RealTexts

namespace Idempotence.Json

/-! ## Numbers of digits -/

/-- The number that digits make. -/
def amount (ds : List Char) : Nat := Nat.ofDigitChars 10 ds 0

theorem amount_append (ds es : List Char) : amount (ds ++ es) = amount ds * 10 ^ es.length + amount es := by
  rw [amount, Nat.ofDigitChars_append, Nat.ofDigitChars_eq_ofDigitChars_zero, Nat.mul_comm]
  rfl

theorem amount_zeros (n : Nat) : amount (Double.zeros n) = 0 := by
  rw [amount, Double.zeros, Nat.ofDigitChars_replicate_zero, Nat.mul_zero]

theorem length_zeros (n : Nat) : (Double.zeros n).length = n := List.length_replicate ..

/-- Zeros before digits count for nothing. -/
theorem amount_zeros_append (n : Nat) (ds : List Char) : amount (Double.zeros n ++ ds) = amount ds := by
  rw [amount_append, amount_zeros, Nat.zero_mul, Nat.zero_add]

/-- Each zero behind digits is a factor of ten. -/
theorem amount_append_zeros (ds : List Char) (n : Nat) : amount (ds ++ Double.zeros n) = amount ds * 10 ^ n := by
  rw [amount_append, amount_zeros, length_zeros, Nat.add_zero]

theorem amount_cons (c : Char) (ds : List Char) :
    amount (c :: ds) = (c.toNat - '0'.toNat) * 10 ^ ds.length + amount ds := by
  rw [← List.singleton_append, amount_append, amount, Nat.ofDigitChars_cons, Nat.ofDigitChars_nil, Nat.mul_zero,
    Nat.zero_add]

/-- The value of a digit. -/
theorem digit_value {c : Char} (h : c.isDigit = true) : c.toNat - '0'.toNat < 10 ∧
    (c ≠ '0' → 0 < c.toNat - '0'.toNat) := by
  have hrange : 48 ≤ c.toNat ∧ c.toNat ≤ 57 := by
    simpa [Char.isDigit, UInt32.le_iff_toNat_le] using h
  have hzero : '0'.toNat = 48 := rfl
  refine ⟨by omega, fun hne => ?_⟩
  have hcode : c.toNat ≠ 48 := fun heq => hne (Char.toNat_inj.1 heq)
  omega

/-- A number is below the power of ten that its digits suggest. -/
theorem amount_lt {ds : List Char} (h : Digits ds) : amount ds < 10 ^ ds.length := by
  induction ds with
  | nil => exact Nat.one_pos
  | cons c ds ih =>
    obtain ⟨hc, hds⟩ := List.forall_mem_cons.1 h
    have hstep : (c.toNat - '0'.toNat + 1) * 10 ^ ds.length ≤ 10 * 10 ^ ds.length :=
      Nat.mul_le_mul_right _ (digit_value hc).1
    rw [Nat.succ_mul] at hstep
    rw [amount_cons, List.length_cons, Nat.pow_succ, Nat.mul_comm (10 ^ ds.length)]
    have hrest := ih hds
    omega

/-- A number is positive if its digits do not begin with a zero. -/
theorem amount_pos {c : Char} {ds : List Char} (hc : c.isDigit = true) (hne : c ≠ '0') : 0 < amount (c :: ds) := by
  rw [amount_cons]
  exact Nat.add_pos_left (Nat.mul_pos ((digit_value hc).2 hne) (Nat.pow_pos (by omega))) _

/-! ## What texts spell -/

/-- The digits of a fraction are gathered if they fit. -/
theorem fractionDigits_eq {ds rest : List Char} (h : Digits ds) {n : Nat}
    (hlimit : Nat.ofDigitChars 10 ds n < wordLimit) (hrest : startsWithDigit rest = false) (count : Nat) :
    fractionDigits n count (ds ++ rest) = (Nat.ofDigitChars 10 ds n, count + ds.length, rest) := by
  induction ds generalizing n count with
  | nil =>
    cases rest with
    | nil => rfl
    | cons c rest => simp only [List.nil_append, fractionDigits, startsWithDigit_cons hrest]; rfl
  | cons d ds ih =>
    obtain ⟨hd, hds⟩ := List.forall_mem_cons.1 h
    rw [Nat.ofDigitChars_cons, Nat.mul_comm 10 n] at hlimit ⊢
    have hfits : ¬ wordLimit ≤ n * 10 + (d.toNat - '0'.toNat) :=
      Nat.not_le.2 (Nat.lt_of_le_of_lt (le_ofDigitChars ds _) hlimit)
    rw [List.cons_append, fractionDigits, digit?_eq_some hd]
    simp only [if_neg hfits]
    rw [ih hds hlimit, List.length_cons, Nat.add_right_comm, Nat.add_assoc]

/-- The digits of an exponent are gathered if they fit. -/
theorem exponentDigits_eq {ds rest : List Char} (h : Digits ds) {n : Nat}
    (hlimit : Nat.ofDigitChars 10 ds n ≤ exponentLimit) (hrest : startsWithDigit rest = false) :
    exponentDigits n (ds ++ rest) = (some (Nat.ofDigitChars 10 ds n), rest) := by
  induction ds generalizing n with
  | nil =>
    cases rest with
    | nil => rfl
    | cons c rest => simp only [List.nil_append, exponentDigits, startsWithDigit_cons hrest, Nat.ofDigitChars_nil]
  | cons d ds ih =>
    obtain ⟨hd, hds⟩ := List.forall_mem_cons.1 h
    rw [Nat.ofDigitChars_cons, Nat.mul_comm 10 n] at hlimit ⊢
    have hfits : ¬ exponentLimit < n * 10 + (d.toNat - '0'.toNat) :=
      Nat.not_lt.2 (Nat.le_trans (le_ofDigitChars ds _) hlimit)
    rw [List.cons_append, exponentDigits, digit?_eq_some hd]
    simp only [if_neg hfits]
    exact ih hds hlimit

/-- **What a text spells**: it begins with a digit, and is read as the given number of the given scale, whatever
    its sign and whatever follows. -/
structure Spells (text : List Char) (significand : Nat) (e : Int) : Prop where
  begins : ∃ c cs, text = c :: cs ∧ c.isDigit = true
  numeral_eq : ∀ negative rest, Stops rest → numeral negative (text ++ rest) =
    (assemble negative significand e rest).map fun (x, rest) => (.real x, rest)

/-- Behind the digits there may be nothing. -/
theorem Stops.afterDigits {rest : List Char} (h : Stops rest) (negative : Bool) (significand : Nat) (e : Int) :
    afterDigits negative significand e rest = assemble negative significand e rest := by
  cases rest with
  | nil => rfl
  | cons c rest => rcases h with rfl | rfl | rfl <;> rfl

/-- **Digits with a fraction** spell the number of all of them, scaled by the digits behind the point. -/
theorem fractionPart_eq {n : Nat} {ds rest : List Char} (h : Digits ds) (hne : ds ≠ [])
    (hlimit : Nat.ofDigitChars 10 ds n < wordLimit) (hrest : startsWithDigit rest = false) (negative : Bool) :
    fractionPart negative n 0 (ds ++ rest) =
      afterDigits negative (Nat.ofDigitChars 10 ds n) (-ds.length) rest := by
  obtain ⟨d, ds, rfl⟩ := List.exists_cons_of_ne_nil hne
  have hstarts : startsWithDigit (d :: ds ++ rest) = true := startsWithDigit_of (h d (List.mem_cons_self ..)) _
  rw [fractionPart, if_pos hstarts, fractionDigits_eq h hlimit hrest]
  simp only [Nat.zero_add, Int.zero_sub]

theorem spells_fraction {c : Char} {ds fraction : List Char} (hdigits : Digits (c :: ds)) (hzero : c = '0' → ds = [])
    (hfraction : Digits fraction) (hne : fraction ≠ []) (hlimit : amount (c :: ds ++ fraction) < wordLimit) :
    Spells (c :: ds ++ '.' :: fraction) (amount (c :: ds ++ fraction)) (-fraction.length) := by
  refine ⟨⟨c, _, rfl, hdigits c (List.mem_cons_self ..)⟩, fun negative rest hrest => ?_⟩
  rw [amount, Nat.ofDigitChars_append] at hlimit ⊢
  have hwhole : Nat.ofDigitChars 10 (c :: ds) 0 < wordLimit :=
    Nat.lt_of_le_of_lt (le_ofDigitChars fraction _) hlimit
  rw [List.append_assoc, numeral_append negative hdigits hzero hwhole rfl]
  show (fractionPart negative _ 0 (fraction ++ rest)).map _ = _
  rw [fractionPart_eq hfraction hne hlimit hrest.not_digit, hrest.afterDigits]

/-- An exponent, behind its letter. -/
def scaleText (shift : Int) : List Char := (if shift < 0 then '-' else '+') :: Nat.toDigits 10 shift.natAbs

/-- An exponent adds to the scale. -/
theorem exponentPart_eq {rest : List Char} (hrest : Stops rest) {e shift : Int} (hshift : shift.natAbs ≤ 1000)
    (he : e.natAbs ≤ 1000) (negative : Bool) (significand : Nat) :
    exponentPart negative significand e (scaleText shift ++ rest) = assemble negative significand (e + shift) rest := by
  obtain ⟨d, ds, hdigits, hd⟩ := toDigits_cons shift.natAbs
  have hds : Digits ds := by
    have h := digits_toDigits shift.natAbs
    rw [hdigits] at h
    exact (List.forall_mem_cons.1 h).2
  have hvalue : Nat.ofDigitChars 10 ds (d.toNat - '0'.toNat) = shift.natAbs := by
    have h : Nat.ofDigitChars 10 (Nat.toDigits 10 shift.natAbs) 0 = shift.natAbs := Nat.ofDigitChars_ten_toDigits
    rwa [hdigits, Nat.ofDigitChars_cons, Nat.mul_zero, Nat.zero_add] at h
  have hread : exponentDigits (d.toNat - '0'.toNat) (ds ++ rest) = (some shift.natAbs, rest) := by
    have hlimit : shift.natAbs ≤ exponentLimit := Nat.le_trans hshift (by decide)
    have h := exponentDigits_eq hds (by rwa [hvalue]) hrest.not_digit
    rwa [hvalue] at h
  have hclamp : ∀ k : Int, k.natAbs ≤ 2000 → clampExponent k = k := by
    intro k hk
    have hleast : (2000 : Int) ≤ (twoTo 31 : Nat) := by decide
    have hgreatest : (2000 : Int) ≤ (exponentLimit : Nat) := by decide
    unfold clampExponent
    omega
  have hsigned : (if shift < 0 then e - shift.natAbs else e + shift.natAbs) = e + shift := by
    split <;> omega
  rw [← hsigned, scaleText, hdigits]
  split
  · simp only [List.cons_append, exponentPart, digit?_eq_some hd, hread, if_true]
    rw [hclamp _ (by omega)]
  · simp only [List.cons_append, exponentPart, digit?_eq_some hd, hread, Bool.false_eq_true, if_false]
    rw [hclamp _ (by omega)]

/-- **Digits with an exponent** spell the number of all of them. -/
theorem spells_exponent {c : Char} {ds : List Char} (hdigits : Digits (c :: ds)) (hzero : c ≠ '0')
    (hlimit : amount (c :: ds) < wordLimit) (hlength : ds.length ≤ 1000) {shift : Int}
    (hshift : shift.natAbs ≤ 1000) :
    Spells ([c] ++ (pointed ds ++ 'e' :: scaleText shift)) (amount (c :: ds)) (shift - ds.length) := by
  obtain ⟨hc, hds⟩ := List.forall_mem_cons.1 hdigits
  refine ⟨⟨c, _, rfl, hc⟩, fun negative rest hrest => ?_⟩
  have hone : Digits [c] := List.forall_mem_singleton.2 hc
  have hsingle : amount [c] < wordLimit := Nat.lt_trans (amount_lt hone) (by rw [List.length_singleton]; decide)
  have hread : ∀ behind, startsWithDigit behind = false →
      numeral negative ([c] ++ behind) = afterInteger negative (amount [c]) behind :=
    fun behind hbehind => numeral_append negative hone (fun h => absurd h hzero) hsingle hbehind
  rw [List.append_assoc, List.append_assoc]
  by_cases hne : ds = []
  · subst hne
    rw [hread _ rfl]
    show (exponentPart negative _ 0 (scaleText shift ++ rest)).map _ = _
    rw [exponentPart_eq hrest hshift (by decide), Int.zero_add, List.length_nil, Nat.cast_zero, Int.sub_zero]
  · have hall : Nat.ofDigitChars 10 ds (amount [c]) = amount (c :: ds) := (Nat.ofDigitChars_append 0).symm
    rw [pointed, if_neg hne, hread _ rfl]
    show (fractionPart negative _ 0 (ds ++ 'e' :: (scaleText shift ++ rest))).map _ = _
    rw [fractionPart_eq hds hne (by rwa [hall]) rfl, hall]
    show (exponentPart negative _ _ (scaleText shift ++ rest)).map _ = _
    rw [exponentPart_eq hrest hshift (by omega), Int.add_comm]
    rfl

/-! ## What digits name -/

/-- Digits without the zeros behind them. -/
def trimmed (ds : List Char) : List Char := (ds.reverse.dropWhile (· == '0')).reverse

/-- Digits are what is left without their last zeros, and zeros. -/
theorem trimmed_append_zeros (ds : List Char) : ∃ n, trimmed ds ++ Double.zeros n = ds := by
  have hzeros : ds.reverse.takeWhile (· == '0') =
      Double.zeros (ds.reverse.takeWhile (· == '0')).length := by
    refine List.eq_replicate_iff.2 ⟨rfl, fun c hc => ?_⟩
    have hall := List.all_eq_true.1 (List.all_takeWhile (p := (· == '0')) (l := ds.reverse)) c hc
    exact eq_of_beq hall
  refine ⟨(ds.reverse.takeWhile (· == '0')).length, ?_⟩
  have hsplit := congrArg List.reverse (List.takeWhile_append_dropWhile (p := (· == '0')) (l := ds.reverse))
  rw [hzeros, List.reverse_append, List.reverse_reverse, Double.zeros, List.reverse_replicate] at hsplit
  exact hsplit

/-- **The value of a decimal.** -/
def valueOf (d : Decimal) : ℚ := amount d.digits * 10 ^ (d.point - d.digits.length)

/-- **A decimal that is found** has the value that was searched for, and does not begin with a zero. -/
theorem found_value {magnitude : Int} {n count : Nat} (h : (found magnitude (n, count)).digits ≠ []) :
    valueOf (found magnitude (n, count)) = n * 10 ^ (magnitude - count) ∧ 0 < n ∧
      ∃ c ds, (found magnitude (n, count)).digits = c :: ds ∧ c ≠ '0' := by
  have htrimmed : (found magnitude (n, count)).digits = trimmed (Nat.toDigits 10 n) := rfl
  have hpos : 0 < n := by
    refine Nat.pos_of_ne_zero fun hzero => ?_
    rw [htrimmed, hzero, Nat.toDigits_zero] at h
    exact h rfl
  obtain ⟨zeros, hall⟩ := trimmed_append_zeros (Nat.toDigits 10 n)
  refine ⟨?_, hpos, ?_⟩
  · have hamount : amount (trimmed (Nat.toDigits 10 n)) * 10 ^ zeros = n := by
      rw [← amount_append_zeros, hall, amount]
      exact Nat.ofDigitChars_ten_toDigits
    have hpoint : (found magnitude (n, count)).point - (trimmed (Nat.toDigits 10 n)).length =
        zeros + (magnitude - count) := by
      have hlength := congrArg List.length hall
      rw [List.length_append, length_zeros] at hlength
      show magnitude + ((Nat.toDigits 10 n).length - count) - _ = _
      omega
    rw [valueOf, htrimmed, hpoint, zpow_add₀ (by norm_num), zpow_natCast, ← mul_assoc]
    congr 1
    exact_mod_cast hamount
  · obtain ⟨c, ds, hhead, hc⟩ := toDigits_head hpos
    rw [htrimmed] at h ⊢
    obtain ⟨c', ds', hcons⟩ := List.exists_cons_of_ne_nil h
    rw [hcons, hhead, List.cons_append, List.cons_eq_cons] at hall
    exact ⟨c', ds', hcons, hall.1 ▸ hc⟩

/-- A search finds a candidate, or nothing. -/
theorem search_candidate (i : Double.Interval) (magnitude : Int) {tries count n digits : Nat}
    (h : i.search magnitude tries count = (n, digits)) : n = 0 ∨ i.candidate magnitude digits = some n := by
  induction tries generalizing count with
  | zero =>
    rw [Double.Interval.search, Prod.mk.injEq] at h
    exact .inl h.1.symm
  | succ tries ih =>
    rw [Double.Interval.search] at h
    cases hcandidate : i.candidate magnitude count with
    | none =>
      rw [hcandidate] at h
      exact ih h
    | some n' =>
      rw [hcandidate, Prod.mk.injEq] at h
      obtain ⟨rfl, rfl⟩ := h
      exact .inr hcandidate

/-- A candidate lies in the interval. -/
theorem candidate_holds {i : Double.Interval} {magnitude : Int} {count n : Nat}
    (h : i.candidate magnitude count = some n) :
    ∃ up down : Nat, 0 < down ∧ (up : ℚ) / down = 10 ^ (magnitude - count) ∧ i.holds (n * up) down = true := by
  obtain ⟨up, down, hdown, hten, hscale⟩ : ∃ up down : Nat, 0 < down ∧ (up : ℚ) / down = 10 ^ (magnitude - count) ∧
      (if magnitude - count < 0 then (1, tenTo (magnitude - count).natAbs)
        else (tenTo (magnitude - count).natAbs, 1)) = (up, down) := by
    by_cases hneg : magnitude - count < 0
    · refine ⟨1, _, Double.tenTo_pos _, ?_, if_pos hneg⟩
      rw [Double.zpow_of_neg 10 hneg, Double.cast_tenTo, Nat.cast_one, one_div]
    · refine ⟨_, 1, Nat.one_pos, ?_, if_neg hneg⟩
      rw [Double.zpow_of_nonneg 10 (Int.not_lt.1 hneg), Double.cast_tenTo, Nat.cast_one, div_one]
  refine ⟨up, down, hdown, hten, ?_⟩
  rw [Double.Interval.candidate, hscale] at h
  dsimp only at h
  generalize i.value * down / (i.denominator * up) = below at h
  cases hbelow : i.holds (below * up) down with
  | false =>
    cases habove : i.holds ((below + 1) * up) down with
    | false => simp [hbelow, habove] at h
    | true =>
      obtain rfl : below + 1 = n := by simpa [hbelow, habove] using h
      exact habove
  | true =>
    cases habove : i.holds ((below + 1) * up) down with
    | false =>
      obtain rfl : below = n := by simpa [hbelow, habove] using h
      exact hbelow
    | true =>
      simp only [hbelow, habove] at h
      split at h
      · obtain rfl := Option.some.inj h
        exact hbelow
      · obtain rfl := Option.some.inj h
        exact habove

/-- **A candidate names the double.** -/
theorem names_candidate {x : Double} {magnitude : Int} {count n : Nat}
    (h : x.interval.candidate magnitude count = some n) : x.Names (n * 10 ^ (magnitude - count)) := by
  obtain ⟨up, down, hdown, hten, hholds⟩ := candidate_holds h
  have hnames := Double.names_of_holds hdown hholds
  rwa [Nat.cast_mul, mul_div_assoc, hten] at hnames

/-- **The shortest decimal of a double names it**, and does not begin with a zero. -/
theorem names_shortest {x : Double} (hx : ¬ x.isZero = true) (h : x.shortest.digits ≠ []) :
    x.Names (valueOf x.shortest) ∧ ∃ c ds, x.shortest.digits = c :: ds ∧ c ≠ '0' := by
  rw [shortest_eq hx] at h ⊢
  generalize hsearch : x.interval.search x.interval.magnitude 17 1 = result at h ⊢
  obtain ⟨n, count⟩ := result
  obtain ⟨hvalue, hpos, hhead⟩ := found_value h
  have hcandidate := (search_candidate _ _ hsearch).resolve_left (by omega)
  exact ⟨hvalue ▸ names_candidate hcandidate, hhead⟩

/-! ## Short reals -/

/-- **A decimal of few digits**, none of them far from the point.  With 16 digits before the point it would be
    written with more of them. -/
structure Brief (d : Decimal) : Prop where
  some_digits : d.digits ≠ []
  few_digits : d.digits.length ≤ 15
  near : (d.point - d.digits.length).natAbs ≤ 22
  not_sixteen : d.point ≠ 16

/-- **A text that spells a decimal** in numbers that are exact. -/
def SpellsExactly (text : List Char) (q : ℚ) : Prop :=
  ∃ significand e, Spells text significand e ∧ 0 < significand ∧ Double.Few significand ∧ e.natAbs ≤ 22 ∧
    (significand : ℚ) * 10 ^ e = q

namespace Brief

variable {d : Decimal} (h : Brief d) (hdigits : Digits d.digits)
  (hhead : ∃ c ds, d.digits = c :: ds ∧ c ≠ '0')
include h hdigits hhead

/-- The digits of a brief decimal make a positive number that fits. -/
theorem amount_bounds : 0 < amount d.digits ∧ amount d.digits < 10 ^ 15 := by
  obtain ⟨c, ds, hcons, hc⟩ := hhead
  refine ⟨?_, Nat.lt_of_lt_of_le (amount_lt hdigits) (Nat.pow_le_pow_right (by omega) h.few_digits)⟩
  rw [hcons] at hdigits ⊢
  exact amount_pos (hdigits c (List.mem_cons_self ..)) hc

/-- Where the digits themselves are spelled. -/
theorem exactly {text : List Char}
    (hspells : Spells text (amount d.digits) (d.point - d.digits.length)) : SpellsExactly text (valueOf d) := by
  obtain ⟨hpos, hlimit⟩ := h.amount_bounds hdigits hhead
  refine ⟨_, _, hspells, hpos, ⟨amount d.digits, 0, Nat.lt_trans hlimit (by decide), by decide, ?_⟩, h.near, rfl⟩
  rw [Nat.pow_zero, Nat.mul_one]

/-- A text whose point is before the digits spells the value. -/
theorem spells_before (hbefore : d.point ≤ 0) :
    SpellsExactly ('0' :: '.' :: (Double.zeros d.point.natAbs ++ d.digits)) (valueOf d) := by
  have hamount : amount (['0'] ++ (Double.zeros d.point.natAbs ++ d.digits)) = amount d.digits := by
    rw [amount_append, amount_zeros_append]
    exact (congrArg (· + _) (Nat.zero_mul _)).trans (Nat.zero_add _)
  have hscale : d.point - d.digits.length = -((Double.zeros d.point.natAbs ++ d.digits).length : Int) := by
    rw [List.length_append, length_zeros]
    omega
  refine h.exactly hdigits hhead ?_
  rw [hscale, ← hamount]
  have hlimit := (h.amount_bounds hdigits hhead).2
  refine spells_fraction (List.forall_mem_singleton.2 rfl) (fun _ => rfl) ((digits_zeros _).append hdigits)
    (List.append_ne_nil_of_right_ne_nil _ h.some_digits) ?_
  exact hamount ▸ Nat.lt_trans hlimit (by decide)

/-- A text whose point is among the digits spells the value. -/
theorem spells_among {n : Nat} (hpoint : d.point = n + 1) (hlength : n + 1 < d.digits.length) :
    SpellsExactly (d.digits.take (n + 1) ++ '.' :: d.digits.drop (n + 1)) (valueOf d) := by
  have hscale : d.point - d.digits.length = -((d.digits.drop (n + 1)).length : Int) := by
    rw [List.length_drop]
    omega
  have hamount := congrArg amount (List.take_append_drop (n + 1) d.digits)
  refine h.exactly hdigits hhead ?_
  have hlimit := (h.amount_bounds hdigits hhead).2
  rw [hscale, ← hamount]
  have hne : d.digits.drop (n + 1) ≠ [] := by
    rw [ne_eq, List.drop_eq_nil_iff]
    omega
  obtain ⟨c, ds, hcons, hc⟩ := hhead
  have hwhole : d.digits.take (n + 1) = c :: ds.take n := by rw [hcons, List.take_succ_cons]
  have htake := hdigits.take (n + 1)
  rw [hwhole] at htake hamount ⊢
  exact spells_fraction htake (fun hzero => absurd hzero hc) (hdigits.drop _) hne
    (hamount ▸ Nat.lt_trans hlimit (by decide))

/-- A text whose point is behind the digits, with zeros between, spells the value. -/
theorem spells_behind {n : Nat} (hpoint : d.point = d.digits.length + n) (hsmall : d.point ≤ 15) :
    SpellsExactly (d.digits ++ Double.zeros n ++ '.' :: ['0']) (valueOf d) := by
  obtain ⟨hpos, -⟩ := h.amount_bounds hdigits hhead
  have hamount : amount (d.digits ++ Double.zeros n ++ ['0']) = amount d.digits * 10 ^ n * 10 := by
    rw [amount_append, amount_append_zeros]
    rfl
  have hlimit : amount d.digits * 10 ^ n < 10 ^ 15 := by
    have hlt := amount_lt (hdigits.append (digits_zeros n))
    rw [amount_append_zeros, List.length_append, length_zeros] at hlt
    exact Nat.lt_of_lt_of_le hlt (Nat.pow_le_pow_right (by omega) (by omega))
  refine ⟨amount d.digits * 10 ^ n * 10, -1, ?_, by positivity, ?_, by decide, ?_⟩
  · have hword : amount d.digits * 10 ^ n * 10 < wordLimit :=
      Nat.lt_trans (Nat.mul_lt_mul_of_pos_right hlimit (by omega)) (by decide)
    rw [← hamount] at hword ⊢
    obtain ⟨c, ds, hcons, hc⟩ := hhead
    have hall := hdigits.append (digits_zeros n)
    rw [hcons, List.cons_append] at hall hword ⊢
    exact spells_fraction hall (fun hzero => absurd hzero hc) (List.forall_mem_singleton.2 rfl) (by simp) hword
  · refine ⟨amount d.digits * 10 ^ n * 5, 1, ?_, by decide, by omega⟩
    have hbits : 10 ^ 15 * 5 < 2 ^ 53 := by decide
    omega
  · have hscale : d.point - d.digits.length = n := by omega
    rw [valueOf, hscale, zpow_natCast]
    push_cast
    field_simp

/-- **Digits with a point** are spelled. -/
theorem spells_positional (hsmall : d.point ≤ 15) : SpellsExactly (Double.positional d) (valueOf d) := by
  unfold Double.positional
  by_cases hbefore : d.point ≤ 0
  · rw [if_pos hbefore, if_neg h.some_digits]
    exact h.spells_before hdigits hhead hbefore
  obtain ⟨n, hn⟩ : ∃ n : Nat, d.point = n + 1 := ⟨(d.point - 1).toNat, by omega⟩
  have hwhole : d.point.toNat = n + 1 := by omega
  simp only [if_neg hbefore, hwhole]
  rcases Nat.lt_or_ge (n + 1) d.digits.length with hamong | hbehind
  · have hne : d.digits.drop (n + 1) ≠ [] := by
      rw [ne_eq, List.drop_eq_nil_iff]
      omega
    rw [if_neg hne, Nat.sub_eq_zero_of_le (by omega)]
    rw [Double.zeros, List.replicate_zero, List.append_nil]
    exact h.spells_among hdigits hhead hn hamong
  · rw [List.drop_eq_nil_of_le hbehind, if_pos rfl, List.take_of_length_le hbehind]
    exact h.spells_behind hdigits hhead (by omega) hsmall

/-- **Digits with an exponent** are spelled. -/
theorem spells_exponential : SpellsExactly (Double.exponential d) (valueOf d) := by
  obtain ⟨hpos, hlimit⟩ := h.amount_bounds hdigits hhead
  have hlimit' : amount d.digits < wordLimit := Nat.lt_trans hlimit (by decide)
  refine h.exactly hdigits hhead ?_
  have hnear := h.near
  have hfew := h.few_digits
  obtain ⟨c, ds, hcons, hc⟩ := hhead
  have hlength : d.digits.length = ds.length + 1 := by rw [hcons, List.length_cons]
  have hscale : d.point - d.digits.length = d.point - 1 - ds.length := by omega
  have htext : Double.exponential d = [c] ++ (pointed ds ++ 'e' :: scaleText (d.point - 1)) := by
    unfold Double.exponential
    rw [hcons, List.append_assoc]
    rfl
  rw [htext, hscale]
  rw [hcons] at hdigits hlimit' ⊢
  exact spells_exponent hdigits hc hlimit' (by omega) (by omega)

end Brief

/-- **A short real** is zero, or its shortest decimal is one of few digits. -/
def Short (x : Double) : Prop := x.isZero = true ∨ x.Canonical ∧ Brief x.shortest

/-- The two zeros last. -/
theorem realLasts_zero {x : Double} (h : x.isZero = true) : realLasts x = true := by
  have hshortest : ∀ y : Double, y.isZero = true → y.shortest = ⟨[], 0⟩ := fun y hy => if_pos hy
  have htext : x.decimalText = (Double.zero x.negative).decimalText := by
    rw [decimalText_eq, decimalText_eq, magnitudeText, magnitudeText, hshortest x h, hshortest (.zero _) rfl]
    rfl
  have hrestored : restored x = restored (.zero x.negative) := by
    rw [restored, render, chars, htext, ← chars, ← render, ← restored]
  have hsame : ∀ j : Json, same j (real x) = same j (real (.zero x.negative)) := fun j =>
    same_congr j (by simp [same, Double.same, h]; exact .inl rfl)
  have hzero : ∀ negative, realLasts (.zero negative) = true := by decide +kernel
  unfold realLasts at hzero ⊢
  rw [hrestored]
  simp only [hsame, hzero]

/-- **A canonical double of few digits comes back as it was.** -/
theorem restored_brief {x : Double} (hx : ¬ x.isZero = true) (hcanonical : x.Canonical) (h : Brief x.shortest) :
    restored x = some (.real x) := by
  obtain ⟨hnames, hhead⟩ := names_shortest hx h.some_digits
  have hpos : 0 < x.mantissa := Nat.pos_of_ne_zero fun hzero => hx (beq_iff_eq.2 hzero)
  obtain ⟨significand, e, hspells, hsignificand, hfew, he, hvalue⟩ :
      SpellsExactly (magnitudeText x) (valueOf x.shortest) := by
    have hdigits := digits_shortest x
    have hnot := h.not_sixteen
    unfold magnitudeText
    split
    · exact h.spells_positional hdigits hhead (by omega)
    · exact h.spells_exponential hdigits hhead
  have hread : numeral x.negative (magnitudeText x ++ []) = .ok (.real x, []) := by
    rw [hspells.numeral_eq _ [] trivial, hcanonical.assemble_eq hpos hsignificand hfew he (hvalue ▸ hnames)]
    rfl
  refine parse_of_reads (show Reads (some (real x)) [] _ from ?_)
  show valueIn _ (x.decimalText ++ []) = .ok (.real x, [])
  rw [decimalText_eq]
  cases hnegative : x.negative with
  | true =>
    rw [hnegative] at hread
    rw [if_pos rfl, List.cons_append, valueIn_minus, hread]
    rfl
  | false =>
    rw [hnegative] at hread
    obtain ⟨c, cs, htext, hc⟩ := hspells.begins
    rw [htext] at hread ⊢
    rw [if_neg Bool.false_ne_true, List.cons_append, valueIn_digit hc]
    rw [List.cons_append] at hread
    rw [hread]
    rfl

/-- **Short reals last.** -/
theorem Short.realLasts {x : Double} (h : Short x) : realLasts x = true := by
  by_cases hzero : x.isZero = true
  · exact realLasts_zero hzero
  · obtain ⟨hcanonical, hbrief⟩ := h.resolve_left hzero
    rw [Json.realLasts, restored_brief hzero hcanonical hbrief]
    show (_ || x == x) = true
    rw [beq_self_eq_true, Bool.or_true]

end Idempotence.Json
