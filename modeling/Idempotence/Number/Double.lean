/-
  Doubles — the finite double-precision numbers, in exact integer arithmetic.

  A double is `± mantissa · 2^exponent` in the one canonical form of the format: either the mantissa
  has 53 bits, or the exponent is the least one (−1074) and the number is subnormal or zero.

  Everything is computed by ONE function, `nearest`: the double closest to a quotient of naturals,
  a tie going to the even mantissa, and nothing at all beyond the largest double.  Products and
  quotients of doubles are exact quotients of naturals first and rounded once.
-/
import Idempotence.Number.Power

namespace Idempotence

/-- **A finite double**: `± mantissa · 2^exponent`. -/
structure Double where
  negative : Bool
  mantissa : Nat
  exponent : Int
  deriving DecidableEq, Repr, Inhabited

namespace Double

/-- Number of bits of a full mantissa. -/
def precision : Nat := 53

/-- The least exponent; below a full mantissa no other one is used. -/
def leastExponent : Int := -1074

/-- The greatest exponent of a finite double. -/
def greatestExponent : Int := 971

/-- Zero with a sign. -/
def zero (negative : Bool) : Double := ⟨negative, 0, leastExponent⟩

/-- Whether the double is one of the two zeros. -/
def isZero (x : Double) : Bool := x.mantissa == 0

/-- The double with the other sign. -/
def negate (x : Double) : Double := { x with negative := !x.negative }

/-- **Numeric equality**: the two zeros are equal, all other doubles only to themselves. -/
def same (x y : Double) : Bool := (x.isZero && y.isZero) || x == y

/-- The quotient rounded to the nearest natural, a tie to the even one. -/
def roundedQuotient (num den : Nat) : Nat :=
  let q := num / den
  let twice := 2 * (num % den)
  if den < twice ∨ (twice = den ∧ q % 2 = 1) then q + 1 else q

/-- `num / den / 2^e` as a quotient of naturals. -/
def scaled (num den : Nat) (e : Int) : Nat × Nat :=
  if e < 0 then (num * twoTo e.natAbs, den) else (num, den * twoTo e.natAbs)

/-- The exponent at which the quotient has a mantissa of 53 bits, but at least `leastExponent`. -/
def targetExponent (num den : Nat) : Int :=
  let guess : Int := (num.log2 : Int) - den.log2 - 52
  let (n, d) := scaled num den guess
  max leastExponent (if n < d * twoTo 52 then guess - 1 else guess)

/-- **The double nearest to `± num / den`**, or nothing where that exceeds the largest double. -/
def nearest (negative : Bool) (num den : Nat) : Option Double :=
  if num = 0 then some (zero negative) else
  let e := targetExponent num den
  let (n, d) := scaled num den e
  let m := roundedQuotient n d
  let (m, e) := if m = twoTo precision then (twoTo 52, e + 1) else (m, e)
  if greatestExponent < e then none else some ⟨negative, m, e⟩

/-- The magnitude as an exact quotient of naturals. -/
def quotient (x : Double) : Nat × Nat :=
  if x.exponent < 0 then (x.mantissa, twoTo x.exponent.natAbs)
  else (x.mantissa * twoTo x.exponent.natAbs, 1)

/-- The double nearest to a natural. -/
def ofNat (n : Nat) : Option Double := nearest false n 1

/-- The double nearest to `x · 10^k`, for a power of ten that is itself rounded first. -/
def timesPowerOfTen (x : Double) (k : Nat) : Option Double := do
  let p ← ofNat (tenTo k)
  let (a, b) := x.quotient
  let (c, d) := p.quotient
  nearest x.negative (a * c) (b * d)

/-- The double nearest to `x / 10^k`, for a power of ten that is itself rounded first. -/
def overPowerOfTen (x : Double) (k : Nat) : Option Double := do
  let p ← ofNat (tenTo k)
  let (a, b) := x.quotient
  let (c, d) := p.quotient
  nearest x.negative (a * d) (b * c)

end Double

end Idempotence
