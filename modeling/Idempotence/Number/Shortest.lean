/-
  Shortest decimals — the fewest decimal digits that still name a given double.

  A decimal names a double when the double is the one nearest to it, that is when it lies in the
  double's ROUNDING INTERVAL: half way down to the lower neighbour, half way up to the upper one, the
  ends included iff the mantissa is even.  For 1, 2, … 17 digits we try the two decimals of that many
  digits around the value; the first count with a hit wins, of two hits the nearer, of two equally
  near ones the even one.  All comparisons are exact comparisons of naturals.

  `decimalText` then lays the digits out: positionally from 0.00001 up to below 10^16, always with a
  fraction, and otherwise with a signed exponent.
-/
import Idempotence.Number.Double

namespace Idempotence

/-- **A decimal** `0.d₁d₂… · 10^point`, without trailing zeros. -/
structure Decimal where
  digits : List Char
  point : Int
  deriving DecidableEq, Repr

namespace Double

/-- The rounding interval, its ends and the value as numerators over one denominator. -/
structure Interval where
  low : Nat
  value : Nat
  high : Nat
  denominator : Nat
  closed : Bool

/-- The rounding interval of a double.  Just above a power of two the lower neighbour is nearer. -/
def interval (x : Double) : Interval :=
  let m := x.mantissa
  let half := if m = twoTo 52 ∧ x.exponent ≠ leastExponent then 1 else 2
  let (up, down) := if x.exponent < 0 then (1, twoTo x.exponent.natAbs) else (twoTo x.exponent.natAbs, 1)
  { low := (4 * m - half) * up
    value := 4 * m * up
    high := (4 * m + 2) * up
    denominator := 4 * down
    closed := m % 2 == 0 }

/-- Whether the quotient `n / d` lies in the interval. -/
def Interval.holds (i : Interval) (n d : Nat) : Bool :=
  let a := n * i.denominator
  if i.closed then decide (i.low * d ≤ a ∧ a ≤ i.high * d) else decide (i.low * d < a ∧ a < i.high * d)

/-- Number of decimal digits of a natural. -/
def digitCount (n : Nat) : Nat := (Nat.toDigits 10 n).length

/-- How far a positive value is to be scaled up to have an integral part: 10^400 is enough. -/
def scaleUp : Nat := 400

/-- The least `k` with `value < 10^k`. -/
def Interval.magnitude (i : Interval) : Int :=
  (digitCount (i.value * tenTo scaleUp / i.denominator) : Int) - scaleUp

/-- The decimal of `count` digits that names the double, if there is one: its digits as a natural. -/
def Interval.candidate (i : Interval) (magnitude : Int) (count : Nat) : Option Nat :=
  let e := magnitude - count
  let (up, down) := if e < 0 then (1, tenTo e.natAbs) else (tenTo e.natAbs, 1)
  let below := i.value * down / (i.denominator * up)
  let above := below + 1
  match i.holds (below * up) down, i.holds (above * up) down with
  | false, false => none
  | true, false => some below
  | false, true => some above
  | true, true =>
    let toBelow := i.value * down - below * up * i.denominator
    let toAbove := above * up * i.denominator - i.value * down
    if toBelow < toAbove ∨ (toBelow = toAbove ∧ below % 2 = 0) then some below else some above

/-- The first digit count with a candidate; 17 digits always have one. -/
def Interval.search (i : Interval) (magnitude : Int) : (tries count : Nat) → Nat × Nat
  | 0, count => (0, count)
  | tries + 1, count => match i.candidate magnitude count with
    | some digits => (digits, count)
    | none => i.search magnitude tries (count + 1)

/-- **The shortest decimal that names the magnitude of a double.** -/
def shortest (x : Double) : Decimal :=
  if x.isZero then ⟨[], 0⟩ else
  let i := x.interval
  let k := i.magnitude
  let (n, count) := i.search k 17 1
  let digits := Nat.toDigits 10 n
  { digits := (digits.reverse.dropWhile (· == '0')).reverse
    point := k + (digits.length - count) }

/-! ## Laying the digits out -/

/-- `count` zeros. -/
def zeros (count : Nat) : List Char := List.replicate count '0'

/-- The digits with the point among, before or behind them; always with a fraction. -/
def positional (d : Decimal) : List Char :=
  if d.point ≤ 0 then '0' :: '.' :: (zeros d.point.natAbs ++ (if d.digits = [] then ['0'] else d.digits))
  else
    let whole := d.point.toNat
    let fraction := d.digits.drop whole
    d.digits.take whole ++ zeros (whole - d.digits.length) ++ '.' :: (if fraction = [] then ['0'] else fraction)

/-- One digit before the point, a fraction only if there are more, and a signed exponent. -/
def exponential (d : Decimal) : List Char :=
  let e := d.point - 1
  let fraction := d.digits.drop 1
  d.digits.take 1 ++ (if fraction = [] then [] else '.' :: fraction)
    ++ 'e' :: (if e < 0 then '-' else '+') :: Nat.toDigits 10 e.natAbs

/-- **The text of a double**: its shortest digits, positional from `0.00001` to below `10^16`. -/
def decimalText (x : Double) : List Char :=
  let d := x.shortest
  let text := if -5 < d.point ∧ d.point ≤ 16 then positional d else exponential d
  if x.negative then '-' :: text else text

end Double

end Idempotence
