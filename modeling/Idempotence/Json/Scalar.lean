/-
  Reading the scalars of JSON: words, strings and numbers.

  STRINGS decode their escapes; a pair of surrogate escapes is one character, a lone one is a fault.

  NUMBERS.  A literal without point and exponent that fits is an integer: from 0 to 2^64 − 1, or
  negative and not below −2^63.  Every other literal is a real, computed the quick way: up to 19 or
  20 digits are gathered into a 64-bit significand, the digits that no longer fit only move the
  exponent or are dropped, and the significand is then multiplied or divided by a power of ten.  The
  result is therefore not always the double nearest to the literal.  A literal whose value exceeds the
  largest double is a fault; `-0` is a real.

  The functions named `skip…` pass over a scalar without computing it.
-/
import Idempotence.Json.Fault
import Idempotence.Number.Double

namespace Idempotence.Json

/-- The text behind the blanks: space, tab, line feed and carriage return. -/
def skipBlanks (cs : List Char) : List Char :=
  cs.dropWhile fun c => c == ' ' || c == '\t' || c == '\n' || c == '\r'

/-- Passes over the given word. -/
def skipWord : List Char → List Char → Except Fault (List Char)
  | [], cs => .ok cs
  | _ :: _, [] => failAt .endInValue []
  | w :: word, c :: cs => if c = w then skipWord word cs else failPeeking .expectedWord (c :: cs)

/-! ## Strings -/

/-- The value of a hexadecimal digit. -/
def hexValue (c : Char) : Option Nat :=
  if '0' ≤ c ∧ c ≤ '9' then some (c.toNat - '0'.toNat)
  else if 'a' ≤ c ∧ c ≤ 'f' then some (c.toNat - 'a'.toNat + 10)
  else if 'A' ≤ c ∧ c ≤ 'F' then some (c.toNat - 'A'.toNat + 10)
  else none

/-- The four hexadecimal digits of an escape.  Fewer than four bytes are an unfinished string. -/
def hexEscape (cs : List Char) : Except Fault (Parsed Nat) :=
  match cs with
  | a :: b :: c :: d :: rest =>
    match hexValue a, hexValue b, hexValue c, hexValue d with
    | some a, some b, some c, some d => .ok (((a * 16 + b) * 16 + c) * 16 + d, rest)
    | _, _, _, _ => .error ⟨.invalidEscape, cs, 4⟩
  | _ => if byteCount cs < 4 then failAt .endInString [] else .error ⟨.invalidEscape, cs, 4⟩

/-- Whether the number is the first half of a surrogate pair. -/
def isLeading (n : Nat) : Bool := 0xD800 ≤ n && n ≤ 0xDBFF

/-- Whether the number is the second half of a surrogate pair. -/
def isTrailing (n : Nat) : Bool := 0xDC00 ≤ n && n ≤ 0xDFFF

/-- The second half of a pair whose first half is `high`. -/
def secondHalf (high : Nat) (cs : List Char) : Except Fault (Parsed Char) :=
  match cs with
  | [] => failAt .endInString []
  | '\\' :: [] => failAt .endInString []
  | '\\' :: 'u' :: rest => do
    let (low, rest) ← hexEscape rest
    if isTrailing low then
      .ok (Char.ofNat ((high - 0xD800) * 0x400 + (low - 0xDC00) + 0x10000), rest)
    else failAt .loneSurrogate rest
  | '\\' :: rest => failPeeking .unfinishedSurrogate rest
  | rest => failPeeking .unfinishedSurrogate rest

/-- The character of an escape, behind its backslash. -/
def escape (cs : List Char) : Except Fault (Parsed Char) :=
  match cs with
  | [] => failAt .endInString []
  | '"' :: rest => .ok ('"', rest)
  | '\\' :: rest => .ok ('\\', rest)
  | '/' :: rest => .ok ('/', rest)
  | 'b' :: rest => .ok ('\x08', rest)
  | 'f' :: rest => .ok ('\x0c', rest)
  | 'n' :: rest => .ok ('\n', rest)
  | 'r' :: rest => .ok ('\r', rest)
  | 't' :: rest => .ok ('\t', rest)
  | 'u' :: rest => do
    let (n, rest) ← hexEscape rest
    if isTrailing n then failAt .loneSurrogate rest
    else if isLeading n then secondHalf n rest
    else .ok (Char.ofNat n, rest)
  | c :: rest => failPeeking .invalidEscape (c :: rest)

/-- The characters up to the closing quote.  `fuel` bounds the number of characters. -/
def stringBody : (fuel : List Char) → List Char → Except Fault (Parsed (List Char))
  | [], _ => failAt .endInString []
  | _ :: _, [] => failAt .endInString []
  | _ :: _, '"' :: rest => .ok ([], rest)
  | _ :: fuel, '\\' :: rest => do
    let (c, rest) ← escape rest
    let (cs, rest) ← stringBody fuel rest
    .ok (c :: cs, rest)
  | _ :: fuel, c :: rest =>
    if c.toNat < 0x20 then failAt .controlInString rest
    else do
      let (cs, rest) ← stringBody fuel rest
      .ok (c :: cs, rest)

/-- **A string**, behind its opening quote. -/
def stringRest (cs : List Char) : Except Fault (Parsed String) := do
  let (s, rest) ← stringBody cs cs
  .ok (String.ofList s, rest)

/-- Passes over a string behind its opening quote.  Surrogates need not pair up here. -/
def skipString : (fuel : List Char) → List Char → Except Fault (List Char)
  | [], _ => failAt .endInString []
  | _ :: _, [] => failAt .endInString []
  | _ :: _, '"' :: rest => .ok rest
  | _ :: fuel, '\\' :: 'u' :: rest => do
    let (_, rest) ← hexEscape rest
    skipString fuel rest
  | _ :: fuel, '\\' :: rest => do
    let (_, rest) ← escape rest
    skipString fuel rest
  | _ :: fuel, c :: rest =>
    if c.toNat < 0x20 then failAt .controlInString rest else skipString fuel rest

/-! ## Numbers -/

/-- The value of a decimal digit. -/
def digit? (c : Char) : Option Nat :=
  if '0' ≤ c ∧ c ≤ '9' then some (c.toNat - '0'.toNat) else none

/-- Whether the text goes on with a digit. -/
def startsWithDigit : List Char → Bool
  | c :: _ => (digit? c).isSome
  | [] => false

/-- The text behind a run of digits. -/
def skipDigits (cs : List Char) : List Char := cs.dropWhile fun c => (digit? c).isSome

/-- The first number that no longer fits 64 bits. -/
def wordLimit : Nat := twoTo 64

/-- The largest exponent that is kept as written. -/
def exponentLimit : Nat := twoTo 31 - 1

/-- **A number**: an integer or a real. -/
inductive Numeral where
  | integer (n : Int)
  | real (x : Double)
  deriving DecidableEq, Repr

/-- The powers of ten that a double can be multiplied or divided by at once go up to 10^308. -/
def largestPower : Nat := 308

/-- `x · 10^e`, in one multiplication or in as many divisions as it takes.  Nothing if it exceeds the
    largest double.  `fuel` bounds the number of divisions; they reach zero in a few. -/
def scaleByTen (x : Double) : (fuel : Nat) → (e : Int) → Option Double
  | 0, _ => some x
  | fuel + 1, e =>
    if e.natAbs ≤ largestPower then
      if 0 ≤ e then x.timesPowerOfTen e.natAbs else x.overPowerOfTen e.natAbs
    else if x.isZero then some x
    else if 0 ≤ e then none
    else do scaleByTen (← x.overPowerOfTen largestPower) fuel (e + largestPower)

/-- The real with the given significand and exponent. -/
def assemble (negative : Bool) (significand : Nat) (e : Int) (rest : List Char) : Except Fault (Parsed Double) :=
  match Double.ofNat significand >>= fun x => scaleByTen x 8 e with
  | some x => .ok (if negative then x.negate else x, rest)
  | none => failAt .numberOutOfRange rest

/-- The digits of an exponent, capped.  Nothing once they exceed the limit; the text is then the one
    behind the digit that exceeded it. -/
def exponentDigits : Nat → List Char → Option Nat × List Char
  | e, c :: rest => match digit? c with
    | some d => if exponentLimit < e * 10 + d then (none, rest) else exponentDigits (e * 10 + d) rest
    | none => (some e, c :: rest)
  | e, [] => (some e, [])

/-- The sum within the range of exponents that are kept. -/
def clampExponent (e : Int) : Int := max (-(twoTo 31)) (min exponentLimit e)

/-- A real from its exponent letter on. -/
def exponentPart (negative : Bool) (significand : Nat) (e : Int) (cs : List Char) : Except Fault (Parsed Double) :=
  let (down, cs) := match cs with
    | '+' :: rest => (false, rest)
    | '-' :: rest => (true, rest)
    | rest => (false, rest)
  match cs with
  | [] => failAt .endInValue []
  | c :: rest => match digit? c with
    | none => failPeeking .invalidNumber (c :: rest)
    | some d => match exponentDigits d rest with
      | (some x, rest) =>
        assemble negative significand (clampExponent (if down then e - x else e + x)) rest
      | (none, rest) =>
        if significand ≠ 0 ∧ !down then failAt .numberOutOfRange rest
        else .ok (Double.zero negative, skipDigits rest)

/-- What may follow the digits of a real: an exponent or nothing. -/
def afterDigits (negative : Bool) (significand : Nat) (e : Int) (cs : List Char) : Except Fault (Parsed Double) :=
  match cs with
  | 'e' :: rest => exponentPart negative significand e rest
  | 'E' :: rest => exponentPart negative significand e rest
  | rest => assemble negative significand e rest

/-- The digits behind the point: gathered while they fit, the others dropped.  Yields the
    significand, how many were gathered, and the text behind all of them. -/
def fractionDigits (significand : Nat) (count : Nat) : List Char → Nat × Nat × List Char
  | c :: rest => match digit? c with
    | some d =>
      if wordLimit ≤ significand * 10 + d then (significand, count, skipDigits rest)
      else fractionDigits (significand * 10 + d) (count + 1) rest
    | none => (significand, count, c :: rest)
  | [] => (significand, count, [])

/-- A real from behind its point on; there must be a digit. -/
def fractionPart (negative : Bool) (significand : Nat) (e : Int) (cs : List Char) : Except Fault (Parsed Double) :=
  if startsWithDigit cs then
    let (significand, count, rest) := fractionDigits significand 0 cs
    afterDigits negative significand (e - count) rest
  else failPeeking (if cs = [] then .endInValue else .invalidNumber) cs

/-- An integer that exceeds 64 bits: its further digits only raise the exponent. -/
def longInteger (negative : Bool) (significand : Nat) (e : Int) : List Char → Except Fault (Parsed Double)
  | '.' :: rest => fractionPart negative significand e rest
  | c :: rest => match digit? c with
    | some _ => longInteger negative significand (e + 1) rest
    | none => afterDigits negative significand e (c :: rest)
  | [] => afterDigits negative significand e []

/-- What may follow the digits of an integer that fits. -/
def afterInteger (negative : Bool) (significand : Nat) (cs : List Char) : Except Fault (Parsed Numeral) :=
  let real (r : Except Fault (Parsed Double)) : Except Fault (Parsed Numeral) := r.map fun (x, rest) => (.real x, rest)
  match cs with
  | '.' :: rest => real (fractionPart negative significand 0 rest)
  | 'e' :: rest => real (exponentPart negative significand 0 rest)
  | 'E' :: rest => real (exponentPart negative significand 0 rest)
  | rest =>
    if !negative then .ok (.integer significand, rest)
    else if significand = 0 ∨ twoTo 63 < significand then real (assemble true significand 0 rest)
    else .ok (.integer (-significand), rest)

/-- The further digits of an integer. -/
def integerDigits (negative : Bool) (significand : Nat) : List Char → Except Fault (Parsed Numeral)
  | c :: rest => match digit? c with
    | some d =>
      if wordLimit ≤ significand * 10 + d then
        (longInteger negative significand 0 (c :: rest)).map fun (x, rest) => (.real x, rest)
      else integerDigits negative (significand * 10 + d) rest
    | none => afterInteger negative significand (c :: rest)
  | [] => afterInteger negative significand []

/-- **A number**, behind its sign. -/
def numeral (negative : Bool) (cs : List Char) : Except Fault (Parsed Numeral) :=
  match cs with
  | [] => failAt .endInValue []
  | '0' :: rest =>
    if startsWithDigit rest then failPeeking .invalidNumber rest else afterInteger negative 0 rest
  | c :: rest => match digit? c with
    | some d => integerDigits negative d rest
    | none => failPeeking .invalidNumber (c :: rest)

/-- Passes over an exponent, behind its letter. -/
def skipExponent (cs : List Char) : Except Fault (List Char) :=
  let cs := match cs with
    | '+' :: rest => rest
    | '-' :: rest => rest
    | rest => rest
  match cs with
  | c :: rest => if (digit? c).isSome then .ok (skipDigits rest) else failAt .invalidNumber rest
  | [] => failAt .invalidNumber []

/-- Passes over a number, behind its sign. -/
def skipNumeral (cs : List Char) : Except Fault (List Char) := do
  let rest ← match cs with
    | [] => failAt .invalidNumber []
    | '0' :: rest => if startsWithDigit rest then failPeeking .invalidNumber rest else .ok rest
    | c :: rest => if (digit? c).isSome then .ok (skipDigits rest) else failAt .invalidNumber rest
  match rest with
  | '.' :: rest =>
    if startsWithDigit rest then
      match skipDigits rest with
      | 'e' :: rest => skipExponent rest
      | 'E' :: rest => skipExponent rest
      | rest => .ok rest
    else failPeeking .invalidNumber rest
  | 'e' :: rest => skipExponent rest
  | 'E' :: rest => skipExponent rest
  | rest => .ok rest

end Idempotence.Json
