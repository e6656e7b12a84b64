/-
  Printing JSON, compactly: no blanks at all, members in the order in which the object lists them.

  A string escapes the quote, the backslash and the controls below U+0020, the five with a letter by
  that letter and the others as `\u00` and two lowercase digits; every other character stands for
  itself.  An integer is printed in decimal, a real number with its shortest digits.

  `Json.render` is the text form that is stored, compared and sent; `Idempotence.Json.Reader` reads it.
-/
import Idempotence.Json.Basic
import Idempotence.Number.Shortest

namespace Idempotence.Json

/-- A lowercase hexadecimal digit. -/
def hexDigit (n : Nat) : Char := Nat.digitChar n

/-- **One character of a string**, escaped where the format demands it. -/
def escaped (c : Char) : List Char :=
  if c = '"' then ['\\', '"']
  else if c = '\\' then ['\\', '\\']
  else if c = '\x08' then ['\\', 'b']
  else if c = '\x0c' then ['\\', 'f']
  else if c = '\n' then ['\\', 'n']
  else if c = '\r' then ['\\', 'r']
  else if c = '\t' then ['\\', 't']
  else if c.toNat < 0x20 then ['\\', 'u', '0', '0', hexDigit (c.toNat / 16), hexDigit (c.toNat % 16)]
  else [c]

/-- A string in its quotes. -/
def quoted (s : String) : List Char := '"' :: s.toList.flatMap escaped ++ ['"']

/-- A decimal integer. -/
def decimal (n : Int) : List Char :=
  if n < 0 then '-' :: Nat.toDigits 10 n.natAbs else Nat.toDigits 10 n.natAbs

mutual

/-- **The text of a document**, as characters. -/
def chars : Json → List Char
  | null => "null".toList
  | bool true => "true".toList
  | bool false => "false".toList
  | integer n => decimal n
  | real x => x.decimalText
  | string s => quoted s
  | array [] => ['[', ']']
  | array (x :: xs) => '[' :: chars x ++ itemChars xs
  | object [] => ['{', '}']
  | object ((s, x) :: xs) => '{' :: quoted s ++ ':' :: chars x ++ memberChars xs

/-- The further items of an array, and its end. -/
def itemChars : List Json → List Char
  | [] => [']']
  | x :: xs => ',' :: chars x ++ itemChars xs

/-- The further members of an object, and its end. -/
def memberChars : List (String × Json) → List Char
  | [] => ['}']
  | (s, x) :: xs => ',' :: quoted s ++ ':' :: chars x ++ memberChars xs

end

/-- **The text of a document.** -/
def render (j : Json) : String := String.ofList j.chars

end Idempotence.Json
