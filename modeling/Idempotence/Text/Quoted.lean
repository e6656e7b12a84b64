/-
  Quoted text — strings as they stand in messages for developers.

  A string is put in quotes.  The quote and the backslash get a backslash, as do NUL, tab, line feed
  and carriage return (`\0 \t \n \r`); every other unprintable character is written by its code point,
  `\u` and lowercase hexadecimal digits in braces.  All other characters stand for themselves.
-/
import Idempotence.Text.Unprintable

namespace Idempotence.Text

/-- **One character of a quoted text.** -/
def quotedChar (c : Char) : List Char :=
  if c = '"' ∨ c = '\\' then ['\\', c]
  else if c = '\x00' then ['\\', '0']
  else if c = '\t' then ['\\', 't']
  else if c = '\n' then ['\\', 'n']
  else if c = '\r' then ['\\', 'r']
  else if isUnprintable c then '\\' :: 'u' :: '{' :: Nat.toDigits 16 c.toNat ++ ['}']
  else [c]

/-- **A text in quotes.** -/
def quote (s : String) : String := String.ofList ('"' :: s.toList.flatMap quotedChar ++ ['"'])

/-- Items in brackets, separated by commas. -/
def bracketed (items : List String) : String := "[" ++ ", ".intercalate items ++ "]"

end Idempotence.Text
