/-
  Faults of a JSON text: what is wrong, and where.

  A reader that fails hands back the characters it had not consumed yet, and how many further BYTES
  it had already looked at.  From these and the whole text `Fault.message` finds the line and the
  column: lines end at line feeds, and a column counts bytes since the last of them.
-/

namespace Idempotence.Json

/-- **What is wrong with a text.** -/
inductive Cause where
  | endInList
  | endInObject
  | endInString
  | endInValue
  | expectedColon
  | expectedListEnd
  | expectedObjectEnd
  | expectedWord
  | expectedValue
  | invalidEscape
  | invalidNumber
  | numberOutOfRange
  | controlInString
  | keyNotString
  | loneSurrogate
  | unfinishedSurrogate
  | trailingComma
  | trailingCharacters
  | tooDeep
  /-- The text is well-formed but is not the text of the value that was asked for. -/
  | otherValue
  deriving DecidableEq, Repr

/-- The wording of a cause. -/
def Cause.message : Cause → String
  | endInList => "EOF while parsing a list"
  | endInObject => "EOF while parsing an object"
  | endInString => "EOF while parsing a string"
  | endInValue => "EOF while parsing a value"
  | expectedColon => "expected `:`"
  | expectedListEnd => "expected `,` or `]`"
  | expectedObjectEnd => "expected `,` or `\x7d`"
  | expectedWord => "expected ident"
  | expectedValue => "expected value"
  | invalidEscape => "invalid escape"
  | invalidNumber => "invalid number"
  | numberOutOfRange => "number out of range"
  | controlInString => "control character (\\u0000-\\u001F) found while parsing a string"
  | keyNotString => "key must be a string"
  | loneSurrogate => "lone leading surrogate in hex escape"
  | unfinishedSurrogate => "unexpected end of hex escape"
  | trailingComma => "trailing comma"
  | trailingCharacters => "trailing characters"
  | tooDeep => "recursion limit exceeded"
  | otherValue => "invalid value"

/-- **A fault**: its cause, the text from the point of failure on, and how many bytes of that text
    had been looked at. -/
structure Fault where
  cause : Cause
  rest : List Char
  ahead : Nat
  deriving DecidableEq, Repr

/-- Number of bytes of a text. -/
def byteCount (cs : List Char) : Nat := (String.ofList cs).utf8ByteSize

/-- Number of bytes of `text` that had been consumed or looked at when the fault arose. -/
def Fault.offset (f : Fault) (text : String) : Nat :=
  min text.utf8ByteSize (text.utf8ByteSize - byteCount f.rest + f.ahead)

/-- **The wording of a fault** in the text it was found in. -/
def Fault.message (f : Fault) (text : String) : String :=
  let read := text.toUTF8.toList.take (f.offset text)
  let line := read.count 10 + 1
  let column := (read.reverse.takeWhile (· != 10)).length
  s!"{f.cause.message} at line {line} column {column}"

/-- What reading yields: a value and the text behind it. -/
abbrev Parsed (α : Type) := α × List Char

/-- Failing at the start of `rest`, nothing of it looked at. -/
def failAt {α : Type} (cause : Cause) (rest : List Char) : Except Fault α :=
  .error ⟨cause, rest, 0⟩

/-- Failing after a look at the first byte of `rest`. -/
def failPeeking {α : Type} (cause : Cause) (rest : List Char) : Except Fault α :=
  .error ⟨cause, rest, 1⟩

end Idempotence.Json
