/-
  Identifiers of processes, phases and inputs.

  An identifier starts with an ASCII letter or an underscore; ASCII letters, digits, hyphens, dots and
  underscores follow.  Identifiers with an underscore in front are the library's own.
-/

namespace Idempotence.Identifier

/-- The grammar, as error messages quote it. -/
def grammar : String := "[_a-zA-Z][-.a-zA-Z0-9_]*"

/-- Whether an identifier may start with the character. -/
def isStart (c : Char) : Bool := c.isAlpha || c == '_'

/-- Whether an identifier may go on with the character. -/
def isPart (c : Char) : Bool := c.isAlphanum || c == '-' || c == '.' || c == '_'

/-- **Whether a text is an identifier.** -/
def isValid (id : String) : Bool :=
  match id.toList with
  | [] => false
  | c :: rest => isStart c && rest.all isPart

end Idempotence.Identifier
