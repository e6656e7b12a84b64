/-
  Key codes — addresses as single texts.

  The durable store knows only texts as keys.  The code of an address is

      `<bytes of the process>:<process><bytes of the key>:<key><record>`

  and the lengths in it keep instances apart whatever the key contains: the code of an instance is the
  beginning of the codes of its own addresses and of no others.  A code that is longer than `limit`
  bytes cannot be stored.
-/
import Idempotence.RecordKey

namespace Idempotence

namespace KeyCode

/-- A text with its length in bytes in front. -/
def measured (s : String) : String := s!"{s.utf8ByteSize}:{s}"

/-- **The code of an instance.** -/
def ofInstance (process key : String) : String := measured process ++ measured key

/-- **The code of an address.** -/
def ofKey (k : RecordKey) : String := ofInstance k.process k.key ++ k.record

/-- The most bytes that a stored key may have. -/
def limit : Nat := 511

/-- Whether a text can be a stored key. -/
def fits (code : String) : Bool := code.utf8ByteSize ≤ limit

/-- What follows the code of an instance in the code of one of its addresses. -/
def record? (process key code : String) : Option String :=
  let start := (ofInstance process key).toList
  if start.isPrefixOf code.toList then some (String.ofList (code.toList.drop start.length)) else none

end KeyCode

end Idempotence
