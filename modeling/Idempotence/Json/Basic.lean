/-
  JSON documents.

  A number is an INTEGER or a REAL, as its literal was written, and the two never agree: `1` is not
  `1.0`.  The members of an object are kept in the order of their names, one per name, so a document
  has one form and comparing documents is comparing forms — except that the two real zeros agree
  (`Json.same`).

  Phase outputs, process inputs and message payloads are all such documents.
-/
import Idempotence.Number.Double
import Idempotence.Table

namespace Idempotence

/-- **A JSON document.**  Objects list their members by increasing name, see `Json.ofMembers`. -/
inductive Json where
  | null
  | bool (b : Bool)
  | integer (n : Int)
  | real (x : Double)
  | string (s : String)
  | array (items : List Json)
  | object (members : List (String × Json))
  deriving Inhabited, Repr

namespace Json

/-- The object of the given members; of two members with one name the later wins. -/
def ofMembers (members : List (String × Json)) : Json := object (Table.ofList members).entries

/-- The array of strings. -/
def strings (l : List String) : Json := array (l.map string)

/-- A natural number as a document. -/
def nat (n : Nat) : Json := integer n

/-! ## Agreement of documents -/

mutual

/-- **Whether two documents are equal**, real numbers compared by their values. -/
def same : Json → Json → Bool
  | null, null => true
  | bool a, bool b => a == b
  | integer m, integer n => m == n
  | real x, real y => x.same y
  | string s, string t => s == t
  | array xs, array ys => sameItems xs ys
  | object xs, object ys => sameMembers xs ys
  | _, _ => false

/-- Item by item. -/
def sameItems : List Json → List Json → Bool
  | [], [] => true
  | x :: xs, y :: ys => same x y && sameItems xs ys
  | _, _ => false

/-- Member by member. -/
def sameMembers : List (String × Json) → List (String × Json) → Bool
  | [], [] => true
  | (s, x) :: xs, (t, y) :: ys => s == t && same x y && sameMembers xs ys
  | _, _ => false

end

/-! ## Access -/

/-- The member of that name, if the document is an object that has it. -/
def get? (j : Json) (name : String) : Option Json :=
  match j with
  | object members => Table.lookup name members
  | _ => none

end Json

end Idempotence
