/-
  Paths — where a file lies, as it is written.

  A path is a text.  Two texts name the same place when they have the same PARTS: the pieces between
  the slashes, without the empty ones and the single dots.  Only in front these count, where an empty
  piece stands for the root and a dot for the current directory.  Two dots are a part like any other.
-/

namespace Idempotence.Path

/-- The pieces between the slashes. -/
def pieces : List Char → List (List Char)
  | [] => [[]]
  | c :: rest => if c = '/' then [] :: pieces rest else (pieces rest).modifyHead (c :: ·)

/-- Whether a piece behind the first is a part. -/
def isPart (piece : List Char) : Bool := piece ≠ [] && piece ≠ ['.']

/-- **The parts of a path.** -/
def parts (path : String) : List (List Char) :=
  match pieces path.toList with
  | [] | [[]] => []
  | first :: rest => first :: rest.filter isPart

/-- **Whether two paths name the same place.** -/
def same (p q : String) : Bool := parts p == parts q

end Idempotence.Path
