/-
  Reading JSON.

  The grammar is the strict one: no comments, no trailing commas, nothing but blanks behind the value.
  Arrays and objects may nest `nestingLimit` deep; one level more is a fault.  Of two members with one
  name the later wins.

  The nesting depth is also what the recursion goes by: `value (d + 1)` reads its items and members
  with `value d`, and `value 0` reads no array and no object.

  Loops go by their FUEL, which is the text itself: every round consumes at least one character, so
  the fuel stays as long as the text or longer, and has run out only where the text has ended.

  `skipValue` passes over a value of any depth; typed readers use it for members they do not know.
-/
import Idempotence.Json.Basic
import Idempotence.Json.Scalar

namespace Idempotence.Json

/-! ## Walking through an array or an object -/

/-- What comes next in an array: an item, or its end and the text behind that. -/
inductive NextItem where
  | item (text : List Char)
  | closed (rest : List Char)

/-- The next item of an array; `first` if none has been read yet. -/
def nextItem (first : Bool) (cs : List Char) : Except Fault NextItem :=
  match skipBlanks cs with
  | [] => failPeeking .endInList []
  | ']' :: rest => .ok (.closed rest)
  | c :: rest =>
    if first then .ok (.item (c :: rest))
    else if c ≠ ',' then failPeeking .expectedListEnd (c :: rest)
    else match skipBlanks rest with
      | [] => failPeeking .endInValue []
      | ']' :: rest => failPeeking .trailingComma (']' :: rest)
      | rest => .ok (.item rest)

/-- What comes next in an object: a member's name and the text of its value, or the object's end. -/
inductive NextMember where
  | member (name : String) (text : List Char)
  | closed (rest : List Char)

/-- How the name of a member is read from behind its opening quote. -/
abbrev NameReader := List Char → Except Fault (Parsed String)

/-- A member from behind the opening quote of its name. -/
def memberAt (readName : NameReader) (cs : List Char) : Except Fault NextMember := do
  let (name, rest) ← readName cs
  match skipBlanks rest with
  | ':' :: rest => .ok (.member name rest)
  | [] => failPeeking .endInObject []
  | rest => failPeeking .expectedColon rest

/-- The next member of an object; `first` if none has been read yet. -/
def nextMember (readName : NameReader) (first : Bool) (cs : List Char) : Except Fault NextMember :=
  match skipBlanks cs with
  | [] => failPeeking .endInObject []
  | '}' :: rest => .ok (.closed rest)
  | c :: rest =>
    if first then
      if c = '"' then memberAt readName rest else failPeeking .keyNotString (c :: rest)
    else if c ≠ ',' then failPeeking .expectedObjectEnd (c :: rest)
    else match skipBlanks rest with
      | [] => failPeeking .endInValue []
      | '"' :: rest => memberAt readName rest
      | '}' :: rest => failPeeking .trailingComma ('}' :: rest)
      | rest => failPeeking .keyNotString rest

/-- All items up to the end of the array.  `fuel` bounds their number. -/
def readItems {α : Type} (item : List Char → Except Fault (Parsed α)) :
    (fuel : List Char) → (first : Bool) → List Char → Except Fault (Parsed (List α))
  | [], _, _ => failPeeking .endInList []
  | _ :: fuel, first, cs => do
    match ← nextItem first cs with
    | .closed rest => .ok ([], rest)
    | .item text =>
      let (x, rest) ← item text
      let (xs, rest) ← readItems item fuel false rest
      .ok (x :: xs, rest)

/-- All members up to the end of the object, folded from `acc`.  `fuel` bounds their number. -/
def foldMembers {α : Type} (readName : NameReader)
    (member : α → String → List Char → Except Fault (Parsed α)) :
    (fuel : List Char) → (first : Bool) → α → List Char → Except Fault (Parsed α)
  | [], _, _, _ => failPeeking .endInObject []
  | _ :: fuel, first, acc, cs => do
    match ← nextMember readName first cs with
    | .closed rest => .ok (acc, rest)
    | .member name text =>
      let (acc, rest) ← member acc name text
      foldMembers readName member fuel false acc rest

/-! ## Values -/

/-- The number of a numeral. -/
def ofNumeral : Numeral → Json
  | .integer n => .integer n
  | .real x => .real x

/-- A value, its items and members read by `inner`; without `inner` it cannot be a container. -/
def valueIn (inner : Option (List Char → Except Fault (Parsed Json))) (cs : List Char) :
    Except Fault (Parsed Json) :=
  match skipBlanks cs with
  | [] => failPeeking .endInValue []
  | 'n' :: rest => do .ok (.null, ← skipWord ['u', 'l', 'l'] rest)
  | 't' :: rest => do .ok (.bool true, ← skipWord ['r', 'u', 'e'] rest)
  | 'f' :: rest => do .ok (.bool false, ← skipWord ['a', 'l', 's', 'e'] rest)
  | '"' :: rest => do
    let (s, rest) ← stringRest rest
    .ok (.string s, rest)
  | '-' :: rest => do
    let (n, rest) ← numeral true rest
    .ok (ofNumeral n, rest)
  | '[' :: rest => match inner with
    | none => failPeeking .tooDeep ('[' :: rest)
    | some inner => do
      let (xs, rest) ← readItems inner rest true rest
      .ok (.array xs, rest)
  | '{' :: rest => match inner with
    | none => failPeeking .tooDeep ('{' :: rest)
    | some inner => do
      let member (acc : List (String × Json)) (name : String) (text : List Char) :
          Except Fault (Parsed (List (String × Json))) := do
        let (x, rest) ← inner text
        .ok ((name, x) :: acc, rest)
      let (members, rest) ← foldMembers stringRest member rest true [] rest
      .ok (ofMembers members.reverse, rest)
  | c :: rest =>
    if (digit? c).isSome then do
      let (n, rest) ← numeral false (c :: rest)
      .ok (ofNumeral n, rest)
    else failPeeking .expectedValue (c :: rest)

/-- **A value** that nests at most `depth` deep. -/
def value : (depth : Nat) → List Char → Except Fault (Parsed Json)
  | 0 => valueIn none
  | depth + 1 => valueIn (some (value depth))

/-- How deep arrays and objects may nest. -/
def nestingLimit : Nat := 127

/-- The end of the text: only blanks are left. -/
def atEnd {α : Type} : Parsed α → Except Fault α
  | (a, rest) => match skipBlanks rest with
    | [] => .ok a
    | rest => failPeeking .trailingCharacters rest

/-- **Reading a whole text.** -/
def parse (text : String) : Except Fault Json := do atEnd (← value nestingLimit text.toList)

/-! ## Passing over values -/

/-- Passes over the name of a member. -/
def skipName : NameReader := fun cs => do .ok ("", ← skipString cs cs)

/-- Passes over a value, over its items and members by `inner`. -/
def skipIn (inner : List Char → Except Fault (List Char)) (cs : List Char) :
    Except Fault (List Char) :=
  match skipBlanks cs with
  | [] => failPeeking .endInValue []
  | 'n' :: rest => skipWord ['u', 'l', 'l'] rest
  | 't' :: rest => skipWord ['r', 'u', 'e'] rest
  | 'f' :: rest => skipWord ['a', 'l', 's', 'e'] rest
  | '"' :: rest => skipString rest rest
  | '-' :: rest => skipNumeral rest
  | '[' :: rest => do
    let item (text : List Char) : Except Fault (Parsed Unit) := do .ok ((), ← inner text)
    let (_, rest) ← readItems item rest true rest
    .ok rest
  | '{' :: rest => do
    let member (_ : Unit) (_ : String) (text : List Char) : Except Fault (Parsed Unit) := do
      .ok ((), ← inner text)
    let (_, rest) ← foldMembers skipName member rest true () rest
    .ok rest
  | c :: rest =>
    if (digit? c).isSome then skipNumeral (c :: rest) else failPeeking .expectedValue (c :: rest)

/-- Passes over a value.  `fuel` bounds its depth. -/
def skipNested : (fuel : List Char) → List Char → Except Fault (List Char)
  | [], _ => failPeeking .endInValue []
  | _ :: fuel, cs => skipIn (skipNested fuel) cs

/-- **Passes over a value.** -/
def skipValue (cs : List Char) : Except Fault (List Char) := skipNested cs cs

end Idempotence.Json
