/-
  Typed readers of JSON — a value of a known type straight from its text.

  A `Decoder α` reads an `α` at a nesting depth that is still allowed.  Records come in two forms:
  an OBJECT with the fields as members (unknown members are passed over whatever is in them, a
  repeated field is a fault) and an ARRAY with the fields in their order.  A named choice is its name,
  or an object whose only member is that name with `null`.
-/
import Idempotence.Json.Reader

namespace Idempotence.Json

/-- **A typed reader**: the depth still allowed, the text, and the value with the text behind it. -/
abbrev Decoder (α : Type) := (depth : Nat) → List Char → Except Fault (Parsed α)

namespace Decoder

variable {α β : Type}

/-- Reads a whole text. -/
def run (d : Decoder α) (text : String) : Except Fault α := do
  atEnd (← d nestingLimit text.toList)

/-- The decoder with its value changed. -/
def map (f : α → β) (d : Decoder α) : Decoder β := fun depth cs => do
  let (a, rest) ← d depth cs
  .ok (f a, rest)

/-- The text is of another type than the one asked for. -/
def unexpected (cs : List Char) : Except Fault α := failPeeking .otherValue cs

/-! ## Scalars -/

/-- Any document. -/
def document : Decoder Json := value

/-- Any document of any depth, passed over. -/
def ignored : Decoder Unit := fun _ cs => do .ok ((), ← skipValue cs)

/-- `null`. -/
def null : Decoder Unit := fun _ cs =>
  match skipBlanks cs with
  | [] => failPeeking .endInValue []
  | 'n' :: rest => do .ok ((), ← skipWord ['u', 'l', 'l'] rest)
  | rest => unexpected rest

/-- `true` or `false`. -/
def bool : Decoder Bool := fun _ cs =>
  match skipBlanks cs with
  | [] => failPeeking .endInValue []
  | 't' :: rest => do .ok (true, ← skipWord ['r', 'u', 'e'] rest)
  | 'f' :: rest => do .ok (false, ← skipWord ['a', 'l', 's', 'e'] rest)
  | rest => unexpected rest

/-- A string. -/
def string : Decoder String := fun _ cs =>
  match skipBlanks cs with
  | [] => failPeeking .endInValue []
  | '"' :: rest => stringRest rest
  | rest => unexpected rest

/-- An integer between the two bounds. -/
def integer (least greatest : Int) : Decoder Int := fun _ cs => do
  let (n, rest) ← match skipBlanks cs with
    | [] => failPeeking .endInValue []
    | '-' :: rest => numeral true rest
    | c :: rest => if (digit? c).isSome then numeral false (c :: rest) else unexpected (c :: rest)
  match n with
  | .integer n => if least ≤ n ∧ n ≤ greatest then .ok (n, rest) else failAt .otherValue rest
  | .real _ => failAt .otherValue rest

/-- A natural below the bound. -/
def natBelow (bound : Nat) : Decoder Nat := map Int.toNat (integer 0 (bound - 1))

/-- A value, or `null` for none. -/
def option (d : Decoder α) : Decoder (Option α) := fun depth cs =>
  match skipBlanks cs with
  | 'n' :: rest => do .ok (none, ← skipWord ['u', 'l', 'l'] rest)
  | rest => map some d depth rest

/-! ## Containers -/

/-- A reader one level deeper, for what stands behind an opening bracket. -/
def nested (depth : Nat) (cs : List Char) (inner : Nat → Except Fault (Parsed α)) :
    Except Fault (Parsed α) :=
  match depth with
  | 0 => failPeeking .tooDeep cs
  | depth + 1 => inner depth

/-- An array. -/
def list (d : Decoder α) : Decoder (List α) := fun depth cs =>
  match skipBlanks cs with
  | [] => failPeeking .endInValue []
  | '[' :: rest => nested depth ('[' :: rest) fun depth =>
    readItems (d depth) rest true rest
  | rest => unexpected rest

/-- An object with values of one type; of two members with one name the later wins. -/
def table (d : Decoder α) : Decoder (Table String α) := fun depth cs =>
  match skipBlanks cs with
  | [] => failPeeking .endInValue []
  | '{' :: rest => nested depth ('{' :: rest) fun depth =>
    let member (t : Table String α) (name : String) (text : List Char) :
        Except Fault (Parsed (Table String α)) := do
      let (a, rest) ← d depth text
      .ok (t.insert name a, rest)
    foldMembers stringRest member rest true Table.empty rest
  | rest => unexpected rest

/-! ## Records -/

/-- **A field of a record** of type `α`: reading it yields how it changes the record. -/
structure Field (α : Type) where
  name : String
  read : Decoder (α → α)
  /-- Whether an object must have it. -/
  required : Bool := true
  /-- Whether an array must have it. -/
  requiredInArray : Bool := true

/-- A record under construction: its fields so far and their names. -/
abbrev Partial (α : Type) := α × List String

/-- One member of a record in object form. -/
def fieldMember (fields : List (Field α)) (depth : Nat) (acc : Partial α) (name : String)
    (text : List Char) : Except Fault (Parsed (Partial α)) :=
  match fields.find? (·.name == name) with
  | none => do .ok (acc, ← skipValue text)
  | some f =>
    if acc.2.contains name then failAt .otherValue text
    else do
      let (change, rest) ← f.read depth text
      .ok ((change acc.1, name :: acc.2), rest)

/-- The fields of a record in array form; the array may end before a field that it need not have. -/
def fieldItems (depth : Nat) : (fields : List (Field α)) → (first : Bool) → α → List Char →
    Except Fault (Parsed α)
  | [], _, a, cs => match skipBlanks cs with
    | ']' :: rest => .ok (a, rest)
    | rest => failPeeking .trailingCharacters rest
  | f :: fields, first, a, cs => do
    match ← nextItem first cs with
    | .closed rest =>
      if (f :: fields).any (·.requiredInArray) then failAt .otherValue rest else .ok (a, rest)
    | .item text =>
      let (change, rest) ← f.read depth text
      fieldItems depth fields false (change a) rest

/-- **A record**, from the value it has while no field is read. -/
def record (fields : List (Field α)) (initial : α) : Decoder α := fun depth cs =>
  match skipBlanks cs with
  | [] => failPeeking .endInValue []
  | '[' :: rest => nested depth ('[' :: rest) fun depth => fieldItems depth fields true initial rest
  | '{' :: rest => nested depth ('{' :: rest) fun depth => do
    let ((a, seen), rest) ←
      foldMembers stringRest (fieldMember fields depth) rest true (initial, []) rest
    if fields.all fun f => !f.required || seen.contains f.name then .ok (a, rest)
    else failAt .otherValue rest
  | rest => unexpected rest

/-! ## Choices -/

/-- The only member of an object: its name, its value, and the end of the object. -/
def onlyMember (cs : List Char) (member : String → List Char → Except Fault (Parsed α)) :
    Except Fault (Parsed α) := do
  match skipBlanks cs with
  | '"' :: rest => match ← memberAt stringRest rest with
    | .closed rest => failAt .otherValue rest
    | .member name text =>
      let (a, rest) ← member name text
      match skipBlanks rest with
      | '}' :: rest => .ok (a, rest)
      | rest => failAt .expectedValue rest
  | rest => unexpected rest

/-- **A named choice**: `"name"` or `{"name": null}`. -/
def choice (options : List (String × α)) : Decoder α := fun depth cs =>
  let named (name : String) (rest : List Char) : Except Fault (Parsed α) :=
    match options.lookup name with
    | some a => .ok (a, rest)
    | none => failAt .otherValue rest
  match skipBlanks cs with
  | [] => failPeeking .endInValue []
  | '"' :: rest => do
    let (name, rest) ← stringRest rest
    named name rest
  | '{' :: rest => nested depth ('{' :: rest) fun depth =>
    onlyMember rest fun name text => do
      let (a, _) ← named name text
      let ((), rest) ← null depth text
      .ok (a, rest)
  | rest => unexpected rest

/-- **A tagged value**: `{"tag": value}`. -/
def tagged (tag : String) (d : Decoder α) : Decoder α := fun depth cs =>
  match skipBlanks cs with
  | [] => failPeeking .endInValue []
  | '{' :: rest => nested depth ('{' :: rest) fun depth =>
    onlyMember rest fun name text => if name = tag then d depth text else failAt .otherValue text
  | rest => unexpected rest

end Decoder

end Idempotence.Json
