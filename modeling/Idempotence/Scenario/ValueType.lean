/-
  Value types — what the values of scripted phases are, and how they are written.

  A value is JSON; its type says which values there are and what their texts look like.  The type
  `unwritable` has no texts at all, though it reads every text.
-/
import Idempotence.Context

namespace Idempotence.Scenario

/-- **The type of a phase's value.** -/
inductive ValueType where
  /-- Any document. -/
  | document
  /-- An integer of 8 bits without a sign. -/
  | byte
  /-- An integer of 64 bits with a sign. -/
  | integer
  | string
  | bool
  /-- Nothing but `null`. -/
  | unit
  | bytes
  | optionalInteger
  /-- An object of a boolean and an optional text. -/
  | verdict
  /-- An object with integers. -/
  | integers
  | unwritable
  deriving DecidableEq, Repr

namespace ValueType

open Json (Decoder)

/-- An integer of 64 bits with a sign. -/
def int64 : Decoder Int := Decoder.integer (-(twoTo 63)) (twoTo 63 - 1)

/-- An integer of 8 bits without a sign. -/
def uint8 : Decoder Nat := Decoder.natBelow 256

/-- The members of a verdict, in the order in which they are written. -/
def verdictJson (v : Bool × Option String) : Json :=
  .object [("valid", .bool v.1), ("note", (v.2.map Json.string).getD .null)]

/-- Reads a verdict. -/
def verdictDecoder : Decoder (Bool × Option String) :=
  .record
    [ ⟨"valid", .map (fun b v => (b, v.2)) .bool, true, true⟩,
      ⟨"note", .map (fun s v => (v.1, s)) (.option .string), false, true⟩ ]
    (false, none)

/-- Reads a value.  What comes out prints as the type writes it. -/
def decoder : ValueType → Decoder Json
  | document => .document
  | byte => .map Json.nat uint8
  | integer => .map Json.integer int64
  | string => .map Json.string .string
  | bool => .map Json.bool .bool
  | unit => .map (fun _ => .null) .null
  | bytes => .map (fun l => .array (l.map Json.nat)) (.list uint8)
  | optionalInteger => .map (fun n => (n.map Json.integer).getD .null) (.option int64)
  | verdict => .map verdictJson verdictDecoder
  | integers => .map (fun t => .object (t.entries.map fun (s, n) => (s, .integer n))) (.table int64)
  | unwritable => .map (fun _ => .string "unserializable") .ignored

/-- **How values of a type are written and read.** -/
def codec (t : ValueType) : Codec Json where
  encode v := if t = unwritable then .error "value refuses to be written" else .ok v.render
  decode := t.decoder.run

/-- A document as a value of the type, if it is one.  Every document is one of the type `document`, as
    it stands. -/
def accept (t : ValueType) (v : Json) : Except Error Json :=
  if t = document then .ok v
  else
    let text := v.render
    match t.decoder.run text with
    | .ok v => .ok v
    | .error fault => .error (.serialization (fault.message text))

/-- A value of the type as a reply: the members of objects in the order of their names. -/
def reply (t : ValueType) : Json → Json
  | .object ms => if t = verdict then .ofMembers ms else .object ms
  | v => v

end ValueType

end Idempotence.Scenario
