/-
  Scenarios of properties — scripted uses of a property bag.

  An initialiser runs steps of its own on the same bag before it yields its value.  It leaves its
  replies beside the bag, and they become part of the reply of the step that it serves.
-/
import Idempotence.World

namespace Idempotence.Scenario

/-- A value as JSON. -/
def valueJson : (t : PropertyType) → t.Value → Json
  | .number, n => .nat n.toNat
  | .text, s => .string s
  | .texts, l => .strings l
  | .counter, n => .nat n
  | .strategy, s => .string s.name
  | .queue, l => .array (l.map Message.toJson)
  | .span, s => .strings (s.map (·.name))

/-- A key of any type, by its namespace and name. -/
structure Slot where
  scope : String
  name : String
  deriving Inhabited

/-- The key of a type in a slot. -/
def Slot.key (s : Slot) (t : PropertyType) : PropertyKey t := ⟨s.scope, s.name⟩

/-- **How an update changes a value.** -/
inductive Increment : PropertyType → Type where
  /-- Adds; beyond 32 bits it begins again at zero. -/
  | add (n : UInt32) : Increment .number
  /-- Appends a text. -/
  | append (s : String) : Increment .text
  /-- Appends an item. -/
  | push (s : String) : Increment .texts

/-- The changed value. -/
def Increment.apply : {t : PropertyType} → Increment t → t.Value → t.Value
  | _, .add n, v => v + n
  | _, .append s, v => v ++ s
  | _, .push s, v => v ++ [s]

/-- **A step on a property bag.** -/
inductive PropertyStep where
  /-- The text of the bag for developers. -/
  | describe
  /-- The two texts of a key. -/
  | texts (slot : Slot)
  | get (t : PropertyType) (slot : Slot)
  | contains (t : PropertyType) (slot : Slot)
  | remove (t : PropertyType) (slot : Slot)
  | set (t : PropertyType) (slot : Slot) (v : t.Value)
  | getOrInit (t : PropertyType) (slot : Slot) (init : List PropertyStep) (v : t.Value)
  | tryGetOrInit (t : PropertyType) (slot : Slot) (init : List PropertyStep) (v : Except String t.Value)
  | update (t : PropertyType) (slot : Slot) (init : List PropertyStep) (v : t.Value) (i : Increment t)

/-- The reply of a step. -/
def propertyReply (v : Json) : Json := .ofMembers [("v", v)]

/-- The reply of a step whose initialiser ran. -/
def initialisedReply (v : Json) (init : List Json) : Json :=
  .ofMembers [("v", v), ("init", .array init)]

/-- The failure of an initialiser. -/
def initFailure (message : String) : Json :=
  .ofMembers [("error", .string "init"), ("message", .string message)]

/-- The uses of a bag beside which an initialiser leaves its replies, if it runs. -/
abbrev Noted := StateT Properties (StateM (Option (List Json)))

/-- Runs the steps of an initialiser and leaves their replies. -/
def noted (steps : StateM Properties (List Json)) : Noted Unit := do
  let (replies, bag) := steps.run (← get)
  set bag
  StateT.lift (set (some replies))

/-- Runs a use of a slot that has an initialiser.  The reply gets what the initialiser has left. -/
def initialised {α : Type} (steps : StateM Properties (List Json)) (use : Noted Unit → Noted α)
    (answer : α → Json) : StateM Properties Json := do
  let ((a, bag), left) := ((use (noted steps)).run (← get)).run none
  set bag
  return match left with
    | some replies => initialisedReply (answer a) replies
    | none => propertyReply (answer a)

mutual

/-- **Runs a step.** -/
def PropertyStep.run : PropertyStep → StateM Properties Json
  | .describe => do return propertyReply (.string (← MonadState.get).debugText)
  | .texts slot =>
    let key := slot.key PropertyType.number
    return propertyReply (.strings [key.qualifiedName, key.debugText])
  | .get t slot => do
    return propertyReply ((((← MonadState.get).get? (slot.key t)).map (valueJson t)).getD .null)
  | .contains t slot => do return propertyReply (.bool ((← MonadState.get).contains (slot.key t)))
  | .remove t slot => do
    return propertyReply (((← PropertyBag.remove (slot.key t)).map (valueJson t)).getD .null)
  | .set t slot v => do
    modify (·.set (slot.key t) v)
    return propertyReply .null
  | .getOrInit t slot init v =>
    initialised (PropertyStep.runAll init)
      (fun first => PropertyBag.getOrInit (slot.key t) (first *> pure v)) (valueJson t)
  | .tryGetOrInit t slot init v =>
    initialised (PropertyStep.runAll init)
      (fun first => PropertyBag.tryGetOrInit (slot.key t) (first *> pure v))
      fun
        | .ok v => valueJson t v
        | .error message => initFailure message
  | .update t slot init v i =>
    initialised (PropertyStep.runAll init)
      (fun first => PropertyBag.update (slot.key t) (first *> pure v)
        fun v => (i.apply v, i.apply v))
      (valueJson t)

/-- Runs steps one after the other. -/
def PropertyStep.runAll : List PropertyStep → StateM Properties (List Json)
  | [] => return []
  | s :: rest => do
    let reply ← s.run
    return reply :: (← PropertyStep.runAll rest)

end

end Idempotence.Scenario
