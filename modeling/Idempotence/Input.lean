/-
  Inputs — a retry must repeat what it was asked for.

  The first attempt of an instance records its inputs in a phase of their own, each as the text of its
  JSON.  Later attempts compare: an input that was recorded and differs is a CONFLICT.  Inputs may
  come and go between attempts, which is only told.
-/
import Idempotence.Context
import Idempotence.Json.Printer

namespace Idempotence

/-- **The inputs of a process**, by their ids. -/
abbrev Inputs := Table String Json

namespace Inputs

/-- The phase that records the inputs. -/
def phaseId : String := "_input_v2"

/-- The id of an only input. -/
def onlyId : String := "theInput"

/-- An only input. -/
def only (input : Json) : Inputs := Table.empty.insert onlyId input

/-- The texts of the inputs, as they are recorded. -/
def texts (inputs : Inputs) : Table String String where
  entries := inputs.entries.map fun (id, v) => (id, v.render)
  ordered := List.Pairwise.map _ (fun _ _ h => h) inputs.ordered

/-- How recorded inputs are written and read. -/
def codec : Codec (Table String String) where
  encode t := .ok (Json.object (t.entries.map fun (id, text) => (id, .string text))).render
  decode := (Json.Decoder.table Json.Decoder.string).run

/-- Refuses the first id that is no identifier. -/
def checkIds (inputs : Inputs) : Except Error Unit := inputs.keys.forM (Identifier.check "inputId")

/-- The keys of one table that are not in the other. -/
def missing {α β : Type} (a : Table String α) (b : Table String β) : List String :=
  a.keys.filter fun id => !b.contains id

/-- How an input conflicts with its recorded text, if it does. -/
def conflict? (id : String) (input : Json) (recorded : String) : Option String :=
  match Json.parse recorded with
  | .ok document => if document.same input then none else some id
  | .error fault => some s!"{id} ({fault.message recorded})"

/-- **The conflicts** of inputs with the recorded texts. -/
def conflicts (inputs : Inputs) (recorded : Table String String) : List String :=
  inputs.entries.filterMap fun (id, input) => (recorded.get? id).bind (conflict? id input)

end Inputs

variable {ε : Type}

/-- **Compares the inputs of a process with those of its first attempt**, or records them.  To be used
    outside of phases and before the final one. -/
def Context.validateInputs (c : Context) (executor : Executor ε) (inputs : Inputs) :
    Action ε (Except Error Unit) := do
  match inputs.checkIds with
  | .error e => return .error e
  | .ok () =>
    match ← c.run executor { id := Inputs.phaseId } Inputs.codec (pure (.ok inputs.texts)) with
    | .error e => return .error e
    | .ok recorded =>
      let added := Inputs.missing inputs recorded
      let removed := Inputs.missing recorded inputs
      if !added.isEmpty || !removed.isEmpty then
        Action.tell (.inputsDiffer c.process c.key added removed)
      return match Inputs.conflicts inputs recorded with
        | [] => .ok ()
        | ids => .error (.inputConflict ids)

/-- Compares the only input of a process. -/
def Context.validateInput (c : Context) (executor : Executor ε) (input : Json) :
    Action ε (Except Error Unit) :=
  c.validateInputs executor (.only input)

end Idempotence
