/-
  Contexts — which phases an execution attempt may run, and how it runs one.

  The state machine of a context: a phase may be ENTERED while no final phase has been left, its id is
  new to the context and no other phase is active, checked in this order.  However the phase ends, it
  is LEFT, and leaving a final phase closes the context to further phases.

  `Context.run` enters a phase, sends its body through a chain of executors and leaves it.  The caller
  gets its own value where the body ran and was recorded, the recorded value where it was not, and the
  body's own error where the body failed.
-/
import Idempotence.Executor

namespace Idempotence

/-! ## The state machine -/

namespace ContextState

/-- **Entering a phase**; the state is unchanged where that is refused. -/
def enter (s : ContextState) (process : String) (phase : Phase) : Except Error ContextState :=
  if s.wasFinal then .error (.assertion (.afterFinalPhase process phase.id))
  else if s.visited.contains phase.id then .error (.assertion (.duplicatePhase process phase.id))
  else match s.active with
    | some current => .error (.assertion (.nestedPhase process phase.id current.phase.id))
    | none => .ok { s with visited := phase.id :: s.visited, active := some { phase } }

/-- **Leaving a phase.** -/
def leave (s : ContextState) (phase : Phase) : ContextState :=
  { s with wasFinal := s.wasFinal || phase.isFinal, active := none }

end ContextState

/-! ## Codecs and callers -/

/-- **How the values of a phase become texts and back.** -/
structure Codec (α : Type) where
  encode : α → Except String String
  decode : String → Except Json.Fault α

/-- The codec of the empty value. -/
def Codec.unit : Codec Unit where
  encode _ := .ok Json.null.render
  decode := Json.Decoder.null.run

/-- **A type of errors that takes in the errors of the engine.** -/
class EngineFailure (β : Type) where
  ofError : Error → β

instance : EngineFailure Error := ⟨id⟩

export EngineFailure (ofError)

/-! ## Running a phase -/

namespace Context

variable {ε α β : Type}

/-- Enters a phase in one step. -/
def enter (c : Context) (phase : Phase) : Action ε (Except Error Unit) :=
  Process.atomically fun w => match (w.context c.id).enter c.process phase with
    | .error e => (.error e, w)
    | .ok s => (.ok (), w.modifyContext c.id fun _ => s)

/-- Leaves a phase in one step. -/
def leave (c : Context) (phase : Phase) : Action ε Unit := c.change (·.leave phase)

/-- **The body as executors see it**: a text or an error of the engine.  The value or the caller's
    error is put aside; nothing is where the value cannot be written. -/
def erase (phase : Phase) (codec : Codec α) (body : Action ε (Except β α)) :
    Action ε (Except Error String × Option (Except β α)) := do
  match ← body with
  | .error failure => return (.error (.phaseBody phase.id), some (.error failure))
  | .ok a => match codec.encode a with
    | .error detail => return (.error (.serialization detail), none)
    | .ok data => return (.ok data, some (.ok a))

/-- Reads a recorded text. -/
def reread [EngineFailure β] (codec : Codec α) (data : String) : Except β α :=
  match codec.decode data with
  | .ok a => .ok a
  | .error fault => .error (ofError (.serialization (fault.message data)))

/-- **What the caller gets** for the chain's answer and what the body put aside. -/
def settle [EngineFailure β] (codec : Codec α) :
    Except Error PhaseOutput → Option (Except β α) → Except β α
  | .ok (.executed _), some (.ok a) => .ok a
  | .ok output, _ => reread codec output.data
  | .error _, some (.error failure) => .error failure
  | .error e, _ => .error (ofError e)

/-- Refuses a phase with an invalid id or conflicting settings. -/
def checkPhase (phase : Phase) : Except Error Unit := do
  Identifier.check "phaseId" phase.id
  Setting.check phase.id phase.settings

/-- **Runs a phase**, or replays its recorded output. -/
def run [EngineFailure β] (c : Context) (executor : Executor ε) (phase : Phase) (codec : Codec α)
    (body : Action ε (Except β α)) : Action ε (Except β α) := do
  match checkPhase phase with
  | .error e => return .error (ofError e)
  | .ok () => match ← c.enter phase with
    | .error e => return .error (ofError e)
    | .ok () =>
      let (answer, aside) ← (executor.execute c phase (erase phase codec body)).onExit (c.leave phase)
      return settle codec answer aside.join

end Context

end Idempotence
