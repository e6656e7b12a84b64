/-
  Steps — the language of scenarios of the engine.

  A COMMAND is a single use of the engine or of the bench.  A BLOCK is a phase, a process or a request
  whose body is again a list of steps, with a conclusion at its end.  A step may be REQUIRED: if it
  fails, the body around it gives up with its failure.

  What a step needs may have come as a text that does not read; then the step carries the error, which
  it answers with when its turn comes.
-/
import Idempotence.Handler
import Idempotence.Scenario.BackendStep
import Idempotence.Scenario.Extension
import Idempotence.Scenario.Properties

namespace Idempotence.Scenario

/-- **Which context a step is about.** -/
inductive Subject where
  | named (name : String)
  /-- The context of the body around the step. -/
  | own
  deriving DecidableEq, Repr

/-- **A single use** of the engine or the bench. -/
inductive Command where
  | start (name process key : String) (timeout : Duration) (settings : Except Error (List Setting))
  | close (name : String)
  | drop (name : String)
  | validateInputs (on : Subject) (inputs : Inputs)
  | validateInput (on : Subject) (input : Json)
  | publish (on : Subject) (message : Except Error Message)
  | describe (on : Subject)
  | properties (on : Subject) (steps : List PropertyStep)
  | phaseProperties (on : Subject) (steps : List PropertyStep)
  | setClock (now : Instant)
  | setFaults (faults : Faults)
  | log
  | stats
  | sink
  | stub
  /-- A look into the provider's store. -/
  | stored (key : RecordKey)
  | backend (step : BackendStep)
  | describeProvider
  | trace
  | reopen

/-- Where a request's handler comes from. -/
inductive HandlerSource where
  | given (h : Except Error Handler)
  /-- The handler that the provider's configuration describes. -/
  | provider (process : String)

/-- **A use of the engine with a body.** -/
inductive Block where
  | phase (on : Subject) (phase : Except Error Phase) (type : ValueType)
  | process (process key : String) (timeout : Duration) (settings : Except Error (List Setting))
  | request (handler : HandlerSource) (key : Option String) (inputs : Inputs)

/-- **How a body ends.** -/
inductive Conclusion where
  | value (v : Json)
  /-- The value of the last step that succeeded. -/
  | last
  | failure (f : Failure)
  | crash (message : String)

/-- **A step.** -/
inductive Step where
  | command (c : Command) (required : Bool)
  | block (b : Block) (body : List Step) (conclusion : Conclusion) (required : Bool)

/-- Whether the body around a step gives up if the step fails. -/
def Step.required : Step → Bool
  | command _ r => r
  | block _ _ _ r => r

/-- **What a scenario is played on.** -/
structure Setup where
  kind : BackendKind := .memory
  /-- Stub locks in the place of the backend's. -/
  stub : Option StubLocks := none
  /-- The data of a winner store in the place of the backend's. -/
  winner : Option String := none
  config : Config := {}
  extensions : List Extension := []

namespace Setup

/-- The backend. -/
def backend (s : Setup) : Backend := s.kind.backend

/-- The locks that the engine uses. -/
def locks (s : Setup) : LockAdapter Bench :=
  Faults.onLocks Bench.faultsPart <| match s.stub with
    | some stub => stub.adapter Bench.stubPart
    | none => s.backend.locks

/-- The store that the engine uses. -/
def store (s : Setup) : StoreAdapter Bench :=
  match s.winner with
  | some data => WinnerStore.adapter data Bench.winnerPart Bench.wallClock
  | none => Faults.onStore Bench.faultsPart s.backend.store

/-- **The provider.** -/
def provider (s : Setup) : Provider Bench where
  locks := s.locks
  store := s.store
  interceptors := s.extensions.map Extension.interceptor
  clock := Bench.clock
  config := s.config

end Setup

end Idempotence.Scenario
