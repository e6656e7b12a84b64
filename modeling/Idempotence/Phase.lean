/-
  Phases — the steps of a process, and what comes out of them.
-/
import Idempotence.Setting

namespace Idempotence

/-- **One step of a process.**  Its id is unique within a context. -/
structure Phase where
  id : String
  /-- Whether the phase completes the process: none may be entered after it. -/
  isFinal : Bool := false
  /-- Whether the body runs inside the transaction that records its output. -/
  transactional : Bool := true
  settings : List Setting := []
  deriving DecidableEq, Repr, Inhabited

/-- **What a phase yields**: the text of its output, and where that came from. -/
inductive PhaseOutput where
  /-- The body ran in this call and its output was recorded. -/
  | executed (data : String)
  /-- An earlier execution had recorded the output; the body did not run. -/
  | stored (data : String)
  /-- The body ran, but a concurrent execution recorded its output first. -/
  | concurrent (data : String)
  deriving DecidableEq, Repr, Inhabited

namespace PhaseOutput

/-- The text of the output. -/
def data : PhaseOutput → String
  | executed d => d
  | stored d => d
  | concurrent d => d

/-- Whether the body's own output became the recorded one. -/
def wasExecuted : PhaseOutput → Bool
  | executed _ => true
  | _ => false

/-- Whether the output is somebody else's. -/
def wasReplayed (o : PhaseOutput) : Bool := !o.wasExecuted

/-- The name of the case. -/
def name : PhaseOutput → String
  | executed _ => "executed"
  | stored _ => "stored"
  | concurrent _ => "concurrent"

end PhaseOutput

end Idempotence
