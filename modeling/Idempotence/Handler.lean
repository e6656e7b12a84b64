/-
  Handlers — requests as processes.

  A transport takes the idempotency key and the inputs out of a request; the handler compares the
  inputs with those of earlier requests of the same key and runs the body as a process.
-/
import Idempotence.Input
import Idempotence.Provider

namespace Idempotence

/-- **How requests of one kind are handled.** -/
structure Handler where
  /-- The process kind of every request. -/
  process : String
  lockTimeout : Duration
  settings : List Setting := []
  /-- The setting of every process whose own settings do not exclude it. -/
  default? : Option Setting := none
  deriving DecidableEq, Inhabited

namespace Handler

/-- The name of the transport header that conventionally carries the idempotency key. -/
def keyHeader : String := "requestId"

/-- The handler that a configuration describes. -/
def ofConfig (process : String) (config : Config) : Handler where
  process
  lockTimeout := config.lockTimeout
  default? := config.publishing.map .publishing

/-- The handler with one more setting. -/
def withSetting (h : Handler) (s : Setting) : Handler := { h with settings := h.settings ++ [s] }

/-- The handler with another default. -/
def withDefault (h : Handler) (s : Setting) : Handler := { h with default? := some s }

/-- **The settings that processes are started with.** -/
def effectiveSettings (h : Handler) : List Setting := Setting.withDefault h.settings h.default?

variable {ε α β : Type}

/-- **Handles a request.**  One without a key, or with an empty one, is refused. -/
def handle [EngineFailure β] (h : Handler) (p : Provider ε) (key : Option String) (inputs : Inputs)
    (body : Context → Action ε (Except β α)) : Action ε (Except β α) :=
  match key.filter (· ≠ "") with
  | none => pure (.error (ofError .missingKey))
  | some key => p.runProcess h.process key h.lockTimeout h.effectiveSettings fun c => do
    match ← c.validateInputs p.executor inputs with
    | .error e => return .error (ofError e)
    | .ok () => body c

end Handler

end Idempotence
