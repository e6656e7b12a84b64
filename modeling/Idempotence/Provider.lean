/-
  Providers — where processes start and end.

  A provider starts a process instance by taking its lock, asking for a recorded final phase and
  telling every extension, in order.  It closes the context by telling the extensions that had learnt
  of it, in reverse, and then releasing the lock; whatever goes wrong on that way is gathered or
  told, and keeps nobody from being told.  A context that is dropped without being closed is closed
  then, and so is one whose start fails half way.

  `Provider.runProcess` does all of it around a body, and records an empty final phase where the body
  succeeded without one.
-/
import Idempotence.Config
import Idempotence.Context
import Idempotence.Lock.Basic

namespace Idempotence

/-- **Where processes start**: the stores, the extensions, the clock and the configuration. -/
structure Provider (ε : Type) where
  locks : LockAdapter ε
  store : StoreAdapter ε
  /-- The first one is the outermost. -/
  interceptors : List (Interceptor ε) := []
  clock : Action ε Instant
  config : Config := {}

namespace Provider

variable {ε α β : Type}

/-- The id of the empty final phase. -/
def autoFinal : String := "_autoFinal"

/-- The provider's whole chain of executors. -/
def executor (p : Provider ε) : Executor ε := (Executor.base p.store).compose p.interceptors

/-- Runs a phase of a context. -/
def runPhase [EngineFailure β] (p : Provider ε) (c : Context) (phase : Phase) (codec : Codec α)
    (body : Action ε (Except β α)) : Action ε (Except β α) :=
  c.run p.executor phase codec body

/-! ## Closing -/

/-- Runs the closing hooks of the given extensions and gathers their errors. -/
def runClosed (executor : Executor ε) (c : Context) : List (Interceptor ε) → Action ε (List Error)
  | [] => pure []
  | i :: rest => do
    let answer ← i.closed executor c
    let errors ← runClosed executor c rest
    match answer with
    | .error e => return e :: errors
    | .ok () => return errors

/-- Marks a context as closed.  Answers whether it had been closed before. -/
def markClosed (c : Context) : Action ε Bool :=
  Process.atomically fun w =>
    ((w.context c.id).closed, w.modifyContext c.id fun s => { s with closed := true })

/-- Takes the lock out of a context. -/
def takeLock (c : Context) : Action ε (Option LockHandle) :=
  Process.atomically fun w =>
    ((w.context c.id).lock, w.modifyContext c.id fun s => { s with lock := none })

/-- Releases the lock of a context.  A failure is told and nothing else. -/
def releaseLock (p : Provider ε) (c : Context) : Action ε Unit := do
  match ← takeLock c with
  | none => return ()
  | some handle => match ← p.locks.release handle with
    | .ok () => return ()
    | .error e => Action.tell (.releaseFailed c.process c.key e)

/-- **Closes a context**: the hooks in reverse, then the lock.  Closing again does nothing. -/
def close (p : Provider ε) (c : Context) : Action ε (Except Error Unit) := do
  if ← markClosed c then return .ok ()
  let notified ← c.look (·.notified)
  let errors ← runClosed p.executor c (p.interceptors.take notified).reverse
  p.releaseLock c
  return if errors.isEmpty then .ok () else .error (.contextClose errors)

/-- **Drops a context**: closes it if need be, and tells what went wrong. -/
def drop (p : Provider ε) (c : Context) : Action ε Unit := do
  if ← c.look (·.closed) then return ()
  if (← c.look (·.notified)) = p.interceptors.length then
    Action.tell (.contextDropped c.process c.key)
  match ← p.close c with
  | .ok () => return ()
  | .error e => Action.tell (.closingDroppedFailed c.process c.key e)

/-! ## Starting -/

/-- Refuses a start that cannot be meant. -/
def checkStart (process key : String) (settings : List Setting) : Except Error Unit := do
  Identifier.check "processId" process
  if key = "" then throw (.assertion (.emptyKey process))
  Setting.check process settings

/-- Creates a context that holds the given lock. -/
def newContext (process key : String) (settings : List Setting) (recordedFinal : Option String)
    (handle : LockHandle) : Action ε Context :=
  Process.atomically fun w =>
    ({ id := w.contexts.length, process, key, settings, recordedFinal },
      { w with contexts := w.contexts ++ [{ lock := some handle }] })

/-- Runs the creating hooks in order, up to the first error, and counts those that succeeded. -/
def runCreated (executor : Executor ε) (c : Context) :
    List (Interceptor ε) → Action ε (Except Error Unit)
  | [] => pure (.ok ())
  | i :: rest => do
    match ← i.created executor c with
    | .error e => return .error e
    | .ok () =>
      c.change fun s => { s with notified := s.notified + 1 }
      runCreated executor c rest

/-- Starts an instance whose lock has just been obtained. -/
def startLocked (p : Provider ε) (process key : String) (settings : List Setting)
    (handle : LockHandle) : Action ε (Except Error Context) := do
  match ← p.store.findFinal process key with
  | .error e =>
    match ← p.locks.release handle with
    | .ok () => pure ()
    | .error r => Action.tell (.releaseAfterFailedStart process key r)
    return .error (.store e)
  | .ok recordedFinal =>
    let c ← newContext process key settings recordedFinal handle
    match ← (runCreated p.executor c p.interceptors).onCrash (p.drop c) with
    | .ok () => return .ok c
    | .error e =>
      p.drop c
      return .error e

/-- **Starts an instance**: takes its lock and creates a context. -/
def start (p : Provider ε) (process key : String) (timeout : Duration) (settings : List Setting) :
    Action ε (Except Error Context) := do
  match checkStart process key settings with
  | .error e => return .error e
  | .ok () =>
    let now ← p.clock
    match ← p.locks.obtain (RecordKey.lock process key) timeout now with
    | .error e => return .error (.lock e)
    | .ok (.locked tryAt) =>
      Action.tell (.processLocked process key tryAt)
      return .error (.processLocked tryAt process key)
    | .ok (.obtained handle) => p.startLocked process key settings handle

/-! ## Whole processes -/

/-- Records the empty final phase where no final phase has been left. -/
def complete [EngineFailure β] (p : Provider ε) (c : Context) : Action ε (Except β Unit) := do
  if ← c.wasFinal then return .ok ()
  p.runPhase c { id := autoFinal, isFinal := true } .unit (pure (.ok ()))

/-- Runs a body and completes the process. -/
def runBody [EngineFailure β] (p : Provider ε) (c : Context)
    (body : Context → Action ε (Except β α)) : Action ε (Except β α) := do
  match ← body c with
  | .error e => return .error e
  | .ok a => match ← p.complete c with
    | .error e => return .error e
    | .ok () => return .ok a

/-- **Runs a body as one process.**  The context is closed on every path; a body's error wins over an
    error of closing, which is then only told. -/
def runProcess [EngineFailure β] (p : Provider ε) (process key : String) (timeout : Duration)
    (settings : List Setting) (body : Context → Action ε (Except β α)) : Action ε (Except β α) := do
  match ← p.start process key timeout settings with
  | .error e => return .error (ofError e)
  | .ok c =>
    let result ← (p.runBody c body).onCrash (p.drop c)
    let closing ← p.close c
    match result, closing with
    | .ok a, .ok () => return .ok a
    | .ok _, .error e => return .error (ofError e)
    | .error e, .ok () => return .error e
    | .error e, .error closing =>
      Action.tell (.closingFailedToo process key closing)
      return .error e

/-- The text for developers. -/
def debugText (p : Provider ε) : String :=
  "Provider \x7b interceptors: " ++ toString p.interceptors.length ++ ", config: "
    ++ p.config.debugText ++ ", .. \x7d"

end Provider

end Idempotence
