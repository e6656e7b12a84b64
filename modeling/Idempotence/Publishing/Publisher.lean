/-
  Publishing — messages that leave a process in step with its phases.

  An extension binds each context to the one strategy among its settings.  `Context.publish` then
  queues a message or sends it, as the strategy says, or refuses it.  Queued messages are sent in ONE
  delivery at the end of the body of a phase, as part of that body: they leave before the output of
  the phase is recorded, and a failure to send them fails the phase.
-/
import Idempotence.Executor

namespace Idempotence

/-- **Where messages go** in the environment `ε`. -/
structure Sink (ε : Type) where
  /-- Sends one message. -/
  send : Message → Action ε (Except PublishError Unit)
  /-- Sends all messages or none. -/
  sendAll : List Message → Action ε (Except PublishError Unit)

namespace PublishStrategy

/-- **The one strategy** among the settings. -/
def ofSettings (settings : List Setting) : Except Error PublishStrategy :=
  match settings.filterMap Setting.strategy? with
  | [s] => .ok s
  | [] => .error (.assertion .noStrategy)
  | many => .error (.assertion (.severalStrategies many))

/-- Whether the queue is sent at the end of a phase. -/
def flushes (s : PublishStrategy) (phase : Phase) : Bool :=
  match s with
  | inFinalPhase => phase.isFinal
  | atEndOfCurrentPhase => true
  | noPublishing | inConsumer => false

/-- **Whether a message may be published now**, after a final phase or not, and in a phase or not. -/
def admits (s : PublishStrategy) (wasFinal : Bool) (current : Option Phase) : Except Misuse Unit :=
  match s with
  | noPublishing => .error .publishingForbidden
  | inFinalPhase =>
    if wasFinal then .error .publishingAfterFinalPhase
    else if current.any (!·.isFinal) then .error .publishingInNonFinalPhase
    else .ok ()
  | atEndOfCurrentPhase => if current.isNone then .error .publishingOutsidePhase else .ok ()
  | inConsumer => if current.isSome then .error .publishingInsidePhase else .ok ()

end PublishStrategy

namespace Publisher

/-- The strategy that a context is bound to. -/
def binding : PropertyKey PropertyType.strategy := ⟨"idempotency.publish", "binding"⟩

/-- The messages that wait in a context. -/
def queue : PropertyKey PropertyType.queue := ⟨"idempotency.publish", "queue"⟩

variable {ε κ : Type}

/-- The strategy of a context. -/
def strategy? (c : Context) : Action ε (Option PublishStrategy) :=
  c.withProperties do return (← get).get? binding

/-- Puts a message behind those that wait. -/
def enqueue (c : Context) (m : Message) : Action ε Unit :=
  c.withProperties (PropertyBag.update queue (pure []) fun waiting => ((), waiting ++ [m]))

/-- Takes all messages that wait. -/
def takeQueue (c : Context) : Action ε (List Message) :=
  c.withProperties (PropertyBag.update queue (pure []) fun waiting => (waiting, []))

/-- **A body that ends by sending what waits.**  The queue is emptied in any case; it is sent only if
    the body has succeeded and something waits. -/
def flushing (sink : Sink ε) (c : Context) (body : Body ε κ) :
    Action ε (Except Error String × κ) := do
  let (text, aside) ← body
  let waiting ← takeQueue c
  match text with
  | .error e => return (.error e, aside)
  | .ok data =>
    if waiting.isEmpty then return (.ok data, aside)
    match ← sink.sendAll waiting with
    | .error e => return (.error (.publish e), aside)
    | .ok () => return (.ok data, aside)

/-- The executor that sends what waits at the end of the phases that the strategy names. -/
def wrap (sink : Sink ε) (next : Executor ε) : Executor ε where
  execute c phase body := do
    match ← strategy? c with
    | none => next.execute c phase body
    | some s => next.execute c phase (if s.flushes phase then flushing sink c body else body)

/-- **The extension that binds contexts to their strategy.** -/
def interceptor (sink : Sink ε) : Interceptor ε where
  created _ c := match PublishStrategy.ofSettings c.settings with
    | .error e => pure (.error e)
    | .ok s => do
      c.withProperties (modify (·.set binding s))
      return .ok ()
  wrap := wrap sink

end Publisher

variable {ε : Type}

/-- **Publishes a message** from within a process. -/
def Context.publish (c : Context) (sink : Sink ε) (m : Message) : Action ε (Except Error Unit) := do
  match ← Publisher.strategy? c with
  | none => return .error (.assertion .noPublisher)
  | some s => match s.admits (← c.wasFinal) (← c.currentPhase) with
    | .error misuse => return .error (.assertion misuse)
    | .ok () => match m.checkDestination with
      | .error e => return .error (.publish e)
      | .ok () =>
        if s = .inConsumer then return (← sink.send m).mapError .publish
        Publisher.enqueue c m
        return .ok ()

end Idempotence
