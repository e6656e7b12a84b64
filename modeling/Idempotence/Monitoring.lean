/-
  Monitoring — telling of contexts and phases, inside spans.

  A context has a span of its own, created when it is first needed, and every phase runs inside a span
  below it.
-/
import Idempotence.Executor

namespace Idempotence.Monitoring

/-- The span of a context. -/
def spanKey : PropertyKey PropertyType.span := ⟨"idempotency.monitoring", "span"⟩

variable {ε : Type}

/-- **The span of a context**, created on first use. -/
def contextSpan (c : Context) : Action ε Span := do
  match ← c.withProperties do return (← get).get? spanKey with
  | some s => return s
  | none =>
    let fresh ← Action.newSpan "idempotency_process" (Event.instanceFields c.process c.key)
    c.withProperties (PropertyBag.getOrInit spanKey (pure fresh))

/-- What is told when a phase comes back. -/
def outcome : Except Error PhaseOutput → Event
  | .ok _ => .phaseFinished
  | .error (.phaseBody _) => .phaseBodyFailed
  | .error e => .executorFailed e

/-- The executor that tells of phases. -/
def wrap (next : Executor ε) : Executor ε where
  execute c phase body := do
    let parent ← contextSpan c
    let span ← Action.newSpanBelow parent "idempotency_phase" [("phase_id", phase.id)]
    Action.within span do
      Action.tell .enteringPhase
      if phase.isFinal then Action.tell .enteringFinalPhase
      let answer ← next.execute c phase body
      Action.tell (outcome answer.1)
      return answer

/-- **The extension that tells of contexts and phases.** -/
def interceptor : Interceptor ε where
  created _ c := do
    Action.within (← contextSpan c) (Action.tell .contextCreated)
    return .ok ()
  closed _ c := do
    Action.within (← contextSpan c) (Action.tell .contextClosed)
    c.withProperties (modify (·.erase spanKey))
    return .ok ()
  wrap := wrap

end Idempotence.Monitoring
