/-
  Extensions of scenarios — scripted extensions of the engine.

  Beside the library's own extensions there are three that exist for their observable effects: one
  logs what it sees of phases, one answers for a phase instead of what it wraps, and one runs a phase
  in a hook.
-/
import Idempotence.Monitoring
import Idempotence.Scenario.Bench
import Idempotence.Scenario.ValueType

namespace Idempotence.Scenario

/-! ## Observers -/

/-- How often observers saw a phase come back. -/
def visits : PropertyKey PropertyType.counter := ⟨"scenario.observer", "visits"⟩

/-- Counts a visit. -/
def countVisit : StateM Properties Nat := PropertyBag.update visits (pure 0) fun n => (n + 1, n + 1)

/-- An outcome of a phase, for the log. -/
def outcomeText : Except Error PhaseOutput → String
  | .ok o => s!"{o.name}/{o.wasExecuted}/{o.wasReplayed} {o.data}"
  | .error e => s!"err {e.kind}"

/-- A body that logs how it ended. -/
def observed {κ : Type} (name : String) (body : Body Bench κ) : Action Bench (Except Error String × κ) := do
  let (text, aside) ← body
  let ending := match text with
    | .ok data => data
    | .error e => s!"err {e.kind}"
  Recorder.note Bench.logPart s!"{name} body {ending}"
  return (text, aside)

/-- **The extension that logs** how bodies and phases end. -/
def observer (name : String) : Interceptor Bench where
  wrap next :=
    { execute := fun c phase body => do
        let answer ← next.execute c phase (observed name body)
        let inContext ← c.withProperties countVisit
        let inPhase ← c.withPhaseProperties countVisit
        let settings := (Setting.listToJson phase.settings).render
        let seen := s!"visits={inContext}/{inPhase.getD 0}"
        let flags := s!"final={phase.isFinal} tx={phase.transactional}"
        Recorder.note Bench.logPart
          s!"{name} {phase.id} {flags} settings={settings} {seen} {outcomeText answer.1}"
        return answer }

/-! ## Short circuits -/

/-- **How a short circuit answers.** -/
inductive Circuit where
  /-- With an output, without running the body. -/
  | replace (output : PhaseOutput)
  /-- With an output, after the body has succeeded. -/
  | follow (output : PhaseOutput)
  | refuse (message : String)
  deriving DecidableEq, Repr

/-- **The extension that answers** for the phases of one id. -/
def shortCircuit (phaseId : String) (circuit : Circuit) : Interceptor Bench where
  wrap next :=
    { execute := fun c phase body =>
        if phase.id ≠ phaseId then next.execute c phase body
        else match circuit with
          | .replace output => pure (.ok output, none)
          | .refuse message => pure (.error (.misuse message), none)
          | .follow output => do
            let (text, aside) ← body
            return (text.map fun _ => output, some aside) }

/-! ## Phases in hooks -/

/-- The hooks of an extension. -/
inductive Hook where
  | created
  | closed
  deriving DecidableEq, Repr

/-- Runs a phase that yields a value. -/
def hookPhase (phase : Phase) (value : Json) (executor : Executor Bench) (c : Context) :
    Action Bench (Except Error Unit) := do
  return (← c.run executor phase ValueType.document.codec (pure (.ok value))).map fun _ => ()

/-- **The extension that runs a phase** in one of its hooks. -/
def hooked (hook : Hook) (phase : Phase) (value : Json) : Interceptor Bench :=
  match hook with
  | .created => { created := hookPhase phase value }
  | .closed => { closed := hookPhase phase value }

/-! ## All of them -/

/-- **An extension of a scenario.** -/
inductive Extension where
  | recording (r : Recorder)
  | stats
  | monitoring
  | publishing
  | observing (name : String)
  | shortCircuit (phaseId : String) (circuit : Circuit)
  | hooked (hook : Hook) (phase : Phase) (value : Json)

/-- The sink of scenarios. -/
def benchSink : Sink Bench := Faults.onSink Bench.faultsPart (Sink.memory Bench.deliveriesPart)

/-- What an extension does. -/
def Extension.interceptor : Extension → Interceptor Bench
  | recording r => r.interceptor Bench.logPart
  | stats => Stats.interceptor Bench.statsPart
  | monitoring => Monitoring.interceptor
  | publishing => Publisher.interceptor benchSink
  | observing name => observer name
  | shortCircuit phaseId circuit => Scenario.shortCircuit phaseId circuit
  | hooked hook phase value => Scenario.hooked hook phase value

end Idempotence.Scenario
