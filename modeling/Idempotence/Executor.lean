/-
  Executors — how a phase is run at most once.

  An executor gets a phase and its BODY and answers with an output.  The body comes as an action that
  answers with a text; beside the text it puts something aside (`κ`) that no executor can look into,
  and that the executor hands on if the body ran.  That is how a caller gets its own value or error
  back through a chain that speaks of texts only.

  The base executor looks for a record first and replays it.  Otherwise it runs the body and records
  its text, inside one transaction or, for a phase that is not transactional, one after the other.  If
  the insert met a record that somebody else had made meanwhile, that record's text is the output.
-/
import Idempotence.Store.Basic

namespace Idempotence

/-- **The body of a phase**: its text or error, and what it puts aside. -/
abbrev Body (ε κ : Type) := Action ε (Except Error String × κ)

/-- What an executor answers: an output or an error, and what the body put aside if it ran. -/
abbrev Answer (κ : Type) := Except Error PhaseOutput × Option κ

/-- **An executor of phases.**  It runs the body at most once. -/
structure Executor (ε : Type) where
  execute : {κ : Type} → Context → Phase → Body ε κ → Action ε (Answer κ)

namespace Executor

variable {ε κ : Type}

/-- Runs the body and records its text.  Answers with the text, or with the first error. -/
def runAndRecord (store : StoreAdapter ε) (key : RecordKey) (phase : Phase) (body : Body ε κ) :
    Action ε (Except Error String × Option κ) := do
  if phase.transactional then
    let (result, aside) ← store.transact (α := κ × Option String) do
      let (text, k) ← StateT.lift body
      match text with
      | .error e => return (.error e, (k, none))
      | .ok data => match ← store.insert key data phase.isFinal with
        | .error e => return (.error (.store e), (k, none))
        | .ok () => return (.ok (), (k, some data))
    match result, aside with
    | .error e, aside => return (.error e, aside.map (·.1))
    | .ok (), some (k, some data) => return (.ok data, some k)
    | .ok (), aside =>
      return (.error (.store (.storage "transaction committed without running the phase body")),
        aside.map (·.1))
  else
    let (text, k) ← body
    match text with
    | .error e => return (.error e, some k)
    | .ok data =>
      let (result, _) ← store.transact (α := Unit) do
        match ← store.insert key data phase.isFinal with
        | .error e => return (.error (.store e), ())
        | .ok () => return (.ok (), ())
      match result with
      | .error e => return (.error e, some k)
      | .ok () => return (.ok data, some k)

/-- What becomes of an error of the recording: the other execution's output, if there is one. -/
def resolve (store : StoreAdapter ε) (key : RecordKey) (phase : Phase) (e : Error) :
    Action ε (Except Error PhaseOutput) := do
  if store.mayBeDuplicate e then
    match ← store.get key with
    | .error e => return .error (.store e)
    | .ok none => return .error e
    | .ok (some record) =>
      Action.tell (.multipleExecutions phase.id)
      return .ok (.concurrent record.data)
  else return .error e

/-- **The base executor**: replays what is recorded, records what is new. -/
def base (store : StoreAdapter ε) : Executor ε where
  execute c phase body := do
    let key : RecordKey := ⟨c.process, c.key, phase.id⟩
    match ← store.get key with
    | .error e => return (.error (.store e), none)
    | .ok (some record) =>
      Action.tell (.resultStored phase.id)
      return (.ok (.stored record.data), none)
    | .ok none => match c.recordedFinal with
      | some final => return (.error (.assertion (.finalPhaseRecorded c.process phase.id final)), none)
      | none =>
        let (text, aside) ← runAndRecord store key phase body
        match text with
        | .ok data => return (.ok (.executed data), aside)
        | .error e => return (← resolve store key phase e, aside)

end Executor

/-! ## Extensions -/

/-- **An extension of the engine.**  Its hooks get the provider's whole executor, so that they can
    run phases themselves. -/
structure Interceptor (ε : Type) where
  /-- Runs when a context has been created; an error keeps the process from starting. -/
  created : Executor ε → Context → Action ε (Except Error Unit) := fun _ _ => pure (.ok ())
  /-- Runs when a context is closed; errors are gathered. -/
  closed : Executor ε → Context → Action ε (Except Error Unit) := fun _ _ => pure (.ok ())
  /-- Wraps the execution of phases.  The wrapper calls the wrapped executor at most once. -/
  wrap : Executor ε → Executor ε := id

/-- **The chain of executors**: the first extension is the outermost, the base the innermost. -/
def Executor.compose {ε : Type} (base : Executor ε) (extensions : List (Interceptor ε)) : Executor ε :=
  extensions.foldr (fun i next => i.wrap next) base

end Idempotence
