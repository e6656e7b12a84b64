/-
  Recording — an extension that logs its calls, for tests of the order of calls.
-/
import Idempotence.Executor

namespace Idempotence

/-- **A log of calls**, the first one first. -/
abbrev CallLog := List String

/-- **A recording extension.** -/
structure Recorder where
  name : String
  /-- Whether to refuse contexts after logging them. -/
  refusesStart : Bool := false
  /-- Whether to fail closings after logging them. -/
  refusesClose : Bool := false
  deriving DecidableEq, Repr, Inhabited

namespace Recorder

variable {ε : Type}

/-- Logs an entry. -/
def note (log : Part ε CallLog) (entry : String) : Action ε Unit := Action.change log (· ++ [entry])

/-- Logs a call of a hook, and fails where it is to fail. -/
def hook (log : Part ε CallLog) (entry : String) (refusal : Option String) :
    Action ε (Except Error Unit) := do
  note log entry
  return match refusal with
    | some message => .error (.misuse message)
    | none => .ok ()

/-- The executor that logs. -/
def wrap (r : Recorder) (log : Part ε CallLog) (next : Executor ε) : Executor ε where
  execute c phase body := do
    note log s!"{r.name}.execute:{phase.id}"
    next.execute c phase body

/-- **The extension that logs** `name.created`, `name.closed` and `name.execute:phase`. -/
def interceptor (r : Recorder) (log : Part ε CallLog) : Interceptor ε where
  created _ _ := hook log s!"{r.name}.created"
    (if r.refusesStart then some s!"{r.name} refused to start" else none)
  closed _ _ := hook log s!"{r.name}.closed"
    (if r.refusesClose then some s!"{r.name} refused to close" else none)
  wrap := r.wrap log

end Recorder

end Idempotence
