/-
  Statistics — how many contexts there were, and what became of the phases.

  A phase counts as started when it reaches the extension, and once more by its outcome when it comes
  back.
-/
import Idempotence.Executor

namespace Idempotence

/-- **The counters**, as numbers without a bound.  A running system counts in words of 64 bits, which wrap around: it
    shows these numbers modulo 2^64. -/
structure Stats where
  /-- Contexts of which the extension was told. -/
  created : Nat := 0
  closed : Nat := 0
  /-- Phases that reached the extension. -/
  started : Nat := 0
  /-- Phases whose body ran and was recorded. -/
  executed : Nat := 0
  /-- Phases whose output had been recorded. -/
  replayed : Nat := 0
  /-- Phases whose body ran while another execution recorded its output first. -/
  raced : Nat := 0
  failed : Nat := 0
  deriving DecidableEq, Repr, Inhabited

namespace Stats

/-- Counts an outcome. -/
def count (s : Stats) : Except Error PhaseOutput → Stats
  | .ok (.executed _) => { s with executed := s.executed + 1 }
  | .ok (.stored _) => { s with replayed := s.replayed + 1 }
  | .ok (.concurrent _) => { s with raced := s.raced + 1 }
  | .error _ => { s with failed := s.failed + 1 }

variable {ε : Type}

/-- The executor that counts. -/
def wrap (part : Part ε Stats) (next : Executor ε) : Executor ε where
  execute c phase body := do
    Action.change part fun s => { s with started := s.started + 1 }
    let answer ← next.execute c phase body
    Action.change part (·.count answer.1)
    return answer

/-- **The extension that counts.** -/
def interceptor (part : Part ε Stats) : Interceptor ε where
  created _ _ := do
    Action.change part fun s => { s with created := s.created + 1 }
    return .ok ()
  closed _ _ := do
    Action.change part fun s => { s with closed := s.closed + 1 }
    return .ok ()
  wrap := wrap part

end Stats

end Idempotence
