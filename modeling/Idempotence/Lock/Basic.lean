/-
  Locks — one execution of a process instance at a time.

  A lock is TEMPORAL: once its timeout has passed, somebody else may take it over even if it was never
  released.  Releasing it then must leave the new owner's lock alone, so a handle remembers which
  operation wrote its row.
-/
import Idempotence.World

namespace Idempotence

/-- **The answer to asking for a lock.** -/
inductive LockDecision where
  | obtained (handle : LockHandle)
  /-- Somebody else holds it until then. -/
  | locked (tryAt : Instant)
  deriving DecidableEq, Inhabited

/-- The text for developers, its time written by `time`. -/
def LockDecision.debugText (time : Instant → String) : LockDecision → String
  | obtained handle => s!"Obtained({handle.key.debugText})"
  | locked tryAt => "Locked \x7b try_at: " ++ time tryAt ++ " \x7d"

/-- **A lock store** in the environment `ε`. -/
structure LockAdapter (ε : Type) where
  /-- Asks for the lock of a key, valid for a timeout from now on. -/
  obtain : RecordKey → Duration → Instant → Action ε (Except LockError LockDecision)
  /-- Gives a lock back.  Called at most once for a handle. -/
  release : LockHandle → Action ε (Except LockError Unit)

end Idempotence
