/-
  Durable locks — a lock table by key code.

  The table may have users of whom nobody here knows, so an obtained row is read once more, and only
  if it is still there the lock counts as obtained.  After a few attempts the answer is that the lock
  cannot be obtained now.
-/
import Idempotence.Lock.Table
import Idempotence.Store.KeyCode

namespace Idempotence

namespace DurableLocks

variable {ε : Type}

/-- How often obtaining a lock is tried. -/
def attempts : Nat := 3

/-- Takes a lock by its code; one that does not fit cannot be written. -/
def take (code : String) (timeout : Duration) (now : Instant) (t : LockTable String) :
    Except LockError (Except Instant Nat) × LockTable String :=
  match t.take code timeout now with
  | (.error expiry, t) => (.ok (.error expiry), t)
  | (.ok operation, t') => if KeyCode.fits code then (.ok (.ok operation), t') else (.error .keyTooLong, t)

/-- Tries to obtain a lock, up to a number of times. -/
def obtain (part : Part ε (LockTable String)) (key : RecordKey) (timeout : Duration) (now : Instant) :
    Nat → Action ε (Except LockError LockDecision)
  | 0 => do
    Action.tell (.lockNotObtained key attempts)
    return .ok (.locked now)
  | tries + 1 => do
    let code := KeyCode.ofKey key
    match ← Action.on part (take code timeout now) with
    | .error e => return .error e
    | .ok (.error expiry) => return .ok (.locked expiry)
    | .ok (.ok operation) =>
      if (← Action.look part (·.row? code)).map (·.operation) = some operation then
        return .ok (.obtained ⟨key, operation⟩)
      else obtain part key timeout now tries

/-- **Locks in a table by code** of the environment. -/
def adapter (part : Part ε (LockTable String)) : LockAdapter ε where
  obtain key timeout now := obtain part key timeout now attempts
  release handle := Action.on part fun t => (.ok (), t.release (KeyCode.ofKey handle.key) handle.operation)

end DurableLocks

end Idempotence
