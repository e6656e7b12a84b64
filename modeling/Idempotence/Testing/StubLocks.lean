/-
  Stub locks — a lock store that always answers the same, for tests of everything around it.
-/
import Idempotence.Lock.Basic

namespace Idempotence

/-- **What a stub lock store answers.** -/
structure StubLocks where
  /-- Until when every lock is reported as held; with nothing every lock is obtained. -/
  heldUntil : Option Instant := none
  /-- Whether giving back fails. -/
  failsRelease : Bool := false
  deriving DecidableEq, Inhabited

/-- How often a stub lock store was used. -/
structure StubCalls where
  obtains : Nat := 0
  releases : Nat := 0
  deriving DecidableEq, Repr, Inhabited

/-- **The stub lock store**, counting its calls in the environment. -/
def StubLocks.adapter {ε : Type} (stub : StubLocks) (calls : Part ε StubCalls) : LockAdapter ε where
  obtain key _ _ := Action.on calls fun c =>
    (.ok (match stub.heldUntil with
      | some t => .locked t
      | none => .obtained ⟨key, c.obtains⟩), { c with obtains := c.obtains + 1 })
  release _ := Action.on calls fun c =>
    (if stub.failsRelease then .error (.storage "lock table unavailable") else .ok (),
      { c with releases := c.releases + 1 })

end Idempotence
