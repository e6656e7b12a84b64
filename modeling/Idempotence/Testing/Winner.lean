/-
  The concurrent winner — a store in which somebody else always comes first, for tests of lost races.

  The first look at a key finds nothing, every insert meets a record of the winner, and from the second
  look on the winner's record is found.
-/
import Idempotence.Store.Basic

namespace Idempotence

/-- **What a winner store has seen.** -/
structure WinnerCalls where
  /-- The keys that were looked at. -/
  seen : List RecordKey := []
  reads : Nat := 0
  inserts : Nat := 0
  deriving Inhabited

namespace WinnerStore

variable {ε : Type}

/-- Counts a look at a key.  Answers whether the key was looked at before. -/
def countRead (key : RecordKey) (c : WinnerCalls) : Bool × WinnerCalls :=
  if c.seen.contains key then (true, { c with reads := c.reads + 1 })
  else (false, { c with seen := key :: c.seen, reads := c.reads + 1 })

/-- **The store in which `data` always wins**, counting its calls in the environment. -/
def adapter (data : String) (calls : Part ε WinnerCalls) (clock : Action ε Instant) : StoreAdapter ε where
  Txn := Unit
  get key := do
    if ← Action.on calls (countRead key) then
      return .ok (some { data, isFinal := false, createdAt := ← clock })
    return .ok none
  begin := pure (.ok (some ()))
  insert key _ _ := StateT.lift do
    Action.change calls fun c => { c with inserts := c.inserts + 1 }
    return .error (.duplicateRecord key)
  conclude _ answer := pure answer

end WinnerStore

end Idempotence
