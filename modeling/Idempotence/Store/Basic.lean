/-
  Record stores — where the outputs of phases are kept.

  A record is CREATE-ONLY: within the life of a store a key gets at most one.  Inserts happen in
  transactions, and those may go wrong in every way a real store knows: a transaction may not start,
  may be accepted without running its body, may refuse inserts, and may fail or succeed at its end
  whatever its body said.

  A transaction has a state of its own, which only its inserts see; when its body crashes the state is
  gone, and with it the transaction.
-/
import Idempotence.World

namespace Idempotence

/-- **The output of a phase, as it is stored.** -/
structure StoredRecord where
  data : String
  /-- Whether the phase was the final one of its process. -/
  isFinal : Bool
  createdAt : Instant
  deriving DecidableEq, Inhabited

/-- **A record store** in the environment `ε`. -/
structure StoreAdapter (ε : Type) where
  /-- What a transaction keeps for itself. -/
  Txn : Type
  /-- The record under a key; it may be asked for in a transaction, too. -/
  get : RecordKey → Action ε (Except StoreError (Option StoredRecord))
  /-- Starts a transaction; with `none` the body is not run and the transaction succeeds. -/
  begin : Action ε (Except Error (Option Txn))
  /-- Creates a record in a transaction. -/
  insert : RecordKey → String → Bool → StateT Txn (Action ε) (Except StoreError Unit)
  /-- Ends a transaction, given what its body answered. -/
  conclude : Txn → Except Error Unit → Action ε (Except Error Unit)
  /-- Whether the end of a transaction may have failed because of a record that was there before. -/
  mayBeDuplicate : Error → Bool := Error.isDuplicate
  /-- The id of a final phase recorded for an instance.  A store may be unable to tell. -/
  findFinal : String → String → Action ε (Except StoreError (Option String)) :=
    fun _ _ => pure (.ok none)

namespace StoreAdapter

variable {ε α : Type}

/-- **Runs a body in a transaction.**  Beside the transaction's result stands what the body put
    aside, if the body ran; it is there even where the transaction failed. -/
def transact (store : StoreAdapter ε)
    (body : StateT store.Txn (Action ε) (Except Error Unit × α)) :
    Action ε (Except Error Unit × Option α) := do
  match ← store.begin with
  | .error e => return (.error e, none)
  | .ok none => return (.ok (), none)
  | .ok (some txn) =>
    let ((answer, aside), txn) ← body.run txn
    return (← store.conclude txn answer, some aside)

end StoreAdapter

end Idempotence
