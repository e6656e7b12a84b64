/-
  Faults — stores, locks and sinks that fail on demand, for tests of what the engine does then.

  Which faults there are is in the environment and may change at any time; a transaction keeps the
  fault it began with.
-/
import Idempotence.Lock.Basic
import Idempotence.Publishing.Publisher
import Idempotence.Store.Basic

namespace Idempotence

/-- **How a transaction fails.** -/
inductive TransactionFault where
  /-- The transaction does not begin. -/
  | refused
  /-- The transaction succeeds without running its body. -/
  | skipped
  /-- The transaction takes all inserts and drops them at its end, which fails. -/
  | lost
  /-- The transaction takes all inserts and drops them at its end, which reports some record as a duplicate. -/
  | duplicate
  deriving DecidableEq, Repr

/-- **How looking for a final record fails.** -/
inductive FinalFault where
  | refused
  /-- None is found. -/
  | hidden
  deriving DecidableEq, Repr

/-- **The faults at hand.** -/
structure Faults where
  get : Bool := false
  transaction : Option TransactionFault := none
  final : Option FinalFault := none
  lock : Bool := false
  sink : Bool := false
  deriving DecidableEq, Repr, Inhabited

namespace Faults

variable {ε : Type}

/-- A transaction of a faulty store: of the store itself, or one that will be dropped with an error. -/
inductive Txn (τ : Type) where
  | sound (txn : τ)
  | doomed (e : StoreError)

/-- The record that a faulty transaction reports as a duplicate. -/
def duplicateKey : RecordKey := ⟨"other", "key", "record"⟩

/-- Begins a transaction under a fault. -/
def beginUnder (store : StoreAdapter ε) : Option TransactionFault →
    Action ε (Except Error (Option (Txn store.Txn)))
  | none => do
    match ← store.begin with
    | .error e => return .error e
    | .ok txn => return .ok (txn.map .sound)
  | some .refused => pure (.error (.store (.storage "transaction unavailable")))
  | some .skipped => pure (.ok none)
  | some .lost => pure (.ok (some (.doomed (.storage "commit failed"))))
  | some .duplicate => pure (.ok (some (.doomed (.duplicateRecord duplicateKey))))

/-- **A store with faults.** -/
def onStore (faults : Part ε Faults) (store : StoreAdapter ε) : StoreAdapter ε where
  Txn := Txn store.Txn
  get key := do
    if ← Action.look faults (·.get) then return .error (.storage "get unavailable")
    store.get key
  begin := do beginUnder store (← Action.look faults (·.transaction))
  insert key data isFinal := fun txn => match txn with
    | .doomed e => pure (.ok (), .doomed e)
    | .sound txn => do
      let (answer, txn) ← store.insert key data isFinal txn
      return (answer, .sound txn)
  conclude txn answer := match txn, answer with
    | .sound txn, answer => store.conclude txn answer
    | .doomed _, .error e => pure (.error e)
    | .doomed e, .ok () => pure (.error (.store e))
  findFinal process key := do
    match ← Action.look faults (·.final) with
    | some .refused => return .error (.storage "find unavailable")
    | some .hidden => return .ok none
    | none => store.findFinal process key

/-- **Locks with faults**: with the fault none is obtained. -/
def onLocks (faults : Part ε Faults) (locks : LockAdapter ε) : LockAdapter ε where
  obtain key timeout now := do
    if ← Action.look faults (·.lock) then return .error (.storage "lock unavailable")
    locks.obtain key timeout now
  release := locks.release

/-- **A sink with faults.** -/
def onSink (faults : Part ε Faults) (sink : Sink ε) : Sink ε where
  send m := do
    if ← Action.look faults (·.sink) then return .error (.sink "sink down (single)")
    sink.send m
  sendAll messages := do
    if ← Action.look faults (·.sink) then
      return .error (.sink s!"sink down ({messages.length} messages)")
    sink.sendAll messages

end Faults

end Idempotence
