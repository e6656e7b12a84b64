/-
  Scenarios of backends — scripted uses of a store, its locks and its retention.

  A transaction is a list of items: inserts, an early end, a crash, and whole steps that run in
  between, as if somebody else ran them.
-/
import Idempotence.Scenario.Bench
import Idempotence.Scenario.Reply

namespace Idempotence.Scenario

/-- **An item of a scripted transaction**, `σ` being the steps that may run in between. -/
inductive TransactionItem (σ : Type) where
  /-- An insert; its error ends the transaction unless it is tolerated. -/
  | insert (key : RecordKey) (data : String) (isFinal tolerated : Bool)
  /-- The body ends with an error. -/
  | fail (message : String)
  | crash (message : String)
  | between (step : σ)

/-- **A step on a backend.** -/
inductive BackendStep where
  /-- Puts a record in, over any earlier one; in memory only. -/
  | load (key : RecordKey) (record : StoredRecord)
  | get (key : RecordKey)
  | transact (items : List (TransactionItem BackendStep))
  | findFinal (process key : String)
  | keysOf (process key : String)
  /-- Sizes of both tables in memory. -/
  | sizes
  | obtain (key : RecordKey) (timeout : Duration) (now : Instant) (handle : String)
  | release (handle : String)
  | lockedUntil (key : RecordKey)
  | deleteLocks (threshold : Instant)
  | deleteRecords (threshold : Instant) (limit : Nat)
  | count
  | nthOldest (n : Nat)
  | cleanUp (config : CleanupConfig) (now : Instant)
  | trace
  | reopen

namespace BackendStep

/-- A record as a reply. -/
def recordJson (r : StoredRecord) : Json :=
  .ofMembers [("data", .string r.data), ("final", .bool r.isFinal), ("at", timeJson r.createdAt)]

/-- Sizes of both tables in memory, and whether they are empty. -/
def sizesJson (b : Bench) : Json :=
  .array [.nat b.records.size, .bool (b.records.size == 0), .nat b.locks.size, .bool (b.locks.size == 0)]

/-- The reply to asking for a lock. -/
def decisionJson : LockDecision → Json
  | .obtained h =>
    .ofMembers [("obtained", keyJson h.key), ("debug", .string ((LockDecision.obtained h).debugText isoTime))]
  | .locked t =>
    .ofMembers [("locked", timeJson t), ("debug", .string ((LockDecision.locked t).debugText isoTime))]

/-- The reply to a transaction. -/
def transactionJson (backend : Backend) (commit : Except Error Unit) (items : List Json) : Json :=
  let duplicate := match commit with
    | .error e => .bool (backend.store.mayBeDuplicate e)
    | .ok () => .null
  .ofMembers [("items", .array items), ("commit", resultJson unitJson commit), ("dup", duplicate)]

/-- Takes the trace and forgets it. -/
def takeTrace : Action Bench Json :=
  Process.atomically fun w => (traceJson time w.trace, { w with trace := w.trace.drain })

/-- Asks for a lock and keeps it under a name. -/
def obtainAs (backend : Backend) (key : RecordKey) (timeout : Duration) (now : Instant) (handle : String) :
    Action Bench Json := do
  match ← backend.locks.obtain key timeout now with
  | .error e => return resultJson unitJson (.error (.lock e))
  | .ok (.locked t) => return decisionJson (.locked t)
  | .ok (.obtained h) =>
    Action.change Bench.handlesPart (·.insert handle h)
    return decisionJson (.obtained h)

/-- Releases the lock of a name. -/
def releaseAs (backend : Backend) (handle : String) : Action Bench Json := do
  match ← Action.on Bench.handlesPart fun t => (t.get? handle, t.erase handle) with
  | none => return Answer.report (.error .noHandle)
  | some h => return resultJson unitJson ((← backend.locks.release h).mapError .lock)

/-- What an item of a transaction comes to: its reply, if it has one, and the error that ends the
    transaction, if it does. -/
abbrev ItemEffect := Option Json × Option Error

/-- One insert of a transaction. -/
def insertItem (store : StoreAdapter Bench) (key : RecordKey) (data : String) (isFinal tolerated : Bool) :
    StateT store.Txn (Action Bench) ItemEffect := do
  match ← store.insert key data isFinal with
  | .ok () => return (some (.string "inserted"), none)
  | .error e =>
    return (some (resultJson unitJson (.error (.store e))), if tolerated then none else some (.store e))

mutual

/-- **Runs a step.** -/
def run (backend : Backend) : BackendStep → Action Bench Json
  | .load key record => do
    Action.change Bench.recordsPart (·.insert key record)
    return resultJson unitJson (.ok ())
  | .get key => do return resultJson (optional recordJson) ((← backend.store.get key).mapError .store)
  | .transact items => do
    let (commit, replies) ← backend.store.transact (runItems backend items [])
    return transactionJson backend commit (replies.getD [])
  | .findFinal process key => do
    return resultJson (optional .string) ((← backend.store.findFinal process key).mapError .store)
  | .keysOf process key =>
    Action.look Bench.recordsPart fun s => .array ((MemoryStore.keysOf s process key).map keyJson)
  | .sizes => Process.look fun w => sizesJson w.env
  | .obtain key timeout now handle => obtainAs backend key timeout now handle
  | .release handle => releaseAs backend handle
  | .lockedUntil key => Action.look Bench.locksPart fun t => optional timeJson (t.lockedUntil? key)
  | .deleteLocks threshold => do return resultJson .nat (← backend.retention.deleteLocks threshold)
  | .deleteRecords threshold limit => do
    return resultJson .nat (← backend.retention.deleteRecords threshold limit)
  | .count => do return resultJson .nat (← backend.retention.count)
  | .nthOldest n => do return resultJson (optional timeJson) (← backend.retention.nthOldest n)
  | .cleanUp config now => do return resultJson cleanupJson (← config.cleanUp backend.retention now)
  | .trace => takeTrace
  | .reopen => do
    Action.change Bench.handlesPart fun _ => Table.empty
    backend.opened
    return .null

/-- Runs an item of a transaction. -/
def runItem (backend : Backend) :
    TransactionItem BackendStep → StateT backend.store.Txn (Action Bench) ItemEffect
  | .insert key data isFinal tolerated => insertItem backend.store key data isFinal tolerated
  | .fail message => return (none, some (.misuse message))
  | .crash message => StateT.lift (Process.crash message)
  | .between step => do return (some (← StateT.lift (run backend step)), none)

/-- Runs the items of a transaction; the replies so far come first. -/
def runItems (backend : Backend) : List (TransactionItem BackendStep) → List Json →
    StateT backend.store.Txn (Action Bench) (Except Error Unit × List Json)
  | [], replies => return (.ok (), replies)
  | item :: rest, replies => do
    let (reply, failure) ← runItem backend item
    let replies := replies ++ reply.toList
    match failure with
    | some e => return (.error e, replies)
    | none => runItems backend rest replies

end

/-- **Runs steps one after the other**; a crash is the reply of its step alone. -/
def play (backend : Backend) : List BackendStep → World Bench → List Json
  | [], _ => []
  | s :: rest, w => match (s.run backend).run w with
    | (.value reply, w) => reply :: play backend rest w
    | (.crashed message, w) => .ofMembers (crashMembers message) :: play backend rest w

/-- **The replies of a scenario.** -/
def script (kind : BackendKind) (steps : List BackendStep) : List Json :=
  play kind.backend steps ((kind.backend.opened).run { env := Bench.fresh }).2

end BackendStep

end Idempotence.Scenario
