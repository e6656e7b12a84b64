/-
  Retention — removing old records and expired locks.

  A run removes what is older than the retention period, but no more than a number of records: where
  more are due, its threshold moves back to the creation of the first record beyond that number.
  Records go in batches, the oldest first, until a batch is not full; then the locks that expired
  before the threshold go.  A run counts in 64 bits what it has removed.
-/
import Idempotence.Config
import Idempotence.Lock.Table
import Idempotence.Store.Durable
import Idempotence.Store.Memory

namespace Idempotence

/-- **What retention needs of a store** in the environment `ε`. -/
structure RetentionStore (ε : Type) where
  /-- Number of records. -/
  count : Action ε (Except Error Nat)
  /-- When the `n`-th oldest record was created, counting from one. -/
  nthOldest : Nat → Action ε (Except Error (Option Instant))
  /-- Deletes the oldest records before a moment, up to a limit, and counts them. -/
  deleteRecords : Instant → Nat → Action ε (Except Error Nat)
  /-- Deletes the locks that expired before a moment, and counts them. -/
  deleteLocks : Instant → Action ε (Except Error Nat)
  /-- How many batches can be full from now on; one more than that is never asked for. -/
  fullBatches : Action ε Nat

namespace RetentionStore

variable {ε : Type}

/-- Retention over the stores in memory. -/
def memory (records : Part ε MemoryStore) (locks : Part ε (LockTable RecordKey)) : RetentionStore ε where
  count := Action.look records fun s => .ok s.size
  nthOldest n := Action.look records fun s => .ok (MemoryStore.nthOldest s n)
  deleteRecords threshold limit := Action.on records fun s =>
    let (removed, s) := MemoryStore.deleteBefore s threshold limit
    (.ok removed, s)
  deleteLocks threshold := Action.on locks fun t =>
    let (removed, t) := t.deleteBefore threshold
    (.ok removed, t)
  fullBatches := Action.look records Table.size

/-- Retention over the durable stores. -/
def durable (records : Part ε DurableStore) (locks : Part ε (LockTable String)) : RetentionStore ε where
  count := Action.look records fun s => .ok s.size
  nthOldest n := Action.look records fun s => .ok (s.nthOldest n)
  deleteRecords threshold limit := Action.on records fun s =>
    let (removed, s) := s.deleteBefore threshold limit
    (.ok removed, s)
  deleteLocks threshold := Action.on locks fun t =>
    let (removed, t) := t.deleteBefore threshold
    (.ok removed, t)
  fullBatches := Action.look records fun s => s.byCreation.size

end RetentionStore

/-! ## Reports -/

/-- **What a run did.** -/
structure CleanupReport where
  /-- What was older than this was removed; nothing where there were no records at all. -/
  threshold : Option Instant := none
  removedRecords : Nat := 0
  removedLocks : Nat := 0
  /-- Whether the threshold was moved back. -/
  limitReached : Bool := false
  deriving DecidableEq, Inhabited

/-- The summary for readers, its time written by `time`. -/
def CleanupReport.details (time : Instant → String) (r : CleanupReport) : String :=
  match r.threshold with
  | none => "No idempotency records to clean"
  | some t => Event.cleanupSummary r.removedRecords r.removedLocks (time t)

/-! ## Runs -/

namespace CleanupConfig

variable {ε : Type}

/-- The ordinal of the first record that a run may not remove, as far as 64 bits hold it. -/
def firstBeyond (config : CleanupConfig) : Nat :=
  min (config.maxRecords.toNat + 1) (Config.limit64 - 1)

/-- Before what a run removes, and whether that was moved back: to the creation of the first record
    that the run may not remove, if that one is due as well. -/
def threshold (retained : Instant) (firstKept : Option Instant) : Instant × Bool :=
  match firstKept with
  | some t => if t < retained then (t, true) else (retained, false)
  | none => (retained, false)

/-- Adds a batch to the records removed so far.  The sum is kept in 64 bits; a greater one crashes. -/
def addRemoved (removed batch : Nat) : Action ε Nat :=
  if removed + batch < Config.limit64 then pure (removed + batch)
  else Process.crash "attempt to add with overflow"

/-- Removes records in batches until one is not full.  Answers how many were removed. -/
def removeRecords (config : CleanupConfig) (store : RetentionStore ε) (before : Instant) :
    (fullBatches removed : Nat) → Action ε (Except Error Nat)
  | fullBatches, removed => do
    match ← store.deleteRecords before config.batchSize.toNat with
    | .error e => return .error e
    | .ok batch =>
      let removed ← addRemoved removed batch
      Action.tell (.cleanupBatch batch config.batchSize.toNat)
      if batch < config.batchSize.toNat then return .ok removed
      match fullBatches with
      | 0 => return .ok removed
      | n + 1 => removeRecords config store before n removed

/-- Removes everything before a moment. -/
def removeBefore (config : CleanupConfig) (store : RetentionStore ε) (before : Instant)
    (limitReached : Bool) : Action ε (Except Error CleanupReport) := do
  Action.tell (.cleanupStarted before)
  match ← config.removeRecords store before (← store.fullBatches) 0 with
  | .error e => return .error e
  | .ok records => match ← store.deleteLocks before with
    | .error e => return .error e
    | .ok locks =>
      Action.tell (.cleanupFinished records locks before)
      return .ok ⟨some before, records, locks, limitReached⟩

/-- Finds the threshold and removes everything before it. -/
def clean (config : CleanupConfig) (store : RetentionStore ε) (now : Instant) :
    Action ε (Except Error CleanupReport) := do
  match now.subtract? config.retention with
  | none => Process.crash "`DateTime - TimeDelta` overflowed"
  | some retained => match ← store.nthOldest config.firstBeyond with
    | .error e => return .error e
    | .ok firstKept =>
      let (before, limitReached) := threshold retained firstKept
      if limitReached then Action.tell (.cleanupLimitReached config.maxRecords.toNat)
      config.removeBefore store before limitReached

/-- **One run of retention.**  Where there are no records, expired locks stay. -/
def cleanUp (config : CleanupConfig) (store : RetentionStore ε) (now : Instant) :
    Action ε (Except Error CleanupReport) := do
  match config.check with
  | .error e => return .error e
  | .ok () => match ← store.count with
    | .error e => return .error e
    | .ok 0 =>
      Action.tell .nothingToClean
      return .ok {}
    | .ok _ => match ← config.clean store now with
      | .ok report => return .ok report
      | .error e =>
        Action.tell (.cleanupFailed e)
        return .error e

end CleanupConfig

end Idempotence
