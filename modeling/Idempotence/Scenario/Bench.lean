/-
  The bench — everything that a scenario has at hand.

  Stores and locks come in two kinds, in memory and durable; a scenario uses one of them.  Beside them
  stand a sink, counters, a log, stubs and faults, the contexts and lock handles that the scenario has
  given names to, and two clocks: the scenario's own, which it sets, and a wall clock, which ticks at
  every reading.
-/
import Idempotence.Lock.Durable
import Idempotence.Publishing.Memory
import Idempotence.Retention
import Idempotence.Stats
import Idempotence.Testing.Faults
import Idempotence.Testing.Recording
import Idempotence.Testing.StubLocks
import Idempotence.Testing.Winner

namespace Idempotence.Scenario

/-- A context with a name, and how many phases run through the name. -/
structure NamedContext where
  context : Context
  users : Nat := 0
  deriving Inhabited

/-- **The environment of scenarios.** -/
structure Bench where
  records : MemoryStore := Table.empty
  locks : LockTable RecordKey := {}
  durableRecords : DurableStore := {}
  durableLocks : LockTable String := {}
  deliveries : Deliveries := []
  stats : Stats := {}
  log : CallLog := []
  stubCalls : StubCalls := {}
  winnerCalls : WinnerCalls := {}
  faults : Faults := {}
  /-- The scenario's own clock. -/
  now : Instant
  /-- How often the wall clock has been read. -/
  readings : Nat := 0
  contexts : Table String NamedContext := Table.empty
  handles : Table String LockHandle := Table.empty
  /-- For every open block, the innermost first: the replies of its body, once it has run. -/
  transcripts : List (Option (List Json)) := []

namespace Bench

/-! ## Parts -/

/-- The records in memory. -/
def recordsPart : Part Bench MemoryStore where
  get := (·.records)
  set a b := { b with records := a }

/-- The locks in memory. -/
def locksPart : Part Bench (LockTable RecordKey) where
  get := (·.locks)
  set a b := { b with locks := a }

/-- The durable records. -/
def durableRecordsPart : Part Bench DurableStore where
  get := (·.durableRecords)
  set a b := { b with durableRecords := a }

/-- The durable locks. -/
def durableLocksPart : Part Bench (LockTable String) where
  get := (·.durableLocks)
  set a b := { b with durableLocks := a }

/-- What the sink has got. -/
def deliveriesPart : Part Bench Deliveries where
  get := (·.deliveries)
  set a b := { b with deliveries := a }

/-- The counters. -/
def statsPart : Part Bench Stats where
  get := (·.stats)
  set a b := { b with stats := a }

/-- The log. -/
def logPart : Part Bench CallLog where
  get := (·.log)
  set a b := { b with log := a }

/-- The calls of the stub locks. -/
def stubPart : Part Bench StubCalls where
  get := (·.stubCalls)
  set a b := { b with stubCalls := a }

/-- The calls of the winner store. -/
def winnerPart : Part Bench WinnerCalls where
  get := (·.winnerCalls)
  set a b := { b with winnerCalls := a }

/-- The faults. -/
def faultsPart : Part Bench Faults where
  get := (·.faults)
  set a b := { b with faults := a }

/-- The scenario's own clock. -/
def nowPart : Part Bench Instant where
  get := (·.now)
  set a b := { b with now := a }

/-- The readings of the wall clock. -/
def readingsPart : Part Bench Nat where
  get := (·.readings)
  set a b := { b with readings := a }

/-- The named contexts. -/
def contextsPart : Part Bench (Table String NamedContext) where
  get := (·.contexts)
  set a b := { b with contexts := a }

/-- The named lock handles. -/
def handlesPart : Part Bench (Table String LockHandle) where
  get := (·.handles)
  set a b := { b with handles := a }

/-- The replies of the open blocks. -/
def transcriptsPart : Part Bench (List (Option (List Json))) where
  get := (·.transcripts)
  set a b := { b with transcripts := a }

/-! ## Clocks -/

/-- Where scenarios begin: 2024-01-01 00:00:00. -/
def start : Instant := (Instant.ofParts? 1704067200 0).getD .epoch

/-- The bench of a scenario that begins. -/
def fresh : Bench := { now := start }

/-- What the wall clock reads for the `n`-th time: 2026-01-01 and so many microseconds. -/
def reading (n : Nat) : Instant := (Instant.ofParts? (1767225600 + n / 1000000) (n % 1000000 * 1000)).getD .last

/-- Reads the wall clock. -/
def wallClock : Action Bench Instant := Action.on readingsPart fun n => (reading n, n + 1)

/-- Reads the scenario's own clock. -/
def clock : Action Bench Instant := Action.look nowPart id

end Bench

/-! ## Backends -/

/-- The two kinds of stores and locks. -/
inductive BackendKind where
  | memory
  | durable
  deriving DecidableEq, Repr

/-- **The stores and locks of one kind.** -/
structure Backend where
  store : StoreAdapter Bench
  locks : LockAdapter Bench
  retention : RetentionStore Bench
  /-- Number of records. -/
  recordCount : Bench → Nat
  /-- Number of lock rows, where that can be told. -/
  lockCount : Bench → Option Nat
  /-- What is told when the backend is opened. -/
  opened : Action Bench Unit

/-- The backend of a kind. -/
def BackendKind.backend : BackendKind → Backend
  | memory =>
    { store := MemoryStore.adapter Bench.recordsPart Bench.wallClock
      locks := LockTable.adapter Bench.locksPart
      retention := .memory Bench.recordsPart Bench.locksPart
      recordCount := fun b => b.records.size
      lockCount := fun b => some b.locks.size
      opened := pure () }
  | durable =>
    { store := DurableStore.adapter Bench.durableRecordsPart Bench.wallClock
      locks := DurableLocks.adapter Bench.durableLocksPart
      retention := .durable Bench.durableRecordsPart Bench.durableLocksPart
      recordCount := fun b => b.durableRecords.size
      lockCount := fun _ => none
      opened := Action.tell .storeOpened }

end Idempotence.Scenario
