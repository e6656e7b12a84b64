/-
  Lock tables — a row for every lock that was obtained and not released.

  A row says which operation wrote it and when it expires.  A lock is HELD at a moment before its
  expiry; from then on the row is only a remainder, which the next taker overwrites or a cleanup
  deletes.  Operations are numbered, and a number is never used twice: `fresh` says that every row was
  written by an operation before the next one.  A late release therefore cannot hit a row that
  somebody else has written meanwhile.

  The table does not care what its keys are: `LockTable.adapter` takes the addresses themselves, the
  durable store takes their codes.
-/
import Idempotence.Lock.Basic

namespace Idempotence

open Std (TransOrd LawfulEqOrd)

/-- **The row of a lock.** -/
structure LockRow where
  /-- The operation that wrote the row. -/
  operation : Nat
  lockedUntil : Instant
  deriving DecidableEq, Inhabited

/-- In a table without rows none comes from an operation that is still to come. -/
theorem LockRow.fresh_empty (κ : Type) [Ord κ] :
    ∀ e ∈ (Table.empty : Table κ LockRow).entries, e.2.operation < 0 :=
  fun _ h => absurd h List.not_mem_nil

/-- **A table of locks.** -/
structure LockTable (κ : Type) [Ord κ] where
  rows : Table κ LockRow := Table.empty
  nextOperation : Nat := 0
  /-- No row comes from an operation that is still to come. -/
  fresh : ∀ e ∈ rows.entries, e.2.operation < nextOperation := by exact LockRow.fresh_empty _

namespace LockTable

variable {κ : Type} [Ord κ]

instance : Inhabited (LockTable κ) := ⟨{}⟩

/-- Number of rows, expired ones included. -/
def size (t : LockTable κ) : Nat := t.rows.size

variable [DecidableEq κ]

/-- The row of a key. -/
def row? (t : LockTable κ) (key : κ) : Option LockRow := t.rows.get? key

/-- When the row of a key expires. -/
def lockedUntil? (t : LockTable κ) (key : κ) : Option Instant := (t.row? key).map (·.lockedUntil)

/-- The table with some of its rows. -/
def filter (keep : κ → LockRow → Bool) (t : LockTable κ) : LockTable κ where
  rows := t.rows.filter keep
  nextOperation := t.nextOperation
  fresh := fun e he => t.fresh e (List.mem_filter.1 he).1

/-- The table without the row of a key. -/
def erase (t : LockTable κ) (key : κ) : LockTable κ := t.filter fun j _ => decide (j ≠ key)

/-- **Gives a lock back**: deletes the row of the key if the operation wrote it. -/
def release (t : LockTable κ) (key : κ) (operation : Nat) : LockTable κ :=
  if (t.row? key).map (·.operation) = some operation then t.erase key else t

/-- **Deletes the rows that expired** before a moment.  Answers how many they were. -/
def deleteBefore (t : LockTable κ) (threshold : Instant) : Nat × LockTable κ :=
  let kept := t.filter fun _ r => decide (threshold ≤ r.lockedUntil)
  (t.size - kept.size, kept)

variable [TransOrd κ] [LawfulEqOrd κ]

/-- The table with a row that the next operation writes. -/
def write (t : LockTable κ) (key : κ) (lockedUntil : Instant) : LockTable κ where
  rows := t.rows.insert key ⟨t.nextOperation, lockedUntil⟩
  nextOperation := t.nextOperation + 1
  fresh := fun e he => by
    rcases Table.mem_place he with rfl | he
    · exact Nat.lt_succ_self _
    · exact Nat.lt_succ_of_lt (t.fresh e he)

/-- **Takes a lock** from `now` on for a timeout.  Answers the operation that wrote the row or, while
    the lock is held, the moment at which it will expire. -/
def take (t : LockTable κ) (key : κ) (timeout : Duration) (now : Instant) :
    Except Instant Nat × LockTable κ :=
  match t.lockedUntil? key with
  | some expiry =>
    if now < expiry then (.error expiry, t)
    else (.ok t.nextOperation, t.write key (now.deadline timeout))
  | none => (.ok t.nextOperation, t.write key (now.deadline timeout))

/-! ## Laws -/

@[simp] theorem row?_write (t : LockTable κ) (key j : κ) (lockedUntil : Instant) :
    (t.write key lockedUntil).row? j =
      if j = key then some ⟨t.nextOperation, lockedUntil⟩ else t.row? j :=
  Table.get?_insert ..

omit [TransOrd κ] in
@[simp] theorem row?_erase (t : LockTable κ) (key j : κ) :
    (t.erase key).row? j = if j = key then none else t.row? j :=
  Table.get?_erase ..

omit [TransOrd κ] in
theorem row?_filter (t : LockTable κ) (keep : κ → LockRow → Bool) (key : κ) :
    (t.filter keep).row? key = (t.row? key).filter (keep key) :=
  Table.get?_filter ..

omit [TransOrd κ] in
/-! ## The adapter -/

/-- **Locks in a table** of the environment. -/
def adapter {ε : Type} (part : Part ε (LockTable RecordKey)) : LockAdapter ε where
  obtain key timeout now := Action.on part fun t =>
    match t.take key timeout now with
    | (.ok operation, t) => (.ok (.obtained ⟨key, operation⟩), t)
    | (.error expiry, t) => (.ok (.locked expiry), t)
  release handle := Action.on part fun t => (.ok (), t.release handle.key handle.operation)

end LockTable

end Idempotence
