/-
  Records in memory — a table of records by their addresses.

  Transactions are OPTIMISTIC: inserts wait in the transaction, and its end applies all of them or
  none.  An insert is refused when the key is in the table or waits already; the end is refused when a
  waiting key has come into the table meanwhile.  So of two transactions that insert one key both run
  their bodies, and the later end fails.

  Within an instance the records are in the order of their ids, so the final record that `findFinal`
  finds is the one with the least id.
-/
import Idempotence.Store.Basic

namespace Idempotence

/-- **A store in memory.** -/
abbrev MemoryStore := Table RecordKey StoredRecord

namespace MemoryStore

/-! ## Looking -/

/-- The keys of an instance's records, in order. -/
def keysOf (s : MemoryStore) (process key : String) : List RecordKey :=
  s.keys.filter (·.belongsTo process key)

/-- The id of the first final record of an instance. -/
def findFinal (s : MemoryStore) (process key : String) : Option String :=
  (s.entries.find? fun (k, r) => r.isFinal && k.belongsTo process key).map (·.1.record)

/-- The records by age, the oldest first; of equal age in the order of their keys. -/
def byAge (s : MemoryStore) : List (RecordKey × StoredRecord) :=
  s.entries.mergeSort fun a b => decide (a.2.createdAt ≤ b.2.createdAt)

theorem byAge_perm (s : MemoryStore) : (byAge s).Perm s.entries := List.mergeSort_perm ..

theorem byAge_sorted (s : MemoryStore) :
    (byAge s).Pairwise fun a b => a.2.createdAt ≤ b.2.createdAt := by
  refine List.Pairwise.imp of_decide_eq_true (List.pairwise_mergeSort ?_ ?_ s.entries)
  · intro a b c hab hbc
    exact decide_eq_true (Instant.le_trans (of_decide_eq_true hab) (of_decide_eq_true hbc))
  · intro a b
    rw [Bool.or_eq_true, decide_eq_true_iff, decide_eq_true_iff]
    exact Instant.le_total ..

/-- When the `n`-th oldest record was created, counting from one. -/
def nthOldest (s : MemoryStore) : Nat → Option Instant
  | 0 => none
  | n + 1 => (byAge s)[n]?.map (·.2.createdAt)

/-! ## Changing -/

/-- The oldest records that were created before a moment, up to a limit. -/
def due (s : MemoryStore) (threshold : Instant) (limit : Nat) : List RecordKey :=
  (((byAge s).filter fun e => decide (e.2.createdAt < threshold)).take limit).map (·.1)

/-- **Deletes the oldest records** that were created before a moment, up to a limit.  Answers how many
    they were. -/
def deleteBefore (s : MemoryStore) (threshold : Instant) (limit : Nat) : Nat × MemoryStore :=
  let keys := due s threshold limit
  (keys.length, keys.foldl Table.erase s)

/-- What waits in a transaction, in the order of the inserts. -/
abbrev Pending := List (RecordKey × StoredRecord)

/-- **Ends a transaction**: puts in all that waits, or nothing if one of the keys is taken. -/
def commit (pending : Pending) (s : MemoryStore) : Except Error Unit × MemoryStore :=
  match pending.find? fun e => s.contains e.1 with
  | some (key, _) => (.error (.store (.duplicateRecord key)), s)
  | none => (.ok (), pending.foldl (fun s e => s.insert e.1 e.2) s)

/-! ## The adapter -/

/-- **Records in a table** of the environment, their times read off the given clock. -/
def adapter {ε : Type} (part : Part ε MemoryStore) (clock : Action ε Instant) : StoreAdapter ε where
  Txn := Pending
  get key := Action.look part fun s => .ok (s.get? key)
  begin := pure (.ok (some []))
  insert key data isFinal := fun pending => do
    if (← Action.look part (·.contains key)) || pending.any (·.1 == key) then
      return (.error (.duplicateRecord key), pending)
    let createdAt ← clock
    return (.ok (), pending ++ [(key, { data, isFinal, createdAt })])
  conclude pending answer := match answer with
    | .error e => pure (.error e)
    | .ok () => Action.on part (commit pending)
  findFinal process key := Action.look part fun s => .ok (findFinal s process key)

end MemoryStore

end Idempotence
