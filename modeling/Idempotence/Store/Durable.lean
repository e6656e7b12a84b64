/-
  Durable records — a table of records by key code, with an index by creation.

  The index has an entry for every record.  Its keys start with the time of creation in a text of fixed
  width, so within the years 0 to 9999 their order is the order of time; retention walks it from the
  start.  A moment outside of these years is still compared as a TEXT.

  The map has a size that is fixed when it is opened; `checkMap` says which sizes can be opened.

  There is one writer at a time.  A transaction works on a copy of both tables and puts it back at its
  end.  An insert that fails half way leaves in the copy what it had written: a record whose code fits
  while the key of its index entry does not stays without an entry.
-/
import Idempotence.Config
import Idempotence.Store.Basic
import Idempotence.Store.KeyCode

namespace Idempotence

/-- **An entry of the index**: when a record was created, and its code. -/
structure IndexEntry where
  createdAt : Instant
  code : String
  deriving DecidableEq, Inhabited

/-- **Durable records.** -/
structure DurableStore where
  /-- The records by their codes. -/
  records : Table String StoredRecord := Table.empty
  /-- The index by creation. -/
  byCreation : Table String IndexEntry := Table.empty
  deriving Inhabited

namespace DurableStore

/-! ## Looking -/

/-- The record under a key. -/
def get? (s : DurableStore) (key : RecordKey) : Option StoredRecord := s.records.get? (KeyCode.ofKey key)

/-- Number of records. -/
def size (s : DurableStore) : Nat := s.records.size

/-- The id of the first final record of an instance. -/
def findFinal (s : DurableStore) (process key : String) : Option String :=
  s.records.entries.findSome? fun (code, r) => if r.isFinal then KeyCode.record? process key code else none

/-- When the `n`-th oldest record was created, counting from one. -/
def nthOldest (s : DurableStore) : Nat → Option Instant
  | 0 => none
  | n + 1 => s.byCreation.entries[n]?.map (·.2.createdAt)

/-! ## Changing -/

/-- The key of an index entry: the time, a separator and the code. -/
def indexKey (createdAt : Instant) (code : String) : String := s!"{createdAt.indexText}\x1f{code}"

/-- **Writes a record** and its index entry, in this order. -/
def write (s : DurableStore) (key : RecordKey) (record : StoredRecord) :
    Except StoreError Unit × DurableStore :=
  let code := KeyCode.ofKey key
  if !KeyCode.fits code then (.error .keyTooLong, s)
  else
    let s := { s with records := s.records.insert code record }
    let entry := indexKey record.createdAt code
    if !KeyCode.fits entry then (.error .keyTooLong, s)
    else (.ok (), { s with byCreation := s.byCreation.insert entry ⟨record.createdAt, code⟩ })

/-- The first index entries before a moment, up to a limit. -/
def due (s : DurableStore) (threshold : Instant) (limit : Nat) : List (String × IndexEntry) :=
  (s.byCreation.entries.takeWhile fun e => decide (e.1 < threshold.indexText)).take limit

/-- Deletes an index entry and its record. -/
def eraseEntry (s : DurableStore) (e : String × IndexEntry) : DurableStore where
  records := s.records.erase e.2.code
  byCreation := s.byCreation.erase e.1

/-- **Deletes the oldest records** that were created before a moment, up to a limit.  Answers how many
    they were. -/
def deleteBefore (s : DurableStore) (threshold : Instant) (limit : Nat) : Nat × DurableStore :=
  let entries := due s threshold limit
  (entries.length, entries.foldl eraseEntry s)

/-! ## Opening and the adapter -/

variable {ε : Type}

/-- The fewest pages of a map: two headers, the table of tables, which opening writes, and the last
    page, which is never written. -/
def fewestPages : Nat := 4

/-- The bytes that a process can address. -/
def addressSpace : Nat := twoTo 47

/-- Refuses a map that cannot be opened: with part of a page at its end, without room for what opening
    writes, or larger than the address space. -/
def checkMap (bytes : Nat) : Except StoreError Unit :=
  if bytes % pageSize ≠ 0 then .error (.unevenSize bytes)
  else if addressSpace ≤ bytes then .error .unmappable
  else if bytes < fewestPages * pageSize then .error .mapFull
  else .ok ()

/-- **Opens a store.**  Answers how many records are in it. -/
def openAt (config : DurableConfig) (part : Part ε DurableStore) : Action ε (Except StoreError Nat) := do
  match config.check with
  | .error e => return .error (.storage (e.message Instant.text))
  | .ok () => match checkMap config.mapSize.toNat with
    | .error e => return .error e
    | .ok () =>
      Action.tell .storeOpened
      return .ok (← Action.look part size)

/-- **Inserts into the copy** of a transaction, at the time of the given clock. -/
def insert (clock : Action ε Instant) (key : RecordKey) (data : String) (isFinal : Bool)
    (copy : DurableStore) : Action ε (Except StoreError Unit × DurableStore) := do
  if copy.records.contains (KeyCode.ofKey key) then return (.error (.duplicateRecord key), copy)
  let createdAt ← clock
  return copy.write key { data, isFinal, createdAt }

/-- **Durable records** of the environment, their times read off the given clock. -/
def adapter (part : Part ε DurableStore) (clock : Action ε Instant) : StoreAdapter ε where
  Txn := DurableStore
  get key := Action.look part fun s => .ok (s.get? key)
  begin := Action.look part fun s => .ok (some s)
  insert key data isFinal := insert clock key data isFinal
  conclude copy answer := match answer with
    | .error e => pure (.error e)
    | .ok () => Action.on part fun _ => (.ok (), copy)
  findFinal process key := Action.look part fun s => .ok (s.findFinal process key)

end DurableStore

end Idempotence
