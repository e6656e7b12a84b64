/-
  Record keys — where a record or a lock is kept.

  A process INSTANCE is a process kind together with an idempotency key.  Within the instance a record
  is addressed by the id of its phase; one further record id is reserved for the instance's lock.
  Keys are ordered by kind, then idempotency key, then record id.
-/
import Idempotence.Json.Decoder
import Idempotence.Json.Printer
import Idempotence.Text.Quoted

namespace Idempotence

/-- **The address of a record or lock.** -/
structure RecordKey where
  /-- The process kind. -/
  process : String
  /-- The attempt series within the kind. -/
  key : String
  /-- The phase id, or the lock's reserved id. -/
  record : String
  deriving DecidableEq, Repr, Inhabited

namespace RecordKey

/-- Kind first, then idempotency key, then record id. -/
def order : RecordKey → RecordKey → Ordering :=
  compareLex (compareOn process) (compareLex (compareOn key) (compareOn record))

instance : Ord RecordKey := ⟨order⟩

instance : Std.TransOrd RecordKey :=
  inferInstanceAs (Std.TransCmp
    (compareLex (compareOn process) (compareLex (compareOn key) (compareOn record))))

instance : Std.LawfulEqOrd RecordKey where
  eq_of_compare := fun {a b} h => by
    have h : order a b = .eq := h
    simp only [order, compareLex_eq_eq, compareOn] at h
    obtain ⟨hp, hk, hr⟩ := h
    cases a
    cases b
    congr
    · exact Std.LawfulEqOrd.eq_of_compare hp
    · exact Std.LawfulEqOrd.eq_of_compare hk
    · exact Std.LawfulEqOrd.eq_of_compare hr

/-- The record id that is reserved for the lock of an instance. -/
def lockRecord : String := "_PROCESS_LOCK"

/-- The address of an instance's lock. -/
def lock (process key : String) : RecordKey := ⟨process, key, lockRecord⟩

/-- Whether the address is that of a lock. -/
def isLock (k : RecordKey) : Bool := k.record == lockRecord

/-- Whether the address belongs to the instance. -/
def belongsTo (k : RecordKey) (process key : String) : Bool := k.process == process && k.key == key

/-- The text of an address, its parts separated by colons. -/
def text (k : RecordKey) : String := s!"{k.process}:{k.key}:{k.record}"

/-- The text for developers. -/
def debugText (k : RecordKey) : String :=
  "QualifiedKey \x7b process_id: " ++ Text.quote k.process ++ ", idempotency_key: " ++ Text.quote k.key
    ++ ", record_id: " ++ Text.quote k.record ++ " \x7d"

/-! ## JSON form -/

/-- The JSON text of an address; its members come in this order. -/
def toText (k : RecordKey) : String :=
  (Json.object [("process_id", .string k.process), ("idempotency_key", .string k.key),
    ("record_id", .string k.record)]).render

/-- Reads an address. -/
def decoder : Json.Decoder RecordKey :=
  .record
    [ ⟨"process_id", .map (fun s k => { k with process := s }) .string, true, true⟩,
      ⟨"idempotency_key", .map (fun s k => { k with key := s }) .string, true, true⟩,
      ⟨"record_id", .map (fun s k => { k with record := s }) .string, true, true⟩ ]
    default

/-- Reads an address from its text. -/
def ofText (text : String) : Except Json.Fault RecordKey := decoder.run text

end RecordKey

end Idempotence
