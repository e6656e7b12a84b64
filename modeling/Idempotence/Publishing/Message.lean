/-
  Outbound messages.

  A message goes to a topic under a key.  Without a payload it is a TOMBSTONE, which deletes the key;
  only topics whose last dot-separated segment is `snapshot` take tombstones.

  In the JSON form a missing payload is `null`, and so is the payload `null`: reading yields a
  tombstone for both.
-/
import Idempotence.Error

namespace Idempotence

/-- **A message** for a sink. -/
structure Message where
  topic : String
  /-- The partitioning key. -/
  key : String
  /-- Nothing in a tombstone. -/
  payload : Option Json
  /-- The transport headers. -/
  headers : Table String String := Table.empty
  deriving Inhabited

namespace Message

/-- The message that deletes the key. -/
def tombstone (topic key : String) : Message := { topic, key, payload := none }

/-- Whether the message deletes its key. -/
def isTombstone (m : Message) : Bool := m.payload.isNone

/-- The message with one more header. -/
def withHeader (m : Message) (name value : String) : Message :=
  { m with headers := m.headers.insert name value }

/-- The text behind the last dot. -/
def lastSegment (topic : String) : List Char :=
  (topic.toList.reverse.takeWhile (· != '.')).reverse

/-- Whether a topic takes tombstones. -/
def isSnapshotTopic (topic : String) : Bool := lastSegment topic == "snapshot".toList

/-- **Refuses a tombstone** on a topic that keeps no snapshot. -/
def checkDestination (m : Message) : Except PublishError Unit :=
  if m.isTombstone && !isSnapshotTopic m.topic then .error (.misplacedTombstone m.topic) else .ok ()

/-! ## JSON form -/

/-- The JSON form of the headers. -/
def headersJson (m : Message) : Json := .object (m.headers.entries.map fun (n, v) => (n, .string v))

/-- The JSON text of a message; its members come in this order. -/
def toText (m : Message) : String :=
  (Json.object [("topic", .string m.topic), ("key", .string m.key),
    ("payload", m.payload.getD .null), ("headers", m.headersJson)]).render

/-- The JSON form of a message. -/
def toJson (m : Message) : Json :=
  .ofMembers [("topic", .string m.topic), ("key", .string m.key),
    ("payload", m.payload.getD .null), ("headers", m.headersJson)]

/-- Reads a message. -/
def decoder : Json.Decoder Message :=
  .record
    [ ⟨"topic", .map (fun s m => { m with topic := s }) .string, true, true⟩,
      ⟨"key", .map (fun s m => { m with key := s }) .string, true, true⟩,
      ⟨"payload", .map (fun p m => { m with payload := p }) (.option .document), false, true⟩,
      ⟨"headers", .map (fun h m => { m with headers := h }) (.table .string), false, false⟩ ]
    default

/-- Reads a message from its text. -/
def ofText (text : String) : Except Json.Fault Message := decoder.run text

end Message

end Idempotence
