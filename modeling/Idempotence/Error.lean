/-
  Errors — why a process could not start, go on or finish.

  The classes matter to whoever calls: MISUSE of the interface is a defect of the program, CONTENTION
  is expected and worth a retry, a CONFLICT means that the caller repeats itself differently, and the
  rest are failures of what the engine stands on.  Each class has a stable code for transports.

  Every cause is a constructor; the wording stands in the `message` functions and nowhere else.  Times
  in a message are written by a function that the caller may choose.
-/
import Idempotence.Identifier
import Idempotence.RecordKey
import Idempotence.Setting
import Idempotence.Time.Instant

namespace Idempotence

/-! ## Misuse -/

/-- **How the interface was misused.** -/
inductive Misuse where
  | invalidIdentifier (kind id : String)
  | emptyKey (process : String)
  | conflictingSettings (owner : String) (first second : Setting)
  | afterFinalPhase (process phase : String)
  | duplicatePhase (process phase : String)
  | nestedPhase (process phase current : String)
  | finalPhaseRecorded (process phase final : String)
  | noStrategy
  | severalStrategies (strategies : List PublishStrategy)
  | noPublisher
  | publishingForbidden
  | publishingAfterFinalPhase
  | publishingInNonFinalPhase
  | publishingOutsidePhase
  | publishingInsidePhase
  | zeroLockTimeout
  | zeroBatchSize
  | zeroRecordLimit
  | zeroStoreLimit
  /-- A misuse that an extension found. -/
  | other (message : String)
  deriving DecidableEq, Repr

/-- The wording of a misuse. -/
def Misuse.message : Misuse → String
  | invalidIdentifier kind id =>
    s!"Invalid identifier {kind}: {Text.quote id}. Must match {Identifier.grammar}."
  | emptyKey process => s!"Process {process}: idempotency key must not be empty."
  | conflictingSettings owner a b =>
    s!"{owner}: conflicting settings provided: {a.debugText} and {b.debugText}."
  | afterFinalPhase process phase =>
    s!"Process {process}: You can not enter phase {phase}, because there was already a final phase."
  | duplicatePhase process phase => s!"Process {process}: Duplicate phaseId: {phase}."
  | nestedPhase process phase current =>
    s!"Process {process}: You can not enter phase {phase}, because you are already in phase {current}."
  | finalPhaseRecorded process phase final =>
    s!"Process {process}: You can not enter phase {phase}, because final phase {final} was already recorded by a previous execution."
  | noStrategy => "Publish strategy is required but not configured."
  | severalStrategies strategies =>
    s!"Multiple publish strategies provided: {Text.bracketed (strategies.map PublishStrategy.debugText)}."
  | noPublisher =>
    "Publish strategy is required but not configured. Register PublishStrategyInterceptor."
  | publishingForbidden => "It is not possible to publish with NoPublishing strategy"
  | publishingAfterFinalPhase => "It is not possible to publish after final phase"
  | publishingInNonFinalPhase => "It is not possible to publish inside non final phase"
  | publishingOutsidePhase => "It is not possible to publish outside phase"
  | publishingInsidePhase => "It is not possible to publish inside phase"
  | zeroLockTimeout => "default_lock_timeout must be greater than zero"
  | zeroBatchSize => "cleanup.batch_size must be greater than zero"
  | zeroRecordLimit => "cleanup.max_records_to_remove must be greater than zero"
  | zeroStoreLimit => "lmdb.map_size and lmdb.max_readers must be greater than zero"
  | other message => message

/-! ## Failures of what the engine stands on -/

/-- What a backend says of a key that is too long for it. -/
def keyTooLongText : String :=
  "MDB_BAD_VALSIZE: Unsupported size of key/DB name/data, or wrong DUPFIXED size"

/-- What a backend says when its last page is taken. -/
def mapFullText : String := "MDB_MAP_FULL: Environment mapsize limit reached"

/-- What a backend says of a map that does not fit into the address space. -/
def unmappableText : String := "Cannot allocate memory (os error 12)"

/-- **A failure of the record store.** -/
inductive StoreError where
  /-- There is a record under the key already. -/
  | duplicateRecord (key : RecordKey)
  | storage (message : String)
  /-- A stored text could not be read. -/
  | encoding (detail : String)
  /-- The key exceeds what the durable store can hold. -/
  | keyTooLong
  /-- The size of the durable store is no whole number of pages. -/
  | unevenSize (bytes : Nat)
  /-- The durable store has no page left. -/
  | mapFull
  /-- The durable store is larger than the address space. -/
  | unmappable
  deriving DecidableEq, Repr

/-- The bytes of a page of the durable store. -/
def pageSize : Nat := 4096

/-- The wording of a store failure. -/
def StoreError.message : StoreError → String
  | duplicateRecord key => s!"Duplicate idempotency record: {key.text}"
  | storage message => s!"Storage error: {message}"
  | encoding detail => s!"Record encoding error: {detail}"
  | keyTooLong => s!"LMDB error: {keyTooLongText}"
  | unevenSize bytes =>
    s!"LMDB error: map size ({bytes}) must be a multiple of the system page size ({pageSize})"
  | mapFull => s!"LMDB error: {mapFullText}"
  | unmappable => s!"LMDB error: {unmappableText}"

/-- Whether another execution stored the same key before. -/
def StoreError.isDuplicate : StoreError → Bool
  | duplicateRecord _ => true
  | _ => false

/-- **A failure of the lock store.** -/
inductive LockError where
  | storage (message : String)
  | encoding (detail : String)
  | keyTooLong
  deriving DecidableEq, Repr

/-- The wording of a lock failure. -/
def LockError.message : LockError → String
  | storage message => s!"Lock storage error: {message}"
  | encoding detail => s!"Lock encoding error: {detail}"
  | keyTooLong => s!"LMDB error: {keyTooLongText}"

/-- **A failure to publish.** -/
inductive PublishError where
  /-- A tombstone was sent to a topic that keeps no snapshot. -/
  | misplacedTombstone (topic : String)
  | sink (message : String)
  deriving DecidableEq, Repr

/-- The wording of a failure to publish. -/
def PublishError.message : PublishError → String
  | misplacedTombstone topic => s!"Cannot send tombstone to other than snapshot topic: {topic}"
  | sink message => s!"Message sink error: {message}"

/-! ## Errors of the engine -/

/-- **Why the engine refused or failed.** -/
inductive Error where
  | assertion (misuse : Misuse)
  /-- Another execution of the instance holds its lock. -/
  | processLocked (tryAt : Instant) (process key : String)
  /-- The inputs differ from those of an earlier attempt. -/
  | inputConflict (ids : List String)
  /-- A request came without an idempotency key. -/
  | missingKey
  /-- The output of a phase could not be written or read as JSON. -/
  | serialization (detail : String)
  | store (error : StoreError)
  | lock (error : LockError)
  | publish (error : PublishError)
  /-- The body of a phase failed; its caller gets the body's own error instead. -/
  | phaseBody (phase : String)
  /-- Extensions failed while a context was closing. -/
  | contextClose (errors : List Error)

namespace Error

instance : Inhabited Error := ⟨missingKey⟩

/-- A misuse that an extension found. -/
def misuse (message : String) : Error := assertion (.other message)

/-- **The wording of an error**, its times written by `time`. -/
def message (time : Instant → String) : Error → String
  | assertion misuse => s!"Idempotency assertion failed: {misuse.message}"
  | processLocked tryAt process key =>
    s!"There is an active lock of idempotent process {process}:{key}. Retry at {time tryAt}"
  | inputConflict ids =>
    "Some inputs of an idempotent operation differ from previously used inputs with the same idempotency key. Conflicting input ids: "
      ++ ", ".intercalate ids
  | missingKey => "Idempotency key not specified"
  | serialization detail => s!"Phase output serialization failed: {detail}"
  | store error => error.message
  | lock error => error.message
  | publish error => error.message
  | phaseBody phase => s!"Body of phase {phase} failed"
  | contextClose errors =>
    s!"Exceptions occurred when closing idempotency context ({errors.length} errors)"

/-- Whether the interface was misused. -/
def isAssertion : Error → Bool
  | assertion _ => true
  | _ => false

/-- Whether another execution holds the lock. -/
def isProcessLocked : Error → Bool
  | processLocked .. => true
  | _ => false

/-- Whether another execution stored the same key before. -/
def isDuplicate : Error → Bool
  | store e => e.isDuplicate
  | _ => false

/-- **Whether the whole process is worth a retry**: after contention, not after anything else. -/
def isRetryable : Error → Bool
  | processLocked .. => true
  | store e => e.isDuplicate
  | _ => false

/-- **The stable code** for transports. -/
def code : Error → String
  | assertion _ => "ERR_SYS_013"
  | processLocked .. => "ERR_SYS_011"
  | inputConflict _ => "ERR_SYS_012"
  | missingKey => "ERR_SYS_014"
  | publish (.misplacedTombstone _) => "ERR_SYS_016"
  | _ => "ERR_SYS_001"

/-- The name of the class and, for failures below the engine, of the failure. -/
def kind : Error → String
  | assertion _ => "Assertion"
  | processLocked .. => "ProcessLocked"
  | inputConflict _ => "InputConflict"
  | missingKey => "MissingIdempotencyKey"
  | serialization _ => "Serialization"
  | store (.duplicateRecord _) => "Store.DuplicateRecord"
  | store (.storage _) => "Store.Storage"
  | store (.encoding _) => "Store.Encoding"
  | store .keyTooLong => "Store.Lmdb"
  | store (.unevenSize _) | store .mapFull | store .unmappable => "Store.Lmdb"
  | lock (.storage _) => "Lock.Storage"
  | lock (.encoding _) => "Lock.Encoding"
  | lock .keyTooLong => "Lock.Lmdb"
  | publish (.misplacedTombstone _) => "Publish.Tombstone"
  | publish (.sink _) => "Publish.Sink"
  | phaseBody _ => "PhaseBody"
  | contextClose _ => "ContextClose"

/-- Whether a report of the error carries its wording.  The wording of faults in texts and of the
    durable backend is not part of any contract. -/
def hasStableMessage : Error → Bool
  | serialization _ => false
  | store (.encoding _) => false
  | store .keyTooLong => false
  | store (.unevenSize _) | store .mapFull | store .unmappable => false
  | lock (.encoding _) => false
  | lock .keyTooLong => false
  | _ => true

/-- What every report has. -/
def header (time : Instant → String) (e : Error) : List (String × Json) :=
  [("error", .string e.kind), ("code", .string e.code), ("retryable", .bool e.isRetryable)]
    ++ if e.hasStableMessage then [("message", .string (e.message time))] else []

mutual

/-- **The report of an error** for transports: class, code, whether to retry, wording, and the errors
    it gathers. -/
def report (time : Instant → String) : Error → Json
  | contextClose errors => .ofMembers <|
    header time (contextClose errors) ++ [("errors", .array (reports time errors))]
  | e => .ofMembers (header time e)

/-- The reports of several errors. -/
def reports (time : Instant → String) : List Error → List Json
  | [] => []
  | e :: rest => report time e :: reports time rest

end

end Error

/-- Refuses a text that is no identifier; `kind` says what it was to identify. -/
def Identifier.check (kind id : String) : Except Error Unit :=
  if Identifier.isValid id then .ok () else .error (.assertion (.invalidIdentifier kind id))

/-- Refuses settings that exclude each other. -/
def Setting.check (owner : String) (settings : List Setting) : Except Error Unit :=
  match Setting.firstConflict settings with
  | some (a, b) => .error (.assertion (.conflictingSettings owner a b))
  | none => .ok ()

end Idempotence
