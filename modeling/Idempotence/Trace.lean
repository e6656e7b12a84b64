/-
  Traces — what the engine tells about itself.

  An event is told inside a SPAN.  Spans form trees: a span's parent is fixed when it is created, so a
  span is the path from its root to itself.  While a computation runs inside a span, that span is the
  current one; leaving it brings back the one before.

  What an event says — level, name, wording, fields — is a function of its constructor; `Event.report`
  puts it together.
-/
import Idempotence.Error

namespace Idempotence

/-! ## Spans -/

/-- One node of a span tree. -/
structure SpanNode where
  /-- Tells nodes of equal content apart. -/
  id : Nat
  name : String
  fields : List (String × String)
  deriving DecidableEq, Repr

/-- **A span**, as the path from the root to it; the empty path is no span at all. -/
abbrev Span := List SpanNode

/-! ## Events -/

/-- How serious an event is. -/
inductive Level where
  | debug
  | info
  | warn
  | error
  deriving DecidableEq, Repr

/-- The name of a level. -/
def Level.text : Level → String
  | debug => "DEBUG"
  | info => "INFO"
  | warn => "WARN"
  | error => "ERROR"

/-- **What can happen.** -/
inductive Event where
  | contextCreated
  | contextClosed
  | contextDropped (process key : String)
  | closingDroppedFailed (process key : String) (error : Error)
  | closingFailedToo (process key : String) (error : Error)
  | releaseFailed (process key : String) (error : LockError)
  | releaseAfterFailedStart (process key : String) (error : LockError)
  | processLocked (process key : String) (tryAt : Instant)
  | resultStored (phase : String)
  | multipleExecutions (phase : String)
  | enteringPhase
  | enteringFinalPhase
  | phaseFinished
  | phaseBodyFailed
  | executorFailed (error : Error)
  | inputsDiffer (process key : String) (added removed : List String)
  | lockNotObtained (key : RecordKey) (attempts : Nat)
  | nothingToClean
  | cleanupLimitReached (limit : Nat)
  | cleanupStarted (threshold : Instant)
  | cleanupBatch (removed batchSize : Nat)
  | cleanupFinished (records locks : Nat) (threshold : Instant)
  | cleanupFailed (error : Error)
  | storeOpened

namespace Event

/-- How serious. -/
def level : Event → Level
  | contextCreated | contextClosed | resultStored _ | enteringPhase | enteringFinalPhase
  | phaseFinished | cleanupBatch .. | storeOpened => .debug
  | processLocked .. | nothingToClean | cleanupStarted _ | cleanupFinished .. => .info
  | contextDropped .. | releaseAfterFailedStart .. | multipleExecutions _ | phaseBodyFailed
  | inputsDiffer .. | lockNotObtained .. | cleanupLimitReached _ => .warn
  | closingDroppedFailed .. | closingFailedToo .. | releaseFailed .. | executorFailed _
  | cleanupFailed _ => .error

/-- The stable name, for the events that have one. -/
def name? : Event → Option String
  | contextCreated => some "idempotency_context_created"
  | contextClosed => some "idempotency_context_closed"
  | contextDropped .. => some "idempotency_context_dropped_unclosed"
  | releaseFailed .. => some "idempotency_lock_release_failed"
  | processLocked .. => some "idempotency_process_locked"
  | resultStored _ => some "idempotency_result_stored_so_skip_phase"
  | multipleExecutions _ => some "idempotency_multiple_executions_in_parallel"
  | enteringPhase => some "idempotency_entering_new_phase"
  | phaseFinished => some "idempotency_phase_finished_no_retry"
  | phaseBodyFailed => some "idempotency_phase_finished_exceptionally"
  | executorFailed _ => some "idempotency_phase_executor_error"
  | inputsDiffer .. => some "idempotency_inputs_differ_from_cached"
  | lockNotObtained .. => some "idempotency_unable_obtain_lock"
  | nothingToClean => some "idempotency_cleanup_job_finished"
  | cleanupLimitReached _ => some "idempotency_cleanup_max_records_reached"
  | cleanupStarted _ => some "idempotency_cleanup_job_started"
  | cleanupBatch .. => some "idempotency_cleanup_records"
  | cleanupFinished .. => some "idempotency_cleanup_job_finished"
  | cleanupFailed _ => some "idempotency_cleanup_job_failed"
  | closingDroppedFailed .. | closingFailedToo .. | releaseAfterFailedStart .. | enteringFinalPhase
  | storeOpened => none

/-- What a cleanup run did. -/
def cleanupSummary (records locks : Nat) (threshold : String) : String :=
  s!"Removed {records} idempotency records and {locks} locks (with createdAt/lockedUntil before {threshold})"

/-- The wording. -/
def message (time : Instant → String) : Event → String
  | contextCreated => "Idempotency: Entering new process."
  | contextClosed => "Idempotency: Closing the process."
  | contextDropped .. => "Idempotency: Context dropped without being closed"
  | closingDroppedFailed .. => "Idempotency: Closing dropped context failed"
  | closingFailedToo .. => "Idempotency: Closing context after failed process body failed as well"
  | releaseFailed .. =>
    "Idempotency: Attempt to release idempotency lock has failed. It will be released implicitly after specified timeout."
  | releaseAfterFailedStart .. => "Idempotency: Releasing lock after failed start did not succeed"
  | processLocked .. => "Idempotency: Process is locked by another execution"
  | resultStored _ => "Idempotency: Skipping phase, because the result is already stored."
  | multipleExecutions _ =>
    "Idempotency: There were multiple executions of the same phase in parallel. Making sure the same result was returned in both."
  | enteringPhase => "Idempotency: Entering new phase."
  | enteringFinalPhase => "Idempotency: This is the final phase."
  | phaseFinished => "Idempotency: Phase finished successfully and will not be executed on retry."
  | phaseBodyFailed =>
    "Idempotency: Phase body returned an error. Database transaction has been rolled back."
  | executorFailed _ =>
    "Idempotency: Phase finished exceptionally. Database transaction has been rolled back."
  | inputsDiffer .. => "Set of validated inputs differs from cached values."
  | lockNotObtained .. => "Idempotency: Unable to obtain lock"
  | nothingToClean => "No idempotency records to clean"
  | cleanupLimitReached _ => "Removing max records to remove in one cleanup run"
  | cleanupStarted _ => "Removing old idempotency records"
  | cleanupBatch .. => "Removed batch of idempotency records"
  | cleanupFinished records locks threshold => cleanupSummary records locks (time threshold)
  | cleanupFailed _ => "Failed to remove old idempotency records"
  | storeOpened => "Opened LMDB idempotency store"

/-- The fields that name a process instance. -/
def instanceFields (process key : String) : List (String × String) :=
  [("process_id", process), ("idempotency_key", key)]

/-- A list of names, for developers. -/
def namesText (names : List String) : String := Text.bracketed (names.map Text.quote)

/-- The further fields. -/
def details (time : Instant → String) : Event → List (String × String)
  | contextDropped process key => instanceFields process key
  | closingDroppedFailed process key error =>
    instanceFields process key ++ [("error", error.message time)]
  | closingFailedToo process key error =>
    instanceFields process key ++ [("error", error.message time)]
  | releaseFailed process key error => instanceFields process key ++ [("error", error.message)]
  | releaseAfterFailedStart process key error =>
    instanceFields process key ++ [("error", error.message)]
  | processLocked process key tryAt => instanceFields process key ++ [("try_at", time tryAt)]
  | resultStored phase => [("phase_id", phase)]
  | multipleExecutions phase => [("phase_id", phase)]
  | executorFailed error => [("error", error.message time)]
  | inputsDiffer process key added removed =>
    instanceFields process key ++ [("added", namesText added), ("removed", namesText removed)]
  | lockNotObtained key attempts => [("key", key.text), ("attempts", toString attempts)]
  | cleanupLimitReached limit => [("max_records_to_remove", toString limit)]
  | cleanupStarted threshold => [("threshold", time threshold)]
  | cleanupBatch removed batchSize =>
    [("removed", toString removed), ("batch_size", toString batchSize)]
  | cleanupFinished records locks _ =>
    [("removed_records", toString records), ("removed_locks", toString locks)]
  | cleanupFailed error => [("error", error.message time)]
  | contextCreated | contextClosed | enteringPhase | enteringFinalPhase | phaseFinished
  | phaseBodyFailed | nothingToClean | storeOpened => []

end Event

/-! ## The trace -/

/-- An event and the span it was told in. -/
structure TraceEntry where
  event : Event
  span : Span

/-- **What has been told so far**, and the spans that are entered, the current one first. -/
structure Trace where
  entries : List TraceEntry := []
  entered : List Span := []
  nextSpan : Nat := 0

namespace Trace

instance : Inhabited Trace := ⟨{}⟩

/-- The current span. -/
def current (t : Trace) : Span := t.entered.headD []

/-- Tells an event in the current span. -/
def tell (t : Trace) (e : Event) : Trace := { t with entries := t.entries ++ [⟨e, t.current⟩] }

/-- A new span below the given parent. -/
def newSpan (parent : Span) (name : String) (fields : List (String × String)) (t : Trace) :
    Span × Trace :=
  (parent ++ [⟨t.nextSpan, name, fields⟩], { t with nextSpan := t.nextSpan + 1 })

/-- Makes a span the current one. -/
def enter (t : Trace) (s : Span) : Trace := { t with entered := s :: t.entered }

/-- Goes back to the span before the current one. -/
def leave (t : Trace) : Trace := { t with entered := t.entered.drop 1 }

/-- Forgets what has been told. -/
def drain (t : Trace) : Trace := { t with entries := [] }

end Trace

/-! ## Reports -/

/-- Fields as a JSON object. -/
def fieldsJson (fields : List (String × String)) : Json :=
  .ofMembers (fields.map fun (n, v) => (n, .string v))

/-- One node of a span as JSON. -/
def SpanNode.report (s : SpanNode) : Json :=
  .ofMembers [("name", .string s.name), ("fields", fieldsJson s.fields)]

/-- **An entry as JSON**: level, fields and the path of spans. -/
def TraceEntry.report (time : Instant → String) (e : TraceEntry) : Json :=
  let named := match e.event.name? with
    | some n => [("event", n)]
    | none => []
  .ofMembers
    [ ("level", .string e.event.level.text),
      ("fields", fieldsJson (("message", e.event.message time) :: named ++ e.event.details time)),
      ("spans", .array (e.span.map SpanNode.report)) ]

end Idempotence
