/-
  Replies — what the steps of a scenario answer, as JSON.

  Replies can be repeated: a moment that only a wall clock can have read, in the years 2025 to 2099, is
  written `now`.
-/
import Idempotence.Context
import Idempotence.Retention

namespace Idempotence.Scenario

/-! ## Moments -/

/-- Whether a moment lies in the years that wall clocks read. -/
def isOfWallClock (t : Instant) : Bool := decide (2025 ≤ t.date.year ∧ t.date.year ≤ 2099)

/-- A moment for readers. -/
def time (t : Instant) : String := if isOfWallClock t then "now" else t.text

/-- A moment for machines. -/
def isoTime (t : Instant) : String := if isOfWallClock t then "now" else t.isoText

/-- A moment in a reply. -/
def timeJson (t : Instant) : Json := .string (time t)

/-! ## Values -/

/-- A value that may be missing. -/
def optional {α : Type} (f : α → Json) (a : Option α) : Json := (a.map f).getD .null

/-- An address. -/
def keyJson (k : RecordKey) : Json := .strings [k.process, k.key, k.record]

/-- The report of a retention run. -/
def cleanupJson (r : CleanupReport) : Json := .ofMembers
  [ ("threshold", optional timeJson r.threshold),
    ("rfc3339", optional (.string ∘ isoTime) r.threshold),
    ("removed_records", .nat r.removedRecords),
    ("removed_locks", .nat r.removedLocks),
    ("max_reached", .bool r.limitReached),
    ("details", .string (r.details time)) ]

/-- The trace so far. -/
def traceJson (time : Instant → String) (t : Trace) : Json := .array (t.entries.map (·.report time))

/-! ## Failures and answers -/

/-- **Why a step failed.** -/
inductive Failure where
  /-- The engine refused or failed. -/
  | engine (e : Error)
  /-- The caller's own error. -/
  | app (message : String)
  | noContext
  | nameTaken
  | contextBusy
  | noHandle
  deriving Inhabited

instance : EngineFailure Failure := ⟨.engine⟩

/-- The members of an object. -/
def members : Json → List (String × Json)
  | .object ms => ms
  | _ => []

namespace Failure

/-- A failure as members of a reply. -/
def members : Failure → List (String × Json)
  | engine e => Scenario.members (e.report time)
  | app message => [("error", .string "App"), ("message", .string message)]
  | noContext => [("error", .string "no_context")]
  | nameTaken => [("error", .string "name_taken")]
  | contextBusy => [("error", .string "context_busy")]
  | noHandle => [("error", .string "no_handle")]

end Failure

/-- **What a step answers.** -/
abbrev Answer := Except Failure Json

/-- An answer as members of a reply. -/
def Answer.members : Answer → List (String × Json)
  | .ok v => [("ok", v)]
  | .error f => f.members

/-- An answer as a reply of its own. -/
def Answer.report (a : Answer) : Json := .ofMembers a.members

/-- The answer of the engine. -/
def ofResult {α : Type} (f : α → Json) : Except Error α → Answer
  | .ok a => .ok (f a)
  | .error e => .error (.engine e)

/-- A result of the engine as a reply of its own. -/
def resultJson {α : Type} (f : α → Json) (r : Except Error α) : Json := (ofResult f r).report

/-- The result that says nothing but success. -/
def unitJson (_ : Unit) : Json := .null

/-- A crash as members of a reply. -/
def crashMembers (message : String) : List (String × Json) :=
  [("error", .string "panic"), ("message", .string message)]

end Idempotence.Scenario
