/-
  Scripted retention — a store that answers a cleanup from a script, for tests of the cleanup alone.

  Every question is logged.  The script has one answer for each question but the deletions, which have
  one answer for each batch; behind the last of these, batches remove nothing.
-/
import Idempotence.Retention
import Idempotence.Testing.Recording

namespace Idempotence

/-- **The answers of a scripted store.** -/
structure RetentionScript where
  count : Except Error Nat
  nthOldest : Except Error (Option Instant)
  deletions : List (Except Error Nat)
  locks : Except Error Nat

/-- What becomes of a scripted store: the questions it was asked, and the deletions still to answer. -/
structure ScriptedStore where
  calls : CallLog := []
  deletions : List (Except Error Nat) := []
  deriving Inhabited

namespace RetentionScript

/-- Logs a question and answers it. -/
def answer {α : Type} (question : String) (a : α) : Action ScriptedStore α :=
  Action.on Part.whole fun s => (a, { s with calls := s.calls ++ [question] })

/-- Logs a batch and answers it by the next entry of the script. -/
def nextDeletion (question : String) : Action ScriptedStore (Except Error Nat) :=
  Action.on Part.whole fun s =>
    (s.deletions.head?.getD (.ok 0), ⟨s.calls ++ [question], s.deletions.drop 1⟩)

/-- **The scripted store**, the times in its questions written by `time`. -/
def store (script : RetentionScript) (time : Instant → String) : RetentionStore ScriptedStore where
  count := answer "count" script.count
  nthOldest n := answer s!"nth {n}" script.nthOldest
  deleteRecords threshold limit := nextDeletion s!"delete {limit} before {time threshold}"
  deleteLocks threshold := answer s!"locks before {time threshold}" script.locks
  fullBatches := Action.look Part.whole (·.deletions.length)

/-- **Runs a cleanup on a scripted store.**  Answers its outcome, the questions and the trace. -/
def cleanUp (script : RetentionScript) (time : Instant → String) (config : CleanupConfig)
    (now : Instant) : Outcome (Except Error CleanupReport) × CallLog × Trace :=
  let (outcome, w) := (config.cleanUp (script.store time) now).run { env := ⟨[], script.deletions⟩ }
  (outcome, w.env.calls, w.trace)

end RetentionScript

end Idempotence
