/-
  Publish strategies — when the messages of a process leave it.
-/
import Idempotence.Json.Decoder

namespace Idempotence

/-- **When messages leave a process.** -/
inductive PublishStrategy where
  /-- Never: publishing is a misuse. -/
  | noPublishing
  /-- All together at the end of the final phase.  Publishing is allowed outside phases before the
      final phase, and inside the final phase. -/
  | inFinalPhase
  /-- The messages of a phase together at the end of that phase. -/
  | atEndOfCurrentPhase
  /-- At once, outside phases. -/
  | inConsumer
  deriving DecidableEq, Repr, Inhabited

namespace PublishStrategy

/-- All strategies. -/
def all : List PublishStrategy := [noPublishing, inFinalPhase, atEndOfCurrentPhase, inConsumer]

/-- The name in configuration and settings. -/
def name : PublishStrategy → String
  | noPublishing => "no_publishing"
  | inFinalPhase => "in_final_phase"
  | atEndOfCurrentPhase => "at_end_of_current_phase"
  | inConsumer => "in_consumer"

/-- The name in messages for developers. -/
def debugText : PublishStrategy → String
  | noPublishing => "NoPublishing"
  | inFinalPhase => "InFinalPhase"
  | atEndOfCurrentPhase => "AtEndOfCurrentPhase"
  | inConsumer => "InConsumer"

/-- Reads a strategy by its name. -/
def decoder : Json.Decoder PublishStrategy := .choice (all.map fun s => (s.name, s))

end PublishStrategy

end Idempotence
