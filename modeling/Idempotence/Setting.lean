/-
  Settings — markers that a process or a phase is started with.

  A setting extends how processes and phases are started without the engine knowing who reads it.
  Every setting is of a kind, and a table says which kinds exclude each other: of two settings of
  conflicting kinds at most one may be given.
-/
import Idempotence.Json.Printer
import Idempotence.Publishing.Strategy
import Idempotence.Text.Quoted

namespace Idempotence

/-- **A marker** on a process or a phase. -/
inductive Setting where
  /-- How the process publishes. -/
  | publishing (strategy : PublishStrategy)
  deriving DecidableEq, Repr, Inhabited

/-- What a setting is about. -/
inductive SettingKind where
  | publishing
  deriving DecidableEq, Repr

/-- **The conflict table**: the kinds that exclude this one. -/
def SettingKind.conflicting : SettingKind → List SettingKind
  | publishing => [publishing]

/-- The name of a kind in messages for developers. -/
def SettingKind.debugText : SettingKind → String
  | publishing => "Publishing"

namespace Setting

/-- What the setting is about. -/
def kind : Setting → SettingKind
  | publishing _ => .publishing

/-- Whether two settings exclude each other, by either's row of the table. -/
def conflictsWith (a b : Setting) : Bool :=
  a.kind.conflicting.contains b.kind || b.kind.conflicting.contains a.kind

/-- The publish strategy that the setting carries, if it carries one. -/
def strategy? : Setting → Option PublishStrategy
  | publishing s => some s

/-- **The first conflict** in a list: the earliest setting that excludes a later one, and the
    earliest of those. -/
def firstConflict : List Setting → Option (Setting × Setting)
  | [] => none
  | a :: rest => match rest.find? (conflictsWith a) with
    | some b => some (a, b)
    | none => firstConflict rest

/-- The settings with a default behind them, unless one of them excludes it. -/
def withDefault (settings : List Setting) : Option Setting → List Setting
  | none => settings
  | some d => if settings.any (·.conflictsWith d) then settings else settings ++ [d]

/-! ## Texts -/

/-- The text for developers. -/
def debugText : Setting → String
  | publishing s => s!"Publishing({s.debugText})"

/-- Settings in brackets, for developers. -/
def listDebugText (settings : List Setting) : String := Text.bracketed (settings.map debugText)

/-- The JSON form. -/
def toJson : Setting → Json
  | publishing s => .object [("publishing", .string s.name)]

/-- The JSON form of a list. -/
def listToJson (settings : List Setting) : Json := .array (settings.map toJson)

/-- Reads a setting. -/
def decoder : Json.Decoder Setting := .tagged "publishing" (.map publishing PublishStrategy.decoder)

/-- Reads a list of settings from its JSON form. -/
def listOfJson (j : Json) : Except Json.Fault (List Setting) :=
  (Json.Decoder.list decoder).run j.render

end Setting

end Idempotence
