/-
  The world — everything that the steps of a process can see and change.

  A context is one execution attempt of a process instance.  What never changes about it is in the
  handle, `Context`; what does change is in the world, `ContextState`, under the handle's id.  Beside
  the contexts the world holds the trace and an ENVIRONMENT `ε`: whatever the stores, locks, sinks
  and extensions at hand keep.  A component finds its own part of the environment through a `Part`.

  An `Action ε α` is a process over the world of `ε`.
-/
import Idempotence.Phase
import Idempotence.Process
import Idempotence.Property
import Idempotence.Publishing.Message
import Idempotence.Trace

namespace Idempotence

/-! ## Properties -/

/-- The types of properties. -/
inductive PropertyType where
  | number
  | text
  | texts
  | counter
  | strategy
  | queue
  | span
  deriving DecidableEq, Repr

/-- The values of a property type. -/
abbrev PropertyType.Value : PropertyType → Type
  | number => UInt32
  | text => String
  | texts => List String
  | counter => Nat
  | strategy => PublishStrategy
  | queue => List Message
  | span => Span

/-- The properties of a context or a phase. -/
abbrev Properties := PropertyBag PropertyType.Value

/-! ## Contexts -/

/-- A lock that is held: its key and the operation that wrote its row. -/
structure LockHandle where
  key : RecordKey
  operation : Nat
  deriving DecidableEq, Repr, Inhabited

/-- The phase that is active in a context. -/
structure ActivePhase where
  phase : Phase
  properties : Properties := default
  deriving Inhabited

/-- **What changes about a context.** -/
structure ContextState where
  /-- Whether a final phase has been left. -/
  wasFinal : Bool := false
  /-- The ids of the phases entered so far. -/
  visited : List String := []
  active : Option ActivePhase := none
  properties : Properties := default
  /-- The lock of the instance, until it is released. -/
  lock : Option LockHandle := none
  closed : Bool := false
  /-- How many extensions have learnt of the context. -/
  notified : Nat := 0
  deriving Inhabited

/-- **An execution attempt of a process instance.** -/
structure Context where
  id : Nat
  /-- The process kind. -/
  process : String
  /-- The attempt series. -/
  key : String
  settings : List Setting
  /-- The final phase that an earlier attempt recorded, as far as the store could tell. -/
  recordedFinal : Option String
  deriving DecidableEq, Repr, Inhabited

/-! ## The world -/

/-- **The state of processes** in the environment `ε`. -/
structure World (ε : Type) where
  contexts : List ContextState := []
  trace : Trace := {}
  env : ε

/-- **A process over the world of `ε`.** -/
abbrev Action (ε α : Type) := Process (World ε) α

/-- **A part of an environment**: where a component keeps what it keeps. -/
structure Part (ε α : Type) where
  get : ε → α
  set : α → ε → ε
  get_set : ∀ a e, get (set a e) = a := by intros; rfl
  set_get : ∀ e, set (get e) e = e := by intros; rfl
  set_set : ∀ a b e, set a (set b e) = set a e := by intros; rfl

/-- The environment that is one component's part and nothing else. -/
def Part.whole {α : Type} : Part α α where
  get := id
  set a _ := a

namespace World

variable {ε α : Type}

/-- The state of a context. -/
def context (w : World ε) (id : Nat) : ContextState := w.contexts.getD id default

/-- The world with the state of a context changed. -/
def modifyContext (w : World ε) (id : Nat) (f : ContextState → ContextState) : World ε :=
  { w with contexts := w.contexts.modify id f }

/-- The world with the environment changed. -/
def modifyEnv (w : World ε) (f : ε → ε) : World ε := { w with env := f w.env }

end World

/-! ## Actions -/

namespace Action

variable {ε α β : Type}

/-- One step on a part of the environment. -/
def on (part : Part ε α) (f : α → β × α) : Action ε β :=
  Process.atomically fun w =>
    let (b, a) := f (part.get w.env)
    (b, { w with env := part.set a w.env })

/-- One look at a part of the environment. -/
def look (part : Part ε α) (f : α → β) : Action ε β := Process.look fun w => f (part.get w.env)

/-- One change of a part of the environment. -/
def change (part : Part ε α) (f : α → α) : Action ε Unit :=
  Process.change fun w => { w with env := part.set (f (part.get w.env)) w.env }

/-- Tells an event. -/
def tell (e : Event) : Action ε Unit := Process.change fun w => { w with trace := w.trace.tell e }

/-- Runs an action inside a span, and leaves the span however the action ends. -/
def within (s : Span) (a : Action ε α) : Action ε α := do
  Process.change fun w => { w with trace := w.trace.enter s }
  a.onExit (Process.change fun w => { w with trace := w.trace.leave })

/-- Creates a span below the current one. -/
def newSpan (name : String) (fields : List (String × String)) : Action ε Span :=
  Process.atomically fun w =>
    let (s, t) := Trace.newSpan w.trace.current name fields w.trace
    (s, { w with trace := t })

/-- Creates a span below the given one. -/
def newSpanBelow (parent : Span) (name : String) (fields : List (String × String)) : Action ε Span :=
  Process.atomically fun w =>
    let (s, t) := Trace.newSpan parent name fields w.trace
    (s, { w with trace := t })

end Action

/-! ## Contexts in the world -/

namespace Context

variable {ε α β : Type}

/-- One look at the state of a context. -/
def look (c : Context) (f : ContextState → α) : Action ε α := Process.look fun w => f (w.context c.id)

/-- One change of the state of a context. -/
def change (c : Context) (f : ContextState → ContextState) : Action ε Unit :=
  Process.change fun w => w.modifyContext c.id f

/-- Whether a final phase has been left. -/
def wasFinal (c : Context) : Action ε Bool := c.look (·.wasFinal)

/-- The active phase. -/
def currentPhase (c : Context) : Action ε (Option Phase) := c.look fun s => s.active.map (·.phase)

/-- One use of the properties of a context. -/
def withProperties (c : Context) (f : StateM Properties α) : Action ε α :=
  Process.atomically fun w =>
    let (a, bag) := f.run (w.context c.id).properties
    (a, w.modifyContext c.id fun s => { s with properties := bag })

/-- One use of the properties of the active phase; nothing while no phase is active. -/
def withPhaseProperties (c : Context) (f : StateM Properties α) : Action ε (Option α) :=
  Process.atomically fun w => match (w.context c.id).active with
    | none => (none, w)
    | some active =>
      let (a, bag) := f.run active.properties
      (some a, w.modifyContext c.id fun s =>
        { s with active := some { active with properties := bag } })

/-- The text for developers. -/
def debugText (c : Context) (wasFinal : Bool) : String :=
  "Context \x7b process_id: " ++ Text.quote c.process ++ ", idempotency_key: " ++ Text.quote c.key
    ++ ", settings: " ++ Setting.listDebugText c.settings
    ++ ", was_final_phase: " ++ toString wasFinal ++ ", .. \x7d"

end Context

end Idempotence
