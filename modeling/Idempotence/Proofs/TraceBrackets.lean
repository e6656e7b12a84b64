/-
  Brackets in traces — what a trace tells of contexts and phases, as an account of what has happened.

  1. **Footings** — of a context matters here whether it is closed, how many extensions know of it, and its
     span (`Footing`); of the trace, what it tells of contexts and phases (`World.told`), which spans are
     entered, and how many there have been.

  2. **Accounts** — `Account` says how one world comes from another: by what is not told of; by a hook that
     tells that a context is created or closed; by a phase, in which the rest of the chain executes and what
     happens meanwhile is accounted for in turn, between an event that tells of entering and one that tells of
     the outcome; and by one such thing after another.  So what is told stands in brackets by construction,
     and each closing bracket says what the rest of the chain has answered, as it does around every execution
     (`Monitoring.surrounds`).

  3. **What is told is told** — an account lists all that is told between its worlds, in order, and leaves the
     entered spans as they were (`Account.entries`).

  4. **Lives** — what an account tells of one context is nothing, or begins with its creation, goes on with
     phases, and ends with its closing if it has been closed; all of it lies in one span, and no two contexts
     or phases share theirs (`Chronicle`).
-/
import Idempotence.Proofs.Extensions

namespace Idempotence

variable {σ ε α β γ κ : Type}

/-! ## Footings -/

/-- **How a context stands** with the extension that traces: its span is there from when it is created to
    when it is closed. -/
structure Footing where
  closed : Bool := false
  notified : Nat := 0
  span : Option Span := none
  deriving DecidableEq

def ContextState.footing (s : ContextState) : Footing :=
  ⟨s.closed, s.notified, s.properties.get? Monitoring.spanKey⟩

/-- Whether an event tells of a phase. -/
def Event.ofPhase : Event → Bool
  | .enteringPhase | .enteringFinalPhase | .phaseFinished | .phaseBodyFailed | .executorFailed _ => true
  | _ => false

/-- Whether an event tells of a context or a phase. -/
def Event.ofMonitoring : Event → Bool
  | .contextCreated | .contextClosed => true
  | e => e.ofPhase

/-- Whether an event is the first one in its span. -/
def Event.opens : Event → Bool
  | .contextCreated | .enteringPhase => true
  | _ => false

namespace World

/-- How all contexts stand. -/
def footings (w : World ε) : List Footing := w.contexts.map (·.footing)

/-- **What has been told** of contexts and phases. -/
def told (w : World ε) : List TraceEntry := w.trace.entries.filter (·.event.ofMonitoring)

theorem footing_context (w : World ε) (id : Nat) : (w.context id).footing = w.footings.getD id {} :=
  w.see_context ContextState.footing id

/-- Where contexts stand alike, each of them does. -/
theorem footing_eq {w v : World ε} (h : v.footings = w.footings) (id : Nat) :
    (v.context id).footing = (w.context id).footing := by
  rw [footing_context, footing_context, h]

/-- A context that has a span is one that there is. -/
theorem lt_of_span {w : World ε} {id : Nat} {s : Span} (h : (w.context id).footing.span = some s) :
    id < w.contexts.length := by
  refine Nat.lt_of_not_le fun hout => ?_
  rw [context, List.getD_eq_getElem?_getD, List.getElem?_eq_none hout] at h
  cases h

/-- Where one context has come to stand otherwise. -/
theorem footing_modify {w v : World ε} {id : Nat} {f : Footing → Footing}
    (h : v.footings = w.footings.modify id f) (hid : id < w.contexts.length) (j : Nat) :
    (v.context j).footing = if id = j then f (w.context j).footing else (w.context j).footing := by
  have hlength : id < w.footings.length := by rwa [footings, List.length_map]
  simp only [footing_context, h, List.getD_eq_getElem?_getD, List.getElem?_modify]
  by_cases hj : id = j
  · subst hj
    simp [List.getElem?_eq_getElem hlength]
  · simp [hj]

end World

/-- **What goes on off stage**: nothing of it is told here, and every context stands as before. -/
structure Offstage (w v : World ε) : Prop where
  footings : v.footings = w.footings
  told : v.told = w.told
  entered : v.trace.entered = w.trace.entered
  nextSpan : w.trace.nextSpan ≤ v.trace.nextSpan

theorem Offstage.refl (w : World ε) : Offstage w w := ⟨rfl, rfl, rfl, Nat.le_refl _⟩

theorem Offstage.trans {w v u : World ε} (h : Offstage w v) (h' : Offstage v u) : Offstage w u where
  footings := h'.footings.trans h.footings
  told := h'.told.trans h.told
  entered := h'.entered.trans h.entered
  nextSpan := Nat.le_trans h.nextSpan h'.nextSpan

/-! ## Hooks and executions -/

namespace Monitoring

/-- The span that a context gets when one is needed. -/
def processSpan (c : Context) (w : World ε) : Span :=
  w.trace.current ++ [⟨w.trace.nextSpan, "idempotency_process", Event.instanceFields c.process c.key⟩]

/-- The span of a phase, below that of its context. -/
def phaseSpan (s : Span) (phase : Phase) (w : World ε) : Span :=
  s ++ [⟨w.trace.nextSpan, "idempotency_phase", [("phase_id", phase.id)]⟩]

/-- What is told when a phase is entered. -/
def announcement (phase : Phase) : List Event :=
  .enteringPhase :: if phase.isFinal then [.enteringFinalPhase] else []

/-- **What is told when an execution comes back**: one thing for each kind of answer, and nothing where it
    crashes. -/
inductive Parting : Outcome (Answer κ) → List Event → Prop
  | finished (output : PhaseOutput) (k : Option κ) : Parting (.value (.ok output, k)) [.phaseFinished]
  | bodyFailed (phase : String) (k : Option κ) :
      Parting (.value (.error (.phaseBody phase), k)) [.phaseBodyFailed]
  | executorFailed {e : Error} (other : ∀ phase, e ≠ .phaseBody phase) (k : Option κ) :
      Parting (.value (.error e, k)) [.executorFailed e]
  | crashed (message : String) : Parting (.crashed message) []

variable {c : Context} {w : World ε}

/-- Looking for the span of a context. -/
theorem run_lookForSpan (c : Context) (w : World ε) :
    (c.withProperties do return (← get).get? spanKey : Action ε (Option Span)).run w =
      (.value (w.context c.id).footing.span, w) := by
  have hsame : (w.modifyContext c.id fun t => { t with properties := (w.context c.id).properties }) = w :=
    World.modifyContext_eq_self rfl
  exact congrArg (Prod.mk _) hsame

/-- A span that is there is found. -/
theorem run_contextSpan_found {s : Span} (h : (w.context c.id).footing.span = some s) :
    (contextSpan c).run w = (.value s, w) := by
  rw [contextSpan, Process.run_bind, run_lookForSpan, h]
  rfl

/-- A span that is not there is made. -/
theorem run_contextSpan_made (h : (w.context c.id).footing.span = none) :
    ∃ v, (contextSpan c).run w = (.value (processSpan c w), v) ∧
      v.trace = { w.trace with nextSpan := w.trace.nextSpan + 1 } ∧
      v.footings = w.footings.modify c.id fun f => { f with span := some (processSpan c w) } := by
  have hnone : (w.context c.id).properties.get? spanKey = none := h
  have hfill : (PropertyBag.getOrInit spanKey (pure (processSpan c w)) : StateM Properties Span).run
      (w.context c.id).properties =
      (processSpan c w, (w.context c.id).properties.set spanKey (processSpan c w)) := by
    rw [PropertyBag.getOrInit, PropertyBag.run_update, hnone]
    rfl
  let v : World ε := { w with trace := { w.trace with nextSpan := w.trace.nextSpan + 1 } }
  refine ⟨v.modifyContext c.id fun t =>
    { t with properties := (w.context c.id).properties.set spanKey (processSpan c w) }, ?_, rfl, ?_⟩
  · rw [contextSpan, Process.run_bind, run_lookForSpan, h]
    show (Outcome.value _, v.modifyContext c.id _) = _
    exact congrArg (fun r : Span × Properties => (Outcome.value r.1,
      v.modifyContext c.id fun t => { t with properties := r.2 })) hfill
  · refine World.see_modifyContext ContextState.footing (fun t => ?_) c.id v
    exact congrArg (Footing.mk t.closed t.notified) (PropertyBag.get?_set_self _ spanKey _)

variable (x : Executor ε)

/-- **The hook that tells of a new context.** -/
theorem run_created (h : (w.context c.id).footing.span = none) :
    ∃ v, (interceptor.created x c).run w = (.value (.ok ()), v) ∧
      v.trace = {
        entries := w.trace.entries ++ [⟨.contextCreated, processSpan c w⟩]
        entered := w.trace.entered
        nextSpan := w.trace.nextSpan + 1 } ∧
      v.footings = w.footings.modify c.id fun f => { f with span := some (processSpan c w) } := by
  obtain ⟨v, hrun, htrace, hfootings⟩ := run_contextSpan_made h
  refine ⟨{ v with trace := ((v.trace.enter (processSpan c w)).tell .contextCreated).leave }, ?_, ?_, hfootings⟩
  · show ((contextSpan c) >>= _ : Action ε (Except Error Unit)).run w = _
    rw [Process.run_bind, hrun]
    rfl
  · rw [htrace]
    rfl

/-- **The hook that tells of the end of a context.** -/
theorem run_closed {s : Span} (h : (w.context c.id).footing.span = some s) :
    ∃ v, (interceptor.closed x c).run w = (.value (.ok ()), v) ∧
      v.trace = {
        entries := w.trace.entries ++ [⟨.contextClosed, s⟩]
        entered := w.trace.entered
        nextSpan := w.trace.nextSpan } ∧
      v.footings = w.footings.modify c.id fun f => { f with span := none } := by
  let v : World ε := { w with trace := ((w.trace.enter s).tell .contextClosed).leave }
  refine ⟨v.modifyContext c.id fun t => { t with properties := (w.context c.id).properties.erase spanKey },
    ?_, rfl, ?_⟩
  · show ((contextSpan c) >>= _ : Action ε (Except Error Unit)).run w = _
    rw [Process.run_bind, run_contextSpan_found h]
    rfl
  · refine World.see_modifyContext ContextState.footing (fun t => ?_) c.id v
    exact congrArg (Footing.mk t.closed t.notified) (PropertyBag.get?_erase_self _ spanKey)

/-- **What comes before an execution.** -/
theorem run_opening {s : Span} (phase : Phase) (h : (w.context c.id).footing.span = some s) :
    ∃ v, (opening c phase).run w = (.value (), v) ∧
      v.trace = {
        entries := w.trace.entries ++ (announcement phase).map (⟨·, phaseSpan s phase w⟩)
        entered := phaseSpan s phase w :: w.trace.entered
        nextSpan := w.trace.nextSpan + 1 } ∧
      v.footings = w.footings := by
  refine ⟨{ w with trace := ⟨_, _, _⟩ }, ?_, rfl, rfl⟩
  rw [opening, Process.run_bind, run_contextSpan_found h]
  cases hfinal : phase.isFinal <;>
    simp [announcement, entering, hfinal, Action.newSpanBelow, Action.tell, Trace.newSpan, Trace.enter, Trace.tell,
      Trace.current, phaseSpan]

/-- An answer is told as what it is. -/
theorem parting_outcome (answer : Answer κ) : Parting (.value answer) [outcome answer.1] := by
  obtain ⟨result, k⟩ := answer
  cases result with
  | ok output => exact .finished output k
  | error e =>
    cases e with
    | phaseBody phase => exact .bodyFailed phase k
    | _ => exact .executorFailed (fun _ h => by cases h) k

/-- Every outcome has events of parting that fit it. -/
theorem exists_parting (o : Outcome (Answer κ)) : ∃ events, Parting o events := by
  cases o with
  | value answer => exact ⟨_, parting_outcome answer⟩
  | crashed m => exact ⟨_, .crashed m⟩

/-- No two lists of events of parting fit one outcome. -/
theorem Parting.unique {o : Outcome (Answer κ)} {events events' : List Event} (h : Parting o events)
    (h' : Parting o events') : events = events' := by
  cases h with
  | finished => cases h' with
    | finished => rfl
  | bodyFailed phase => cases h' with
    | bodyFailed => rfl
    | executorFailed other => exact absurd rfl (other phase)
  | executorFailed other => cases h' with
    | bodyFailed phase => exact absurd rfl (other phase)
    | executorFailed => rfl
  | crashed => cases h' with
    | crashed => rfl

/-- **An execution inside the span of its phase.** -/
theorem run_wrap {x : Executor ε} {phase : Phase} {body : Body ε κ} {w₁ w₂ : World ε} {o : Outcome (Answer κ)}
    {events : List Event} (hopening : (opening c phase).run w = (.value (), w₁))
    (hexecution : (x.execute c phase body).run w₁ = (o, w₂)) (hparting : Parting o events) :
    ∃ v, ((wrap x).execute c phase body).run w = (o, v) ∧
      v.trace = {
        entries := w₂.trace.entries ++ events.map (⟨·, w₂.trace.current⟩)
        entered := w₂.trace.entered.drop 1
        nextSpan := w₂.trace.nextSpan } ∧
      v.footings = w₂.footings := by
  refine ⟨{ w₂ with trace := ⟨_, _, _⟩ }, ?_, rfl, rfl⟩
  rw [execute_wrap, Process.run_bind, hopening]
  dsimp only
  rw [Process.run_onExit, Process.run_bind, hexecution]
  cases o with
  | crashed m =>
    obtain rfl := hparting.unique (.crashed m)
    simp [leaving, Process.run_change, Trace.leave]
  | value answer =>
    obtain rfl := hparting.unique (parting_outcome answer)
    rfl

/-- **An execution stands between what is told** when its phase is entered, in the span of the phase, and what
    is told of its outcome, in the span that is current then. -/
def Surrounds (inner : Executor ε) (phase : Phase) (body : Body ε κ) (s : Span) (c : Context) (w : World ε) : Prop :=
  ∃ (w₁ w₂ v : World ε) (o : Outcome (Answer κ)) (events : List Event),
    w₁.trace.entries = w.trace.entries ++ (announcement phase).map (⟨·, phaseSpan s phase w⟩) ∧
      (inner.execute c phase body).run w₁ = (o, w₂) ∧ Parting o events ∧
      ((wrap inner).execute c phase body).run w = (o, v) ∧
      v.trace.entries = w₂.trace.entries ++ events.map (⟨·, w₂.trace.current⟩)

/-- Every execution of the tracing extension stands between what is told of its phase. -/
theorem surrounds (inner : Executor ε) (phase : Phase) (body : Body ε κ) {s : Span}
    (h : (w.context c.id).footing.span = some s) : Surrounds inner phase body s c w := by
  obtain ⟨w₁, hopening, htrace₁, -⟩ := run_opening phase h
  obtain ⟨events, hparting⟩ := exists_parting ((inner.execute c phase body).run w₁).1
  obtain ⟨v, hwhole, htrace, -⟩ := run_wrap hopening rfl hparting
  exact ⟨w₁, _, v, _, events, congrArg Trace.entries htrace₁, rfl, hparting, hwhole, congrArg Trace.entries htrace⟩

end Monitoring

/-! ## Accounts -/

/-- **Something told** of a context, or of a phase in it. -/
structure Telling where
  context : Context
  phase : Option Phase := none
  event : Event
  span : Span

namespace Telling

/-- The entry of the trace that a telling makes. -/
def entry (t : Telling) : TraceEntry := ⟨t.event, t.span⟩

/-- What is told of a phase in its span. -/
def ofPhase (c : Context) (phase : Phase) (s : Span) (events : List Event) : List Telling :=
  events.map fun event => { context := c, phase := some phase, event, span := s }

theorem entries_ofPhase (c : Context) (phase : Phase) (s : Span) (events : List Event) :
    (ofPhase c phase s events).map entry = events.map (⟨·, s⟩) := by
  simp only [ofPhase, List.map_map]
  rfl

end Telling

section

variable (place : Nat)

/-- How a context may come to stand without anything being told of it, where `place` extensions come before
    the one that traces. -/
structure Footing.Passes (f g : Footing) : Prop where
  span : g.span = f.span
  closed : f.closed = true → g.closed = true
  notified : f.notified ≤ g.notified
  /-- The extension that traces does not learn of a context without making a span for it. -/
  known : f.notified ≤ place → place < g.notified → f.span ≠ none

/-- **What is not told of**: contexts are made, extensions learn of them, and they are marked as closed. -/
structure Passing (w v : World ε) : Prop where
  footings : ∀ id, (w.context id).footing.Passes place (v.context id).footing
  told : v.told = w.told
  entered : v.trace.entered = w.trace.entered
  nextSpan : w.trace.nextSpan ≤ v.trace.nextSpan

variable {place} in
theorem Footing.Passes.refl (f : Footing) : f.Passes place f :=
  ⟨rfl, fun hclosed => hclosed, Nat.le_refl _, fun hle hlt => absurd hlt (Nat.not_lt.2 hle)⟩

variable {place} in
theorem Offstage.passing {w v : World ε} (h : Offstage w v) : Passing place w v where
  footings id := by
    rw [World.footing_eq h.footings]
    exact .refl _
  told := h.told
  entered := h.entered
  nextSpan := h.nextSpan

open Monitoring in
/-- **An account of what happens from one world to another**, where `inner` is the chain that the extension
    which traces wraps.  Executions tell what the account says of them: it begins where they begin, has
    their events around what happens inside, and ends with what `inner` has answered. -/
inductive Account (inner : Executor ε) : World ε → List Telling → World ε → Prop
  | passing {w v : World ε} (h : Passing place w v) : Account inner w [] v
  | append {w v u : World ε} {tellings more : List Telling} (first : Account inner w tellings v)
      (then_ : Account inner v more u) : Account inner w (tellings ++ more) u
  | created {x : Executor ε} {c : Context} {w v : World ε} (there : c.id < w.contexts.length)
      (unknown : (w.context c.id).footing = ⟨false, place, none⟩)
      (hook : (interceptor.created x c).run w = (.value (.ok ()), v)) :
      Account inner w [{ context := c, event := .contextCreated, span := processSpan c w }] v
  | closed {x : Executor ε} {c : Context} {w v : World ε} {notified : Nat} {s : Span}
      (closing : (w.context c.id).footing = ⟨true, notified, some s⟩) (known : place < notified)
      (hook : (interceptor.closed x c).run w = (.value (.ok ()), v)) :
      Account inner w [{ context := c, event := .contextClosed, span := s }] v
  | phase {c : Context} {phase : Phase} {κ : Type} {body : Body ε κ} {w w₁ w₂ v : World ε} {s : Span}
      {o : Outcome (Answer κ)} {tellings : List Telling} {events : List Event}
      (live : (w.context c.id).footing.span = some s)
      (opening : (opening c phase).run w = (.value (), w₁))
      (execution : (inner.execute c phase body).run w₁ = (o, w₂)) (inside : Account inner w₁ tellings w₂)
      (still : (w₂.context c.id).footing.span = some s) (parting : Parting o events)
      (whole : ((wrap inner).execute c phase body).run w = (o, v)) :
      Account inner w (Telling.ofPhase c phase (phaseSpan s phase w) (announcement phase) ++ tellings ++
        Telling.ofPhase c phase (phaseSpan s phase w) events) v

end

/-! ## What is told is told -/

/-- What is told at the end has been told. -/
theorem World.told_append {w v : World ε} {entries : List TraceEntry}
    (htrace : v.trace.entries = w.trace.entries ++ entries) (h : ∀ e ∈ entries, e.event.ofMonitoring = true) :
    v.told = w.told ++ entries := by
  rw [told, htrace, List.filter_append, List.filter_eq_self.2 h]
  rfl

theorem Event.ofMonitoring_ofPhase {e : Event} (h : e.ofPhase = true) : e.ofMonitoring = true := by
  cases e <;> first | rfl | exact h

namespace Monitoring

theorem ofPhase_announcement (phase : Phase) : ∀ e ∈ announcement phase, e.ofPhase = true := by
  cases h : phase.isFinal <;> simp [announcement, h, Event.ofPhase]

/-- Entering opens the span of a phase. -/
theorem filter_opens_announcement (phase : Phase) :
    (announcement phase).filter Event.opens = [.enteringPhase] := by
  cases h : phase.isFinal <;> rw [announcement, h] <;> rfl

/-- Parting from a phase opens no span. -/
theorem Parting.filter_opens {o : Outcome (Answer κ)} {events : List Event} (h : Parting o events) :
    events.filter Event.opens = [] := by
  cases h <;> simp [Event.opens]

theorem Parting.ofPhase {o : Outcome (Answer κ)} {events : List Event} (h : Parting o events) :
    ∀ e ∈ events, e.ofPhase = true := by
  cases h <;> simp [Event.ofPhase]

end Monitoring

open Monitoring

variable {place : Nat} {inner : Executor ε} {w v : World ε} {tellings : List Telling}

/-- **An account lists what is told**, in order; and the entered spans are the same behind it. -/
theorem Account.entries (h : Account place inner w tellings v) :
    v.told = w.told ++ tellings.map Telling.entry ∧ v.trace.entered = w.trace.entered ∧
      w.trace.nextSpan ≤ v.trace.nextSpan := by
  induction h with
  | passing h => exact ⟨by rw [h.told, List.map_nil, List.append_nil], h.entered, h.nextSpan⟩
  | append _ _ ih ih' =>
    obtain ⟨htold, hentered, hnext⟩ := ih
    obtain ⟨htold', hentered', hnext'⟩ := ih'
    refine ⟨?_, hentered'.trans hentered, Nat.le_trans hnext hnext'⟩
    rw [htold', htold, List.map_append, List.append_assoc]
  | @created x c w v _ hunknown hhook =>
    obtain ⟨v', hrun, htrace, -⟩ := run_created x (congrArg Footing.span hunknown :)
    obtain ⟨-, rfl⟩ := Prod.mk.inj (hhook.symm.trans hrun)
    refine ⟨World.told_append (congrArg Trace.entries htrace) ?_, (congrArg Trace.entered htrace :), ?_⟩
    · simp [Telling.entry, Event.ofMonitoring]
    · rw [htrace]
      exact Nat.le_succ _
  | @closed x c w v _ s hclosing _ hhook =>
    obtain ⟨v', hrun, htrace, -⟩ := run_closed x (congrArg Footing.span hclosing :)
    obtain ⟨-, rfl⟩ := Prod.mk.inj (hhook.symm.trans hrun)
    refine ⟨World.told_append (congrArg Trace.entries htrace) ?_, (congrArg Trace.entered htrace :), ?_⟩
    · simp [Telling.entry, Event.ofMonitoring]
    · exact Nat.le_of_eq (congrArg Trace.nextSpan htrace :).symm
  | @phase c phase κ body w w₁ w₂ v s o tellings events hlive hopening hexecution _ _ hparting hwhole ih =>
    obtain ⟨htold, hentered, hnext⟩ := ih
    obtain ⟨w₁', hrun₁, htrace₁, -⟩ := run_opening phase hlive
    obtain ⟨-, rfl⟩ := Prod.mk.inj (hopening.symm.trans hrun₁)
    obtain ⟨v', hrun, htrace, -⟩ := run_wrap hopening hexecution hparting
    obtain ⟨-, rfl⟩ := Prod.mk.inj (hwhole.symm.trans hrun)
    -- Inside, the span of the phase is the current one, and so it is again where the outcome is told.
    rw [htrace₁] at hentered hnext
    have hcurrent : w₂.trace.current = phaseSpan s phase w := by rw [Trace.current, hentered]; rfl
    rw [hcurrent, hentered] at htrace
    have hfirst : w₁.told = w.told ++ (announcement phase).map (⟨·, phaseSpan s phase w⟩) :=
      World.told_append (congrArg Trace.entries htrace₁)
        (by simpa using fun e he => Event.ofMonitoring_ofPhase (ofPhase_announcement phase e he))
    have hlast : v.told = w₂.told ++ events.map (⟨·, phaseSpan s phase w⟩) :=
      World.told_append (congrArg Trace.entries htrace)
        (by simpa using fun e he => Event.ofMonitoring_ofPhase (hparting.ofPhase e he))
    refine ⟨?_, (congrArg Trace.entered htrace :), ?_⟩
    · rw [hlast, htold, hfirst]
      simp only [List.map_append, Telling.entries_ofPhase, List.append_assoc]
    · rw [htrace]
      exact Nat.le_trans (Nat.le_succ _) hnext

/-! ## Lives -/

/-- A span that was there when the next one was to get the given number. -/
def Span.Older (next : Nat) (s : Span) : Prop := ∀ node, s.getLast? = some node → node.id < next

theorem Span.Older.mono {next next' : Nat} {s : Span} (h : s.Older next) (hle : next ≤ next') : s.Older next' :=
  fun node hnode => Nat.lt_of_lt_of_le (h node hnode) hle

/-- The next span is older than those that come after it. -/
theorem Span.older_next (parent : Span) (node : SpanNode) : Span.Older (node.id + 1) (parent ++ [node]) := by
  intro last hlast
  rw [List.getLast?_concat] at hlast
  obtain rfl := Option.some.inj hlast
  exact Nat.lt_succ_self _

/-- **What tells of a phase**, in a span of its own below that of the context. -/
def Telling.Below (s : Span) (t : Telling) : Prop :=
  ∃ phase k, t.phase = some phase ∧ t.event.ofPhase = true ∧
    t.span = s ++ [⟨k, "idempotency_phase", [("phase_id", phase.id)]⟩]

/-- **The course of a life**: what is told of one context, from its creation on, through its phases, and to
    its end if it is over.  All of it lies in one span, which names the process and the key. -/
inductive Lifeline (s : Span) : Bool → List Telling → Prop
  | going {c : Context} {parent : Span} {k : Nat} {phases : List Telling}
      (span : s = parent ++ [⟨k, "idempotency_process", Event.instanceFields c.process c.key⟩])
      (below : ∀ t ∈ phases, t.Below s) :
      Lifeline s false ({ context := c, event := .contextCreated, span := s } :: phases)
  | ended {tellings : List Telling} (c : Context) (going : Lifeline s false tellings) :
      Lifeline s true (tellings ++ [{ context := c, event := .contextClosed, span := s }])

/-- A life begins with the creation. -/
theorem Lifeline.begins {s : Span} {isOver : Bool} {tellings : List Telling} (h : Lifeline s isOver tellings) :
    ∃ c rest, tellings = { context := c, event := .contextCreated, span := s } :: rest := by
  induction h with
  | going _ _ => exact ⟨_, _, rfl⟩
  | ended _ _ ih =>
    obtain ⟨c, rest, rfl⟩ := ih
    exact ⟨c, _, rfl⟩

/-- **What has been told of a context**, for how it stands. -/
inductive Life (place : Nat) : List Telling → Footing → Prop
  | unknown {f : Footing} (notified : f.notified ≤ place) (span : f.span = none) : Life place [] f
  | live {tellings : List Telling} {s : Span} {f : Footing} (course : Lifeline s false tellings)
      (notified : place ≤ f.notified) (span : f.span = some s) : Life place tellings f
  | ended {tellings : List Telling} {s : Span} {f : Footing} (course : Lifeline s true tellings)
      (notified : place < f.notified) (closed : f.closed = true) (span : f.span = none) : Life place tellings f

namespace Life

variable {f g : Footing} {s : Span}

/-- What is not told of changes no life. -/
theorem passes (h : Life place tellings f) (hfg : f.Passes place g) : Life place tellings g := by
  cases h with
  | unknown hnotified hspan =>
    refine .unknown (Nat.le_of_not_lt fun hlt => ?_) (hfg.span.trans hspan)
    exact hfg.known hnotified hlt hspan
  | live hcourse hnotified hspan =>
    exact .live hcourse (Nat.le_trans hnotified hfg.notified) (hfg.span.trans hspan)
  | ended hcourse hnotified hclosed hspan =>
    exact .ended hcourse (Nat.lt_of_lt_of_le hnotified hfg.notified) (hfg.closed hclosed) (hfg.span.trans hspan)

/-- A life begins when a context is created. -/
theorem created (h : Life place tellings ⟨false, place, none⟩) (c : Context) {parent : Span} {k : Nat}
    (hs : s = parent ++ [⟨k, "idempotency_process", Event.instanceFields c.process c.key⟩]) :
    Life place (tellings ++ [{ context := c, event := .contextCreated, span := s }]) ⟨false, place, some s⟩ := by
  cases h with
  | unknown _ _ => exact .live (.going hs fun _ ht => absurd ht List.not_mem_nil) (Nat.le_refl _) rfl
  | live _ _ hspan => cases hspan
  | ended _ _ hclosed _ => cases hclosed

/-- A life goes on with what is told below its span, as phases are. -/
theorem below (h : Life place tellings f) (hspan : f.span = some s) {more : List Telling}
    (hmore : ∀ t ∈ more, t.Below s) : Life place (tellings ++ more) f := by
  cases h with
  | unknown _ hnone =>
    rw [hnone] at hspan
    cases hspan
  | ended _ _ _ hnone =>
    rw [hnone] at hspan
    cases hspan
  | live hcourse hnotified hsome =>
    obtain rfl := Option.some.inj (hsome.symm.trans hspan)
    obtain ⟨hs, hbelow⟩ := hcourse
    exact .live (.going hs fun t ht => (List.mem_append.1 ht).elim (hbelow t) (hmore t)) hnotified hsome

/-- A life ends when the context is closed. -/
theorem closed {notified : Nat} (h : Life place tellings ⟨true, notified, some s⟩) (hknown : place < notified)
    (c : Context) : Life place (tellings ++ [{ context := c, event := .contextClosed, span := s }])
      ⟨true, notified, none⟩ := by
  cases h with
  | unknown _ hnone => cases hnone
  | ended _ _ _ hnone => cases hnone
  | live hcourse _ hsome =>
    obtain rfl := Option.some.inj hsome
    exact .ended (.ended c hcourse) hknown rfl rfl

end Life

/-- **What has been told so far**, for how the world is: of each context what fits how it stands, in spans of
    which no two are the same. -/
structure Chronicle (place : Nat) (tellings : List Telling) (w : World ε) : Prop where
  lives : ∀ id, Life place (tellings.filter (·.context.id = id)) (w.context id).footing
  older : ∀ t ∈ tellings, t.span.Older w.trace.nextSpan
  distinct : ((tellings.filter (·.event.opens)).map (·.span)).Nodup

/-- Where there is no context, there is nothing to tell. -/
theorem Chronicle.begin (hnone : w.contexts = []) : Chronicle place [] w where
  lives id := by
    have hfooting : (w.context id).footing = {} := by
      rw [World.context, hnone]
      rfl
    rw [hfooting]
    exact .unknown (Nat.zero_le _) rfl
  older _ ht := absurd ht List.not_mem_nil
  distinct := List.nodup_nil

namespace Chronicle

variable (h : Chronicle place tellings w)
include h

/-- What is not told of changes nothing. -/
theorem passing (hv : Passing place w v) : Chronicle place tellings v where
  lives id := (h.lives id).passes (hv.footings id)
  older t ht node hnode := Nat.lt_of_lt_of_le (h.older t ht node hnode) hv.nextSpan
  distinct := h.distinct

/-- The span of a context that has one has been there. -/
theorem older_live {id : Nat} {s : Span} (hspan : (w.context id).footing.span = some s) :
    s.Older w.trace.nextSpan := by
  have hlife := h.lives id
  generalize htold : tellings.filter (·.context.id = id) = mine at hlife
  have hmine : ∀ t ∈ mine, t ∈ tellings := fun t ht => (List.mem_filter.1 (htold ▸ ht)).1
  cases hlife with
  | unknown _ hnone => exact absurd (hnone.symm.trans hspan) nofun
  | ended _ _ _ hnone => exact absurd (hnone.symm.trans hspan) nofun
  | live hcourse _ hsome =>
    obtain rfl := Option.some.inj (hsome.symm.trans hspan)
    cases hcourse with
    | going _ _ => exact h.older _ (hmine _ (List.mem_cons_self ..))

/-- **Something more is told** of one context, in spans that are there or in the next one. -/
theorem tell (id : Nat) {more : List Telling} (hmore : ∀ t ∈ more, t.context.id = id)
    (hlife : Life place (tellings.filter (·.context.id = id) ++ more) (v.context id).footing)
    (hothers : ∀ j, id ≠ j → (v.context j).footing = (w.context j).footing)
    (hnext : w.trace.nextSpan ≤ v.trace.nextSpan) (holder : ∀ t ∈ more, t.span.Older v.trace.nextSpan)
    (hopens : (more.filter (·.event.opens)).map (·.span) = [] ∨
      ∃ parent name fields, (more.filter (·.event.opens)).map (·.span) =
        [parent ++ [⟨w.trace.nextSpan, name, fields⟩]]) : Chronicle place (tellings ++ more) v where
  lives j := by
    rw [List.filter_append]
    by_cases hj : id = j
    · subst hj
      have hall : more.filter (·.context.id = id) = more :=
        List.filter_eq_self.2 fun t ht => decide_eq_true (hmore t ht)
      rw [hall]
      exact hlife
    · have hnone : more.filter (·.context.id = j) = [] :=
        List.filter_eq_nil_iff.2 fun t ht => by simpa [hmore t ht] using hj
      rw [hnone, List.append_nil, hothers j hj]
      exact h.lives j
  older t ht := (List.mem_append.1 ht).elim (fun hold => (h.older t hold).mono hnext) (holder t)
  distinct := by
    rw [List.filter_append, List.map_append]
    rcases hopens with hnone | ⟨parent, name, fields, hone⟩
    · rw [hnone, List.append_nil]
      exact h.distinct
    · rw [hone]
      refine List.nodup_append.2 ⟨h.distinct, by simp, fun s hs s' hs' hsame => ?_⟩
      -- The next span has a number that no span has so far.
      obtain ⟨t, ht, rfl⟩ := List.mem_map.1 hs
      obtain rfl := List.mem_singleton.1 hs'
      have hlast := h.older t (List.mem_filter.1 ht).1 ⟨w.trace.nextSpan, name, fields⟩ (by simp [hsame])
      exact absurd hlast (Nat.lt_irrefl _)

/-- **A new context** begins its own life. -/
theorem created {c : Context} (hthere : c.id < w.contexts.length)
    (hunknown : (w.context c.id).footing = ⟨false, place, none⟩) {x : Executor ε}
    (hhook : (interceptor.created x c).run w = (.value (.ok ()), v)) :
    Chronicle place (tellings ++ [{ context := c, event := .contextCreated, span := processSpan c w }]) v := by
  obtain ⟨v', hrun, htrace, hfootings⟩ := run_created x (congrArg Footing.span hunknown :)
  obtain ⟨-, rfl⟩ := Prod.mk.inj (hhook.symm.trans hrun)
  have hnext : v.trace.nextSpan = w.trace.nextSpan + 1 := (congrArg Trace.nextSpan htrace :)
  have hfooting := World.footing_modify hfootings hthere
  refine h.tell c.id (by simp) ?_ (fun j hj => by rw [hfooting, if_neg hj]) (by omega) ?_ (.inr ⟨_, _, _, rfl⟩)
  · rw [hfooting, if_pos rfl, hunknown]
    exact (hunknown ▸ h.lives c.id).created c rfl
  · intro t ht
    obtain rfl := List.mem_singleton.1 ht
    rw [hnext]
    exact Span.older_next _ ⟨w.trace.nextSpan, _, _⟩

/-- **The end of a context** ends its life. -/
theorem closed {c : Context} {notified : Nat} {s : Span}
    (hclosing : (w.context c.id).footing = ⟨true, notified, some s⟩) (hknown : place < notified) {x : Executor ε}
    (hhook : (interceptor.closed x c).run w = (.value (.ok ()), v)) :
    Chronicle place (tellings ++ [{ context := c, event := .contextClosed, span := s }]) v := by
  have hspan : (w.context c.id).footing.span = some s := congrArg Footing.span hclosing
  obtain ⟨v', hrun, htrace, hfootings⟩ := run_closed x hspan
  obtain ⟨-, rfl⟩ := Prod.mk.inj (hhook.symm.trans hrun)
  have hnext : v.trace.nextSpan = w.trace.nextSpan := (congrArg Trace.nextSpan htrace :)
  have hfooting := World.footing_modify hfootings (World.lt_of_span hspan)
  refine h.tell c.id (by simp) ?_ (fun j hj => by rw [hfooting, if_neg hj]) (by omega) ?_ (.inl rfl)
  · rw [hfooting, if_pos rfl, hclosing]
    exact (hclosing ▸ h.lives c.id).closed hknown c
  · intro t ht
    obtain rfl := List.mem_singleton.1 ht
    rw [hnext]
    exact h.older_live hspan

/-- **What tells of a phase** of a context that is there. -/
theorem phase {c : Context} (phase : Phase) {s : Span} (hspan : (w.context c.id).footing.span = some s)
    (hfootings : v.footings = w.footings) (hnext : w.trace.nextSpan ≤ v.trace.nextSpan) {k : Nat}
    (hk : k < v.trace.nextSpan) {events : List Event} (hevents : ∀ e ∈ events, e.ofPhase = true)
    (hopens : events.filter Event.opens = [] ∨ k = w.trace.nextSpan ∧ events.filter Event.opens = [.enteringPhase]) :
    Chronicle place (tellings ++
      Telling.ofPhase c phase (s ++ [⟨k, "idempotency_phase", [("phase_id", phase.id)]⟩]) events) v := by
  have hmore : ∀ t ∈ Telling.ofPhase c phase (s ++ [⟨k, "idempotency_phase", [("phase_id", phase.id)]⟩]) events,
      ∃ e ∈ events, t = ⟨c, some phase, e, s ++ [⟨k, "idempotency_phase", [("phase_id", phase.id)]⟩]⟩ := by
    intro t ht
    obtain ⟨e, he, rfl⟩ := List.mem_map.1 ht
    exact ⟨e, he, rfl⟩
  refine h.tell c.id (fun t ht => ?_) ?_ (fun j _ => World.footing_eq hfootings j) hnext (fun t ht => ?_) ?_
  · obtain ⟨e, -, rfl⟩ := hmore t ht
    rfl
  · rw [World.footing_eq hfootings]
    refine (h.lives c.id).below hspan fun t ht => ?_
    obtain ⟨e, he, rfl⟩ := hmore t ht
    exact ⟨phase, k, rfl, hevents e he, rfl⟩
  · obtain ⟨e, -, rfl⟩ := hmore t ht
    exact (Span.older_next _ _).mono hk
  · have hspans : ((Telling.ofPhase c phase (s ++ [⟨k, "idempotency_phase", [("phase_id", phase.id)]⟩])
        events).filter (·.event.opens)).map (·.span) =
        (events.filter Event.opens).map fun _ => s ++ [⟨k, "idempotency_phase", [("phase_id", phase.id)]⟩] := by
      simp only [Telling.ofPhase, List.filter_map, List.map_map]
      rfl
    rw [hspans]
    rcases hopens with hnone | ⟨rfl, hone⟩
    · exact .inl (by rw [hnone, List.map_nil])
    · exact .inr ⟨_, _, _, by rw [hone, List.map_cons, List.map_nil]⟩

end Chronicle

/-- **An account goes on with a chronicle.** -/
theorem Account.chronicle (h : Account place inner w tellings v) {before : List Telling}
    (hbefore : Chronicle place before w) : Chronicle place (before ++ tellings) v := by
  induction h generalizing before with
  | passing h =>
    rw [List.append_nil]
    exact hbefore.passing h
  | append _ _ ih ih' =>
    rw [← List.append_assoc]
    exact ih' (ih hbefore)
  | created hthere hunknown hhook => exact hbefore.created hthere hunknown hhook
  | closed hclosing hknown hhook => exact hbefore.closed hclosing hknown hhook
  | @phase c phase κ body w w₁ w₂ v s o tellings events hlive hopening hexecution hinside hstill hparting hwhole ih =>
    obtain ⟨w₁', hrun₁, htrace₁, hfootings₁⟩ := run_opening phase hlive
    obtain ⟨-, rfl⟩ := Prod.mk.inj (hopening.symm.trans hrun₁)
    obtain ⟨v', hrun, htrace, hfootings⟩ := run_wrap hopening hexecution hparting
    obtain ⟨-, rfl⟩ := Prod.mk.inj (hwhole.symm.trans hrun)
    have hnext₁ : w₁.trace.nextSpan = w.trace.nextSpan + 1 := (congrArg Trace.nextSpan htrace₁ :)
    have hnext₂ : w₁.trace.nextSpan ≤ w₂.trace.nextSpan := hinside.entries.2.2
    have hnext : v.trace.nextSpan = w₂.trace.nextSpan := (congrArg Trace.nextSpan htrace :)
    -- The event of entering is the one that opens the span; those that part only lie in it.
    have hnew : w.trace.nextSpan < w₁.trace.nextSpan := by omega
    have hold : w.trace.nextSpan < v.trace.nextSpan := by omega
    have hentered := hbefore.phase phase hlive hfootings₁ (by omega) hnew (ofPhase_announcement phase)
      (.inr ⟨rfl, filter_opens_announcement phase⟩)
    have hleft := (ih hentered).phase phase hstill hfootings (by omega) hold hparting.ofPhase
      (.inl hparting.filter_opens)
    rw [← List.append_assoc, ← List.append_assoc]
    exact hleft

end Idempotence
