/-
  Blindness to modes — what takes no notice of whether phases are transactional.

  A phase that is transactional runs its body inside the transaction that records its output; any other one
  records the output when the body is over.  In memory both are the same steps (`Recording`), so nothing is
  left of the MODE of a phase but its note in the context, for as long as the phase is active.

  1. **Modes** — `World.modeless` is a world without these notes.  What uses the environment, the trace or
     the rest of contexts is in step with itself in worlds that differ in modes only (`Process.Modeless`).

  2. **Executions** — over records in memory the base executor goes in step with itself for a phase that is
     switched (`MemoryStore.modeless_base`), and so does whatever the extensions of the library wrap around
     it (`Interceptor.Library.modeless`).

  3. **Publishing** — whether a message is sent, waits or is refused goes by the strategy and by what kind of
     phase is active, not by its mode (`Context.modeless_publish`).
-/
import Idempotence.Proofs.Lockstep
import Idempotence.Publishing.Memory
import Idempotence.Testing.Faults

namespace Idempotence

variable {ε α β κ : Type}

/-! ## Modes -/

/-- A context without the mode of its active phase. -/
def ContextState.modeless (s : ContextState) : ContextState :=
  { s with active := s.active.map fun a => { a with phase := { a.phase with transactional := true } } }

/-- **A world without the modes** of active phases. -/
def World.modeless (w : World ε) : World ε := { w with contexts := w.contexts.map (·.modeless) }

/-- **An action that takes no notice of modes.** -/
abbrev Process.Modeless (a : Process (World ε) α) : Prop := a.InStep World.modeless a

namespace World

variable {w v : World ε}

theorem modeless_eq (hcontexts : w.contexts.map (·.modeless) = v.contexts.map (·.modeless))
    (htrace : w.trace = v.trace) (henv : w.env = v.env) : w.modeless = v.modeless := by
  unfold modeless
  rw [hcontexts, htrace, henv]

variable (h : w.modeless = v.modeless)
include h

theorem modeless_parts :
    w.contexts.map (·.modeless) = v.contexts.map (·.modeless) ∧ w.trace = v.trace ∧ w.env = v.env := by
  obtain ⟨hcontexts, htrace, henv⟩ := World.mk.inj h
  exact ⟨hcontexts, htrace, henv⟩

theorem env_eq : w.env = v.env := (modeless_parts h).2.2

theorem trace_eq : w.trace = v.trace := (modeless_parts h).2.1

/-- Each context is the same but for its mode. -/
theorem modeless_context (id : Nat) : (w.context id).modeless = (v.context id).modeless :=
  ContextState.look_getD (modeless_parts h).1 id

/-- Worlds that are the same but for modes stay so if a context is changed alike in both. -/
theorem modeless_modifyContext {id : Nat} {f g : ContextState → ContextState}
    (hfg : (f (w.context id)).modeless = (g (v.context id)).modeless) :
    (w.modifyContext id f).modeless = (v.modifyContext id g).modeless := by
  obtain ⟨hcontexts, htrace, henv⟩ := modeless_parts h
  exact modeless_eq (ContextState.map_modify hcontexts hfg) htrace henv

theorem modeless_env (e : ε) : ({ w with env := e } : World ε).modeless = { v with env := e }.modeless := by
  obtain ⟨hcontexts, htrace, -⟩ := modeless_parts h
  exact modeless_eq hcontexts htrace rfl

theorem modeless_trace (t : Trace) :
    ({ w with trace := t } : World ε).modeless = { v with trace := t }.modeless := by
  obtain ⟨hcontexts, -, henv⟩ := modeless_parts h
  exact modeless_eq hcontexts rfl henv

end World

namespace ContextState

variable {s t : ContextState}

/-- What does not go by the mode is the same in contexts that differ in it. -/
theorem eq_of_modeless {f : ContextState → α} (hf : ∀ s, f s.modeless = f s) (h : s.modeless = t.modeless) :
    f s = f t := by
  rw [← hf s, h, hf t]

/-- Contexts that differ in the mode are in the same phase but for its mode, or both in none. -/
theorem active_of_modeless (h : s.modeless = t.modeless) :
    (s.active = none ∧ t.active = none) ∨ ∃ (a : ActivePhase) (mode : Bool),
      s.active = some a ∧ t.active = some { a with phase := { a.phase with transactional := mode } } := by
  have hactive : s.active.map (fun a => { a with phase := { a.phase with transactional := true } }) =
      t.active.map fun a => { a with phase := { a.phase with transactional := true } } :=
    (ContextState.mk.inj h).2.2.1
  cases hs : s.active with
  | none =>
    rw [hs, Option.map_none, eq_comm, Option.map_eq_none_iff] at hactive
    exact .inl ⟨rfl, hactive⟩
  | some a =>
    rw [hs] at hactive
    obtain ⟨b, ht, hba⟩ := Option.map_eq_some_iff.1 hactive.symm
    refine .inr ⟨a, b.phase.transactional, rfl, ht.trans (congrArg some ?_)⟩
    obtain ⟨⟨id, isFinal, mode, settings⟩, properties⟩ := b
    obtain ⟨hphase, rfl⟩ := ActivePhase.mk.inj hba
    obtain ⟨rfl, rfl, -, rfl⟩ := Phase.mk.inj hphase
    rfl

/-- Phases are entered alike in contexts that differ in modes only. -/
theorem enter_modeless (h : s.modeless = t.modeless) (process : String) (phase : Phase)
    (mode : Bool) :
    (∃ e, s.enter process phase = .error e ∧
      t.enter process { phase with transactional := mode } = .error e) ∨
    ∃ s' t', s.enter process phase = .ok s' ∧
      t.enter process { phase with transactional := mode } = .ok t' ∧ s'.modeless = t'.modeless := by
  have hfinal : s.wasFinal = t.wasFinal := eq_of_modeless (fun _ => rfl) h
  have hvisited : s.visited = t.visited := eq_of_modeless (fun _ => rfl) h
  unfold enter
  rw [hfinal, hvisited]
  by_cases hlate : t.wasFinal
  · exact .inl ⟨_, by rw [if_pos hlate], by rw [if_pos hlate]⟩
  · by_cases htwice : t.visited.contains phase.id
    · refine .inl ⟨.assertion (.duplicatePhase process phase.id), ?_, ?_⟩
      · rw [if_neg hlate, if_pos htwice]
      · rw [if_neg hlate, if_pos htwice]
    · rw [if_neg hlate, if_neg htwice, if_neg hlate, if_neg htwice]
      rcases active_of_modeless h with ⟨hs, ht⟩ | ⟨a, other, hs, ht⟩
      · rw [hs, ht]
        refine .inr ⟨_, _, rfl, rfl, ?_⟩
        exact congrArg (fun s : ContextState => { s with
          wasFinal := t.wasFinal
          visited := phase.id :: t.visited
          active := some { phase := { phase with transactional := true } } }) h
      · rw [hs, ht]
        exact .inl ⟨_, rfl, rfl⟩

end ContextState

/-- Contexts are created under the same ids. -/
theorem Provider.modeless_newContext (process key : String) (settings : List Setting)
    (recordedFinal : Option String) (handle : LockHandle) :
    (Provider.newContext process key settings recordedFinal handle : Action ε Context).Modeless := by
  refine .atomically fun w v h => ?_
  obtain ⟨hcontexts, htrace, henv⟩ := World.modeless_parts h
  have hlength : w.contexts.length = v.contexts.length := by
    simpa only [List.length_map] using congrArg List.length hcontexts
  refine ⟨congrArg (fun id => (⟨id, process, key, settings, recordedFinal⟩ : Context)) hlength, ?_⟩
  refine World.modeless_eq ?_ htrace henv
  rw [List.map_append, List.map_append, hcontexts]

/-! ### Actions -/

namespace Action

theorem modeless_on (part : Part ε α) (f : α → β × α) : (Action.on part f).Modeless := by
  refine .atomically fun w v h => ?_
  rw [World.env_eq h]
  exact ⟨rfl, World.modeless_env h _⟩

theorem modeless_look (part : Part ε α) (f : α → β) : (Action.look part f).Modeless := by
  refine .look fun w v h => ?_
  rw [World.env_eq h]

theorem modeless_change (part : Part ε α) (f : α → α) : (Action.change part f).Modeless := by
  refine .change fun w v h => ?_
  rw [World.env_eq h]
  exact World.modeless_env h _

/-- A change of the trace alone does not depend on the modes. -/
theorem modeless_retrace (f : Trace → Trace) :
    (Process.change fun w => { w with trace := f w.trace } : Action ε Unit).Modeless := by
  refine .change fun w v h => ?_
  rw [World.trace_eq h]
  exact World.modeless_trace h _

theorem modeless_tell (e : Event) : (Action.tell e : Action ε Unit).Modeless := modeless_retrace (·.tell e)

/-- A change of the trace that answers does not depend on the modes. -/
theorem modeless_onTrace (f : Trace → α × Trace) : (Process.atomically fun w =>
    let (a, t) := f w.trace
    (a, { w with trace := t }) : Action ε α).Modeless := by
  refine .atomically fun w v h => ?_
  rw [World.trace_eq h]
  exact ⟨rfl, World.modeless_trace h _⟩

theorem modeless_newSpan (name : String) (fields : List (String × String)) :
    (Action.newSpan name fields : Action ε Span).Modeless :=
  modeless_onTrace fun t => Trace.newSpan t.current name fields t

theorem modeless_newSpanBelow (parent : Span) (name : String) (fields : List (String × String)) :
    (Action.newSpanBelow parent name fields : Action ε Span).Modeless :=
  modeless_onTrace fun t => Trace.newSpan parent name fields t

/-- Actions in step are in step inside a span. -/
theorem within_inStep (s : Span) {a b : Action ε α} (hab : a.InStep World.modeless b) :
    (Action.within s a).InStep World.modeless (Action.within s b) :=
  .bind (modeless_retrace (·.enter s)) fun _ => hab.onExit (modeless_retrace (·.leave))

end Action

namespace Context

variable (c : Context)

theorem modeless_look {f : ContextState → α} (hf : ∀ s : ContextState, f s.modeless = f s) :
    (c.look f : Action ε α).Modeless :=
  .look fun _ _ h => ContextState.eq_of_modeless hf (World.modeless_context h c.id)

/-- A change that leaves the active phase alone, or leaves it. -/
theorem modeless_change {f : ContextState → ContextState}
    (hf : ∀ s : ContextState, (f s).modeless = f s.modeless) : (c.change f : Action ε Unit).Modeless := by
  refine .change fun w v h => World.modeless_modifyContext h ?_
  rw [hf, hf, World.modeless_context h c.id]

/-- A look and a change in one step do not depend on the modes if neither does alone. -/
theorem modeless_exchange {f : ContextState → α} {g : ContextState → ContextState}
    (hf : ∀ s : ContextState, f s.modeless = f s) (hg : ∀ s : ContextState, (g s).modeless = g s.modeless) :
    (Process.atomically fun w => (f (w.context c.id), w.modifyContext c.id g) : Action ε α).Modeless := by
  refine .atomically fun w v h => ⟨ContextState.eq_of_modeless hf (World.modeless_context h c.id), ?_⟩
  refine World.modeless_modifyContext h ?_
  rw [hg, hg, World.modeless_context h c.id]

/-- The mode is no property of the context. -/
theorem modeless_withProperties (f : StateM Properties α) : (c.withProperties f : Action ε α).Modeless := by
  refine .atomically fun w v h => ?_
  have hcontext := World.modeless_context h c.id
  have hproperties : (w.context c.id).properties = (v.context c.id).properties :=
    ContextState.eq_of_modeless (fun _ => rfl) hcontext
  rw [hproperties]
  refine ⟨rfl, World.modeless_modifyContext h ?_⟩
  exact congrArg (fun s : ContextState => { s with properties := (f.run (v.context c.id).properties).2 })
    hcontext

theorem modeless_wasFinal : (c.wasFinal : Action ε Bool).Modeless := c.modeless_look fun _ => rfl

theorem enter_inStep (phase : Phase) (mode : Bool) :
    (c.enter phase : Action ε (Except Error Unit)).InStep World.modeless
      (c.enter { phase with transactional := mode }) := by
  refine .atomically fun w v h => ?_
  rcases ContextState.enter_modeless (World.modeless_context h c.id) c.process phase mode with
    ⟨e, hw, hv⟩ | ⟨s, t, hw, hv, hst⟩
  · rw [hw, hv]
    exact ⟨rfl, h⟩
  · rw [hw, hv]
    exact ⟨rfl, World.modeless_modifyContext h hst⟩

theorem modeless_leave (phase : Phase) : (c.leave phase : Action ε Unit).Modeless :=
  c.modeless_change fun _ => rfl

end Context

/-! ## Executions -/

/-- **An executor that takes no notice of modes**: it goes in step if the bodies do. -/
structure Executor.Modeless (x : Executor ε) : Prop where
  execute : ∀ {κ : Type} (c : Context) (phase : Phase) (mode : Bool) {body body' : Body ε κ},
    body.InStep World.modeless body' →
    (x.execute c phase body).InStep World.modeless
      (x.execute c { phase with transactional := mode } body')

namespace MemoryStore

variable (part : Part ε MemoryStore) {clock : Action ε Instant} (hclock : clock.Modeless)
include hclock

theorem modeless_record (key : RecordKey) (isFinal : Bool) (data : String) :
    (record part clock key isFinal data).Modeless := by
  refine .bind (Action.modeless_look part _) fun taken => ?_
  split
  · exact .done _
  · exact .bind hclock fun createdAt => Action.modeless_on part _

omit hclock in
theorem modeless_resolve (key : RecordKey) (phase : Phase) (e : Error) :
    (Executor.resolve (adapter part clock) key phase e).Modeless := by
  rw [resolve_adapter]
  split
  · refine .bind (Action.modeless_look part _) fun found => ?_
    cases found with
    | none => exact .done _
    | some r => exact .bind (Action.modeless_tell _) fun _ => .done _
  · exact .done _

/-- **The base executor in memory** takes no notice of modes, for in either it does the same. -/
theorem modeless_base : (Executor.base (adapter part clock)).Modeless := by
  refine ⟨fun c phase mode body body' hbody => ?_⟩
  have hresolve : ∀ key e, Executor.resolve (adapter part clock) key { phase with transactional := mode } e =
      Executor.resolve (adapter part clock) key phase e := by
    intro key e
    rw [resolve_adapter, resolve_adapter]
  -- Written out, the execution does not mention the mode any more.
  rw [execute_adapter, execute_adapter]
  simp only [hresolve]
  refine .bind (Action.modeless_look part _) fun found => ?_
  cases found with
  | some r => exact .bind (Action.modeless_tell _) fun _ => .done _
  | none =>
    cases c.recordedFinal with
    | some final => exact .done _
    | none =>
      refine .bind hbody fun answer => ?_
      obtain ⟨text, k⟩ := answer
      cases text with
      | error e => exact .bind (modeless_resolve part _ phase e) fun _ => .done _
      | ok data =>
        refine .bind (modeless_record part hclock _ _ data) fun recorded => ?_
        cases recorded with
        | error e => exact .bind (modeless_resolve part _ phase e) fun _ => .done _
        | ok u => exact .done _

end MemoryStore

/-! ## Sinks -/

/-- **A sink that takes no notice of modes.** -/
structure Sink.Modeless (sink : Sink ε) : Prop where
  send : ∀ m, (sink.send m).Modeless
  sendAll : ∀ messages, (sink.sendAll messages).Modeless

theorem Sink.modeless_memory (part : Part ε Deliveries) : (Sink.memory part).Modeless where
  send _ := .bind (Action.modeless_change part _) fun _ => .done _
  sendAll _ := .bind (Action.modeless_change part _) fun _ => .done _

/-- A sink that takes no notice of modes may be down at times. -/
theorem Sink.Modeless.onSink {sink : Sink ε} (hsink : sink.Modeless) (faults : Part ε Faults) :
    (Faults.onSink faults sink).Modeless := by
  constructor
  · intro m
    refine .bind (Action.modeless_look faults _) fun down => ?_
    cases down with
    | true => exact .done _
    | false => exact hsink.send m
  · intro messages
    refine .bind (Action.modeless_look faults _) fun down => ?_
    cases down with
    | true => exact .done _
    | false => exact hsink.sendAll messages

/-! ## Extensions -/

/-- **An extension that takes no notice of modes**, given executors that do not. -/
structure Interceptor.Modeless (i : Interceptor ε) : Prop where
  created : ∀ {x : Executor ε}, x.Modeless → ∀ c, (i.created x c).Modeless
  closed : ∀ {x : Executor ε}, x.Modeless → ∀ c, (i.closed x c).Modeless
  wrap : ∀ {x : Executor ε}, x.Modeless → (i.wrap x).Modeless

/-- **The extensions of the library**, with sinks that take no notice of modes. -/
inductive Interceptor.Library : Interceptor ε → Prop
  | recording (r : Recorder) (log : Part ε CallLog) : Library (r.interceptor log)
  | counting (part : Part ε Stats) : Library (Stats.interceptor part)
  | monitoring : Library Monitoring.interceptor
  | publishing (sink : Sink ε) (hsink : sink.Modeless) : Library (Publisher.interceptor sink)

theorem Recorder.modeless (r : Recorder) (log : Part ε CallLog) : (r.interceptor log).Modeless where
  created _ _ := .bind (Action.modeless_change log _) fun _ => .done _
  closed _ _ := .bind (Action.modeless_change log _) fun _ => .done _
  wrap hx := ⟨fun c phase mode _ _ hbody =>
    .bind (Action.modeless_change log _) fun _ => hx.execute c phase mode hbody⟩

theorem Stats.modeless (part : Part ε Stats) : (Stats.interceptor part).Modeless where
  created _ _ := .bind (Action.modeless_change part _) fun _ => .done _
  closed _ _ := .bind (Action.modeless_change part _) fun _ => .done _
  wrap hx := by
    refine ⟨fun c phase mode _ _ hbody => ?_⟩
    refine .bind (Action.modeless_change part _) fun _ => .bind (hx.execute c phase mode hbody) fun answer => ?_
    exact .bind (Action.modeless_change part _) fun _ => .done _

namespace Monitoring

theorem modeless_contextSpan (c : Context) : (contextSpan c : Action ε Span).Modeless := by
  refine .bind (c.modeless_withProperties _) fun found => ?_
  cases found with
  | some s => exact .done _
  | none => exact .bind (Action.modeless_newSpan _ _) fun fresh => c.modeless_withProperties _

theorem modeless : (interceptor : Interceptor ε).Modeless where
  created _ c := .bind (modeless_contextSpan c) fun s =>
    .bind (Action.within_inStep s (Action.modeless_tell _)) fun _ => .done _
  closed _ c := .bind (modeless_contextSpan c) fun s =>
    .bind (Action.within_inStep s (Action.modeless_tell _)) fun _ =>
      .bind (c.modeless_withProperties _) fun _ => .done _
  wrap hx := by
    refine ⟨fun c phase mode _ _ hbody => ?_⟩
    have hrest := (hx.execute c phase mode hbody).bind fun answer =>
      (Action.modeless_tell (outcome answer.1)).bind fun _ => .done answer
    refine .bind (modeless_contextSpan c) fun parent => .bind (Action.modeless_newSpanBelow _ _ _) fun s => ?_
    refine Action.within_inStep s (.bind (Action.modeless_tell _) fun _ => ?_)
    dsimp only
    split
    · exact .bind (Action.modeless_tell _) fun _ => hrest
    · exact hrest

end Monitoring

namespace Publisher

variable {sink : Sink ε} (hsink : sink.Modeless)
include hsink

theorem modeless_sending (c : Context) (answer : Except Error String × κ) :
    (sending sink c answer).Modeless := by
  obtain ⟨text, k⟩ := answer
  refine .bind (c.modeless_withProperties _) fun waiting => ?_
  cases text with
  | error e => exact .done _
  | ok data =>
    dsimp only
    split
    · exact .done _
    · refine .bind (hsink.sendAll waiting) fun sent => ?_
      cases sent <;> exact .done _

theorem modeless : (interceptor sink).Modeless where
  created _ c := by
    dsimp only [interceptor]
    split
    · exact .done _
    · exact .bind (c.modeless_withProperties _) fun _ => .done _
  closed _ c := .done _
  wrap hx := by
    refine ⟨fun c phase mode body body' hbody => .bind (c.modeless_withProperties _) fun strategy => ?_⟩
    cases strategy with
    | none => exact hx.execute c phase mode hbody
    | some s =>
      have hflushing : (flushing sink c body).InStep World.modeless (flushing sink c body') := by
        rw [flushing_eq, flushing_eq]
        exact hbody.bind fun answer => modeless_sending hsink c answer
      show (Executor.execute _ c phase (if s.flushes phase then _ else _)).InStep World.modeless
        (Executor.execute _ c _ (if s.flushes phase then _ else _))
      split
      · exact hx.execute c phase mode hflushing
      · exact hx.execute c phase mode hbody

end Publisher

/-- **The extensions of the library take no notice of modes.** -/
theorem Interceptor.Library.modeless {i : Interceptor ε} (hi : i.Library) : i.Modeless := by
  cases hi with
  | recording r log => exact r.modeless log
  | counting part => exact Stats.modeless part
  | monitoring => exact Monitoring.modeless
  | publishing sink hsink => exact Publisher.modeless hsink

/-- **Publishing takes no notice of modes**, under any strategy. -/
theorem Context.modeless_publish (c : Context) {sink : Sink ε} (hsink : sink.Modeless) (m : Message) :
    (c.publish sink m).Modeless := by
  refine .bind (c.modeless_withProperties _) fun strategy => ?_
  cases strategy with
  | none => exact .done _
  | some s =>
    refine .bind c.modeless_wasFinal fun wasFinal => .look_bind fun w v h => ?_
    have hadmits : s.admits wasFinal ((w.context c.id).active.map (·.phase)) =
        s.admits wasFinal ((v.context c.id).active.map (·.phase)) := by
      -- Of the active phase a strategy asks only whether it is final.
      rcases ContextState.active_of_modeless (World.modeless_context h c.id) with ⟨hw, hv⟩ | ⟨a, mode, hw, hv⟩
      · rw [hw, hv]
      · rw [hw, hv]
        cases s <;> rfl
    dsimp only
    rw [hadmits]
    cases s.admits wasFinal ((v.context c.id).active.map (·.phase)) with
    | error misuse => exact .done _
    | ok u =>
      cases m.checkDestination with
      | error e => exact .done _
      | ok u =>
        dsimp only
        split
        · exact .bind (hsink.send m) fun _ => .done _
        · exact .bind (c.modeless_withProperties _) fun _ => .done _

end Idempotence
