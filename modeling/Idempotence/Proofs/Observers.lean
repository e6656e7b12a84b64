/-
  Observers — extensions that only watch are not seen.

  1. **Observers** — an observer counts, traces, or logs its calls and never fails.  What observers keep
     for themselves is not shown to programs, in a scene that says where everything is.

  2. **The chain** — an execution passes an observer by doing what the rest of the chain does, behind the
     observer's entry in its log, and nothing more is logged on the way back (`Observer.passes`).  So it
     passes all observers, in their order, before it comes to the base executor (`Scene.passes_executor`).

  3. **Whole programs** — hooks of observers answer well and are not seen, so a provider with observers
     agrees with the provider that has none on calls, and on telling extensions, closing and dropping
     (`Scene.related`), and thus on whatever a program makes of these (`Scene.agrees_program`).
-/
import Idempotence.Proofs.Programs
import Idempotence.Proofs.RunEquivalence

namespace Idempotence

variable {σ τ ε η ι α β γ κ : Type}

/-! ## Observers -/

/-- **An observer**: it logs its calls under a name, counts, or traces. -/
inductive Observer (ι : Type) where
  | recording (name : String) (log : ι)
  | counting (counters : ι)
  | monitoring

/-- **A scene**: where records and locks are, and the logs and counters of observers; and what of all that
    is shown to programs. -/
structure Scene (ε η ι : Type) where
  records : Part ε MemoryStore
  locks : Part ε (LockTable RecordKey)
  logs : ι → Part ε CallLog
  counters : ι → Part ε Stats
  shown : ε → η
  records_shown : records.Shown shown
  locks_shown : locks.Shown shown
  logs_unshown : ∀ i, (logs i).Unshown shown
  counters_unshown : ∀ i, (counters i).Unshown shown
  logs_apart : ∀ {i j}, i ≠ j → (logs i).Apart (logs j)
  logs_counters : ∀ i j, (logs i).Apart (counters j)

namespace Observer

/-- The observer as an extension. -/
def extension (S : Scene ε η ι) : Observer ι → Interceptor ε
  | recording name log => ({ name } : Recorder).interceptor (S.logs log)
  | counting counters => Stats.interceptor (S.counters counters)
  | monitoring => Monitoring.interceptor

/-- **What an observer logs of a phase**, in one of the logs. -/
def entries [DecidableEq ι] (log : ι) (phase : Phase) : Observer ι → CallLog
  | recording name log' => if log' = log then [s!"{name}.execute:{phase.id}"] else []
  | counting _ | monitoring => []

end Observer

namespace Scene

variable (S : Scene ε η ι)

/-- What programs see. -/
def sight (w : World ε) : η × List Appearance := w.sight S.shown

/-- A log. -/
def log (i : ι) (w : World ε) : CallLog := (S.logs i).get w.env

/-- What programs see, and the logs. -/
def view (w : World ε) : (η × List Appearance) × (ι → CallLog) := (S.sight w, fun i => S.log i w)

/-- The provider with observers as its extensions. -/
def watched (p : Provider ε) (observers : List (Observer ι)) : Provider ε :=
  { p with interceptors := observers.map (·.extension S) }

/-- The world with one more entry in a log. -/
def noted (i : ι) (entry : String) (w : World ε) : World ε :=
  w.modifyEnv fun e => (S.logs i).set ((S.logs i).get e ++ [entry]) e

/-- An entry in a log is not seen. -/
theorem sight_noted (i : ι) (entry : String) (w : World ε) : S.sight (S.noted i entry w) = S.sight w :=
  World.sight_env (S.logs_unshown i _ _)

/-- An entry stands in its own log and in no other. -/
theorem log_noted [DecidableEq ι] (i : ι) (entry : String) (w : World ε) (j : ι) :
    S.log j (S.noted i entry w) = S.log j w ++ if i = j then [entry] else [] := by
  by_cases hij : i = j
  · subst hij
    rw [if_pos rfl]
    exact (S.logs i).get_set _ _
  · rw [if_neg hij, List.append_nil]
    exact (S.logs_apart (Ne.symm hij)).get_set_left _ _

/-- **Passing extensions**: the one run is the other one, behind steps of which nothing is seen but these
    entries in the logs; and nothing else is seen or logged. -/
def Passes (entries : ι → CallLog) (a b : Action ε α) : Prop :=
  ∀ w, ∃ w₁, S.sight w₁ = S.sight w ∧ (∀ i, S.log i w₁ = S.log i w ++ entries i) ∧
    (a.run w).1 = (b.run w₁).1 ∧ S.view (a.run w).2 = S.view (b.run w₁).2

variable {S}

namespace Passes

variable {entries entries' : ι → CallLog} {a b : Action ε α}

theorem refl (a : Action ε α) : S.Passes (fun _ => []) a a :=
  fun w => ⟨w, rfl, fun _ => (List.append_nil _).symm, rfl, rfl⟩

/-- First the outer ones, then the inner ones. -/
theorem trans {c : Action ε α} (hab : S.Passes entries a b) (hbc : S.Passes entries' b c) :
    S.Passes (fun i => entries i ++ entries' i) a c := by
  intro w
  obtain ⟨w₁, hsight, hlog, hend, hview⟩ := hab w
  obtain ⟨w₂, hsight', hlog', hend', hview'⟩ := hbc w₁
  refine ⟨w₂, hsight'.trans hsight, fun i => ?_, hend.trans hend', hview.trans hview'⟩
  rw [hlog', hlog, List.append_assoc]

/-- Something that is neither seen nor logged may come first. -/
theorem after {first : Action ε β} {f : β → Action ε α} (hfirst : first.Hidden S.view)
    (hf : ∀ c, S.Passes entries (f c) b) : S.Passes entries (first >>= f) b := by
  intro w
  obtain ⟨c, w', hrun, hview⟩ := hfirst w
  obtain ⟨w₁, hsight, hlog, hend, hview'⟩ := hf c w'
  rw [Process.run_bind, hrun]
  refine ⟨w₁, hsight.trans (congrArg Prod.fst hview), fun i => ?_, hend, hview'⟩
  have hsame : S.log i w' = S.log i w := congrFun (congrArg Prod.snd hview) i
  rw [hlog, hsame]

/-- Something that is neither seen nor logged may come last, after an answer. -/
theorem before {last : α → Action ε Unit} (hlast : ∀ r, (last r).Hidden S.view) :
    S.Passes (fun _ => []) (do let r ← a; last r; return r) a := by
  intro w
  refine ⟨w, rfl, fun _ => (List.append_nil _).symm, ?_⟩
  rw [Process.run_bind]
  rcases hrun : a.run w with ⟨o, w'⟩
  cases o with
  | crashed m => exact ⟨rfl, rfl⟩
  | value r =>
    obtain ⟨u, w'', hrun', hview⟩ := hlast r w'
    dsimp only
    rw [Process.run_bind, hrun']
    exact ⟨rfl, hview⟩

/-- Something that is neither seen nor logged may run on the way out. -/
theorem onExit {last : Action ε Unit} (hlast : last.Hidden S.view) :
    S.Passes (fun _ => []) (a.onExit last) a := by
  intro w
  obtain ⟨u, w', hrun, hview⟩ := hlast (a.run w).2
  refine ⟨w, rfl, fun _ => (List.append_nil _).symm, ?_⟩
  rw [Process.run_onExit, hrun]
  exact ⟨rfl, hview⟩

/-- **Passing extensions makes no difference.** -/
theorem agrees {c : Action ε α} (hab : S.Passes entries a b) (hbc : b.Agrees S.sight c) :
    a.Agrees S.sight c := by
  refine ⟨fun {w v} h => ?_⟩
  obtain ⟨w₁, hsight, -, hend, hview⟩ := hab w
  obtain ⟨hend', hsight'⟩ := hbc.ends (hsight.trans h)
  exact ⟨hend.trans hend', (congrArg Prod.fst hview).trans hsight'⟩

end Passes

/-! ## What observers do -/

theorem overlooksSpans_view : OverlooksSpans fun w w' : World ε => S.view w' = S.view w where
  trace _ _ := rfl
  spans w id bag h := by
    have hsight : S.sight (w.modifyContext id fun s => { s with properties := bag }) = S.sight w :=
      World.overlooksSpans_sight.spans w id bag h
    exact congrArg (fun view => (view, fun i => S.log i w)) hsight

/-- Counting is neither seen nor logged. -/
theorem hidden_counting (i : ι) (f : Stats → Stats) :
    (Action.change (S.counters i) f : Action ε Unit).Hidden S.view := by
  refine .change fun w => Prod.ext (World.sight_env (S.counters_unshown i _ _)) (funext fun j => ?_)
  exact (S.logs_counters j i).get_set_left _ _

/-- An entry in a log is not seen. -/
theorem hidden_note (i : ι) (entry : String) :
    (Recorder.note (S.logs i) entry : Action ε Unit).Hidden S.sight :=
  .change fun w => S.sight_noted i entry w

/-- Quiet actions answer, so they are hidden if their steps show nothing. -/
theorem hidden_quiet {a : Action ε α} (hsteps : a.Steps fun w w' => S.view w' = S.view w)
    (ha : Quiet S.records a) : a.Hidden S.view := .of_steps hsteps ha.safe

/-- What is not seen beside the logs is not seen. -/
theorem hidden_sight {a : Action ε α} (h : a.Hidden S.view) : a.Hidden S.sight := by
  intro w
  obtain ⟨r, w', hrun, hview⟩ := h w
  exact ⟨r, w', hrun, congrArg Prod.fst hview⟩

theorem hidden_contextSpan (c : Context) : (Monitoring.contextSpan c : Action ε Span).Hidden S.view :=
  hidden_quiet (overlooksSpans_view.contextSpan c) (Monitoring.quiet_contextSpan c)

theorem hidden_within (s : Span) (e : Event) :
    (Action.within s (Action.tell e) : Action ε Unit).Hidden S.view :=
  hidden_quiet (overlooksSpans_view.within s (overlooksSpans_view.tell e)) (.within s (.tell e))

/-- All that tracing does before an execution. -/
theorem hidden_opening (c : Context) (phase : Phase) :
    (Monitoring.opening c phase : Action ε Unit).Hidden S.view := by
  have hS := overlooksSpans_view (S := S)
  refine hidden_quiet (.bind (hS.contextSpan c) fun _ => ?_) (Monitoring.quiet_opening c phase)
  refine .bind (.atomically fun w => hS.trace w _) fun _ => .bind (.change fun w => hS.trace w _) fun _ => ?_
  refine .bind (hS.tell _) fun _ => ?_
  split
  · exact hS.tell _
  · exact .pure _

end Scene

namespace Observer

variable {S : Scene ε η ι} (o : Observer ι)

/-- **An execution passes an observer**: there is its entry, and then the execution. -/
theorem passes [DecidableEq ι] (x : Executor ε) (c : Context) (phase : Phase) (body : Body ε κ) :
    S.Passes (fun i => o.entries i phase) (((o.extension S).wrap x).execute c phase body)
      (x.execute c phase body) := by
  cases o with
  | recording name log =>
    exact fun w => ⟨S.noted log _ w, S.sight_noted log _ w, S.log_noted log _ w, rfl, rfl⟩
  | counting counters =>
    exact .after (Scene.hidden_counting counters _) fun _ => .before fun _ => Scene.hidden_counting counters _
  | monitoring =>
    have hleaving : (Monitoring.leaving : Action ε Unit).Hidden S.view := .change fun _ => rfl
    have htell : ∀ answer : Answer κ, (Action.tell (Monitoring.outcome answer.1) : Action ε Unit).Hidden
        S.view := fun _ => .change fun _ => rfl
    have hexecution := (Scene.Passes.onExit hleaving).trans
      (Scene.Passes.before (a := x.execute c phase body) htell)
    show S.Passes _ ((Monitoring.wrap x).execute c phase body) _
    rw [Monitoring.execute_wrap]
    exact .after (Scene.hidden_opening c phase) fun _ => hexecution

/-- **The hook of an observer at a beginning** answers well, and is not seen. -/
theorem created (x : Executor ε) (c : Context) :
    ((o.extension S).created x c).Agrees S.sight (pure (.ok ())) := by
  cases o with
  | recording name log => exact .after (Scene.hidden_note log _) fun _ => .done _
  | counting counters =>
    exact .after (Scene.hidden_sight (Scene.hidden_counting counters _)) fun _ => .done _
  | monitoring =>
    refine .after (Scene.hidden_sight (Scene.hidden_contextSpan c)) fun s => ?_
    exact .after (Scene.hidden_sight (Scene.hidden_within s _)) fun _ => .done _

/-- **The hook of an observer at an end** answers well, and is not seen. -/
theorem closed (x : Executor ε) (c : Context) :
    ((o.extension S).closed x c).Agrees S.sight (pure (.ok ())) := by
  cases o with
  | recording name log => exact .after (Scene.hidden_note log _) fun _ => .done _
  | counting counters =>
    exact .after (Scene.hidden_sight (Scene.hidden_counting counters _)) fun _ => .done _
  | monitoring =>
    have herase : (c.withProperties (modify (·.erase Monitoring.spanKey)) : Action ε Unit).Hidden S.sight :=
      .change fun w => World.overlooksSpans_sight.spans w c.id _ (PropertyBag.agreesBut_erase _ _)
    refine .after (Scene.hidden_sight (Scene.hidden_contextSpan c)) fun s => ?_
    exact .after (Scene.hidden_sight (Scene.hidden_within s _)) fun _ => .after herase fun _ => .done _

end Observer

/-! ## The chain -/

namespace Scene

variable {S : Scene ε η ι} {p : Provider ε}

/-- **An execution passes all observers**, in their order, before it comes to the base executor. -/
theorem passes_executor [DecidableEq ι] (observers : List (Observer ι)) (c : Context) (phase : Phase)
    (body : Body ε κ) :
    S.Passes (fun i => observers.flatMap (·.entries i phase))
      ((S.watched p observers).executor.execute c phase body)
      ((Executor.base p.store).execute c phase body) := by
  induction observers with
  | nil => exact .refl _
  | cons o rest ih => exact (o.passes (S.watched p rest).executor c phase body).trans ih

variable (S) in
/-- **A provider behind the scene**: its store, its locks and its clock have nothing to do with what is
    not shown. -/
structure Backs (p : Provider ε) : Prop where
  store : p.store.Plain S.sight
  locks : p.locks.Plain S.sight
  clock : p.clock.Plain S.sight

variable (hp : S.Backs p) (observers : List (Observer ι))
include hp

/-- **The chain agrees** with the base executor. -/
theorem agrees_executor [DecidableEq ι] :
    (S.watched p observers).executor.Agrees S.sight (S.watched p []).executor := by
  refine ⟨fun c phase body body' hbody => ?_⟩
  have hbase := (Executor.agrees_base hp.store fun e => Action.plain_tell e).execute c phase hbody
  exact (passes_executor observers c phase body).agrees hbase

/-! ## Closing and dropping -/

omit hp in
/-- Any hooks of observers gather no errors. -/
theorem agrees_runClosed (x : Executor ε) (c : Context) {extensions : List (Interceptor ε)}
    (h : ∀ i ∈ extensions, ∃ o : Observer ι, i = o.extension S) :
    (Provider.runClosed x c extensions).Agrees S.sight (.done []) := by
  induction extensions with
  | nil => exact .done _
  | cons i rest ih =>
    obtain ⟨⟨o, rfl⟩, hrest⟩ := List.forall_mem_cons.1 h
    exact (o.closed x c).answering ((ih hrest).answering (.done []))

theorem plain_releaseLock (c : Context) : (p.releaseLock c).Plain S.sight := by
  have htake : (Provider.takeLock c : Action ε (Option LockHandle)).Plain S.sight := by
    refine .atomically fun w v h => ⟨?_, World.sight_modifyContext h ?_⟩
    · exact congrArg Appearance.lock (World.appearance_eq h c.id)
    · exact congrArg (fun a : Appearance => { a with lock := none }) (World.appearance_eq h c.id)
  exact Process.Agrees.congruent.releaseLock (fun _ => Action.plain_tell _) htake hp.locks.release

theorem agrees_close [DecidableEq ι] (c : Context) :
    ((S.watched p observers).close c).Agrees S.sight ((S.watched p []).close c) := by
  have hmark : (Provider.markClosed c : Action ε Bool).Plain S.sight := by
    refine .atomically fun w v h => ⟨?_, World.sight_modifyContext h ?_⟩
    · exact congrArg Appearance.closed (World.appearance_eq h c.id)
    · exact congrArg (fun a : Appearance => { a with closed := true }) (World.appearance_eq h c.id)
  have hhooks : ∀ n, ∀ i ∈ ((S.watched p observers).interceptors.take n).reverse,
      ∃ o : Observer ι, i = o.extension S := by
    intro n i hi
    obtain ⟨o, -, ho⟩ := List.mem_map.1 (List.mem_of_mem_take (List.mem_reverse.1 hi))
    exact ⟨o, ho.symm⟩
  refine .bind hmark fun before => ?_
  split
  · exact .done _
  · -- How many extensions have learnt of the context is not seen, so each side looks for itself.
    refine .after (.look _) fun n => .after_right (.look _) fun m => ?_
    have hnone : ((S.watched p []).interceptors.take m).reverse = [] := by
      rw [show (S.watched p []).interceptors = [] from rfl, List.take_nil, List.reverse_nil]
    rw [hnone]
    exact .bind (agrees_runClosed _ c (hhooks n)) fun errors =>
      .bind (plain_releaseLock hp c) fun _ => .done _

theorem agrees_drop [DecidableEq ι] (c : Context) :
    ((S.watched p observers).drop c).Agrees S.sight ((S.watched p []).drop c) := by
  have hclosing := Process.Agrees.congruent.closeTelling c (fun _ => Action.plain_tell _) (agrees_close hp observers c)
  have htell : (Action.tell (.contextDropped c.process c.key) : Action ε Unit).Hidden S.sight :=
    .change fun _ => rfl
  refine .bind (c.plain_look fun s t h => congrArg Appearance.closed h) fun closed => ?_
  split
  · exact .done _
  · -- What is told depends on how many extensions there are, but that is not seen.
    refine .after (.look _) fun n => .after_right (.look _) fun m => ?_
    split
    · refine .after htell fun _ => ?_
      split
      · exact .after_right htell fun _ => hclosing
      · exact hclosing
    · split
      · exact .after_right htell fun _ => hclosing
      · exact hclosing

/-! ## Starting -/

omit hp in
theorem agrees_runCreated (x : Executor ε) (c : Context) :
    (Provider.runCreated x c (observers.map (·.extension S))).Agrees S.sight (.done (.ok ())) := by
  induction observers with
  | nil => exact .done _
  | cons o rest ih =>
    have hcount : (c.change fun s => { s with notified := s.notified + 1 } : Action ε Unit).Hidden S.sight :=
      .change fun w => World.sight_modifyContext_self rfl
    exact (o.created x c).answering (.after hcount fun _ => ih)

/-! ## Programs -/

/-- **All that the engine does** agrees with what it does without observers. -/
theorem related [DecidableEq ι] :
    Provider.Related (fun a a' => a.Agrees S.sight a') Eq (S.watched p observers) (S.watched p []) where
  congruent := Process.Agrees.congruent
  like_id h := congrArg Phase.id h
  like_settings h := congrArg Phase.settings h
  like_auto := rfl
  tell := Action.plain_tell
  wasFinal c := c.plain_look fun s t h => congrArg Appearance.wasFinal h
  enter c phase _ h := h ▸ c.plain_enter phase
  leave c phase _ h := h ▸ c.plain_leave phase
  execute c phase _ _ _ h hbody := h ▸ (agrees_executor hp observers).execute c phase hbody
  newContext process key settings recordedFinal handle := by
    refine .atomically fun w v h => ⟨?_, World.sight_append h _⟩
    exact congrArg (fun id => (⟨id, process, key, settings, recordedFinal⟩ : Context)) (World.length_eq h)
  created c := agrees_runCreated observers _ c
  close := agrees_close hp observers
  drop := agrees_drop hp observers
  clock := hp.clock
  findFinal := hp.store.findFinal
  obtain := hp.locks.obtain
  release := hp.locks.release

/-- **Whatever a program does**, it agrees with itself without the observers, if its own actions can tell
    nothing that is not shown. -/
theorem agrees_program [DecidableEq ι] {prog : Program ε α} (hprog : prog.Within (·.Plain S.sight)) :
    (prog.act (S.watched p observers)).Agrees S.sight (prog.act (S.watched p [])) :=
  (related hp observers).program (hprog.related (fun a a' => a.Agrees S.sight a') id fun _ => rfl)

end Scene

/-! ## The result -/

/-- **Observers are not seen.**  Over records and locks in memory, whatever a program does, with attempts,
    errors and crashes in any nesting: with observers, of any number and kind, it comes to the same end as
    without any, and leaves the same records and locks and the same sight of all else that is shown to
    programs.  (A program may answer with whatever it was told on its way, by starting, calling, closing or
    running a whole process, so that is the same as well.)  And each execution passes all observers: their
    entries are in the logs once each, in the order of the observers and before the base executor begins,
    and nothing is logged on the way back. -/
theorem Scene.observers_unseen [DecidableEq ι] {S : Scene ε η ι} {p : Provider ε} {stamps : Action ε Instant}
    (hstore : p.store = MemoryStore.adapter S.records stamps) (hlocks : p.locks = LockTable.adapter S.locks)
    (hclock : p.clock.Plain S.sight) (hstamps : stamps.Plain S.sight) (observers : List (Observer ι)) :
    (∀ {α : Type} {prog : Program ε α}, prog.Within (·.Plain S.sight) →
      ∀ {w v : World ε}, S.sight w = S.sight v → ∀ {o w'},
        (prog.act (S.watched p observers)).run w = (o, w') →
        ∃ v', (prog.act (S.watched p [])).run v = (o, v') ∧
          S.records.get w'.env = S.records.get v'.env ∧ S.locks.get w'.env = S.locks.get v'.env ∧
          S.sight w' = S.sight v') ∧
    ∀ {κ : Type} (c : Context) (phase : Phase) (body : Body ε κ) {w : World ε} {answer w'},
      ((S.watched p observers).executor.execute c phase body).run w = (answer, w') →
      ∃ w₁ w₂, S.sight w₁ = S.sight w ∧
        (∀ i, S.log i w₁ = S.log i w ++ observers.flatMap (·.entries i phase)) ∧
        ((Executor.base p.store).execute c phase body).run w₁ = (answer, w₂) ∧
        S.sight w' = S.sight w₂ ∧ ∀ i, S.log i w' = S.log i w₂ := by
  have hp : S.Backs p := by
    refine ⟨?_, ?_, hclock⟩
    · rw [hstore]
      exact MemoryStore.plain_adapter S.records_shown hstamps
    · rw [hlocks]
      exact LockTable.plain_adapter S.locks_shown
  constructor
  · intro α prog hprog w v h o w' hrun
    obtain ⟨hend, hsight⟩ := (Scene.agrees_program hp observers hprog).ends h
    rw [hrun] at hend hsight
    have hshown := World.shown_eq hsight
    exact ⟨((prog.act (S.watched p [])).run v).2, Prod.ext hend.symm rfl, S.records_shown.get _ _ hshown,
      S.locks_shown.get _ _ hshown, hsight⟩
  · intro κ c phase body w answer w' hrun
    obtain ⟨w₁, hsight, hlog, hend, hview⟩ := Scene.passes_executor (p := p) observers c phase body w
    rw [hrun] at hend hview
    exact ⟨w₁, (((Executor.base p.store).execute c phase body).run w₁).2, hsight, hlog,
      Prod.ext hend.symm rfl, congrArg Prod.fst hview, congrFun (congrArg Prod.snd hview)⟩

/-! ## At the gallery -/

/-- What there is at a gallery; its visitors are counted by the programs. -/
structure Gallery where
  records : MemoryStore := Table.empty
  locks : LockTable RecordKey := {}
  visitors : Nat := 0
  diary : CallLog := []
  audit : CallLog := []
  stats : Stats := {}

namespace Gallery

/-- The visitors. -/
def visitorsPart : Part Gallery Nat where
  get := (·.visitors)
  set a g := { g with visitors := a }

/-- The counters. -/
def statsPart : Part Gallery Stats where
  get := (·.stats)
  set a g := { g with stats := a }

/-- Two logs. -/
def logs : Bool → Part Gallery CallLog
  | true => { get := (·.diary), set := fun a g => { g with diary := a } }
  | false => { get := (·.audit), set := fun a g => { g with audit := a } }

/-- Programs are shown neither the logs nor the counters. -/
def scene : Scene Gallery (MemoryStore × LockTable RecordKey × Nat) Bool where
  records := { get := (·.records), set := fun a g => { g with records := a } }
  locks := { get := (·.locks), set := fun a g => { g with locks := a } }
  logs := logs
  counters _ := statsPart
  shown g := (g.records, g.locks, g.visitors)
  records_shown := ⟨fun _ _ h => congrArg (·.1) h, fun a _ _ h => congrArg (fun g => (a, g.2)) h⟩
  locks_shown := ⟨fun _ _ h => congrArg (·.2.1) h, fun a _ _ h => congrArg (fun g => (g.1, a, g.2.2)) h⟩
  logs_unshown i := by cases i <;> exact fun _ _ => rfl
  counters_unshown _ := fun _ _ => rfl
  logs_apart := by
    intro i j hij
    cases i <;> cases j
    · exact absurd rfl hij
    · exact ⟨fun _ _ => rfl, fun _ _ => rfl⟩
    · exact ⟨fun _ _ => rfl, fun _ _ => rfl⟩
    · exact absurd rfl hij
  logs_counters i _ := by cases i <;> exact ⟨fun _ _ => rfl, fun _ _ => rfl⟩

/-- A provider with no extensions yet. -/
def provider : Provider Gallery where
  locks := LockTable.adapter scene.locks
  store := MemoryStore.adapter scene.records (pure .epoch)
  clock := pure .epoch

/-- Observers of all kinds, some of them twice. -/
def observers : List (Observer Bool) :=
  [.recording "outer" true, .monitoring, .recording "audit" false, .counting true, .monitoring,
    .recording "inner" true]

/-- Counts a visitor. -/
def count : Action Gallery Unit := Action.on visitorsPart fun n => ((), n + 1)

/-- A process whose first phase tries to start it again and fails for it, whose second phase crashes, and
    whose third one is final. -/
def visit : Program Gallery (Except Error Unit) :=
  .attempt "p" "k" ⟨5 * nanosPerSecond⟩ []
    (fun c =>
      .call c { id := "one" } .unit
        (.attempt "p" "k" ⟨5 * nanosPerSecond⟩ [] (fun _ => .done (.ok () : Except Error Unit)) fun
          | .value answer => .done answer
          | .crashed m => .crash m) fun _ =>
      .call c { id := "two" } .unit (.crash "boom" : Program Gallery (Except Error Unit)) fun _ =>
      .own count fun _ =>
      .call c { id := "three", isFinal := true } .unit (.done (.ok () : Except Error Unit)) fun _ =>
      .done (.ok () : Except Error Unit))
    fun
      | .value answer => .done answer
      | .crashed m => .crash m

theorem within_visit : visit.Within (·.Plain scene.sight) := by
  have hvisitors : visitorsPart.Shown scene.shown :=
    ⟨fun _ _ h => congrArg (·.2.2) h, fun a _ _ h => congrArg (fun g => (g.1, g.2.1, a)) h⟩
  refine ⟨fun c => ⟨⟨fun _ => trivial, fun o => ?_⟩, fun _ => ⟨trivial, fun _ => ?_⟩⟩, fun o => ?_⟩
  · cases o <;> trivial
  · exact ⟨hvisitors.plain_on _, fun _ => ⟨trivial, fun _ => trivial⟩⟩
  · cases o <;> trivial

/-- Nobody has come yet. -/
def fresh : World Gallery := { env := {} }

/-- The world after a visit with observers. -/
def observed : World Gallery := ((visit.act (scene.watched provider observers)).run fresh).2

theorem run_observed :
    (visit.act (scene.watched provider observers)).run fresh = (.value (.ok ()), observed) :=
  Prod.ext (Outcome.answer?_eq_some (by decide +kernel)) rfl

/-- **A visit with observers ends as it does without them**, and they have seen all of it. -/
theorem observers_unseen_visit : (∃ alone,
      (visit.act (scene.watched provider [])).run fresh = (.value (.ok ()), alone) ∧
      scene.records.get observed.env = scene.records.get alone.env ∧
      scene.locks.get observed.env = scene.locks.get alone.env) ∧
    scene.log true observed = ["outer.created", "inner.created", "outer.execute:one", "inner.execute:one",
      "outer.execute:two", "inner.execute:two", "outer.execute:three", "inner.execute:three",
      "inner.closed", "outer.closed"] ∧
    scene.log false observed =
      ["audit.created", "audit.execute:one", "audit.execute:two", "audit.execute:three", "audit.closed"] := by
  have hclock : provider.clock.Plain scene.sight := .done _
  obtain ⟨hsame, -⟩ := Scene.observers_unseen rfl rfl hclock (.done .epoch) observers
  obtain ⟨alone, hrun, hrecords, hlocks, -⟩ := hsame within_visit rfl run_observed
  exact ⟨⟨alone, hrun, hrecords, hlocks⟩, by decide +kernel, by decide +kernel⟩

end Gallery

end Idempotence
