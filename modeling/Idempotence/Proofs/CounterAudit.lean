/-
  Auditing counters — the counters of a provider add up whenever nobody is in the midst of counting.

  What the counters are compared with is not all to be seen from outside: which bodies are running, which ones
  have crashed, and what has been done to the records by somebody else.  So a program is AUDITED as it runs.

  1. **Audits** — an audited program does what the program does.  Beside that a tally is kept of the bodies of
     its phases and of what its own actions do to the records, and whenever it has control — when a body
     begins, and behind each thing that it has done — there is a glance at the books (`Program.audited`).

  2. **Unnoticed** — where the tally is kept makes no difference to anything, so an audited program comes to
     the same end as the program and leaves the same world (`Program.agrees_audited`).

  3. **Balance** — all that an audited program does leaves the facts settled where they have been, by induction
     on the program (`Provider.Counted.settles_audited`); and settled facts add up.
-/
import Idempotence.Proofs.CounterDebts
import Idempotence.Proofs.Observers

namespace Idempotence

variable {σ τ ε α β γ κ : Type}

open Fixture

/-! ## Audits -/

namespace Books

variable (B : Books ε)

/-- Notes in the tally what is to be made of the facts. -/
def note (f : Facts → Tally) : Action ε Unit :=
  Process.change fun w => { w with env := B.tally.set (f (B.facts w)) w.env }

/-- **A glance at the books.** -/
def glance : Action ε Unit := B.note fun f => { f.tally with seen := f.tally.seen ++ [f.glimpse] }

/-- **A body in the tally**: it is running until it answers or crashes. -/
def tallied (body : Action ε α) : Action ε α := do
  B.note fun f => { f.tally with running := f.tally.running + 1 }
  B.glance
  let a ← body.onCrash <| B.note fun f =>
    { f.tally with running := f.tally.running - 1, panicked := f.tally.panicked + 1 }
  B.note fun f => { f.tally with running := f.tally.running - 1 }
  return a

/-- **Something done elsewhere**: it is noted how many records more or less there are by it. -/
def elsewhere (a : Action ε α) : Action ε α := do
  let before ← Process.look fun w => B.count w.env
  a.onExit <| B.note fun f => { f.tally with elsewhere := f.tally.elsewhere + (f.records - before) }

end Books

/-- **What an audited program does** with a provider. -/
def Program.audited (p : Provider ε) (B : Books ε) {α : Type} : Program ε α → Action ε α
  | done a => .done a
  | crash m => .crash m
  | own action resume => (B.elsewhere action).caught.bind fun o => B.glance.bind fun _ => (resume o).audited p B
  | start process key timeout settings resume =>
    (p.start process key timeout settings).caught.bind fun o => B.glance.bind fun _ => (resume o).audited p B
  | call c phase codec body resume =>
    (p.runPhase c phase codec (B.tallied (body.audited p B))).caught.bind fun o =>
      B.glance.bind fun _ => (resume o).audited p B
  | close c resume => (p.close c).caught.bind fun o => B.glance.bind fun _ => (resume o).audited p B
  | drop c resume => (p.drop c).caught.bind fun o => B.glance.bind fun _ => (resume o).audited p B
  | attempt process key timeout settings body resume =>
    (p.runProcess process key timeout settings fun c => B.glance.bind fun _ => (body c).audited p B).caught.bind
      fun o => B.glance.bind fun _ => (resume o).audited p B

/-- Actions of one kind are of any kind that takes that in. -/
theorem Program.Within.mono {T T' : {β : Type} → Action ε β → Prop}
    (h : ∀ {β : Type} {a : Action ε β}, T a → T' a) {prog : Program ε α} (hprog : prog.Within T) :
    prog.Within T' := by
  induction prog with
  | done a => trivial
  | crash m => trivial
  | own action resume ih => exact ⟨h hprog.1, fun o => ih o (hprog.2 o)⟩
  | start process key timeout settings resume ih => exact fun o => ih o (hprog o)
  | call c phase codec body resume ihbody ih => exact ⟨ihbody hprog.1, fun o => ih o (hprog.2 o)⟩
  | close c resume ih => exact fun o => ih o (hprog o)
  | drop c resume ih => exact fun o => ih o (hprog o)
  | attempt process key timeout settings body resume ihbody ih =>
    exact ⟨fun c => ihbody c (hprog.1 c), fun o => ih o (hprog.2 o)⟩

/-! ## Unnoticed -/

namespace Process.Agrees

variable {V : σ → τ} {p q : Process σ α}

/-- Something hidden may run on the way out of the other side. -/
theorem onExit_right (h : p.Agrees V q) {last : Process σ Unit} (hlast : last.Hidden V) :
    p.Agrees V (q.onExit last) := by
  refine ⟨fun {s t} hst => ?_⟩
  obtain ⟨hend, hview⟩ := h.ends hst
  obtain ⟨u, t', hrun, hview'⟩ := hlast (q.run t).2
  rw [run_onExit, hrun]
  exact ⟨hend, hview.trans hview'.symm⟩

/-- Something hidden may run when the other side crashes. -/
theorem onCrash_right (h : p.Agrees V q) {last : Process σ Unit} (hlast : last.Hidden V) :
    p.Agrees V (q.onCrash last) := by
  refine ⟨fun {s t} hst => ?_⟩
  obtain ⟨hend, hview⟩ := h.ends hst
  rw [run_onCrash]
  rcases hq : q.run t with ⟨o, t'⟩
  rw [hq] at hend hview
  cases o with
  | value a => exact ⟨hend, hview⟩
  | crashed m =>
    obtain ⟨u, t'', hrun, hview'⟩ := hlast t'
    dsimp only
    rw [hrun]
    exact ⟨hend, hview.trans hview'.symm⟩

/-- Something hidden may run when the other side has answered. -/
theorem before_right (h : p.Agrees V q) {last : Process σ Unit} (hlast : last.Hidden V) :
    p.Agrees V (do let a ← q; last; return a) := by
  refine ⟨fun {s t} hst => ?_⟩
  obtain ⟨hend, hview⟩ := h.ends hst
  rw [run_bind]
  rcases hq : q.run t with ⟨o, t'⟩
  rw [hq] at hend hview
  cases o with
  | crashed m => exact ⟨hend, hview⟩
  | value a =>
    obtain ⟨u, t'', hrun, hview'⟩ := hlast t'
    dsimp only
    rw [run_bind, hrun]
    exact ⟨hend, hview.trans hview'.symm⟩

end Process.Agrees

namespace Books

variable (B : Books ε)

/-- **All but the tally.** -/
def view (w : World ε) : List ContextState × Trace × ε := (w.contexts, w.trace, B.tally.set {} w.env)

/-- What is noted in the tally is not seen. -/
theorem hidden_note (f : Facts → Tally) : (B.note f).Hidden B.view :=
  .change fun w => congrArg (fun e => (w.contexts, w.trace, e)) (B.tally.set_set _ _ _)

variable {B}

theorem agrees_tallied {a b : Action ε α} (h : a.Agrees B.view b) : a.Agrees B.view (B.tallied b) := by
  refine .after_right (B.hidden_note _) fun _ => .after_right (B.hidden_note _) fun _ => ?_
  exact (h.onCrash_right (B.hidden_note _)).before_right (B.hidden_note _)

theorem agrees_elsewhere {a b : Action ε α} (h : a.Agrees B.view b) : a.Agrees B.view (B.elsewhere b) :=
  .after_right (.look _) fun _ => h.onExit_right (B.hidden_note _)

/-! ### What does not use the tally -/

theorem view_env {w v : World ε} (h : B.view w = B.view v) : B.tally.set {} w.env = B.tally.set {} v.env :=
  congrArg (·.2.2) h

section

variable {part : Part ε κ} (hpart : part.Commute B.tally)
include hpart

theorem view_get {w v : World ε} (h : B.view w = B.view v) : part.get w.env = part.get v.env := by
  rw [← hpart.get_set {} w.env, view_env h, hpart.get_set]

theorem view_set {w v : World ε} (h : B.view w = B.view v) (a : κ) :
    B.view { w with env := part.set a w.env } = B.view { v with env := part.set a v.env } := by
  have henv : B.tally.set {} (part.set a w.env) = B.tally.set {} (part.set a v.env) := by
    rw [← hpart, ← hpart, view_env h]
  exact Prod.ext (congrArg (·.1) h :) (Prod.ext (congrArg (·.2.1) h :) henv)

theorem plain_look (f : κ → α) : (Action.look part f).Plain B.view :=
  .look fun _ _ h => congrArg f (view_get hpart h)

theorem plain_on (f : κ → α × κ) : (Action.on part f).Plain B.view := by
  refine .atomically fun w v h => ?_
  dsimp only
  rw [view_get hpart h]
  exact ⟨rfl, view_set hpart h _⟩

theorem plain_change (f : κ → κ) : (Action.change part f).Plain B.view := by
  refine .change fun w v h => ?_
  rw [view_get hpart h]
  exact view_set hpart h _

end

theorem view_contexts {w v : World ε} (h : B.view w = B.view v) (f : List ContextState → List ContextState) :
    B.view { w with contexts := f w.contexts } = B.view { v with contexts := f v.contexts } :=
  Prod.ext (congrArg (f ·.1) h :) (congrArg (·.2) h :)

theorem view_context {w v : World ε} (h : B.view w = B.view v) (id : Nat) : w.context id = v.context id :=
  congrArg (fun view : List ContextState × Trace × ε => view.1.getD id default) h

theorem plain_tell (e : Event) : (Action.tell e : Action ε Unit).Plain B.view :=
  .change fun _ _ h => Prod.ext (congrArg (·.1) h :) (congrArg (fun view => (view.2.1.tell e, view.2.2)) h :)

/-- Looking at a context is plain. -/
theorem plain_lookAt (c : Context) (f : ContextState → α) : (c.look f : Action ε α).Plain B.view :=
  .look fun _ _ h => congrArg f (view_context h c.id)

/-- Changing a context is plain. -/
theorem plain_changeAt (c : Context) (f : ContextState → ContextState) :
    (c.change f : Action ε Unit).Plain B.view :=
  .change fun _ _ h => view_contexts h _

/-- Looking at a context and changing it in one step is plain. -/
theorem plain_useAt (c : Context) (f : ContextState → α) (g : ContextState → ContextState) :
    (Process.atomically fun w => (f (w.context c.id), w.modifyContext c.id g) : Action ε α).Plain B.view :=
  .atomically fun _ _ h => ⟨congrArg f (view_context h c.id), view_contexts h _⟩

end Books

/-- **A provider that knows nothing of the tally.** -/
structure Provider.Unaware (p : Provider ε) (B : Books ε) : Prop where
  store : p.store.Plain B.view
  locks : p.locks.Plain B.view
  clock : p.clock.Plain B.view

namespace Fixture

variable {B : Books ε} (i : Fixture)

theorem plain_created (x : Executor ε) (c : Context) : ((i.interceptor B).created x c).Plain B.view := by
  cases i with
  | counting => exact .bind (Books.plain_change B.stats_tally _) fun _ => .done _
  | recording r => exact .bind (Books.plain_change B.log_tally _) fun _ => .done _

theorem plain_closed (x : Executor ε) (c : Context) : ((i.interceptor B).closed x c).Plain B.view := by
  cases i with
  | counting => exact .bind (Books.plain_change B.stats_tally _) fun _ => .done _
  | recording r => exact .bind (Books.plain_change B.log_tally _) fun _ => .done _

theorem agrees_wrap {x : Executor ε} (hx : x.Agrees B.view x) :
    ((i.interceptor B).wrap x).Agrees B.view ((i.interceptor B).wrap x) := by
  refine ⟨fun c phase body body' hbody => ?_⟩
  cases i with
  | counting =>
    refine .bind (Books.plain_change B.stats_tally _) fun _ => .bind (hx.execute c phase hbody) fun _ => ?_
    exact .bind (Books.plain_change B.stats_tally _) fun _ => .done _
  | recording r => exact .bind (Books.plain_change B.log_tally _) fun _ => hx.execute c phase hbody

end Fixture

namespace Provider.Unaware

variable {p : Provider ε} {B : Books ε} {fixtures : List Fixture} (hp : p.Unaware B)
  (hinterceptors : p.interceptors = fixtures.map (·.interceptor B))
include hp hinterceptors

theorem agrees_executor : p.executor.Agrees B.view p.executor := by
  rw [Provider.executor, hinterceptors]
  clear hinterceptors
  induction fixtures with
  | nil => exact Executor.agrees_base hp.store Books.plain_tell
  | cons i rest ih => exact i.agrees_wrap ih

theorem tends (c : Context) : p.Tends (fun a a' => a.Agrees B.view a') c where
  sequential := Process.Agrees.congruent.toSequential
  tell := Books.plain_tell
  closed i hi := by
    rw [hinterceptors] at hi
    obtain ⟨i, -, rfl⟩ := List.mem_map.1 hi
    exact i.plain_closed _ c
  notified := Books.plain_lookAt c _
  wasClosed := Books.plain_lookAt c _
  mark := Books.plain_useAt c _ _
  take := Books.plain_useAt c _ _
  release := hp.locks.release

/-- **All that the engine does** goes on without a look at the tally. -/
theorem related : Provider.Related (fun a a' => a.Agrees B.view a') Eq p p where
  congruent := Process.Agrees.congruent
  like_id h := congrArg Phase.id h
  like_settings h := congrArg Phase.settings h
  like_auto := rfl
  tell := Books.plain_tell
  wasFinal c := Books.plain_lookAt c _
  enter c phase _ h := by
    subst h
    refine .atomically fun w v h => ?_
    rw [Books.view_context h]
    split
    · exact ⟨rfl, h⟩
    · exact ⟨rfl, Books.view_contexts h _⟩
  leave c phase _ h := h ▸ Books.plain_changeAt c _
  execute c phase _ _ _ h hbody := h ▸ (hp.agrees_executor hinterceptors).execute c phase hbody
  newContext process key settings recordedFinal handle := by
    refine .atomically fun w v h => ?_
    have hlength : w.contexts.length = v.contexts.length := congrArg (·.1.length) h
    dsimp only
    rw [hlength]
    exact ⟨rfl, Books.view_contexts h (· ++ [{ lock := some handle }])⟩
  created c := by
    refine Process.Agrees.congruent.runCreated (Books.plain_changeAt c _) fun i hi => ?_
    rw [hinterceptors] at hi
    obtain ⟨i, -, rfl⟩ := List.mem_map.1 hi
    exact i.plain_created _ c
  close c := (hp.tends hinterceptors c).close
  drop c := (hp.tends hinterceptors c).drop
  clock := hp.clock
  findFinal := hp.store.findFinal
  obtain := hp.locks.obtain
  release := hp.locks.release

/-- **An audit is not noticed**: the audited program does what the program does. -/
theorem agrees_audited {prog : Program ε α} (hprog : prog.Within (·.Plain B.view)) :
    (prog.act p).Agrees B.view (prog.audited p B) := by
  have hrelated := hp.related hinterceptors
  have hglance : ∀ {β : Type} {a b : Action ε β}, a.Agrees B.view b →
      a.Agrees B.view (B.glance.bind fun _ => b) := fun h => .after_right (B.hidden_note _) fun _ => h
  induction prog with
  | done a => exact .done a
  | crash m => exact .crash m
  | own action resume ih =>
    exact .bind (Books.agrees_elsewhere hprog.1).caught fun o => hglance (ih o (hprog.2 o))
  | start process key timeout settings resume ih =>
    exact .bind (hrelated.start process key timeout settings).caught fun o => hglance (ih o (hprog o))
  | call c phase codec body resume ihbody ih =>
    have hbody := Books.agrees_tallied (ihbody hprog.1)
    exact .bind (hrelated.runPhase c rfl codec hbody).caught fun o => hglance (ih o (hprog.2 o))
  | close c resume ih => exact .bind (hrelated.close c).caught fun o => hglance (ih o (hprog o))
  | drop c resume ih => exact .bind (hrelated.drop c).caught fun o => hglance (ih o (hprog o))
  | attempt process key timeout settings body resume ihbody ih =>
    have hbody := hrelated.runProcess process key timeout settings fun c => hglance (ihbody c (hprog.1 c))
    exact .bind hbody.caught fun o => hglance (ih o (hprog.2 o))

end Provider.Unaware

/-! ## Balance -/

namespace Facts

variable {fixtures : List Fixture} {base running : Nat} {f : Facts}

/-- **Settled facts add up.** -/
theorem Settled.addsUp (hfixtures : weight fixtures = 1) (h : f.Settled fixtures base running {}) :
    f.glimpse.AddsUp base where
  contexts := by
    have hcontexts := h.contexts
    rw [told_known h.known, hfixtures, Nat.one_mul] at hcontexts
    exact hcontexts
  phases := by
    have hphases := h.phases
    rw [← h.running] at hphases
    exact hphases
  records := h.records.trans (Int.add_zero _)

/-- A glance at settled facts. -/
theorem Settled.seeing (hfixtures : weight fixtures = 1) (h : f.Settled fixtures base running {}) :
    { f with tally := { f.tally with seen := f.tally.seen ++ [f.glimpse] } }.Settled fixtures base running {} where
  contexts := h.contexts
  phases := h.phases
  records := h.records
  running := h.running
  seen g hg := by
    rcases List.mem_append.1 hg with hold | hnew
    · exact h.seen g hold
    · rw [List.mem_singleton.1 hnew]
      exact h.addsUp hfixtures
  known := h.known

/-- **A phase is owed, runs or has crashed**: where the tally turns one into another, all is settled again. -/
theorem Settled.turned {tally : Tally} {running' phases phases' : Nat}
    (h : f.Settled fixtures base running { phases }) (hrunning : tally.running = running')
    (hsum : running' + tally.panicked + phases' = running + f.tally.panicked + phases)
    (helsewhere : tally.elsewhere = f.tally.elsewhere) (hseen : tally.seen = f.tally.seen) :
    { f with tally }.Settled fixtures base running' { phases := phases' } where
  contexts := h.contexts
  phases := by
    have hphases := h.phases
    simp only at hphases ⊢
    omega
  records := helsewhere ▸ h.records
  running := hrunning
  seen := hseen ▸ h.seen
  known := h.known

/-- A body that begins takes over what is owed for its phase. -/
theorem Settled.entered (h : f.Settled fixtures base running { phases := 1 }) :
    { f with tally := { f.tally with running := f.tally.running + 1 } }.Settled fixtures base
      (running + 1) {} :=
  h.turned (congrArg (· + 1) h.running) (Nat.add_right_comm running 1 f.tally.panicked) rfl rfl

/-- A body that answers hands back what is owed for its phase. -/
theorem Settled.left (h : f.Settled fixtures base (running + 1) {}) :
    { f with tally := { f.tally with running := f.tally.running - 1 } }.Settled fixtures base running
      { phases := 1 } :=
  h.turned (congrArg (· - 1) h.running) (Nat.add_right_comm running f.tally.panicked 1) rfl rfl

/-- A body that crashes is accounted for. -/
theorem Settled.fallen (h : f.Settled fixtures base (running + 1) {}) :
    { f with tally := { f.tally with running := f.tally.running - 1, panicked := f.tally.panicked + 1 } }.Settled
      fixtures base running {} :=
  h.turned (congrArg (· - 1) h.running) (Nat.add_right_comm running 1 f.tally.panicked).symm rfl rfl

/-- What has been done to the records meanwhile is accounted for. -/
theorem Settled.noted {before : Nat} (h : { f with records := before }.Settled fixtures base running {}) :
    { f with tally := { f.tally with elsewhere := f.tally.elsewhere + (f.records - before) } }.Settled fixtures
      base running {} where
  contexts := h.contexts
  phases := h.phases
  records := by
    have hrecords := h.records
    simp only at hrecords ⊢
    omega
  running := h.running
  seen := h.seen
  known := h.known

end Facts

namespace Books

/-- What a program may do of its own: it may do anything to the records, but leaves alone all else that
    the books are about. -/
def Spares (B : Books ε) (w w' : World ε) : Prop := ∃ n, B.facts w' = { B.facts w with records := n }

variable {B : Books ε} {fixtures : List Fixture} {base running : Nat}

theorem brings_note {X Y : Facts → Prop} {C : World ε → Prop} {f : Facts → Tally}
    (h : ∀ g, X g → Y { g with tally := f g }) : (B.note f).Brings (B.At X) (fun _ => B.At Y) C := by
  refine .change fun w hX => ?_
  rw [At, B.facts_tally]
  exact h _ hX

theorem settles_glance (hfixtures : weight fixtures = 1) : B.Settles fixtures base running B.glance :=
  brings_note fun _ h => h.seeing hfixtures

/-- **A body in the tally** does what is expected of a body. -/
theorem pays_tallied (hfixtures : weight fixtures = 1) {body : Action ε α}
    (hbody : B.Settles fixtures base (running + 1) body) : B.Pays fixtures base running (B.tallied body) := by
  refine (brings_note fun _ h => h.entered).bind fun _ => ?_
  have hglance : B.glance.Brings (B.At (Facts.Settled fixtures base (running + 1) {}))
      (fun _ => B.At (Facts.Settled fixtures base (running + 1) {}))
      (B.At (Facts.Settled fixtures base running {})) := brings_note fun _ h => h.seeing hfixtures
  refine hglance.bind fun _ => ?_
  refine (Process.Brings.onCrash hbody (brings_note fun _ h => h.fallen)).bind fun a => ?_
  exact (brings_note fun _ h => h.left).bind fun _ => .done fun _ hw => hw

/-- **Something done elsewhere** is accounted for. -/
theorem settles_elsewhere {a : Action ε α} (ha : a.Steps B.Spares) :
    B.Settles fixtures base running (B.elsewhere a) := by
  -- Were there as many records as before, all would be as it should be.
  have hlook : (Process.look fun w : World ε => B.count w.env).Brings
      (B.At (Facts.Settled fixtures base running {}))
      (fun before => B.At fun f => { f with records := before }.Settled fixtures base running {})
      (B.At (Facts.Settled fixtures base running {})) := .look fun _ hw => hw
  refine hlook.bind fun before => ?_
  have hsteps : a.Brings (B.At fun f => { f with records := before }.Settled fixtures base running {})
      (fun _ => B.At fun f => { f with records := before }.Settled fixtures base running {})
      (B.At fun f => { f with records := before }.Settled fixtures base running {}) := by
    refine .of_steps ha fun w w' hspares hw => ?_
    obtain ⟨n, hn⟩ := hspares
    rw [At, hn]
    exact hw
  exact hsteps.onExit (fun _ => brings_note fun _ h => h.noted) (brings_note fun _ h => h.noted)

end Books

namespace Provider.Counted

variable {p : Provider ε} {B : Books ε} {fixtures : List Fixture} (hp : p.Counted B fixtures)
include hp

theorem weight_eq : weight fixtures = 1 := by
  obtain ⟨before, after, rfl⟩ := hp.once
  simp only [weight_append, weight, weight_recording]

/-- **Whatever an audited program does** leaves the facts settled, however many bodies are running. -/
theorem settles_audited {prog : Program ε α} (hprog : prog.Within (·.Steps B.Spares)) {base running : Nat} :
    B.Settles fixtures base running (prog.audited p B) := by
  have hglance : ∀ {running : Nat} {β : Type} {b : Action ε β}, B.Settles fixtures base running b →
      B.Settles fixtures base running (B.glance.bind fun _ => b) :=
    fun h => (Books.settles_glance hp.weight_eq).bind fun _ => h
  have hcaught : ∀ {running : Nat} {β : Type} {a : Action ε β}, B.Settles fixtures base running a →
      B.Settles fixtures base running a.caught := Process.Brings.caught_either
  -- Bodies run while one more body is running, so the number of those varies.
  induction prog generalizing running with
  | done a => exact .done fun _ hw => hw
  | crash m => exact .crash fun _ hw => hw
  | own action resume ih =>
    exact (hcaught (Books.settles_elsewhere hprog.1)).bind fun o => hglance (ih o (hprog.2 o))
  | start process key timeout settings resume ih =>
    exact (hcaught (hp.settles_start process key timeout settings)).bind fun o => hglance (ih o (hprog o))
  | call c phase codec body resume ihbody ih =>
    have hbody : B.Pays fixtures base running (B.tallied (body.audited p B)) :=
      Books.pays_tallied hp.weight_eq (ihbody hprog.1)
    exact (hcaught (hp.settles_runPhase c phase codec hbody)).bind fun o => hglance (ih o (hprog.2 o))
  | close c resume ih => exact (hcaught (hp.settles_close c)).bind fun o => hglance (ih o (hprog o))
  | drop c resume ih => exact (hcaught (hp.settles_drop c)).bind fun o => hglance (ih o (hprog o))
  | attempt process key timeout settings body resume ihbody ih =>
    have hbody : ∀ c, B.Settles fixtures base running (B.glance.bind fun _ => (body c).audited p B) :=
      fun c => hglance (ihbody c (hprog.1 c))
    exact (hcaught (hp.settles_runProcess process key timeout settings hbody)).bind fun o =>
      hglance (ih o (hprog.2 o))

end Provider.Counted

/-! ## The result -/

/-- **The counters add up.**  Let one extension count, at any place among others that record and may refuse
    starts or fail closings, over a store that counts; and let a program do whatever it likes with that
    provider, from where no context is open and nothing has been counted: starts that may fail, phases with
    any outcome, further attempts in their bodies, closings, droppings, crashes.  Then whenever it has
    control — and it has done nothing else for being looked at — there have been as many contexts more than
    closings as are open; the phases that were started are those that were executed, replayed, raced or
    failed, those in flight, and those whose bodies crashed; and the records are those of the beginning, one
    for each phase that was executed, and what was done to them elsewhere.  At the end no phase is in flight.
    And a call that is refused before it comes to the executors changes nothing at all. -/
theorem Provider.counters_add_up {p : Provider ε} {B : Books ε} {fixtures : List Fixture}
    (hp : p.Counted B fixtures) (hunaware : p.Unaware B) {prog : Program ε α}
    (hprog : prog.Within fun a => a.Steps B.Spares ∧ a.Plain B.view) {w : World ε}
    (hclosed : ∀ s ∈ w.contexts, s.closed = true) (hstats : B.stats.get w.env = {})
    (htally : B.tally.get w.env = {}) :
    let audit := (prog.audited p B).run w
    (((prog.act p).run w).1 = audit.1 ∧ B.view ((prog.act p).run w).2 = B.view audit.2) ∧
      (∀ g ∈ (B.facts audit.2).tally.seen, g.AddsUp (B.count w.env)) ∧
      (B.facts audit.2).glimpse.AddsUp (B.count w.env) ∧ (B.facts audit.2).glimpse.inFlight = 0 ∧
      ∀ {β γ : Type} [EngineFailure β] (c : Context) (phase : Phase) (codec : Codec γ)
        (body : Action ε (Except β γ)) {v : World ε} {e : Error}, c.permit phase v = .error e →
        (p.runPhase c phase codec body).run v = (.value (.error (ofError e)), v) := by
  have hplain : prog.Within (·.Plain B.view) := hprog.mono fun h => h.2
  have hspares : prog.Within (·.Steps B.Spares) := hprog.mono fun h => h.1
  have hstanding : ∀ s ∈ (B.facts w).contexts, s.closed = true := by
    intro s hs
    obtain ⟨t, ht, rfl⟩ := List.mem_map.1 hs
    exact hclosed t ht
  have hknown : ∀ s ∈ (B.facts w).contexts, s.Known fixtures :=
    fun s hs hopen => absurd (hstanding s hs) (by simp [hopen])
  have htold : told fixtures (B.facts w).contexts = 0 := by
    rw [told_known hknown, List.filter_eq_nil_iff.2 fun s hs => by simp [hstanding s hs]]
    rfl
  have hsettled : (B.facts w).Settled fixtures (B.count w.env) 0 {} := by
    have hfacts : B.facts w = ⟨{}, {}, B.count w.env, (B.facts w).contexts⟩ := by
      simp only [Books.facts, hstats, htally]
    rw [hfacts] at hknown htold ⊢
    refine { contexts := ?_, phases := rfl, records := ?_, running := rfl, seen := ?_, known := hknown }
    · rw [htold]
      rfl
    · simp
    · exact fun g hg => absurd hg List.not_mem_nil
  have hend : (B.facts ((prog.audited p B).run w).2).Settled fixtures (B.count w.env) 0 {} := by
    have hrun := hp.settles_audited hspares w hsettled
    revert hrun
    rcases (prog.audited p B).run w with ⟨o, w'⟩
    cases o <;> exact id
  refine ⟨(hunaware.agrees_audited hp.interceptors hplain).ends rfl, hend.seen, hend.addsUp hp.weight_eq,
    hend.running, fun c phase codec body => ?_⟩
  exact Context.run_refused p.executor codec body

/-! ## At the turnstile -/

/-- What there is at a turnstile. -/
structure Turnstile where
  records : MemoryStore := Table.empty
  locks : LockTable RecordKey := {}
  diary : CallLog := []
  stats : Stats := {}
  tally : Tally := {}

namespace Turnstile

/-- The records. -/
def recordsPart : Part Turnstile MemoryStore where
  get := (·.records)
  set a t := { t with records := a }

/-- The locks. -/
def locksPart : Part Turnstile (LockTable RecordKey) where
  get := (·.locks)
  set a t := { t with locks := a }

/-- The counters are compared with all the records that there are. -/
def books : Books Turnstile where
  stats := { get := (·.stats), set := fun a t => { t with stats := a } }
  log := { get := (·.diary), set := fun a t => { t with diary := a } }
  tally := { get := (·.tally), set := fun a t => { t with tally := a } }
  count t := t.records.size
  stats_tally _ _ _ := rfl
  log_stats _ _ _ := rfl
  log_tally _ _ _ := rfl
  count_stats _ _ := rfl
  count_tally _ _ := rfl
  count_log _ _ := rfl

/-- The last one of the extensions fails all closings. -/
def fixtures : List Fixture :=
  [.recording { name := "outer" }, .counting, .recording { name := "inner", refusesClose := true }]

def provider : Provider Turnstile where
  locks := LockTable.adapter locksPart
  store := MemoryStore.adapter recordsPart (pure .epoch)
  interceptors := fixtures.map (·.interceptor books)
  clock := pure .epoch

theorem counted : provider.Counted books fixtures where
  interceptors := rfl
  once := ⟨[{ name := "outer" }], [{ name := "inner", refusesClose := true }], rfl⟩
  store := MemoryStore.counts_adapter (fun _ => rfl) (fun _ _ _ => rfl) (fun _ _ _ => rfl)
    fun _ => .done fun _ hw => ⟨trivial, hw⟩
  findFinal _ _ := Process.Steps.look (R := books.Same) (fun _ => rfl) _
  clock := .pure _
  obtain _ _ _ := .atomically fun _ => rfl
  release _ := .atomically fun _ => rfl

theorem unaware : provider.Unaware books where
  store := MemoryStore.plain_of_part (Books.plain_look fun _ _ _ => rfl) (Books.plain_on fun _ _ _ => rfl)
    (.done _)
  locks := LockTable.plain_of_part (Books.plain_on fun _ _ _ => rfl)
  clock := .done _

/-- Somebody else records a phase. -/
def intrude (key : RecordKey) : Action Turnstile Unit :=
  Action.change recordsPart fun s => s.insert key ⟨"null", false, .epoch⟩

/-- **A busy day**: a process whose first phase runs a process of its own and is called again, whose second one
    crashes, whose third one is recorded by somebody else meanwhile, and whose fourth one fails; then the same
    process again, which finds its first phase recorded; and a third time, when it is left open. -/
def day : Program Turnstile Unit :=
  .attempt "p" "k" ⟨5 * nanosPerSecond⟩ []
    (fun c =>
      .call c { id := "one" } .unit
        (.attempt "p" "q" ⟨5 * nanosPerSecond⟩ [] (fun _ => .done (.ok () : Except Error Unit)) fun _ =>
          .done (.ok () : Except Error Unit)) fun _ =>
      .call c { id := "one" } .unit (.done (.ok () : Except Error Unit)) fun _ =>
      .call c { id := "two" } .unit (.crash "boom" : Program Turnstile (Except Error Unit)) fun _ =>
      .call c { id := "three" } .unit
        (.own (intrude ⟨"p", "k", "three"⟩) fun _ => .done (.ok () : Except Error Unit)) fun _ =>
      .call c { id := "four" } .unit (.done (.error (.misuse "no") : Except Error Unit)) fun _ =>
      .done (.ok () : Except Error Unit)) fun _ =>
  .attempt "p" "k" ⟨5 * nanosPerSecond⟩ []
    (fun c => .call c { id := "one" } .unit (.done (.ok () : Except Error Unit)) fun _ =>
      .done (.ok () : Except Error Unit)) fun _ =>
  .start "p" "k" ⟨5 * nanosPerSecond⟩ [] fun _ => .done ()

theorem within_day : day.Within fun a => a.Steps books.Spares ∧ a.Plain books.view := by
  have hintrude : ∀ key, (intrude key).Steps books.Spares ∧ (intrude key).Plain books.view := fun key =>
    ⟨.change fun w => ⟨_, rfl⟩, Books.plain_change (fun _ _ _ => rfl) _⟩
  refine ⟨fun c => ⟨⟨fun _ => trivial, fun _ => trivial⟩, fun _ => ⟨trivial, fun _ => ⟨trivial, fun _ => ?_⟩⟩⟩,
    fun _ => ⟨fun c => ⟨trivial, fun _ => trivial⟩, fun _ _ => trivial⟩⟩
  exact ⟨⟨hintrude _, fun _ => trivial⟩, fun _ => ⟨trivial, fun _ => trivial⟩⟩

/-- The end of the day. -/
def evening : World Turnstile := ((day.audited provider books).run { env := {} }).2

/-- **It all adds up**, in the evening and at each glance of the day, and it would have been the same day with
    nobody looking. -/
theorem counters_add_up_day : (books.facts evening).glimpse =
      { stats := ⟨4, 3, 8, 3, 2, 1, 1⟩, opened := 1, inFlight := 0, panicked := 1, records := 4, elsewhere := 1 } ∧
    (books.facts evening).glimpse.AddsUp 0 ∧ (books.facts evening).tally.seen.length = 18 ∧
    (∀ g ∈ (books.facts evening).tally.seen, g.AddsUp 0) ∧
    books.view ((day.act provider).run { env := {} }).2 = books.view evening := by
  have hnone : ∀ s ∈ ({ env := {} } : World Turnstile).contexts, s.closed = true :=
    fun _ h => absurd h List.not_mem_nil
  obtain ⟨⟨-, hsame⟩, hseen, hend, -⟩ := Provider.counters_add_up counted unaware within_day hnone rfl rfl
  exact ⟨by decide +kernel, hend, by decide +kernel, hseen, hsame⟩

end Turnstile

end Idempotence
