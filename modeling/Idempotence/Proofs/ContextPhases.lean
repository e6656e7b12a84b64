/-
  Phases of a context — the phases of one context, one at a time.

  1. **Marks** — `Executor.marked` is an executor that marks where each body starts and where it ends,
     and does nothing else differently.  The marks so far say which bodies have started, and which of
     these have not ended.

  2. **Stages** — a context is idle, or its one active phase has been entered, or runs its body, or has
     run it.  `Context.At` says what holds of the context and of the marks in each stage; entering,
     marking and leaving lead from stage to stage, and steps that leave the context alone stay in it.

  3. **The crux** — a body acts only while its own phase is active, so every call inside of it is
     refused; and a call is refused before it has laid its way out, on which it would leave the active
     phase, and so changes nothing (`along_refused`).  Hence a body stays in its stage however deep its
     calls are nested (`Client.along_running`), and a call leads from idle to idle however its body
     ends (`At.along_call`).

  4. **The result** — `phases_in_order`: what holds at every moment of a program, between any two of
     them, after each of its calls, and of every call that is refused.
-/
import Idempotence.Proofs.BodyHosts
import Idempotence.Proofs.SuccessRecords
import Idempotence.Publishing.Memory

namespace Idempotence

variable {ε α β γ κ : Type}

/-! ## Marks -/

/-- **Where a body starts and where it ends**, with the id of its phase. -/
inductive BodyMark where
  | started (id : String)
  | ended (id : String)
  deriving DecidableEq, Repr

namespace BodyMark

/-- The ids of the bodies that have started, in order. -/
def starts (marks : List BodyMark) : List String :=
  marks.filterMap fun
    | started id => some id
    | ended _ => none

/-- The ids of the bodies that have started and not ended. -/
def running (marks : List BodyMark) : List String :=
  marks.foldl (fun ids mark => match mark with
    | started id => ids ++ [id]
    | ended id => ids.erase id) []

@[simp] theorem starts_started (marks : List BodyMark) (id : String) :
    starts (marks ++ [started id]) = starts marks ++ [id] := by
  simp [starts]

@[simp] theorem starts_ended (marks : List BodyMark) (id : String) :
    starts (marks ++ [ended id]) = starts marks := by
  simp [starts]

@[simp] theorem running_started (marks : List BodyMark) (id : String) :
    running (marks ++ [started id]) = running marks ++ [id] := by
  simp [running]

@[simp] theorem running_ended (marks : List BodyMark) (id : String) :
    running (marks ++ [ended id]) = (running marks).erase id := by
  simp [running]

end BodyMark

/-- The action between its marks; it is marked as ended however it ends. -/
def Action.marked (marks : Part ε (List BodyMark)) (id : String) (a : Action ε α) : Action ε α := do
  Action.change marks (· ++ [.started id])
  a.onExit (Action.change marks (· ++ [.ended id]))

/-- **The executor, its bodies marked.** -/
def Executor.marked (marks : Part ε (List BodyMark)) (x : Executor ε) : Executor ε where
  execute c phase body := x.execute c phase (Action.marked marks phase.id body)

/-! ## Leaving a context alone -/

/-- **What phases change about a context**: whether a final phase has been left, the ids, and the active
    phase. -/
def ContextState.progress (s : ContextState) : Bool × List String × Option Phase :=
  (s.wasFinal, s.visited, s.active.map (·.phase))

/-- **A step that leaves the context alone**, and the marks. -/
structure Alone (marks : Part ε (List BodyMark)) (c : Context) (w w' : World ε) : Prop where
  marks : marks.get w'.env = marks.get w.env
  length : w.contexts.length ≤ w'.contexts.length
  progress : c.id < w.contexts.length → (w'.context c.id).progress = (w.context c.id).progress

section Alone

variable {marks : Part ε (List BodyMark)} {c : Context}

theorem Alone.refl (w : World ε) : Alone marks c w w := ⟨rfl, Nat.le_refl _, fun _ => rfl⟩

/-- Changing something else in the environment. -/
theorem Alone.env {w : World ε} {e : ε} (h : marks.get e = marks.get w.env) :
    Alone marks c w { w with env := e } :=
  ⟨h, Nat.le_refl _, fun _ => rfl⟩

theorem Alone.overlooks : Overlooks (Alone marks c) where
  trace w t := ⟨rfl, Nat.le_refl _, fun _ => rfl⟩
  properties w id bag := by
    refine ⟨rfl, Nat.le_of_eq (w.length_modifyContext id _).symm, fun _ => ?_⟩
    rw [World.context_modifyContext]
    split <;> rfl

end Alone

/-! ## Stages -/

/-- **How far the active phase has got**, if one is active. -/
inductive Stage where
  | idle
  | entered (phase : Phase)
  | running (phase : Phase)
  | ended (phase : Phase)

namespace Stage

/-- The active phase. -/
def active : Stage → Option Phase
  | idle => none
  | entered phase | running phase | ended phase => some phase

/-- The ids of the bodies that run. -/
def bodies : Stage → List String
  | running phase => [phase.id]
  | idle | entered _ | ended _ => []

end Stage

section Stages

variable (marks : Part ε (List BodyMark)) (c : Context)

/-- **What holds in a stage.** -/
structure Context.At (stage : Stage) (w : World ε) : Prop where
  created : c.id < w.contexts.length
  active : (w.context c.id).active.map (·.phase) = stage.active
  bodies : BodyMark.running (marks.get w.env) = stage.bodies
  once : (BodyMark.starts (marks.get w.env)).Nodup
  known : BodyMark.starts (marks.get w.env) ⊆ (w.context c.id).visited
  /-- A phase that has just been entered may still start its body. -/
  fresh : ∀ phase, stage = .entered phase → (w.context c.id).wasFinal = false ∧
    phase.id ∈ (w.context c.id).visited ∧ phase.id ∉ BodyMark.starts (marks.get w.env)

/-- **What a context never takes back**, and that no body starts once a final phase has been left. -/
structure Context.Grown (w w' : World ε) : Prop where
  visited : (w.context c.id).visited <:+ (w'.context c.id).visited
  wasFinal : (w.context c.id).wasFinal = true → (w'.context c.id).wasFinal = true
  final : (w.context c.id).wasFinal = true →
    BodyMark.starts (marks.get w'.env) = BodyMark.starts (marks.get w.env)

/-- What every step does: it grows, and the context is in some stage after it. -/
def Context.Advances (w w' : World ε) : Prop := c.Grown marks w w' ∧ ∃ stage, c.At marks stage w'

end Stages

namespace Context

variable {marks : Part ε (List BodyMark)} {c : Context} {stage : Stage} {phase : Phase} {w w' w'' : World ε}

theorem Grown.refl (w : World ε) : c.Grown marks w w := ⟨List.suffix_refl _, fun hf => hf, fun _ => rfl⟩

theorem Grown.trans (h : c.Grown marks w w') (h' : c.Grown marks w' w'') : c.Grown marks w w'' :=
  ⟨h.visited.trans h'.visited, fun hf => h'.wasFinal (h.wasFinal hf),
    fun hf => (h'.final (h.wasFinal hf)).trans (h.final hf)⟩

theorem Advances.trans (h : c.Advances marks w w') (h' : c.Advances marks w' w'') :
    c.Advances marks w w'' :=
  ⟨h.1.trans h'.1, h'.2⟩

namespace At

/-- A context that is in a stage advances by standing still. -/
theorem stay (h : c.At marks stage w) : c.Advances marks w w := ⟨.refl w, stage, h⟩

/-- A context that is in a stage advances by what leaves it alone, and is in that stage still. -/
theorem alone (h : c.At marks stage w) (hw : Alone marks c w w') :
    c.Advances marks w w' ∧ c.At marks stage w' := by
  obtain ⟨hfinal, hvisited, hactive⟩ : (w'.context c.id).wasFinal = (w.context c.id).wasFinal ∧
      (w'.context c.id).visited = (w.context c.id).visited ∧
      (w'.context c.id).active.map (·.phase) = (w.context c.id).active.map (·.phase) := by
    simpa [ContextState.progress] using hw.progress h.created
  have hat : c.At marks stage w' :=
    { created := Nat.lt_of_lt_of_le h.created hw.length
      active := hactive.trans h.active
      bodies := hw.marks ▸ h.bodies
      once := hw.marks ▸ h.once
      known := hw.marks ▸ hvisited ▸ h.known
      fresh := hw.marks ▸ hvisited ▸ hfinal ▸ h.fresh }
  have hgrown : c.Grown marks w w' :=
    { visited := hvisited ▸ List.suffix_refl _
      wasFinal := fun hf => hfinal.trans hf
      final := fun _ => by rw [hw.marks] }
  exact ⟨⟨hgrown, stage, hat⟩, hat⟩

/-- **Entering** leads from idle to a phase whose body has not started. -/
theorem enter {s : ContextState} (h : c.At marks .idle w) (hpermit : c.permit phase w = .ok s) :
    c.Advances marks w (w.modifyContext c.id fun _ => s) ∧
      c.At marks (.entered phase) (w.modifyContext c.id fun _ => s) := by
  obtain ⟨-, hfinal, hnew, -, rfl⟩ := permit_eq_ok hpermit
  let s : ContextState :=
    { w.context c.id with visited := phase.id :: (w.context c.id).visited, active := some { phase } }
  have hself : (w.modifyContext c.id fun _ => s).context c.id = s :=
    w.context_modifyContext_self _ h.created
  have hat : c.At marks (.entered phase) (w.modifyContext c.id fun _ => s) :=
    { created := by rw [World.length_modifyContext]; exact h.created
      active := by rw [hself]; rfl
      bodies := h.bodies
      once := h.once
      known := by rw [hself]; exact List.Subset.trans h.known (List.subset_cons_self _ _)
      fresh := by
        rintro _ ⟨⟩
        rw [hself]
        exact ⟨hfinal, List.mem_cons_self, fun hmem => hnew (h.known hmem)⟩ }
  have hgrown : c.Grown marks w (w.modifyContext c.id fun _ => s) :=
    { visited := by rw [hself]; exact List.suffix_cons _ _
      wasFinal := by rw [hself]; exact fun hf => hf
      final := fun _ => rfl }
  exact ⟨⟨hgrown, _, hat⟩, hat⟩

/-- **Starting the body** of a phase that has been entered. -/
theorem start (h : c.At marks (.entered phase) w) :
    let w' : World ε := { w with env := marks.set (marks.get w.env ++ [.started phase.id]) w.env }
    c.Advances marks w w' ∧ c.At marks (.running phase) w' := by
  obtain ⟨hfinal, hvisited, hnew⟩ := h.fresh phase rfl
  intro w'
  have hmarks : marks.get w'.env = marks.get w.env ++ [.started phase.id] := marks.get_set _ _
  have hat : c.At marks (.running phase) w' :=
    { created := h.created
      active := h.active
      bodies := by rw [hmarks, BodyMark.running_started, h.bodies]; rfl
      once := by
        rw [hmarks, BodyMark.starts_started]
        exact List.nodup_append.2 ⟨h.once, by simp, fun i hi j hj => by
          rintro rfl
          exact hnew (List.mem_singleton.1 hj ▸ hi)⟩
      known := by
        rw [hmarks, BodyMark.starts_started]
        exact List.append_subset.2 ⟨h.known, fun i hi => List.mem_singleton.1 hi ▸ hvisited⟩
      fresh := fun _ h => nomatch h }
  have hgrown : c.Grown marks w w' :=
    { visited := List.suffix_refl _
      wasFinal := fun hf => hf
      final := fun hf => by
        rw [hfinal] at hf
        cases hf }
  exact ⟨⟨hgrown, _, hat⟩, hat⟩

/-- **Ending the body.** -/
theorem finish (h : c.At marks (.running phase) w) :
    let w' : World ε := { w with env := marks.set (marks.get w.env ++ [.ended phase.id]) w.env }
    c.Advances marks w w' ∧ c.At marks (.ended phase) w' := by
  intro w'
  have hmarks : marks.get w'.env = marks.get w.env ++ [.ended phase.id] := marks.get_set _ _
  have hat : c.At marks (.ended phase) w' :=
    { created := h.created
      active := h.active
      bodies := by rw [hmarks, BodyMark.running_ended, h.bodies]; simp [Stage.bodies]
      once := by rw [hmarks, BodyMark.starts_ended]; exact h.once
      known := by rw [hmarks, BodyMark.starts_ended]; exact h.known
      fresh := fun _ h => nomatch h }
  have hgrown : c.Grown marks w w' :=
    { visited := List.suffix_refl _
      wasFinal := fun hf => hf
      final := fun _ => by rw [hmarks, BodyMark.starts_ended] }
  exact ⟨⟨hgrown, _, hat⟩, hat⟩

/-- **Leaving** a phase whose body does not run leads to idle. -/
theorem leave (h : c.At marks stage w) (hbodies : stage.bodies = []) (phase : Phase) :
    c.Advances marks w (w.modifyContext c.id (·.leave phase)) ∧
      c.At marks .idle (w.modifyContext c.id (·.leave phase)) := by
  have hself := w.context_modifyContext_self (·.leave phase) h.created
  have hat : c.At marks .idle (w.modifyContext c.id (·.leave phase)) :=
    { created := by rw [World.length_modifyContext]; exact h.created
      active := by rw [hself]; rfl
      bodies := h.bodies.trans hbodies
      once := h.once
      known := by rw [hself]; exact h.known
      fresh := fun _ h => nomatch h }
  have hgrown : c.Grown marks w (w.modifyContext c.id (·.leave phase)) :=
    { visited := by rw [hself]; exact List.suffix_refl _
      wasFinal := fun hf => by
        rw [hself]
        simp [ContextState.leave, hf]
      final := fun _ => rfl }
  exact ⟨⟨hgrown, _, hat⟩, hat⟩

end At

/-! ## One call -/

/-- **Why a call is refused.** -/
inductive Barred (c : Context) (phase : Phase) (w : World ε) : Prop
  | invalid (check : checkPhase phase ≠ .ok ())
  | afterFinal (left : (w.context c.id).wasFinal = true)
  | duplicate (entered : phase.id ∈ (w.context c.id).visited)
  | nested (active : (w.context c.id).active ≠ none)

/-- What is barred is not permitted. -/
theorem Barred.permit (h : c.Barred phase w) : ∃ e, c.permit phase w = .error e := by
  cases hpermit : c.permit phase w with
  | error e => exact ⟨e, rfl⟩
  | ok s =>
    obtain ⟨hcheck, hfinal, hvisited, hactive, -⟩ := permit_eq_ok hpermit
    cases h with
    | invalid check => exact absurd hcheck check
    | afterFinal left =>
      rw [hfinal] at left
      cases left
    | duplicate entered => exact absurd entered hvisited
    | nested active => exact absurd hactive active

/-- All that is not barred is permitted. -/
theorem permit_of_not_barred (h : ¬ c.Barred phase w) : ∃ s, c.permit phase w = .ok s := by
  have hcheck : checkPhase phase = .ok () := Classical.byContradiction fun hno => h (.invalid hno)
  have hfinal : (w.context c.id).wasFinal = false := Bool.eq_false_iff.2 fun hleft => h (.afterFinal hleft)
  have hactive : (w.context c.id).active = none := Classical.byContradiction fun hno => h (.nested hno)
  exact ⟨_, permit_ok hcheck hfinal (fun hentered => h (.duplicate hentered)) hactive⟩

/-- **What a call leaves behind** that has not been refused. -/
structure Passed (c : Context) (phase : Phase) (w : World ε) : Prop where
  visited : phase.id ∈ (w.context c.id).visited
  final : phase.isFinal = true → (w.context c.id).wasFinal = true

section Calls

variable [EngineFailure β] {x : Executor ε} {codec : Codec γ} {R : World ε → World ε → Prop}

/-- **A call that is refused** stays where it is, at every moment. -/
theorem along_refused {e : Error} (hpermit : c.permit phase w = .error e) (body : Action ε (Except β γ))
    (hw : R w w) : (c.run x phase codec body).Along R
      (fun o t => o = .value (.error (ofError e)) ∧ t = w) w := by
  cases hcheck : checkPhase phase with
  | error e' =>
    simp only [permit, hcheck, Except.error.injEq] at hpermit
    simp only [Context.run, hcheck, hpermit]
    exact ⟨rfl, rfl⟩
  | ok u =>
    simp only [permit, hcheck] at hpermit
    simp only [Context.run, hcheck, Context.enter]
    refine Process.Along.bind (Q := fun o t => o = .value (.error e) ∧ t = w) ?_ ?_ ?_
    · refine ⟨?_, ?_⟩ <;> simp [hpermit, Process.Along, hw]
    · rintro _ t ⟨⟨⟩, rfl⟩
      exact ⟨rfl, rfl⟩
    · rintro m t ⟨⟨⟩, -⟩

/-- **A call that is permitted** enters the phase in one step, is executed, and leaves it in another. -/
theorem along_permitted {s : ContextState} (hpermit : c.permit phase w = .ok s)
    {body : Action ε (Except β γ)} {P Q : World ε → Prop} (hw : R w (w.modifyContext c.id fun _ => s))
    (hexecuted : (x.execute c phase (erase phase codec body)).Along R (fun _ => P)
      (w.modifyContext c.id fun _ => s))
    (hleave : ∀ t, P t → R t (t.modifyContext c.id (·.leave phase)) ∧
      Q (t.modifyContext c.id (·.leave phase))) :
    (c.run x phase codec body).Along R (fun _ => Q) w := by
  cases hcheck : checkPhase phase with
  | error e => simp [permit, hcheck] at hpermit
  | ok u =>
    simp only [permit, hcheck] at hpermit
    simp only [Context.run, hcheck, Context.enter]
    refine Process.Along.bind (Q := fun o t => o = .value (.ok ()) ∧ t = w.modifyContext c.id fun _ => s)
      ?_ ?_ ?_
    · refine ⟨?_, ?_⟩ <;> simp [hpermit, Process.Along, hw]
    · rintro _ t ⟨⟨⟩, rfl⟩
      exact (hexecuted.onExit_change fun _ => hleave).bind (Q := fun _ => Q) (fun _ _ ht => ht)
        fun _ _ ht => ht
    · rintro m t ⟨⟨⟩, -⟩

omit [EngineFailure β] in
/-- Along an erased body it goes as along the body. -/
theorem along_erase {P : World ε → Prop} {body : Action ε (Except β γ)}
    (h : body.Along R (fun _ => P) w) : (erase phase codec body).Along R (fun _ => P) w := by
  refine h.bind (fun answer t ht => ?_) fun _ _ ht => ht
  cases answer with
  | error failure => exact ht
  | ok a => dsimp only; split <;> exact ht

/-- Along a body with its marks: it goes from entered to ended. -/
theorem At.along_marked {a : Action ε α} (h : c.At marks (.entered phase) w)
    (ha : ∀ s, c.At marks (.running phase) s → a.Along (c.Advances marks)
      (fun _ => c.At marks (.running phase)) s) :
    (Action.marked marks phase.id a).Along (c.Advances marks) (fun _ => c.At marks (.ended phase)) w := by
  refine ⟨h.start.1, ?_⟩
  exact (ha _ h.start.2).onExit_change fun _ t ht => ht.finish

/-- **Along a call**: it goes from idle to idle, if its body keeps to its stage, and its phase has been
    entered and left unless it was refused. -/
theorem At.along_call (hx : x.Hosts (Alone marks c) c) {body : Action ε (Except β γ)}
    (h : c.At marks .idle w)
    (hbody : ∀ s, c.At marks (.running phase) s → body.Along (c.Advances marks)
      (fun _ => c.At marks (.running phase)) s) :
    (c.run (x.marked marks) phase codec body).Along (c.Advances marks)
      (fun _ t => c.At marks .idle t ∧ (¬ c.Barred phase w → c.Passed phase t)) w := by
  cases hpermit : c.permit phase w with
  | error e =>
    refine (along_refused hpermit body h.stay).mono fun _ t ht => ⟨ht.2 ▸ h, fun hopen => ?_⟩
    obtain ⟨s, hs⟩ := permit_of_not_barred hopen
    rw [hpermit] at hs
    cases hs
  | ok s =>
    let entered : World ε := w.modifyContext c.id fun _ => s
    have hvisited : phase.id ∈ (entered.context c.id).visited :=
      ((h.enter hpermit).2.fresh phase rfl).2.1
    -- Before the body and after it the executor leaves the context alone.
    have hexecuted : ((x.marked marks).execute c phase (erase phase codec body)).Along (c.Advances marks)
        (fun _ t => c.At marks (.entered phase) t ∨ c.At marks (.ended phase) t) entered :=
      (hx.execute phase _).along (fun _ _ => At.alone) (fun _ _ => At.alone)
        (fun _ ht => ht.along_marked fun t ht => along_erase (hbody t ht)) (h.enter hpermit).2
    have hgrown := hexecuted.since (P := c.Grown marks entered) (fun _ _ ht hu => ht.trans hu.1) (.refl _)
    refine along_permitted hpermit (h.enter hpermit).1 hgrown fun t ht => ?_
    obtain ⟨stage, hstage, hat⟩ : ∃ stage : Stage, stage.bodies = [] ∧ c.At marks stage t := by
      rcases ht.1 with hat | hat
      · exact ⟨_, rfl, hat⟩
      · exact ⟨_, rfl, hat⟩
    obtain ⟨hadvances, hidle⟩ := hat.leave hstage phase
    refine ⟨hadvances, hidle, fun _ => ⟨hadvances.1.visited.subset (ht.2.visited.subset hvisited), ?_⟩⟩
    intro hfinal
    rw [World.context_modifyContext_self _ _ hat.created]
    simp [ContextState.leave, hfinal]

end Calls

end Context

/-! ## Programs -/

section Programs

variable [EngineFailure β] {marks : Part ε (List BodyMark)} {c : Context} {x : Executor ε}
  {client : Client ε β α} {w : World ε}

/-- **While a body runs** a program stays in that stage: all its calls are refused. -/
theorem Client.along_running {phase : Phase} (hclient : client.Within (Alone marks c))
    (hw : c.At marks (.running phase) w) :
    (client.act x c).Along (c.Advances marks) (fun _ => c.At marks (.running phase)) w := by
  induction client generalizing w with
  | done a => exact hw
  | crash m => exact hw
  | step e k ih =>
    obtain ⟨hadvances, hnext⟩ := hw.alone (hclient.1 w)
    exact ⟨hadvances, ih w (hclient.2 w) hnext⟩
  | call inner codec body k _ ih =>
    have hactive : (w.context c.id).active ≠ none := by
      intro hnone
      have hphase := hw.active
      rw [hnone] at hphase
      cases hphase
    -- The call is refused, so the program goes on where it was.
    obtain ⟨e, hpermit⟩ := Context.permit_busy inner hactive
    refine (Context.along_refused hpermit (body.act x c) hw.stay).caught.bind (fun o t ht => ?_)
      fun m t ht => ?_
    · obtain ⟨o, ⟨⟩, -, rfl⟩ := ht
      exact ih o (hclient.2 o) hw
    · obtain ⟨o, ⟨⟩, -⟩ := ht

/-- **A program** leads from idle to idle, and so does each of its calls. -/
theorem Client.along_idle (hx : x.Hosts (Alone marks c) c) (hclient : client.Within (Alone marks c))
    (hw : c.At marks .idle w) :
    (client.act (x.marked marks) c).Along (c.Advances marks) (fun _ => c.At marks .idle) w ∧
      ∀ call ∈ client.calls (x.marked marks) c w, c.At marks .idle call.after ∧
        (¬ c.Barred call.phase call.before → c.Passed call.phase call.after) := by
  induction client generalizing w with
  | done a => exact ⟨hw, fun _ hcall => nomatch hcall⟩
  | crash m => exact ⟨hw, fun _ hcall => nomatch hcall⟩
  | step e k ih =>
    obtain ⟨hadvances, hnext⟩ := hw.alone (hclient.1 w)
    obtain ⟨halong, hcalls⟩ := ih w (hclient.2 w) hnext
    exact ⟨⟨hadvances, halong⟩, hcalls⟩
  | call phase codec body k _ ih =>
    -- What the body calls in turn makes no difference: it stays in its stage.
    have hcall : (c.run (x.marked marks) phase codec (body.act (x.marked marks) c)).Along (c.Advances marks)
        (fun _ t => c.At marks .idle t ∧ (¬ c.Barred phase w → c.Passed phase t)) w :=
      hw.along_call hx fun s hs => Client.along_running hclient.1 hs
    refine ⟨hcall.caught.bind (fun o t ht => ?_) fun m t ht => ?_, ?_⟩
    · obtain ⟨o, ⟨⟩, ht, -⟩ := ht
      exact (ih o (hclient.2 o) ht).1
    · obtain ⟨o, ⟨⟩, -⟩ := ht
    · exact List.forall_mem_cons.2 ⟨hcall.run, (ih _ (hclient.2 _) hcall.run.1).2⟩

end Programs

/-! ## The phases of a program -/

/-- **The phases come in order** while the program runs from a world. -/
structure Client.InOrder [EngineFailure β] (marks : Part ε (List BodyMark)) (x : Executor ε) (c : Context)
    (client : Client ε β α) (w : World ε) : Prop where
  /-- The body that runs, if one does, is that of the active phase. -/
  one : ∀ t ∈ (client.act (x.marked marks) c).moments w, BodyMark.running (marks.get t.env) = [] ∨
    ∃ current, (t.context c.id).active = some current ∧
      BodyMark.running (marks.get t.env) = [current.phase.id]
  /-- No body starts twice. -/
  once : ∀ t ∈ (client.act (x.marked marks) c).moments w, (BodyMark.starts (marks.get t.env)).Nodup
  /-- Nothing is taken back, and after a final phase no body starts. -/
  grown : ((client.act (x.marked marks) c).moments w).Pairwise (c.Grown marks)
  /-- A call that is not refused enters its phase and leaves it. -/
  passed : ∀ call ∈ client.calls (x.marked marks) c w,
    ¬ c.Barred call.phase call.before → c.Passed call.phase call.after
  /-- After a call, however it ended, no phase is active. -/
  idle : ∀ call ∈ client.calls (x.marked marks) c w, (call.after.context c.id).active = none
  /-- A call that is refused answers with an error that depends on neither the executor nor the body,
      and is in the same world from its first moment to its last. -/
  refused : ∀ t ∈ (client.act (x.marked marks) c).moments w, ∀ phase, c.Barred phase t →
    ∃ e, ∀ {γ : Type} (y : Executor ε) (codec : Codec γ) (body : Action ε (Except β γ)),
      (c.run y phase codec body).run t = (.value (.error (ofError e)), t) ∧
      ∀ u ∈ (c.run y phase codec body).moments t, u = t

/-- What a stage says of the bodies that run. -/
theorem Context.At.one {marks : Part ε (List BodyMark)} {c : Context} {stage : Stage} {w : World ε}
    (h : c.At marks stage w) : BodyMark.running (marks.get w.env) = [] ∨
      ∃ current, (w.context c.id).active = some current ∧
        BodyMark.running (marks.get w.env) = [current.phase.id] := by
  have hactive := h.active
  cases stage with
  | idle | entered _ | ended _ => exact .inl h.bodies
  | running phase =>
    obtain ⟨current, hcurrent, rfl⟩ := Option.map_eq_some_iff.1 hactive
    exact .inr ⟨current, hcurrent, h.bodies⟩

/-- **Phases come in order**, for every program on an idle context and every executor that hosts their
    bodies and leaves the context alone itself. -/
theorem Client.phases_in_order [EngineFailure β] {marks : Part ε (List BodyMark)} {c : Context}
    {x : Executor ε} (hx : x.Hosts (Alone marks c) c) {client : Client ε β α}
    (hclient : client.Within (Alone marks c)) {w : World ε} (hcreated : c.id < w.contexts.length)
    (hidle : (w.context c.id).active = none) (hmarks : marks.get w.env = []) :
    client.InOrder marks x c w := by
  have hw : c.At marks .idle w :=
    { created := hcreated
      active := by rw [hidle]; rfl
      bodies := by rw [hmarks]; rfl
      once := by rw [hmarks]; exact .nil
      known := by rw [hmarks]; exact List.nil_subset _
      fresh := fun _ h => nomatch h }
  obtain ⟨halong, hcalls⟩ := Client.along_idle hx hclient hw
  obtain ⟨hpairs, hfirst⟩ := halong.moments Context.Advances.trans
  have hstages : ∀ t ∈ (client.act (x.marked marks) c).moments w, ∃ stage, c.At marks stage t := by
    intro t ht
    rcases hfirst t ht with rfl | hadvances
    · exact ⟨_, hw⟩
    · exact hadvances.2
  exact
    { one := fun t ht => (hstages t ht).elim fun _ h => h.one
      once := fun t ht => (hstages t ht).elim fun _ h => h.once
      grown := hpairs.imp And.left
      passed := fun call hcall => (hcalls call hcall).2
      idle := fun call hcall => Option.map_eq_none_iff.1 (hcalls call hcall).1.active
      refused := by
        intro t _ phase hbarred
        obtain ⟨e, hpermit⟩ := hbarred.permit
        refine ⟨e, fun y codec body => ⟨Context.run_refused y codec body hpermit, fun u hu => ?_⟩⟩
        have hstays : (c.run y phase codec body).Along Eq
            (fun o t' => o = .value (.error (ofError e)) ∧ t' = t) t :=
          Context.along_refused hpermit body rfl
        exact ((hstays.moments Eq.trans).2 u hu).elim id Eq.symm }

/-! ### A program that goes wrong in two ways -/

/-- Records, locks, counters, deliveries and marks. -/
structure Workshop where
  records : MemoryStore := Table.empty
  locks : LockTable RecordKey := default
  stats : Stats := {}
  deliveries : Deliveries := []
  marks : List BodyMark := []

namespace Workshop

/-- The marks. -/
def marksPart : Part Workshop (List BodyMark) where
  get := (·.marks)
  set a s := { s with marks := a }

/-- The deliveries. -/
def deliveriesPart : Part Workshop Deliveries where
  get := (·.deliveries)
  set a s := { s with deliveries := a }

/-- The counters. -/
def statsPart : Part Workshop Stats where
  get := (·.stats)
  set a s := { s with stats := a }

/-- A provider that traces, publishes and counts. -/
def provider : Provider Workshop where
  locks := LockTable.adapter
    ⟨(·.locks), fun a s => { s with locks := a }, fun _ _ => rfl, fun _ => rfl, fun _ _ _ => rfl⟩
  store := MemoryStore.adapter
    ⟨(·.records), fun a s => { s with records := a }, fun _ _ => rfl, fun _ => rfl, fun _ _ _ => rfl⟩
    (pure .epoch)
  interceptors := [Monitoring.interceptor, Publisher.interceptor (.memory deliveriesPart),
    Stats.interceptor statsPart]
  clock := pure .epoch

/-- The chain of the provider hosts bodies and leaves contexts alone. -/
theorem hosts_provider (c : Context) : provider.executor.Hosts (Alone marksPart c) c := by
  refine Provider.hosts_executor Alone.overlooks
    (MemoryStore.keeps_adapter .refl (fun w s => .env rfl) (.pure _)) (fun i hi => ?_) c
  simp only [provider, List.mem_cons, List.not_mem_nil, or_false] at hi
  rcases hi with rfl | rfl | rfl
  · exact .monitoring
  · exact .publishing _ fun ms => .bind (.change fun w => .env rfl) fun _ => .pure _
  · exact .counting _ fun w l => .env rfl

/-- A context that has just been created. -/
def fresh : Context := { id := 0, process := "p", key := "k", settings := [], recordedFinal := none }

/-- A call of a phase inside of the first phase, a final phase that crashes, and a call after it. -/
def script : Client Workshop Error Unit :=
  .call { id := "a" } .unit (.call { id := "b" } .unit (.done (.ok ())) fun _ => .done (.ok ())) fun _ =>
    .call { id := "c", isFinal := true } .unit (.crash "lost") fun _ =>
      .call { id := "d" } .unit (.done (.ok ())) fun _ => .done ()

/-- Two bodies have run: those of the first phase and of the final one. -/
theorem phases_in_order_crash :
    script.Within (Alone marksPart fresh) ∧
      script.InOrder marksPart provider.executor fresh { contexts := [{}], env := {} } ∧
      ((script.act (provider.executor.marked marksPart) fresh).run
        { contexts := [{}], env := {} }).2.env.marks =
          [.started "a", .ended "a", .started "c", .ended "c"] := by
  have hscript : script.Within (Alone marksPart fresh) :=
    ⟨⟨trivial, fun _ => trivial⟩, fun _ => ⟨trivial, fun _ => ⟨trivial, fun _ => trivial⟩⟩⟩
  refine ⟨hscript, ?_, ?_⟩
  · exact Client.phases_in_order (hosts_provider fresh) hscript (by decide) rfl rfl
  · decide +kernel

end Workshop

end Idempotence
