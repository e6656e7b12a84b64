/-
  Calls of phases — phases run through a context, and the programs that run them.

  1. **One call** — `Context.run` refuses a phase and changes nothing (`run_refused`), or enters it,
     executes it and leaves it (`run_permitted`); `Context.permit` says which.

  2. **Clients** — whatever a program does with a context is a tree (`Client`): steps beside the
     context, and calls of phases, whose bodies are clients themselves.  A client goes on from any
     outcome of a call, be it an error or a crash, so it may handle either or pass it on.

  3. **The crux** — while a phase is active every call is refused, so the body of a phase does
     nothing but steps beside the context, whatever it tries (`Client.busy`).  Hence what one call
     does can be said once and for all clients (`Context.Called`, `Client.called`).
-/
import Idempotence.Proofs.Execution

namespace Idempotence

variable {σ ε α β γ : Type}

/-! ## Catching -/

namespace Process

/-- **The process with its crash caught.** -/
def caught : Process σ α → Process σ (Outcome α)
  | done a => done (.value a)
  | crash m => done (.crashed m)
  | step e k => step e fun s => (k s).caught

@[simp] theorem run_caught (p : Process σ α) (s : σ) :
    p.caught.run s = (.value (p.run s).1, (p.run s).2) := by
  induction p generalizing s with
  | done a => rfl
  | crash m => rfl
  | step e k ih => exact ih s (e s)

/-- What is caught does not crash. -/
theorem safe_caught (p : Process σ α) : p.caught.Safe := by
  induction p with
  | done a => trivial
  | crash m => trivial
  | step e k ih => exact ih

end Process

/-! ## One call -/

/-- The value of an answer, if it has one. -/
def Outcome.answer? : Outcome (Except β α) → Option α
  | .value (.ok a) => some a
  | _ => none

theorem Outcome.answer?_eq_some {o : Outcome (Except β α)} {a : α}
    (h : o.answer? = some a) : o = .value (.ok a) := by
  unfold answer? at h
  split at h
  · cases h
    rfl
  · cases h

/-- What a phase needs to be entered, and what entering does. -/
theorem ContextState.enter_eq_ok {s t : ContextState} {process : String} {phase : Phase}
    (h : s.enter process phase = .ok t) :
    s.wasFinal = false ∧ phase.id ∉ s.visited ∧ s.active = none ∧
      t = { s with visited := phase.id :: s.visited, active := some { phase } } := by
  unfold enter at h
  split at h
  · cases h
  · rename_i hfinal
    split at h
    · cases h
    · rename_i hvisited
      split at h
      · cases h
      · rename_i hactive
        cases h
        exact ⟨by simpa using hfinal, by simpa using hvisited, hactive, rfl⟩

namespace Context

variable {c : Context} {phase : Phase} {w : World ε}

/-- **Whether a phase may be entered**, and the state of the context once it is. -/
def permit (c : Context) (phase : Phase) (w : World ε) : Except Error ContextState :=
  match checkPhase phase with
  | .error e => .error e
  | .ok () => (w.context c.id).enter c.process phase

/-- What a phase needs to be permitted. -/
theorem permit_eq_ok {s : ContextState} (h : c.permit phase w = .ok s) :
    checkPhase phase = .ok () ∧ (w.context c.id).wasFinal = false ∧
      phase.id ∉ (w.context c.id).visited ∧ (w.context c.id).active = none ∧
      s = { w.context c.id with
        visited := phase.id :: (w.context c.id).visited, active := some { phase } } := by
  unfold permit at h
  split at h
  · cases h
  · rename_i hcheck
    exact ⟨hcheck, ContextState.enter_eq_ok h⟩

/-- A phase that meets all conditions is permitted. -/
theorem permit_ok (hcheck : checkPhase phase = .ok ()) (hfinal : (w.context c.id).wasFinal = false)
    (hvisited : phase.id ∉ (w.context c.id).visited) (hactive : (w.context c.id).active = none) :
    c.permit phase w = .ok { w.context c.id with
      visited := phase.id :: (w.context c.id).visited, active := some { phase } } := by
  simp [permit, hcheck, ContextState.enter, hfinal, hvisited, hactive]

/-- While a phase is active none is entered. -/
theorem permit_busy (phase : Phase) (h : (w.context c.id).active ≠ none) :
    ∃ e, c.permit phase w = .error e := by
  cases ha : c.permit phase w with
  | error e => exact ⟨e, rfl⟩
  | ok s => exact absurd (permit_eq_ok ha).2.2.2.1 h

variable [EngineFailure β] (x : Executor ε) (codec : Codec γ) (body : Action ε (Except β γ))

/-- **A call that is refused** does nothing. -/
theorem run_refused {e : Error} (h : c.permit phase w = .error e) :
    (c.run x phase codec body).run w = (.value (.error (ofError e)), w) := by
  unfold permit at h
  unfold Context.run
  cases hcheck : checkPhase phase with
  | error e' =>
    rw [hcheck] at h
    cases h
    exact Process.run_pure ..
  | ok u =>
    rw [hcheck] at h
    dsimp only at h
    simp only [Process.run_bind, enter, Process.run_atomically, h, Process.run_pure]

/-- **A call that is permitted** enters the phase, executes it, leaves it however that ended, and
    answers with what the execution answered. -/
theorem run_permitted {s : ContextState} (h : c.permit phase w = .ok s) :
    (c.run x phase codec body).run w =
      let r := (x.execute c phase (erase phase codec body)).run (w.modifyContext c.id fun _ => s)
      (match r.1 with
        | .value (answer, aside) => .value (settle codec answer aside.join)
        | .crashed m => .crashed m, r.2.modifyContext c.id (·.leave phase)) := by
  unfold permit at h
  unfold Context.run
  cases hcheck : checkPhase phase with
  | error e =>
    rw [hcheck] at h
    cases h
  | ok u =>
    rw [hcheck] at h
    dsimp only at h
    simp only [Process.run_bind, enter, Process.run_atomically, h, Process.run_onExit, leave, Context.change,
      Process.run_change]
    cases hx : (x.execute c phase (erase phase codec body)).run (w.modifyContext c.id fun _ => s) with
    | mk o w' => cases o <;> simp

/-- **How an erased body ends**, for how the body did. -/
def erased (phase : Phase) (codec : Codec γ) :
    Outcome (Except β γ) → Outcome (Except Error String × Option (Except β γ))
  | .crashed m => .crashed m
  | .value (.error failure) => .value (.error (.phaseBody phase.id), some (.error failure))
  | .value (.ok v) => match codec.encode v with
    | .error detail => .value (.error (.serialization detail), none)
    | .ok data => .value (.ok data, some (.ok v))

omit [EngineFailure β] in
theorem run_erase (phase : Phase) (w : World ε) :
    (erase phase codec body).run w = (erased phase codec (body.run w).1, (body.run w).2) := by
  unfold erase
  rw [Process.run_bind]
  cases body.run w with
  | mk o w₁ =>
    cases o with
    | crashed m => rfl
    | value answer =>
      cases answer with
      | error failure => rfl
      | ok v =>
        dsimp only [erased]
        cases codec.encode v <;> rfl

omit [EngineFailure β] in
/-- A text is that of the body's value. -/
theorem erased_eq_ok {phase : Phase} {codec : Codec γ} {o : Outcome (Except β γ)} {data : String}
    {k : Option (Except β γ)} (h : erased phase codec o = .value (.ok data, k)) :
    ∃ v, o = .value (.ok v) ∧ codec.encode v = .ok data ∧ k = some (.ok v) := by
  unfold erased at h
  split at h
  · cases h
  · cases h
  · rename_i v
    split at h
    · cases h
    · rename_i hencode
      cases h
      exact ⟨v, rfl, hencode, rfl⟩

/-- An output other than the body's own is reread. -/
theorem settle_replayed (output : PhaseOutput) (h : output.wasExecuted = false)
    (k : Option (Except β γ)) : settle codec (.ok output) k = reread codec output.data := by
  cases output with
  | executed data => cases h
  | stored data => rfl
  | concurrent data => rfl

/-- What has been read from a record is what is there. -/
theorem reread_eq_ok {codec : Codec γ} {data : String} {v : γ}
    (h : (reread codec data : Except β γ) = .ok v) : codec.decode data = .ok v := by
  unfold reread at h
  split at h
  · rename_i a hdecode
    cases h
    exact hdecode
  · cases h

/-- An error never becomes a value. -/
theorem settle_error (e : Error) (k : Option (Except β γ)) (v : γ) : settle codec (.error e) k ≠ .ok v := by
  intro h
  cases k with
  | none => cases h
  | some a => cases a <;> cases h

end Context

/-! ## What one call does -/

section Called

variable [EngineFailure β] (K : Ledger → Ledger → Prop) (records : Part ε MemoryStore) (c : Context)
  (phase : Phase) (codec : Codec γ)

/-- **What a call does**, with what goes on beside it: the phase is refused; or it fails; or a record
    is read; or one is made. -/
inductive Context.Called (w : World ε) : Outcome (Except β γ) → World ε → Prop
  | refused {e : Error} (permit : c.permit phase w = .error e) :
      Called w (.value (.error (ofError e))) w
  | failed {s : ContextState} {w' : World ε} {o : Outcome (Except β γ)}
      (permit : c.permit phase w = .ok s)
      (steps : Beside K records c (w.modifyContext c.id fun _ => s) w')
      (failure : ∀ v, o ≠ .value (.ok v)) : Called w o (w'.modifyContext c.id (·.leave phase))
  | reread {s : ContextState} {w' : World ε} {r : StoredRecord} (permit : c.permit phase w = .ok s)
      (steps : Beside K records c (w.modifyContext c.id fun _ => s) w')
      (there : records.ledger c.process c.key w' phase.id = some r) :
      Called w (.value (Context.reread codec r.data)) (w'.modifyContext c.id (·.leave phase))
  | recorded {s : ContextState} {w₁ w₂ : World ε} {r : StoredRecord} {v : γ}
      (permit : c.permit phase w = .ok s)
      (steps : Beside K records c (w.modifyContext c.id fun _ => s) w₁)
      (fresh : c.recordedFinal = none) (free : records.ledger c.process c.key w₁ phase.id = none)
      (final : r.isFinal = phase.isFinal) (written : codec.encode v = .ok r.data)
      (quiet : Alike records (records.store ⟨c.process, c.key, phase.id⟩ r w₁) w₂) :
      Called w (.value (.ok v)) (w₂.modifyContext c.id (·.leave phase))

variable {K records c phase codec}

/-- **A call through a sound executor** does just that, if its body keeps beside the context. -/
theorem Context.called (hK : Ledger.Keeping K) {x : Executor ε} (hx : x.Sound records)
    {body : Action ε (Except β γ)} {w w' : World ε} {o : Outcome (Except β γ)}
    (hbody : ∀ {s w₁ o w₂}, c.permit phase w = .ok s →
      Alike records (w.modifyContext c.id fun _ => s) w₁ → body.run w₁ = (o, w₂) →
      Beside K records c w₁ w₂)
    (h : (c.run x phase codec body).run w = (o, w')) : c.Called K records phase codec w o w' := by
  cases hpermit : c.permit phase w with
  | error e =>
    rw [run_refused x codec body hpermit] at h
    obtain ⟨rfl, rfl⟩ := Prod.mk.inj h
    exact .refused hpermit
  | ok s =>
    rw [run_permitted x codec body hpermit] at h
    cases hrun : (x.execute c phase (erase phase codec body)).run (w.modifyContext c.id fun _ => s) with
    | mk answer w₃ =>
      rw [hrun] at h
      obtain ⟨rfl, rfl⟩ := Prod.mk.inj h
      cases hx.executed _ _ _ hrun with
      | replayed there quiet =>
        exact .reread hpermit (quiet.beside hK) (quiet.ledger c.process c.key ▸ there)
      | refused quiet => exact .failed hpermit (quiet.beside hK) (by simpa using settle_error codec _ _)
      | ran free fresh quiet run after =>
        obtain ⟨ho, rfl⟩ := Prod.mk.inj ((run_erase codec body phase _).symm.trans run)
        have hsteps := (quiet.beside hK).trans hK (hbody hpermit quiet (Prod.eta _))
        cases after with
        | crashed quiet' =>
          exact .failed hpermit (hsteps.trans hK (quiet'.beside hK)) fun v h => nomatch h
        | failed quiet' =>
          exact .failed hpermit (hsteps.trans hK (quiet'.beside hK))
            (by simpa using settle_error codec _ _)
        | @raced _ k r _ _ there quiet' =>
          show c.Called K records phase codec w
            (.value (settle codec (.ok (.concurrent r.data)) k)) _
          rw [settle_replayed codec _ rfl]
          exact .reread hpermit (hsteps.trans hK (quiet'.beside hK))
            (quiet'.ledger c.process c.key ▸ there)
        | recorded free' final quiet' =>
          obtain ⟨v, -, hencode, rfl⟩ := erased_eq_ok ho
          exact .recorded hpermit hsteps fresh free' final hencode quiet'

/-- **Where a body cannot run** — its record is there, or the context knows of a final phase or has
    left one — a call answers with the record or with an error, and is the same for every body. -/
theorem Context.run_idle {x : Executor ε} (hx : x.Sound records) {w : World ε}
    (h : records.ledger c.process c.key w phase.id ≠ none ∨ c.recordedFinal ≠ none ∨
      (w.context c.id).wasFinal = true) :
    ∃ (answer : Except β γ) (w' : World ε),
      (∀ body : Action ε (Except β γ), (c.run x phase codec body).run w = (.value answer, w')) ∧
      ((∃ e, answer = .error (ofError e)) ∨
        ∃ r, records.ledger c.process c.key w phase.id = some r ∧
          answer = Context.reread codec r.data) := by
  cases hpermit : c.permit phase w with
  | error e => exact ⟨_, w, fun body => run_refused x codec body hpermit, .inl ⟨e, rfl⟩⟩
  | ok s =>
    let w₁ : World ε := w.modifyContext c.id fun _ => s
    have hidle : records.ledger c.process c.key w₁ phase.id ≠ none ∨ c.recordedFinal ≠ none := by
      rcases h with h | h | h
      · exact .inl h
      · exact .inr h
      · rw [(permit_eq_ok hpermit).2.1] at h
        cases h
    -- Any body will do to see what happens.
    let body₀ : Body ε (Option (Except β γ)) := erase phase codec (.crash "")
    have hsame : ∀ body : Action ε (Except β γ),
        (x.execute c phase (erase phase codec body)).run w₁ = (x.execute c phase body₀).run w₁ :=
      fun body => hx.idle c phase hidle _ _
    cases hrun : (x.execute c phase body₀).run w₁ with
    | mk o w₂ =>
      have hcall : ∀ body : Action ε (Except β γ), _ := fun body => by
        have hbody := run_permitted x codec body hpermit
        rw [hsame body, hrun] at hbody
        exact hbody
      cases hx.executed _ _ _ hrun with
      | @replayed r _ there quiet => exact ⟨_, _, hcall, .inr ⟨r, there, rfl⟩⟩
      | @refused e _ quiet => exact ⟨_, _, hcall, .inl ⟨e, rfl⟩⟩
      | ran free fresh quiet run after =>
        rcases hidle with h | h
        · exact absurd free h
        · exact absurd fresh h

end Called

/-! ## Clients -/

/-- **A program that uses a context.**  It goes on from the outcome of a call, whatever that is. -/
inductive Client (ε β : Type) : Type → Type 1 where
  | done {α : Type} (a : α) : Client ε β α
  | crash {α : Type} (message : String) : Client ε β α
  | step {α : Type} (effect : World ε → World ε) (resume : World ε → Client ε β α) : Client ε β α
  | call {α γ : Type} (phase : Phase) (codec : Codec γ) (body : Client ε β (Except β γ))
      (resume : Outcome (Except β γ) → Client ε β α) : Client ε β α

namespace Client

/-- **What the program does** with the context, its phases run by the executor. -/
def act [EngineFailure β] (x : Executor ε) (c : Context) {α : Type} : Client ε β α → Action ε α
  | done a => .done a
  | crash m => .crash m
  | step effect resume => .step effect fun w => (resume w).act x c
  | call phase codec body resume =>
    (c.run x phase codec (body.act x c)).caught.bind fun o => (resume o).act x c

/-- **A program that keeps to `S`** in whatever it does beside its calls. -/
def Within (S : World ε → World ε → Prop) {α : Type} : Client ε β α → Prop
  | done _ => True
  | crash _ => True
  | step effect resume => (∀ w, S w (effect w)) ∧ ∀ w, (resume w).Within S
  | call _ _ body resume => body.Within S ∧ ∀ o, (resume o).Within S

/-- The program that does what an action does, step by step. -/
def ofAction {α : Type} : Action ε α → Client ε β α
  | .done a => done a
  | .crash m => crash m
  | .step effect resume => step effect fun w => ofAction (resume w)

@[simp] theorem act_ofAction [EngineFailure β] (x : Executor ε) (c : Context) (a : Action ε α) :
    (ofAction a : Client ε β α).act x c = a := by
  induction a with
  | done a => rfl
  | crash m => rfl
  | step e k ih => exact congrArg (Process.step e) (funext ih)

theorem within_ofAction {S : World ε → World ε → Prop} {a : Action ε α} (h : a.Steps S) :
    (ofAction a : Client ε β α).Within S := by
  induction a with
  | done a => trivial
  | crash m => trivial
  | step e k ih => exact ⟨h.1, fun w => ih w (h.2 w)⟩

theorem Within.mono {S S' : World ε → World ε → Prop} (hS : ∀ {w w'}, S w w' → S' w w')
    {client : Client ε β α} (h : client.Within S) : client.Within S' := by
  induction client with
  | done a => trivial
  | crash m => trivial
  | step e k ih => exact ⟨fun w => hS (h.1 w), fun w => ih w (h.2 w)⟩
  | call phase codec body k ihbody ih => exact ⟨ihbody h.1, fun o => ih o (h.2 o)⟩

variable [EngineFailure β] {K : Ledger → Ledger → Prop} {records : Part ε MemoryStore} {c : Context}
  {x : Executor ε}

/-- Running a call and what follows it. -/
theorem run_call (phase : Phase) (codec : Codec γ) (body : Client ε β (Except β γ))
    (resume : Outcome (Except β γ) → Client ε β α) (w : World ε) :
    ((call phase codec body resume).act x c).run w =
      let r := (c.run x phase codec (body.act x c)).run w
      ((resume r.1).act x c).run r.2 := by
  rw [act, Process.run_bind', Process.run_caught]

/-- **While a phase is active** a program does nothing but steps beside the context. -/
theorem busy (hK : Ledger.Keeping K) {client : Client ε β α} (h : client.Within (Beside K records c))
    {w w' : World ε} {o : Outcome α} (hc : c.id < w.contexts.length)
    (hactive : (w.context c.id).active ≠ none) (hrun : (client.act x c).run w = (o, w')) :
    Beside K records c w w' := by
  induction client generalizing w with
  | done a =>
    obtain ⟨-, rfl⟩ := Prod.mk.inj hrun
    exact .refl hK w
  | crash m =>
    obtain ⟨-, rfl⟩ := Prod.mk.inj hrun
    exact .refl hK w
  | step e k ih =>
    have hstep := h.1 w
    have hactive' : ((e w).context c.id).active ≠ none :=
      fun h' => hactive ((ContextState.active_eq_none (hstep.bare hc)).1 h')
    exact hstep.trans hK (ih w (h.2 w) (Nat.lt_of_lt_of_le hc hstep.length) hactive' hrun)
  | call phase codec body k _ ih =>
    -- The call is refused, so the program goes on in the same world.
    obtain ⟨e, hpermit⟩ := Context.permit_busy phase hactive
    rw [run_call, Context.run_refused x codec _ hpermit] at hrun
    exact ih _ (h.2 _) hc hactive hrun

/-- **A call by a program** does what calls do. -/
theorem called (hK : Ledger.Keeping K) (hx : x.Sound records) {phase : Phase} {codec : Codec γ}
    {body : Client ε β (Except β γ)} (hbody : body.Within (Beside K records c)) {w w' : World ε}
    {o : Outcome (Except β γ)} (hc : c.id < w.contexts.length)
    (h : (c.run x phase codec (body.act x c)).run w = (o, w')) :
    c.Called K records phase codec w o w' := by
  refine Context.called hK hx (fun {s w₁ o w₂} hpermit hq hrun => ?_) h
  have hlength : c.id < w₁.contexts.length := by
    rw [hq.length, World.length_modifyContext]
    exact hc
  refine busy hK hbody hlength (fun hnone => ?_) hrun
  -- The phase that has been entered is active, and nothing quiet changes that.
  have hbare := hq.bare c.id
  rw [World.context_modifyContext_self _ _ hc] at hbare
  have hs := (ContextState.active_eq_none hbare).1 hnone
  rw [(Context.permit_eq_ok hpermit).2.2.2.2] at hs
  cases hs

end Client

end Idempotence
