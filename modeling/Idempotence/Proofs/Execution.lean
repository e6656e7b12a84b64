/-
  Execution — what an executor may do with a phase.

  1. **One execution** — `Executed` says once what an execution in memory can do.  The record is
     there and comes back; or the phase is refused and nothing happens; or the body runs, which takes
     a free key and a context that knows of no recorded final phase, and `Concluded` says what comes
     after it: nothing, another's record, or one record of its own.

  2. **Sound executors** — an executor is `Sound` if all its executions are such, and if it looks at
     a body only where it runs it: where the record is there or the context knows of a final phase,
     all bodies are the same to it.  The base executor over a store in memory is sound
     (`MemoryStore.sound_base`).

  3. **The crux** — an execution may be preceded and followed by anything quiet (`Executed.earlier`,
     `Executed.later`), and an execution of a body with something quiet added is one of the body
     itself (`Executed.seasoned`).  That is all that wrappers of executors need.
-/
import Idempotence.Proofs.BodyRecords
import Idempotence.Proofs.FrameConditions

namespace Idempotence

variable {ε κ α : Type}

/-! ## One more record -/

/-- The world with one more record. -/
def Part.store (records : Part ε MemoryStore) (key : RecordKey) (r : StoredRecord) (w : World ε) :
    World ε :=
  w.modifyEnv fun e => records.set ((records.get e).insert key r) e

namespace Part

variable (records : Part ε MemoryStore)

theorem ledger_store (process key id : String) (r : StoredRecord) (w : World ε) :
    records.ledger process key (records.store ⟨process, key, id⟩ r w) =
      (records.ledger process key w).put id r := by
  unfold ledger store World.modifyEnv
  rw [Part.get_set]
  exact MemoryStore.ledger_insert ..

/-- Alike worlds with the same record more are alike. -/
theorem alike_store {records : Part ε MemoryStore} {w w' : World ε} (h : Alike records w w')
    (key : RecordKey) (r : StoredRecord) :
    Alike records (records.store key r w) (records.store key r w') := by
  refine ⟨?_, h.length, h.bare⟩
  unfold store World.modifyEnv
  rw [Part.get_set, Part.get_set, h.records]

end Part

/-! ## One execution -/

section Executed

variable (records : Part ε MemoryStore) (c : Context) (phase : Phase)

/-- **What comes after a body**, for how it ended and in which world. -/
inductive Concluded : Outcome (Except Error String × κ) → World ε → Outcome (Answer κ) → World ε → Prop
  | crashed {m : String} {w w' : World ε} (quiet : Alike records w w') :
      Concluded (.crashed m) w (.crashed m) w'
  | failed {text : Except Error String} {k : κ} {e : Error} {w w' : World ε}
      (quiet : Alike records w w') : Concluded (.value (text, k)) w (.value (.error e, some k)) w'
  | raced {text : Except Error String} {k : κ} {r : StoredRecord} {w w' : World ε}
      (there : records.ledger c.process c.key w phase.id = some r) (quiet : Alike records w w') :
      Concluded (.value (text, k)) w (.value (.ok (.concurrent r.data), some k)) w'
  | recorded {k : κ} {r : StoredRecord} {w w' : World ε}
      (free : records.ledger c.process c.key w phase.id = none) (final : r.isFinal = phase.isFinal)
      (quiet : Alike records (records.store ⟨c.process, c.key, phase.id⟩ r w) w') :
      Concluded (.value (.ok r.data, k)) w (.value (.ok (.executed r.data), some k)) w'

/-- **What an execution does.** -/
inductive Executed (body : Body ε κ) (w : World ε) : Outcome (Answer κ) → World ε → Prop
  | replayed {r : StoredRecord} {w' : World ε}
      (there : records.ledger c.process c.key w phase.id = some r) (quiet : Alike records w w') :
      Executed body w (.value (.ok (.stored r.data), none)) w'
  | refused {e : Error} {w' : World ε} (quiet : Alike records w w') :
      Executed body w (.value (.error e, none)) w'
  | ran {w₁ w₂ w' : World ε} {o : Outcome (Except Error String × κ)} {answer : Outcome (Answer κ)}
      (free : records.ledger c.process c.key w phase.id = none) (fresh : c.recordedFinal = none)
      (quiet : Alike records w w₁) (run : body.run w₁ = (o, w₂))
      (after : Concluded records c phase o w₂ answer w') : Executed body w answer w'

end Executed

section

variable {records : Part ε MemoryStore} {c : Context} {phase : Phase}

/-- What comes after a body may be followed by something quiet. -/
theorem Concluded.later {o : Outcome (Except Error String × κ)} {answer : Outcome (Answer κ)}
    {w w' w'' : World ε} (h : Concluded records c phase o w answer w') (hq : Alike records w' w'') :
    Concluded records c phase o w answer w'' := by
  cases h with
  | crashed quiet => exact .crashed (quiet.trans hq)
  | failed quiet => exact .failed (quiet.trans hq)
  | raced there quiet => exact .raced there (quiet.trans hq)
  | recorded free final quiet => exact .recorded free final (quiet.trans hq)

namespace Executed

variable {body : Body ε κ} {o : Outcome (Answer κ)} {w w' w'' : World ε}

/-- An execution may be followed by something quiet. -/
theorem later (h : Executed records c phase body w o w') (hq : Alike records w' w'') :
    Executed records c phase body w o w'' := by
  cases h with
  | replayed there quiet => exact .replayed there (quiet.trans hq)
  | refused quiet => exact .refused (quiet.trans hq)
  | ran free fresh quiet run after => exact .ran free fresh quiet run (after.later hq)

/-- An execution may come after something quiet. -/
theorem earlier (hq : Alike records w w') (h : Executed records c phase body w' o w'') :
    Executed records c phase body w o w'' := by
  cases h with
  | replayed there quiet =>
    exact .replayed (hq.ledger c.process c.key ▸ there) (hq.trans quiet)
  | refused quiet => exact .refused (hq.trans quiet)
  | ran free fresh quiet run after =>
    exact .ran (hq.ledger c.process c.key ▸ free) fresh (hq.trans quiet) run after

end Executed

/-! ## Bodies with something added -/

/-- **What may be made of the end of a body**: a text may become an error. -/
inductive Flavoured : Outcome (Except Error String × κ) → Outcome (Except Error String × κ) → Prop
  | same (o : Outcome (Except Error String × κ)) : Flavoured o o
  | failed (text : Except Error String) (k : κ) (e : Error) :
      Flavoured (.value (text, k)) (.value (.error e, k))

/-- **A body with something quiet added** at its end. -/
def Seasoned (records : Part ε MemoryStore) (body body' : Body ε κ) : Prop :=
  ∀ w o' w', body'.run w = (o', w') →
    ∃ o w₁, body.run w = (o, w₁) ∧ Alike records w₁ w' ∧ Flavoured o o'

theorem Seasoned.refl (body : Body ε κ) : Seasoned records body body :=
  fun _ o' w' h => ⟨o', w', h, .refl w', .same o'⟩

/-- What comes after a seasoned body comes after the body. -/
theorem Concluded.seasoned {o o' : Outcome (Except Error String × κ)} {answer : Outcome (Answer κ)}
    {w w₁ w' : World ε} (ho : Flavoured o o') (hq : Alike records w w₁)
    (h : Concluded records c phase o' w₁ answer w') : Concluded records c phase o w answer w' := by
  cases h with
  | crashed quiet =>
    cases ho with
    | same => exact .crashed (hq.trans quiet)
  | failed quiet => cases ho <;> exact .failed (hq.trans quiet)
  | raced there quiet =>
    rw [hq.ledger] at there
    cases ho <;> exact .raced there (hq.trans quiet)
  | recorded free final quiet =>
    rw [hq.ledger] at free
    cases ho with
    | same => exact .recorded free final ((Part.alike_store hq _ _).trans quiet)

/-- **An execution of a seasoned body** is one of the body. -/
theorem Executed.seasoned {body body' : Body ε κ} {o : Outcome (Answer κ)} {w w' : World ε}
    (hbody : Seasoned records body body') (h : Executed records c phase body' w o w') :
    Executed records c phase body w o w' := by
  cases h with
  | replayed there quiet => exact .replayed there quiet
  | refused quiet => exact .refused quiet
  | ran free fresh quiet run after =>
    obtain ⟨o, w₁, hrun, hq, ho⟩ := hbody _ _ _ run
    exact .ran free fresh quiet hrun (after.seasoned ho hq)

end

/-! ## Sound executors -/

/-- **Sound executors**: all their executions are as they should be, and a body that does not run
    makes no difference. -/
structure Executor.Sound (records : Part ε MemoryStore) (x : Executor ε) : Prop where
  executed : ∀ {κ : Type} (c : Context) (phase : Phase) (body : Body ε κ) {w w' : World ε}
    {o : Outcome (Answer κ)}, (x.execute c phase body).run w = (o, w') →
    Executed records c phase body w o w'
  idle : ∀ {κ : Type} (c : Context) (phase : Phase) {w : World ε},
    records.ledger c.process c.key w phase.id ≠ none ∨ c.recordedFinal ≠ none →
    ∀ body body' : Body ε κ, (x.execute c phase body).run w = (x.execute c phase body').run w

/-- **What wrapping keeps, a chain has** from its base. -/
theorem Executor.compose_induction {P : Executor ε → Prop} {base : Executor ε} (hbase : P base)
    {extensions : List (Interceptor ε)} (h : ∀ i ∈ extensions, ∀ x, P x → P (i.wrap x)) :
    P (base.compose extensions) := by
  induction extensions with
  | nil => exact hbase
  | cons i rest ih =>
    obtain ⟨hi, hrest⟩ := List.forall_mem_cons.1 h
    exact hi _ (ih hrest)

/-! ## The base executor -/

namespace MemoryStore

variable {records : Part ε MemoryStore} {stamps : Action ε Instant}

/-- Recording where the key is taken. -/
theorem record_taken {key : RecordKey} {r : StoredRecord} {w : World ε}
    (h : (records.get w.env).get? key = some r) (isFinal : Bool) (data : String) :
    (record records stamps key isFinal data).run w =
      (.value (.error (.store (.duplicateRecord key))), w) := by
  have hc : (records.get w.env).contains key = true := by simp [Table.contains, h]
  simp [record, Action.look, hc]

/-- Recording where the key is free, and stays free while the clock is read. -/
theorem run_record {key : RecordKey} {w w₁ : World ε} {createdAt : Instant}
    (h : (records.get w.env).get? key = none) (hstamp : stamps.run w = (.value createdAt, w₁))
    (h₁ : (records.get w₁.env).get? key = none) (isFinal : Bool) (data : String) :
    (record records stamps key isFinal data).run w =
      (.value (.ok ()), records.store key ⟨data, isFinal, createdAt⟩ w₁) := by
  have hc : (records.get w.env).contains key = false := by simp [Table.contains, h]
  simp [record, Action.look, Action.on, hc, hstamp, commit_free h₁, Part.store, World.modifyEnv]

/-- Recording where the key is free. -/
theorem record_free (hstamps : Quiet records stamps) {key : RecordKey} {w : World ε}
    (h : (records.get w.env).get? key = none) (isFinal : Bool) (data : String) :
    ∃ r w₁, r.data = data ∧ r.isFinal = isFinal ∧ Alike records w w₁ ∧
      (record records stamps key isFinal data).run w = (.value (.ok ()), records.store key r w₁) := by
  obtain ⟨createdAt, w₁, hrun, halike⟩ := hstamps.run w
  exact ⟨⟨data, isFinal, createdAt⟩, w₁, rfl, rfl, halike,
    run_record h hrun (halike.records ▸ h) isFinal data⟩

variable (records stamps) in
/-- An error of the recording comes back, or another's record does. -/
theorem resolve_run (key : RecordKey) (phase : Phase) (e : Error) (w : World ε) :
    ∃ answer w', (Executor.resolve (adapter records stamps) key phase e).run w = (.value answer, w') ∧
      Alike records w w' ∧ ((∃ e', answer = .error e') ∨
        ∃ r, (records.get w.env).get? key = some r ∧ answer = .ok (.concurrent r.data)) := by
  rw [resolve_adapter]
  by_cases hdup : e.isDuplicate = true
  · rw [if_pos hdup]
    cases hr : (records.get w.env).get? key with
    | none => exact ⟨.error e, w, by simp [Action.look, hr], .refl w, .inl ⟨e, rfl⟩⟩
    | some r =>
      have hquiet : Quiet records (Action.tell (.multipleExecutions phase.id)) := .tell _
      obtain ⟨_, w', htell, halike⟩ := hquiet.run w
      exact ⟨_, w', by simp [Action.look, hr, htell], halike, .inr ⟨r, rfl, rfl⟩⟩
  · rw [if_neg hdup]
    exact ⟨.error e, w, rfl, .refl w, .inl ⟨e, rfl⟩⟩

variable (stamps) in
/-- Where the record is there, it comes back, whatever the body. -/
theorem base_replays (c : Context) (phase : Phase) {r : StoredRecord} {w : World ε}
    (h : records.ledger c.process c.key w phase.id = some r) :
    ∃ w', Alike records w w' ∧ ∀ {κ : Type} (body : Body ε κ),
      ((Executor.base (adapter records stamps)).execute c phase body).run w =
        (.value (.ok (.stored r.data), none), w') := by
  have h : (records.get w.env).get? ⟨c.process, c.key, phase.id⟩ = some r := h
  have hquiet : Quiet records (Action.tell (.resultStored phase.id)) := .tell _
  obtain ⟨_, w', htell, halike⟩ := hquiet.run w
  refine ⟨w', halike, fun body => ?_⟩
  rw [execute_adapter]
  simp [Action.look, h, htell]

/-- Where the context knows of a final phase and there is no record, nothing happens. -/
theorem base_refuses {c : Context} {final : String} (phase : Phase) (hfinal : c.recordedFinal = some final)
    {w : World ε} (h : records.ledger c.process c.key w phase.id = none) (body : Body ε κ) :
    ((Executor.base (adapter records stamps)).execute c phase body).run w =
      (.value (.error (.assertion (.finalPhaseRecorded c.process phase.id final)), none), w) := by
  have h : (records.get w.env).get? ⟨c.process, c.key, phase.id⟩ = none := h
  rw [execute_adapter]
  simp [Action.look, h, hfinal]

/-- What the base executor makes of the end of a body. -/
theorem concluded_base (hstamps : Quiet records stamps) (c : Context) (phase : Phase)
    {body : Body ε κ} {w w₂ w' : World ε} {o : Outcome (Except Error String × κ)}
    {answer : Outcome (Answer κ)} (hfree : records.ledger c.process c.key w phase.id = none)
    (hfresh : c.recordedFinal = none) (hbody : body.run w = (o, w₂))
    (h : ((Executor.base (adapter records stamps)).execute c phase body).run w = (answer, w')) :
    Concluded records c phase o w₂ answer w' := by
  have hfree : (records.get w.env).get? ⟨c.process, c.key, phase.id⟩ = none := hfree
  -- A recording or a body that failed ends in `resolve`.
  have resolved : ∀ {text : Except Error String} {k : κ} {e : Error},
      (do return (← Executor.resolve (adapter records stamps) ⟨c.process, c.key, phase.id⟩ phase e,
        some k) : Action ε (Answer κ)).run w₂ = (answer, w') →
      Concluded records c phase (.value (text, k)) w₂ answer w' := by
    intro text k e h
    obtain ⟨_, w₃, hrun, halike, ⟨e', rfl⟩ | ⟨r, hr, rfl⟩⟩ :=
      resolve_run records stamps ⟨c.process, c.key, phase.id⟩ phase e w₂
    · simp only [Process.run_bind, hrun, Process.run_pure, Prod.mk.injEq] at h
      obtain ⟨rfl, rfl⟩ := h
      exact .failed halike
    · simp only [Process.run_bind, hrun, Process.run_pure, Prod.mk.injEq] at h
      obtain ⟨rfl, rfl⟩ := h
      exact .raced hr halike
  rw [execute_adapter] at h
  simp only [Action.look, Process.run_bind, Process.run_look, hfree, hfresh, hbody] at h
  cases o with
  | crashed m =>
    obtain ⟨rfl, rfl⟩ := Prod.mk.inj h
    exact .crashed (.refl _)
  | value a =>
    obtain ⟨text, k⟩ := a
    cases text with
    | error e => exact resolved h
    | ok data =>
      cases hr : (records.get w₂.env).get? ⟨c.process, c.key, phase.id⟩ with
      | some r =>
        simp only [Process.run_bind, record_taken hr] at h
        exact resolved (by rw [Process.run_bind]; exact h)
      | none =>
        obtain ⟨r, w₃, rfl, hfinal, halike, hrecord⟩ :=
          record_free hstamps hr phase.isFinal data
        simp only [Process.run_bind, hrecord, Process.run_pure, Prod.mk.injEq] at h
        obtain ⟨rfl, rfl⟩ := h
        exact .recorded hr hfinal (Part.alike_store halike _ _)

/-- **The base executor in memory is sound.** -/
theorem sound_base (hstamps : Quiet records stamps) :
    (Executor.base (adapter records stamps)).Sound records where
  executed c phase body w w' o h := by
    cases hr : records.ledger c.process c.key w phase.id with
    | some r =>
      obtain ⟨w₁, halike, hrun⟩ := base_replays stamps c phase hr
      rw [hrun] at h
      obtain ⟨rfl, rfl⟩ := Prod.mk.inj h
      exact .replayed hr halike
    | none =>
      cases hf : c.recordedFinal with
      | some final =>
        rw [base_refuses phase hf hr] at h
        obtain ⟨rfl, rfl⟩ := Prod.mk.inj h
        exact .refused (.refl _)
      | none =>
        cases hbody : body.run w with
        | mk o₁ w₂ => exact .ran hr hf (.refl _) hbody (concluded_base hstamps c phase hr hf hbody h)
  idle c phase w h body body' := by
    cases hr : records.ledger c.process c.key w phase.id with
    | some r =>
      obtain ⟨w₁, -, hrun⟩ := base_replays stamps c phase hr
      rw [hrun, hrun]
    | none =>
      cases hf : c.recordedFinal with
      | some final => rw [base_refuses phase hf hr, base_refuses phase hf hr]
      | none => simp [hr, hf] at h

end MemoryStore

end Idempotence
