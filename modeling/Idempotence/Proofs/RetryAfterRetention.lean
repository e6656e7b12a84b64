/-
  Retries after retention — what becomes of a finished process when retention has taken some of its records.

  1. **Records since a moment** — whatever its configuration and its end, a run of retention leaves of the
     stores what is not older than some moment (`cleanUp_leaving`).

  2. **Gaps** — a plan that was settled by all the records is not settled by those that are left: then one
     of the records on its way is missing.  Where a final one is left, every attempt replays up to that
     gap, and is refused there (`Plan.Settled.stopped`).

  3. **The result** — `retry_after_cleanUp`: a retry replays, or it is refused at a gap that retention has
     torn, or the process is not known to have been finished, and then nothing is ever refused for it.
-/
import Idempotence.Proofs.RequestGate
import Idempotence.Proofs.RetentionProgress

namespace Idempotence

variable {ε α β γ κ ρ : Type}

/-! ## Records since a moment -/

/-- **A ledger since a moment**: its records that are not older. -/
def Ledger.since (l : Ledger) (before : Instant) : Ledger :=
  fun id => (l id).filter fun r => decide (before ≤ r.createdAt)

section

variable {l : Ledger} {before : Instant} {id : String} {r : StoredRecord}

theorem Ledger.since_eq_some : l.since before id = some r ↔ l id = some r ∧ before ≤ r.createdAt := by
  rw [Ledger.since, Option.filter_eq_some_iff, decide_eq_true_iff]

/-- What could be read can be read still, or its record is gone. -/
theorem Ledger.Grows.yields_or_gap {l' : Ledger} (hleft : l'.Grows l) {format : Format γ} {v : γ}
    (h : l.Yields id format v) : l'.Yields id format v ∨ l id ≠ none ∧ l' id = none := by
  obtain ⟨r, hr, hread⟩ := h
  cases hr' : l' id with
  | none => exact .inr ⟨by rw [hr]; exact Option.some_ne_none r, rfl⟩
  | some r' =>
    obtain rfl := Option.some.inj ((hleft id r' hr').symm.trans hr)
    exact .inl ⟨r', hr', hread⟩

theorem Ledger.since_grows (l : Ledger) (before : Instant) : (l.since before).Grows l :=
  fun _ _ h => (Ledger.since_eq_some.1 h).1

/-- **If the final record is the youngest** and it is gone, nothing is left. -/
theorem Ledger.since_eq_none (hnot : ¬ (l.since before).Final)
    (hyoungest : ∃ final f, l final = some f ∧ f.isFinal = true ∧
      ∀ id r, l id = some r → r.createdAt ≤ f.createdAt) (id : String) : l.since before id = none := by
  obtain ⟨final, f, hf, hfinal, hyoungest⟩ := hyoungest
  cases hr : l.since before id with
  | none => rfl
  | some r =>
    obtain ⟨hl, hle⟩ := Ledger.since_eq_some.1 hr
    have hthere : l.since before final = some f :=
      Ledger.since_eq_some.2 ⟨hf, Instant.le_trans hle (hyoungest id r hl)⟩
    exact absurd ⟨final, f, hthere, hfinal⟩ hnot

end

namespace CleanupConfig

variable {records : Part ε MemoryStore} {locks : Part ε (LockTable RecordKey)}

/-- **How a run of retention ends**: nothing has changed but the trace, or what is older than some moment
    is gone. -/
theorem cleanUp_cases (hapart : records.Apart locks) (config : CleanupConfig) (now : Instant) (w : World ε) :
    ∃ trace, ((config.cleanUp (.memory records locks) now).run w).2 = { w with trace } ∨
      ∃ before, ((config.cleanUp (.memory records locks) now).run w).2 =
        leaving records locks before trace w := by
  cases hconfig : config.check with
  | error e =>
    refine ⟨w.trace, .inl ?_⟩
    simp only [cleanUp, hconfig, Process.run_pure]
  | ok u =>
    have hcount : (RetentionStore.memory records locks).count.run w =
        (.value (.ok (records.get w.env).size), w) := rfl
    cases hsize : (records.get w.env).size with
    | zero =>
      refine ⟨w.trace.tell .nothingToClean, .inl ?_⟩
      simp only [cleanUp, hconfig, Process.run_bind, hcount, hsize]
      rfl
    | succ n =>
      cases hretained : now.subtract? config.retention with
      | none =>
        refine ⟨w.trace, .inl ?_⟩
        simp only [cleanUp, clean, hconfig, hretained, Process.run_bind, hcount, hsize, Process.run_crash]
      | some retained =>
        have hsome : (records.get w.env).size ≠ 0 := by omega
        obtain ⟨trace, hrun⟩ := cleanUp_found hapart hconfig hretained w hsome rfl
        exact ⟨trace, .inr ⟨_, congrArg Prod.snd hrun⟩⟩

/-- **Every run of retention**, however it ends, leaves the records that are not older than some moment,
    and locks nothing. -/
theorem cleanUp_leaves (hapart : records.Apart locks) (config : CleanupConfig) (now : Instant) (w : World ε) :
    ∃ before, records.get ((config.cleanUp (.memory records locks) now).run w).2.env =
        (records.get w.env).since before ∧
      ∀ process key, locks.lockRow process key w = none →
        locks.lockRow process key ((config.cleanUp (.memory records locks) now).run w).2 = none := by
  obtain ⟨trace, hsame | ⟨before, hleft⟩⟩ := cleanUp_cases hapart config now w
  · -- No record is older than the first moment there is.
    have hall : (records.get w.env).since .first = records.get w.env :=
      MemoryStore.since_of_countBefore
        (MemoryStore.countBefore_eq_zero_iff.2 fun _ r _ => r.createdAt.first_le_self)
    refine ⟨.first, ?_, fun process key hrow => ?_⟩
    · rw [hsame, hall]
    · rw [hsame]
      exact hrow
  · refine ⟨before, ?_, fun process key hrow => ?_⟩
    · simp only [hleft, leaving, hapart.get_set_left, records.get_set]
    · unfold Part.lockRow at hrow ⊢
      simp only [hleft, leaving, locks.get_set, LockTable.since, LockTable.row?_filter, hrow,
        Option.filter_none]

end CleanupConfig

/-- The ledger of what is not older than a moment. -/
theorem MemoryStore.ledger_since (s : MemoryStore) (before : Instant) (process key : String) :
    (s.since before).ledger process key = (s.ledger process key).since before := by
  funext id
  exact Table.get?_filter ..

/-! ## Gaps -/

section

variable {records : Part ε MemoryStore} {stamps : Action ε Instant} {locks : Part ε (LockTable RecordKey)}
  {p : Provider ε} {c : Context} {visited : List String} {wasFinal : Bool} {w : World ε}

/-- **A phase is refused** where the context knows of a final phase and there is no record. -/
theorem Provider.Bare.run_refused [EngineFailure β] (hp : p.Bare records stamps locks) {ph : Phase}
    {final : String} (hcheck : Context.checkPhase ph = .ok ()) (hnew : ph.id ∉ visited)
    (hknows : c.recordedFinal = some final) (hgap : records.ledger c.process c.key w ph.id = none)
    (hstands : c.Stands visited false w) (codec : Codec γ) :
    ∃ w', (∀ body : Action ε (Except β γ), (p.runPhase c ph codec body).run w =
        (.value (.error (ofError (.assertion (.finalPhaseRecorded c.process ph.id final)))), w')) ∧
      records.get w'.env = records.get w.env := by
  obtain ⟨rfl, hwas⟩ := And.intro hstands.visited_eq hstands.wasFinal_eq
  have hpermit := Context.permit_ok hcheck hwas hnew hstands.idle
  let entered : World ε := w.modifyContext c.id fun _ => { w.context c.id with
    visited := ph.id :: (w.context c.id).visited, active := some { phase := ph } }
  have hgap : records.ledger c.process c.key entered ph.id = none := hgap
  refine ⟨entered.modifyContext c.id (·.leave ph), fun body => ?_, rfl⟩
  unfold Provider.runPhase
  rw [Context.run_permitted _ _ body hpermit, hp.executor_eq, MemoryStore.base_refuses ph hknows hgap]
  rfl

/-- **A plan stops at a gap.**  Some of the records that had settled it are left, but not all on its way,
    and the context knows of a final phase: every script of it replays up to the first record that is
    missing and is refused there.  No body runs and no record is made. -/
theorem Plan.Settled.stopped [EngineFailure β] (hp : p.Bare records stamps locks) {l l' : Ledger} {r : ρ}
    {plan : Plan β ρ} {final : String} (h : plan.Settled l r visited wasFinal) (hleft : l'.Grows l)
    (hgap : ¬ plan.Settled l' r visited wasFinal) (hknows : c.recordedFinal = some final)
    (hstands : c.Stands visited wasFinal w) (hl : records.ledger c.process c.key w = l') :
    ∃ id w', (l id ≠ none ∧ l' id = none) ∧
      (∀ s : Script ε β ρ, s.plan = plan → (p.runBody c fun c => s.client.act p.executor c).run w =
        (.value (.error (ofError (.assertion (.finalPhaseRecorded c.process id final)))), w')) ∧
      records.get w'.env = records.get w.env := by
  -- By induction on the way that was settled, from any world where the context has come that far.
  induction h generalizing w with
  | final => exact absurd .final hgap
  | completed hnew hthere =>
    rcases hleft.yields_or_gap hthere with hthere' | hmissing
    · exact absurd (.completed hnew hthere') hgap
    · -- The whole way to the value has been replayed, but not the empty final phase.
      have hcheck : Context.checkPhase { id := Provider.autoFinal, isFinal := true } = .ok () := rfl
      obtain ⟨w', hrun, hsame⟩ := hp.run_refused (β := β) hcheck hnew hknows (hl ▸ hmissing.2) hstands .unit
      have hcomplete : (p.complete c : Action ε (Except β Unit)).run w = (.value (.error
          (ofError (.assertion (.finalPhaseRecorded c.process Provider.autoFinal final)))), w') := by
        rw [Provider.run_complete, hstands.wasFinal_eq, if_neg Bool.false_ne_true]
        exact hrun _
      exact ⟨_, w', hmissing, fun s hs => Script.runBody_answer hs hcomplete, hsame⟩
  | @phase visited γ ph format next v hcheck hnew hthere rest ih =>
    rcases hleft.yields_or_gap hthere with hthere' | hmissing
    · have hrest : ¬ (next v).Settled l' r (ph.id :: visited) ph.isFinal :=
        fun h => hgap (.phase hcheck hnew hthere' h)
      obtain ⟨w₁, hrun, hstands₁, hsame₁⟩ := hp.run_replayed (β := β) hcheck hnew (hl ▸ hthere') hstands
      have hledger : records.ledger c.process c.key w₁ = l' := by
        rw [← hl, Part.ledger, Part.ledger, hsame₁]
      obtain ⟨id, w₂, hmissing, hstop, hsame₂⟩ := ih hrest hstands₁ hledger
      refine ⟨id, w₂, hmissing, fun s hs => ?_, hsame₂.trans hsame₁⟩
      obtain ⟨s', hs', hnext⟩ := Script.runBody_next hs hrun
      exact hnext.trans (hstop s' hs')
    · obtain ⟨w', hrun, hsame⟩ := hp.run_refused (β := β) hcheck hnew hknows (hl ▸ hmissing.2) hstands
        format.toCodec
      refine ⟨_, w', hmissing, fun s hs => ?_, hsame⟩
      cases s with
      | answer => cases hs
      | phase ph' format' body next' =>
        cases hs
        refine Provider.runBody_error ?_
        rw [Script.run_phase, hrun]

/-! ## No gap without a final record -/

/-- **An answer that is no refusal**: if anything went wrong, it was not misuse. -/
def NotRefused {δ : Type} (answer : Except Error δ) : Prop := ∀ m, answer ≠ .error (.assertion m)

theorem notRefused_ok {δ : Type} (a : δ) : NotRefused (.ok a) := fun _ h => nomatch h

theorem notRefused_store {δ : Type} (e : StoreError) : NotRefused (.error (.store e) : Except Error δ) := by
  intro m h
  cases h

/-- The body of a phase never says that the phase was refused. -/
theorem Context.erase_gives (ph : Phase) (codec : Codec γ) (body : Action ε (Except β γ)) :
    (Context.erase ph codec body).Gives fun answer => NotRefused answer.1 := by
  refine .bind body.gives_any fun answer _ => ?_
  cases answer with
  | error failure =>
    intro m h
    cases h
  | ok v =>
    dsimp only
    cases codec.encode v with
    | error detail =>
      intro m h
      cases h
    | ok data => exact notRefused_ok data

namespace MemoryStore

/-- A recording never says that the phase was refused. -/
theorem record_gives (key : RecordKey) (isFinal : Bool) (data : String) :
    (record records stamps key isFinal data).Gives NotRefused := by
  refine (Process.gives_any _).bind fun taken _ => ?_
  cases taken with
  | true => exact notRefused_store _
  | false =>
    refine (Process.gives_any stamps).bind fun createdAt _ => .atomically fun w _ => ⟨trivial, ?_⟩
    show NotRefused (commit [(key, _)] (records.get w.env)).1
    unfold commit
    split
    · exact notRefused_store _
    · exact notRefused_ok ()

/-- What becomes of an error does not say that the phase was refused, if the error does not. -/
theorem resolve_gives (key : RecordKey) (ph : Phase) {e : Error}
    (he : NotRefused (.error e : Except Error PhaseOutput)) :
    (Executor.resolve (adapter records stamps) key ph e).Gives NotRefused := by
  rw [resolve_adapter]
  split
  · refine (Process.gives_any _).bind fun found _ => ?_
    cases found with
    | none => exact he
    | some r => exact (Process.gives_any _).bind fun _ _ => notRefused_ok _
  · exact he

end MemoryStore

/-- **On a context that knows of no final phase** no phase is refused by the executor. -/
theorem Provider.Bare.execute_gives (hp : p.Bare records stamps locks) (hfresh : c.recordedFinal = none)
    (ph : Phase) (codec : Codec γ) (body : Action ε (Except β γ)) :
    (p.executor.execute c ph (Context.erase ph codec body)).Gives fun answer => NotRefused answer.1 := by
  rw [hp.executor_eq, MemoryStore.execute_adapter]
  refine (Process.gives_any _).bind fun found _ => ?_
  cases found with
  | some r => exact (Process.gives_any _).bind fun _ _ => notRefused_ok _
  | none =>
    rw [hfresh]
    refine (Context.erase_gives ph codec body).bind fun answer hanswer => ?_
    obtain ⟨text, k⟩ := answer
    cases text with
    | error e =>
      have he : NotRefused (.error e : Except Error PhaseOutput) := fun m h => by
        cases h
        exact hanswer m rfl
      exact (MemoryStore.resolve_gives _ ph he).bind fun _ h => h
    | ok data =>
      refine (MemoryStore.record_gives _ ph.isFinal data).bind fun result hresult => ?_
      cases result with
      | ok u => exact notRefused_ok _
      | error e =>
        have he : NotRefused (.error e : Except Error PhaseOutput) := fun m h => by
          cases h
          exact hresult m rfl
        exact (MemoryStore.resolve_gives _ ph he).bind fun _ h => h

/-! ## Attempts -/

variable {process key : String} {plan : Plan β ρ} {a : Attempt ε β ρ}

/-- **Whatever a retry of a plan brings for bodies, it comes to one result**, and makes no record. -/
def Plan.ComesTo [EngineFailure β] (plan : Plan β ρ) (p : Provider ε) (records : Part ε MemoryStore)
    (process key : String) (timeout : Duration) (settings : List Setting) (w : World ε)
    (result : Except β ρ) : Prop :=
  ∃ w', records.get w'.env = records.get w.env ∧ ∀ script : Context → Script ε β ρ,
    (∀ c, (script c).plan = plan) →
    (Attempt.act p process key ⟨timeout, settings, script⟩).run w = (.value result, w')

/-- A final phase that the store finds is recorded as one. -/
theorem MemoryStore.findFinal_eq_some {s : MemoryStore} {final : String}
    (h : s.findFinal process key = some final) :
    ∃ f, s.ledger process key final = some f ∧ f.isFinal = true := by
  obtain ⟨⟨k, f⟩, hfound, rfl⟩ := Option.map_eq_some_iff.1 h
  have hmem := (Table.get?_eq_some_iff s).2 (List.mem_of_find?_eq_some hfound)
  have hthis := List.find?_some hfound
  obtain ⟨hf, rfl, rfl⟩ : f.isFinal = true ∧ k.process = process ∧ k.key = key := by
    simpa [RecordKey.belongsTo] using hthis
  exact ⟨f, hmem, hf⟩

/-- **An attempt stops at a gap**, where a final record is left, whatever its bodies. -/
theorem Attempt.Of.stopped [EngineFailure β] (ha : a.Of records locks plan) (hp : p.Bare records stamps locks)
    {l : Ledger} {r : ρ} (hsettled : plan.Settled l r [] false)
    (hleft : (records.ledger process key w).Grows l) (hfinal : (records.ledger process key w).Final)
    (hgap : ¬ plan.Settled (records.ledger process key w) r [] false)
    (hrow : locks.lockRow process key w = none) (timeout : Duration) {settings : List Setting}
    (hcheck : Provider.checkStart process key settings = .ok ()) :
    ∃ id final, (l id ≠ none ∧ records.ledger process key w id = none) ∧
      (∃ f, records.ledger process key w final = some f ∧ f.isFinal = true) ∧
      plan.ComesTo p records process key timeout settings w
        (.error (ofError (.assertion (.finalPhaseRecorded process id final)))) := by
  obtain ⟨c, w₀, hstart, hopened⟩ := hp.start_opens hrow hcheck timeout
  obtain ⟨final, hknows⟩ := Option.ne_none_iff_exists'.1 ((hopened.knows_iff hp.toInMemory).2 hfinal)
  have hrecorded : ∃ f, records.ledger process key w final = some f ∧ f.isFinal = true :=
    MemoryStore.findFinal_eq_some ((hopened.recordedFinal_eq hp.toInMemory).symm.trans hknows)
  obtain ⟨rfl, rfl⟩ := And.intro hopened.process_eq hopened.key_eq
  have hledger := hopened.ledger_eq hp.toInMemory c.process c.key
  obtain ⟨id, w₁, hmissing, hstop, hsame₁⟩ :=
    hsettled.stopped hp hleft hgap hknows hopened.stands hledger
  obtain ⟨w', hsame, hall⟩ := ha.ends hp hstart hstop
  have hrecords := (hsame.trans hsame₁).trans (hopened.records_eq hp.toInMemory)
  exact ⟨id, final, hmissing, hrecorded, w', hrecords, hall⟩

/-- **An attempt of another instance** spares this one, if its program does. -/
theorem Provider.Bare.runProcess_spares [EngineFailure β] (hp : p.Bare records stamps locks)
    {process' key' : String} (hother : ¬ (process = process' ∧ key = key'))
    {program : Context → Client ε β (Except β ρ)} (hguards : ∀ c, (program c).Within (Guards locks c))
    (hspares : ∀ c, (program c).Within (Spares records locks process key)) (timeout : Duration)
    (settings : List Setting) (w : World ε) :
    Spares records locks process key w ((p.runProcess process' key' timeout settings
      fun c => (program c).act p.executor c).run w).2 := by
  have hstarting := (hp.start_spares hother timeout settings).run .refl .trans w
  rw [Provider.run_runProcess]
  cases hstart : (p.start process' key' timeout settings).run w with
  | mk o w₀ =>
    rw [hstart] at hstarting
    match o, hstart with
    | .crashed m, _ => exact hstarting
    | .value (.error e), _ => exact hstarting
    | .value (.ok c), hstart =>
      have hopened := hp.opened hstart
      have hdiffer : ¬ (process = c.process ∧ key = c.key) := by
        rw [hopened.process_eq, hopened.key_eq]
        exact hother
      have hbody : (p.runBody c fun c => (program c).act p.executor c).Steps
          (Spares records locks process key) :=
        ((Context.Does.client (T := fun _ => False) (hspares c)).runBody .refl).steps
          (hp.hosts_spares hdiffer) .refl (fun _ _ _ _ => ⟨rfl, rfl⟩) (fun _ _ => ⟨rfl, rfl⟩)
          (fun _ h => h.elim) fun _ _ h => h
      exact hstarting.trans (hp.conduct_steps_spares hdiffer (hp.opened_holds hopened)
        (hp.steps_client (hguards c)) hbody process' key')

/-- **What may go on meanwhile**: attempts of the plan, and attempts of other instances by programs that
    have nothing to do with this one. -/
inductive Provider.Meanwhile [EngineFailure β] (p : Provider ε) (records : Part ε MemoryStore)
    (locks : Part ε (LockTable RecordKey)) (process key : String) (plan : Plan β ρ) :
    World ε → World ε → Prop
  | nothing (w : World ε) : Meanwhile p records locks process key plan w w
  | again {w w' : World ε} {b : Attempt ε β ρ} (before : Meanwhile p records locks process key plan w w')
      (fair : b.Of records locks plan) :
      Meanwhile p records locks process key plan w ((b.act p process key).run w').2
  | other {w w' : World ε} {β' ρ' : Type} [EngineFailure β'] {process' key' : String} {timeout : Duration}
      {settings : List Setting} {program : Context → Client ε β' (Except β' ρ')}
      (before : Meanwhile p records locks process key plan w w')
      (different : ¬ (process = process' ∧ key = key')) (guards : ∀ c, (program c).Within (Guards locks c))
      (spares : ∀ c, (program c).Within (Spares records locks process key)) :
      Meanwhile p records locks process key plan w ((p.runProcess process' key' timeout settings
        fun c => (program c).act p.executor c).run w').2

/-- No record is lost meanwhile, and no lock is left behind. -/
theorem Provider.Meanwhile.keeps [EngineFailure β] (hp : p.Bare records stamps locks) {w' : World ε}
    (h : p.Meanwhile records locks process key plan w w') :
    (records.ledger process key w).Grows (records.ledger process key w') ∧
      (locks.lockRow process key w = none → locks.lockRow process key w' = none) := by
  induction h with
  | nothing => exact ⟨.refl _, fun hrow => hrow⟩
  | @again w' b before fair ih =>
    obtain ⟨hgrows, hunlocked⟩ := ih
    exact ⟨hgrows.trans (fair.grows hp process key w'), fun hrow =>
      hp.runProcess_unlocked (fair.guards hp) (hunlocked hrow) b.timeout b.settings⟩
  | @other w' _ _ _ process' key' timeout settings program before different guards spares ih =>
    obtain ⟨hgrows, hunlocked⟩ := ih
    have hspared := hp.runProcess_spares different guards spares timeout settings w'
    refine ⟨?_, fun hrow => hspared.row.trans (hunlocked hrow)⟩
    rw [hspared.ledger]
    exact hgrows

/-- **What retention finds and leaves of a finished process**: all records settle its plan, those that are
    left are not older than some moment, and the instance is unlocked. -/
theorem Attempt.Of.cleaned [EngineFailure β] (ha : a.Of records locks plan) (hp : p.Bare records stamps locks)
    {r : ρ} {w₁ w₂ w₃ : World ε} (hfinished : (a.act p process key).run w = (.value (.ok r), w₁))
    (hmeanwhile : p.Meanwhile records locks process key plan w₁ w₂) {config : CleanupConfig} {now : Instant}
    (hcleaned : ((config.cleanUp (.memory records locks) now).run w₂).2 = w₃) :
    plan.Settled (records.ledger process key w₂) r [] false ∧ locks.lockRow process key w₃ = none ∧
      ∃ before, records.ledger process key w₃ = (records.ledger process key w₂).since before := by
  obtain ⟨-, hsettled, hrow⟩ := ha.settled hp hfinished
  obtain ⟨hgrows, hunlocked⟩ := hmeanwhile.keeps hp
  obtain ⟨before, hrecords, hlocks⟩ := CleanupConfig.cleanUp_leaves hp.apart config now w₂
  rw [hcleaned] at hrecords hlocks
  refine ⟨hsettled.grows hgrows, hlocks process key (hunlocked hrow), before, ?_⟩
  rw [Part.ledger, hrecords, MemoryStore.ledger_since]
  rfl

/-- **Retrying a finished process after retention.**  An attempt has returned a value; others may have been
    made since; then retention has run, however it was configured and ended.  What it leaves of the
    instance is what is not older than some moment.  Whatever the bodies of a retry:
    * if that still settles the plan, the retry returns the value and makes no record;
    * if a final record is left but the plan is not settled, a record on its way is missing, and the
      retry is refused at such a gap, without running a body or making a record;
    * if no final record is left, the process is started as one that has not been finished, and none of
      its phases is refused for a final one.  If the final record was the youngest, nothing is left of
      the instance. -/
theorem retry_after_cleanUp [EngineFailure β] (hp : p.Bare records stamps locks)
    (ha : a.Of records locks plan) {r : ρ} {w₁ w₂ w₃ : World ε}
    (hfinished : (a.act p process key).run w = (.value (.ok r), w₁))
    (hmeanwhile : p.Meanwhile records locks process key plan w₁ w₂) (config : CleanupConfig) (now : Instant)
    (hcleaned : ((config.cleanUp (.memory records locks) now).run w₂).2 = w₃) (timeout : Duration)
    {settings : List Setting} (hcheck : Provider.checkStart process key settings = .ok ()) :
    (∃ before, records.ledger process key w₃ = (records.ledger process key w₂).since before) ∧
    (plan.Settled (records.ledger process key w₃) r [] false →
      plan.ComesTo p records process key timeout settings w₃ (.ok r)) ∧
    ((records.ledger process key w₃).Final → ¬ plan.Settled (records.ledger process key w₃) r [] false →
      ∃ id final, (records.ledger process key w₂ id ≠ none ∧ records.ledger process key w₃ id = none) ∧
        (∃ f, records.ledger process key w₃ final = some f ∧ f.isFinal = true) ∧
        plan.ComesTo p records process key timeout settings w₃
          (.error (ofError (.assertion (.finalPhaseRecorded process id final))))) ∧
    (¬ (records.ledger process key w₃).Final →
      (∃ c w₄, (p.start process key timeout settings).run w₃ = (.value (.ok c), w₄) ∧
        records.get w₄.env = records.get w₃.env ∧
        ∀ {γ : Type} (ph : Phase) (codec : Codec γ) (body : Action ε (Except β γ)) w w' answer,
          (p.executor.execute c ph (Context.erase ph codec body)).run w = (.value answer, w') →
          NotRefused answer.1) ∧
      ((∃ final f, records.ledger process key w₂ final = some f ∧ f.isFinal = true ∧
          ∀ id r, records.ledger process key w₂ id = some r → r.createdAt ≤ f.createdAt) →
        ∀ id, records.ledger process key w₃ id = none)) := by
  obtain ⟨hsettled, hrow, before, hledger⟩ := ha.cleaned hp hfinished hmeanwhile hcleaned
  have hleft : (records.ledger process key w₃).Grows (records.ledger process key w₂) := by
    rw [hledger]
    exact Ledger.since_grows _ before
  refine ⟨⟨before, hledger⟩, fun hall => ?_, fun hfinal hgap => ?_, fun hnot => ⟨?_, fun hyoungest => ?_⟩⟩
  · exact ha.replayed hp hall hrow timeout hcheck
  · exact ha.stopped hp hsettled hleft hfinal hgap hrow timeout hcheck
  · obtain ⟨c, w₄, hstart, hopened⟩ := hp.start_opens hrow hcheck timeout
    have hfresh : c.recordedFinal = none := by
      false_or_by_contra
      next hknows => exact hnot ((hopened.knows_iff hp.toInMemory).1 hknows)
    refine ⟨c, w₄, hstart, hopened.records_eq hp.toInMemory, fun ph codec body w w' answer hrun => ?_⟩
    have hgives := (hp.execute_gives hfresh ph codec body).run (s := w) trivial
    rw [hrun] at hgives
    exact hgives.2 answer rfl
  · rw [hledger] at hnot ⊢
    exact Ledger.since_eq_none hnot hyoungest

end

/-! ## A record a day -/

/-- Records, locks, and the day, on which no second record is made. -/
abbrev Register : Type := (MemoryStore × LockTable RecordKey) × Nat

namespace Register

/-- The records. -/
def recordsPart : Part Register MemoryStore where
  get e := Archive.records.get e.1
  set s e := (Archive.records.set s e.1, e.2)

/-- The locks. -/
def locksPart : Part Register (LockTable RecordKey) where
  get e := Archive.locks.get e.1
  set t e := (Archive.locks.set t e.1, e.2)

/-- The day, which passes when it is asked for. -/
def stamps : Action Register Instant :=
  Process.atomically fun w => (Archive.day w.env.2, { w with env := (w.env.1, w.env.2 + 1) })

/-- A provider that reads the times of its records off the days. -/
def provider : Provider Register where
  locks := LockTable.adapter locksPart
  store := MemoryStore.adapter recordsPart stamps
  clock := pure .epoch

theorem apart : recordsPart.Apart locksPart := ⟨fun _ _ => rfl, fun _ _ => rfl⟩

theorem bare_provider : provider.Bare recordsPart stamps locksPart where
  store := rfl
  quiet_stamps := .atomically fun _ => ⟨rfl, rfl, fun _ => rfl⟩
  quiet_clock := .pure _
  obtained := LockTable.quiet_obtain apart
  released := LockTable.quiet_release apart
  faithful := fun _ hi => nomatch hi
  extensions := rfl
  locking := rfl
  apart := apart
  clock_locks := trivial
  stamps_locks := .atomically fun _ => rfl

/-- A final phase after one that is not, both with empty bodies. -/
def transfer : Attempt Register Error Unit where
  timeout := .ofSeconds 5
  settings := []
  script _ := .phase { id := "reserve" } .unit (.done (.ok ())) fun _ =>
    .phase { id := "charge", isFinal := true } .unit (.done (.ok ())) fun _ => .answer (.ok ())

/-- The bodies of the transfer do nothing at all. -/
theorem within_transfer (S : World Register → World Register → Prop) (c : Context) :
    (transfer.script c).Within S := ⟨trivial, fun _ => ⟨trivial, fun _ => trivial⟩⟩

theorem of_transfer : transfer.Of recordsPart locksPart Desk.transfer where
  plan _ := rfl
  within c := within_transfer _ c

/-- The first day. -/
def fresh : World Register := { env := (default, 1) }

/-- The transfer has been made. -/
def finished : World Register := ((transfer.act provider "transfer" "req-42").run fresh).2

theorem run_finished : (transfer.act provider "transfer" "req-42").run fresh = (.value (.ok ()), finished) :=
  Prod.ext (Outcome.answer?_eq_some (by decide +kernel)) rfl

theorem entries_finished : (recordsPart.get finished.env).entries =
    [(⟨"transfer", "req-42", "charge"⟩, ⟨"null", true, Archive.day 2⟩),
      (⟨"transfer", "req-42", "reserve"⟩, ⟨"null", false, Archive.day 1⟩)] := by decide +kernel

/-- No more than one record may be removed. -/
theorem horizon_single :
    Archive.single.horizon (recordsPart.get finished.env) (Archive.day 30) = Archive.day 2 := by
  have hordered : ¬ Archive.day 2 ≤ Archive.day 1 := by decide +kernel
  have hdue : Archive.day 2 < Archive.day 30 := by decide +kernel
  have hsecond : (recordsPart.get finished.env).nthOldest Archive.single.firstBeyond =
      some (Archive.day 2) := by
    have hbeyond : Archive.single.firstBeyond = 2 := by decide +kernel
    rw [hbeyond, MemoryStore.nthOldest, MemoryStore.byAge, entries_finished]
    simp [List.mergeSort, List.MergeSort.Internal.splitInTwo, hordered]
  rw [CleanupConfig.horizon, hsecond]
  simp only [CleanupConfig.threshold, if_pos hdue]

/-- **A finished process that is retried after retention is refused**, where retention has taken its first
    record and left the final one. -/
theorem finished_retry_refused : ∃ w id final,
    (transfer.act provider "transfer" "req-42").run fresh = (.value (.ok ()), finished) ∧
    Archive.single.check = .ok () ∧
    (∃ report, (Archive.single.cleanUp (.memory recordsPart locksPart) (Archive.day 60)).run finished =
      (.value (.ok report), w)) ∧
    ((transfer.act provider "transfer" "req-42").run w).1 =
      .value (.error (.assertion (.finalPhaseRecorded "transfer" id final))) := by
  have hretained : (Archive.day 60).subtract? Archive.single.retention = some (Archive.day 30) := by
    decide +kernel
  have hconfig : Archive.single.check = .ok () := rfl
  have hcheck : Provider.checkStart "transfer" "req-42" transfer.settings = .ok () :=
    (of_transfer.settled bare_provider run_finished).1
  obtain ⟨report, w, hcleaned, hrecords, -⟩ :=
    CleanupConfig.cleanUp_horizon apart hconfig hretained finished
  rw [horizon_single] at hrecords
  have hget : ∀ id, recordsPart.ledger "transfer" "req-42" w id =
      ((recordsPart.get finished.env).since (Archive.day 2)).get? ⟨"transfer", "req-42", id⟩ := by
    intro id
    rw [← hrecords]
    rfl
  have hreserve : recordsPart.ledger "transfer" "req-42" w "reserve" = none := by
    rw [hget]
    decide +kernel
  have hcharge : recordsPart.ledger "transfer" "req-42" w "charge" = some ⟨"null", true, Archive.day 2⟩ := by
    rw [hget]
    decide +kernel
  have hgap : ¬ Desk.transfer.Settled (recordsPart.ledger "transfer" "req-42" w) () [] false := by
    intro hsettled
    cases hsettled with
    | phase check new there rest =>
      obtain ⟨r, hr, -⟩ := there
      rw [hreserve] at hr
      cases hr
  obtain ⟨hsettled, hrow, before, hledger⟩ := of_transfer.cleaned bare_provider run_finished
    (.nothing finished) (congrArg Prod.snd hcleaned)
  have hleft : (recordsPart.ledger "transfer" "req-42" w).Grows
      (recordsPart.ledger "transfer" "req-42" finished) := by
    rw [hledger]
    exact Ledger.since_grows _ before
  obtain ⟨id, final, -, -, w', -, hrefused⟩ := of_transfer.stopped bare_provider hsettled hleft
    ⟨_, _, hcharge, rfl⟩ hgap hrow (.ofSeconds 5) hcheck
  exact ⟨w, id, final, run_finished, hconfig, ⟨report, hcleaned⟩,
    congrArg Prod.fst (hrefused transfer.script fun _ => rfl)⟩

/-- Another transfer has been made since. -/
def later : World Register :=
  ((provider.runProcess "transfer" "req-43" (.ofSeconds 5) [] fun c =>
    (transfer.script c).client.act provider.executor c).run finished).2

/-- **A finished process that is retried when all of it is gone starts as a new one.** -/
theorem retry_after_cleanUp_gone : ∃ w c w',
    (transfer.act provider "transfer" "req-42").run fresh = (.value (.ok ()), finished) ∧
    provider.Meanwhile recordsPart locksPart "transfer" "req-42" Desk.transfer finished later ∧
    ((CleanupConfig.cleanUp {} (.memory recordsPart locksPart) (Archive.day 60)).run later).2 = w ∧
    (provider.start "transfer" "req-42" (.ofSeconds 5) []).run w = (.value (.ok c), w') ∧
    ∀ id, recordsPart.ledger "transfer" "req-42" w id = none := by
  have hother : ¬ ("transfer" = "transfer" ∧ "req-42" = "req-43") := by decide
  have hmeanwhile :
      provider.Meanwhile recordsPart locksPart "transfer" "req-42" Desk.transfer finished later :=
    .other (.nothing finished) hother (fun c => Script.within_client (within_transfer _ c))
      fun c => Script.within_client (within_transfer _ c)
  have hcheck : Provider.checkStart "transfer" "req-42" transfer.settings = .ok () :=
    (of_transfer.settled bare_provider run_finished).1
  have hretained : (Archive.day 60).subtract? (CleanupConfig.retention {}) = some (Archive.day 30) := by
    decide +kernel
  obtain ⟨report, w, hcleaned, hrecords, -⟩ :=
    CleanupConfig.cleanUp_horizon apart (rfl : CleanupConfig.check {} = .ok ()) hretained later
  -- There are fewer records than may be removed, and all of them are due.
  have hhorizon : CleanupConfig.horizon {} (recordsPart.get later.env) (Archive.day 30) = Archive.day 30 := by
    have hfew : (recordsPart.get later.env).size < CleanupConfig.firstBeyond {} := by decide +kernel
    rw [CleanupConfig.horizon, MemoryStore.nthOldest_eq_none hfew]
    rfl
  have hempty : ((recordsPart.get later.env).since (Archive.day 30)).entries = [] := by decide +kernel
  have hgone : ∀ id, recordsPart.ledger "transfer" "req-42" w id = none := by
    intro id
    rw [hhorizon] at hrecords
    rw [Part.ledger, hrecords, MemoryStore.ledger, Table.get?, hempty]
    rfl
  have hnot : ¬ (recordsPart.ledger "transfer" "req-42" w).Final := by
    rintro ⟨id, r, hr, -⟩
    rw [hgone] at hr
    cases hr
  obtain ⟨-, -, -, hfresh⟩ := retry_after_cleanUp bare_provider of_transfer run_finished hmeanwhile {}
    (Archive.day 60) (congrArg Prod.snd hcleaned) (.ofSeconds 5) hcheck
  obtain ⟨⟨c, w', hstart, -⟩, -⟩ := hfresh hnot
  exact ⟨w, c, w', run_finished, hmeanwhile, congrArg Prod.snd hcleaned, hstart, hgone⟩

end Register

end Idempotence
