/-
  Records of success — what the success of a whole process says of its records.

  1. **Calls** — `Client.calls` lists the calls of a client in one run of it: the phase, the worlds
     before and after, and whether the caller got a value.  `Provider.calls` puts the empty final
     phase behind them where it is run.

  2. **Fruitless calls** — leaving a final phase completes the process, however the phase ended.  So a
     final phase may be left without a final record: where it failed and the body went on all the
     same, or where it replayed a record that had been stored as one that is not final.  That is a
     `Call.Fruitless`.

  3. **The result** (`success_is_final`) — if a whole process succeeds, then either one of its calls
     was fruitless, or an extension's were, or there is a final record; and then no context that starts
     later runs the body of a phase that has no record.  `success_without_final_record` shows that the
     first case occurs.

  4. **The crux** — a context keeps its PROMISE if it has left a final phase only where there is a
     final record.  One call breaks the promise only by being fruitless (`Context.Called.promised`),
     and a successful process has left a final phase in the end.  Hooks that call no phase keep the
     promise (`start_promised`).
-/
import Idempotence.Proofs.FrozenInstances

namespace Idempotence

variable {ε α β γ : Type}

/-! ## Calls -/

/-- **A call in a run**: the worlds before and after it, and whether the caller got a value. -/
structure Call (ε : Type) where
  phase : Phase
  before : World ε
  after : World ε
  answered : Bool

/-- **The calls of a client** in its run from a world, those inside of phases left out: they are all
    refused. -/
def Client.calls [EngineFailure β] (x : Executor ε) (c : Context) {α : Type} :
    Client ε β α → World ε → List (Call ε)
  | .done _, _ => []
  | .crash _, _ => []
  | .step effect resume, w => (resume w).calls x c (effect w)
  | .call phase codec body resume, w =>
    let r := (c.run x phase codec (body.act x c)).run w
    ⟨phase, w, r.2, r.1.answer?.isSome⟩ :: (resume r.1).calls x c r.2

/-- **The calls of a whole process** once it has started: those of its body and, where the body has
    succeeded without a final phase, the empty final phase. -/
def Provider.calls [EngineFailure β] (p : Provider ε) (c : Context) (body : Client ε β (Except β α))
    (w : World ε) : List (Call ε) :=
  body.calls p.executor c w ++ match (body.act p.executor c).run w with
    | (.value (.ok _), w₁) =>
      if (w₁.context c.id).wasFinal then []
      else
        let complete : Client ε β (Outcome (Except β Unit)) :=
          .call { id := autoFinal, isFinal := true } .unit (.done (.ok ())) .done
        complete.calls p.executor c w₁
    | _ => []

section

variable (records : Part ε MemoryStore) (c : Context)

/-- **A final phase that came to nothing**: it was entered, and when it had been left there was no
    final record.  If the caller got a value all the same, it was read from a record that had been
    stored as one that is not final. -/
structure Call.Fruitless (call : Call ε) : Prop where
  final : call.phase.isFinal = true
  entered : ∃ s, c.permit call.phase call.before = .ok s
  unfinished : ¬ (records.ledger c.process c.key call.after).Final
  replayed : call.answered = true →
    ∃ r, records.ledger c.process c.key call.after call.phase.id = some r ∧ r.isFinal = false

/-- **The promise of a context**: a final phase has been left only if there is a final record. -/
def Context.Promised (w : World ε) : Prop :=
  (w.context c.id).wasFinal = true → (records.ledger c.process c.key w).Final

end

/-! ## Keeping the promise -/

variable {records : Part ε MemoryStore} {c : Context} {w w' : World ε}

/-- Whoever got no value did not get one. -/
theorem Outcome.answer?_eq_none {o : Outcome (Except β α)} (h : ∀ a, o ≠ .value (.ok a)) :
    o.answer? = none := by
  cases ha : o.answer? with
  | none => rfl
  | some a => exact absurd (answer?_eq_some ha) (h a)

/-- Steps beside a context keep its promise. -/
theorem Context.Promised.beside (h : c.Promised records w) (hready : c.Ready w)
    (hw : Beside Ledger.Grows records c w w') : c.Promised records w' := by
  intro hfinal
  rw [ContextState.wasFinal_eq (hw.bare hready.created)] at hfinal
  exact hw.ledger.final (h hfinal)

/-- **One call** keeps the promise, or it is fruitless. -/
theorem Context.Called.promised [EngineFailure β] {phase : Phase} {codec : Codec γ}
    {o : Outcome (Except β γ)} (h : c.Called Ledger.Grows records phase codec w o w')
    (hready : c.Ready w) (hpromised : c.Promised records w) :
    c.Promised records w' ∨ Call.Fruitless records c ⟨phase, w, w', o.answer?.isSome⟩ := by
  rcases h.refused_or_left Ledger.keeping_grows with ⟨rfl, -⟩ | ⟨s, w₁, hpermit, hsteps, rfl⟩
  · exact .inl hpromised
  by_cases hfinal : (records.ledger c.process c.key (w₁.modifyContext c.id (·.leave phase))).Final
  · exact .inl fun _ => hfinal
  cases hphase : phase.isFinal with
  | false =>
    refine .inl fun hwas => ?_
    rw [Context.wasFinal_leave hready hpermit hsteps, hphase] at hwas
    cases hwas
  | true =>
    refine .inr ⟨hphase, ⟨s, hpermit⟩, hfinal, fun hanswered => ?_⟩
    generalize w₁.modifyContext c.id (·.leave phase) = w₂ at h hfinal
    cases h with
    | refused permit =>
      rw [permit] at hpermit
      cases hpermit
    | failed permit steps failure =>
      rw [Outcome.answer?_eq_none failure] at hanswered
      cases hanswered
    | @reread s w₂ r permit steps there =>
      refine ⟨r, there, ?_⟩
      cases hr : r.isFinal with
      | false => rfl
      | true => exact absurd ⟨phase.id, r, there, hr⟩ hfinal
    | @recorded s w₂ w₃ r v permit steps fresh free final written quiet =>
      refine absurd ⟨phase.id, r, ?_, final.trans hphase⟩ hfinal
      show records.ledger c.process c.key w₃ phase.id = some r
      rw [quiet.ledger, Part.ledger_store, Ledger.put, if_pos rfl]

/-- **A client** keeps the promise, or one of its calls is fruitless. -/
theorem Client.promised [EngineFailure β] {x : Executor ε} (hx : x.Sound records)
    {client : Client ε β α} (hclient : client.Within (Beside Ledger.Grows records c))
    (hready : c.Ready w) (hpromised : c.Promised records w) :
    c.Promised records ((client.act x c).run w).2 ∨
      ∃ call ∈ client.calls x c w, call.Fruitless records c := by
  induction client generalizing w with
  | done a => exact .inl hpromised
  | crash m => exact .inl hpromised
  | step e k ih =>
    have hstep := hclient.1 w
    exact ih w (hclient.2 w) (hready.beside hstep) (hpromised.beside hready hstep)
  | call phase codec body k _ ih =>
    rw [run_call]
    have hcall := called Ledger.keeping_grows hx hclient.1 hready.created
      (Prod.eta ((c.run x phase codec (body.act x c)).run w))
    rcases hcall.promised hready hpromised with h | h
    · have hready' := ((course_grows records c Ledger.keeping_grows).called hready hcall).1
      rcases ih _ (hclient.2 _) hready' h with h | ⟨call, hmem, h⟩
      · exact .inl h
      · exact .inr ⟨call, List.mem_cons_of_mem _ hmem, h⟩
    · exact .inr ⟨_, List.mem_cons_self .., h⟩

/-! ## Whole processes -/

variable {p : Provider ε} {stamps : Action ε Instant} {process key : String} {timeout : Duration}
  {settings : List Setting}

/-- **The empty final phase** makes a final record, or its call is fruitless. -/
theorem complete_promised [EngineFailure β] (hp : p.InMemory records stamps) {w₁ w₂ : World ε}
    (hready : c.Ready w₁) (hpromised : c.Promised records w₁)
    (h : (p.complete c : Action ε (Except β Unit)).run w₁ = (.value (.ok ()), w₂)) :
    (records.ledger c.process c.key w₂).Final ∨ ((w₁.context c.id).wasFinal = false ∧
      Call.Fruitless records c ⟨{ id := Provider.autoFinal, isFinal := true }, w₁, w₂, true⟩) := by
  rw [Provider.run_complete] at h
  split at h
  · rename_i hwas
    cases h
    exact .inl (hpromised hwas)
  · rename_i hwas
    have hbody : (Client.done (.ok ()) : Client ε β (Except β Unit)).Within
        (Beside Ledger.Grows records c) := trivial
    have hcall := Client.called Ledger.keeping_grows hp.sound hbody hready.created h
    rcases hcall.promised hready hpromised with hpromised' | hfruitless
    · -- The call has a value, so its phase was entered and has been left.
      refine .inl (hpromised' ?_)
      rcases hcall.refused_or_left Ledger.keeping_grows with ⟨-, e, he⟩ | ⟨s, w₃, hpermit, hsteps, rfl⟩
      · cases he
      · exact Context.wasFinal_leave hready hpermit hsteps
    · exact .inr ⟨by simpa using hwas, hfruitless⟩

/-- **Hooks that call no phase** leave no final phase. -/
theorem introduce_wasFinal
    (hhooks : ∀ i ∈ p.interceptors, ∀ x, (i.created x c).Steps (Beside Ledger.Grows records c))
    {w₀ : World ε} (hready : c.Ready w₀) (hwas : (w₀.context c.id).wasFinal = false) {c' : Context}
    (h : (p.introduce c).run w₀ = (.value (.ok c'), w')) : (w'.context c.id).wasFinal = false := by
  have hcreated : ∀ extensions : List (Interceptor ε),
      (∀ i ∈ extensions, ∀ x, (i.created x c).Steps (Beside Ledger.Grows records c)) →
      (Provider.runCreated p.executor c extensions).Preserves
        (fun w => c.id < w.contexts.length ∧ (w.context c.id).wasFinal = false) fun _ _ => True := by
    intro extensions
    induction extensions with
    | nil => exact fun _ => .pure (fun _ => trivial) _
    | cons i rest ih =>
      intro hhooks
      refine .bind (fun _ _ _ _ _ => trivial) (fun w hw => ?_) fun answer => ?_
      · have hsteps := (hhooks i (List.mem_cons_self ..) p.executor).run
          (.refl Ledger.keeping_grows) (fun h h' => h.trans Ledger.keeping_grows h') w
        refine ⟨⟨Nat.lt_of_lt_of_le hw.1 hsteps.length, ?_⟩, trivial⟩
        rw [ContextState.wasFinal_eq (hsteps.bare hw.1)]
        exact hw.2
      · cases answer with
        | error e => exact .pure (fun _ => trivial) _
        | ok u =>
          refine .bind (fun _ _ _ _ _ => trivial) (.change fun w hw => ?_) fun _ =>
            ih fun j hj => hhooks j (List.mem_cons_of_mem _ hj)
          refine ⟨⟨by rw [World.length_modifyContext]; exact hw.1, ?_⟩, trivial⟩
          rw [World.context_modifyContext_self _ _ hw.1]
          exact hw.2
  obtain ⟨answer, w₁, hrun, h⟩ := Process.run_bind_eq_value h
  have hrun := Process.run_onCrash_eq_value hrun
  have hpreserved := (hcreated p.interceptors hhooks w₀ ⟨hready.created, hwas⟩).1
  rw [hrun] at hpreserved
  cases answer with
  | error e =>
    obtain ⟨_, _, -, h⟩ := Process.run_bind_eq_value h
    cases h
  | ok u =>
    cases h
    exact hpreserved.2

/-- **Starting late**: a context that starts where there is a final record runs no body of a phase
    that has no record, in whatever world the phase is called. -/
theorem start_late (hp : p.InMemory records stamps)
    (hfinal : (records.ledger process key w).Final)
    (hstart : (p.start process key timeout settings).run w = (.value (.ok c), w')) [EngineFailure β]
    (phase : Phase) (codec : Codec γ) (w₁ : World ε) :
    ∃ (answer : Except β γ) (w₂ : World ε),
      (∀ body : Action ε (Except β γ), (p.runPhase c phase codec body).run w₁ = (.value answer, w₂)) ∧
      ((∃ e, answer = .error (ofError e)) ∨
        ∃ r, records.ledger process key w₁ phase.id = some r ∧
          answer = Context.reread codec r.data) := by
  rcases Provider.start_cases hp hstart with ⟨-, ⟨e, he⟩, -⟩ | ⟨c', w₀, hopened, hrun⟩
  · cases he
  · obtain rfl := Provider.introduce_eq_ok hrun
    have hknows := (hopened.knows_iff hp).2 hfinal
    rw [← hopened.process_eq, ← hopened.key_eq]
    exact Context.run_idle hp.sound (.inr (.inl hknows))

/-- The empty final phase is among the calls where it is run. -/
theorem mem_calls_complete [EngineFailure β] {body : Client ε β (Except β α)} {a : α}
    {w₀ w₁ w₂ : World ε} (hbody : (body.act p.executor c).run w₀ = (.value (.ok a), w₁))
    (hwas : (w₁.context c.id).wasFinal = false)
    (hcomplete : (p.complete c : Action ε (Except β Unit)).run w₁ = (.value (.ok ()), w₂)) :
    ⟨{ id := Provider.autoFinal, isFinal := true }, w₁, w₂, true⟩ ∈ p.calls c body w₀ := by
  rw [Provider.run_complete, hwas] at hcomplete
  have hrun : (c.run p.executor { id := Provider.autoFinal, isFinal := true } .unit
      ((Client.done (.ok ()) : Client ε β (Except β Unit)).act p.executor c)).run w₁ =
      (.value (.ok ()), w₂) := hcomplete
  refine List.mem_append_right _ ?_
  simp only [hbody, hwas, Client.calls, hrun]
  exact List.mem_cons_self ..

/-- **Starting keeps the promise** where the hooks call no phase: nobody has left a final one yet. -/
theorem start_promised (hp : p.InMemory records stamps)
    (hhooks : ∀ i ∈ p.interceptors, ∀ x c, (i.created x c).Steps (Beside Ledger.Grows records c))
    (hstart : (p.start process key timeout settings).run w = (.value (.ok c), w')) :
    c.Promised records w' := by
  rcases Provider.start_cases hp hstart with ⟨-, ⟨e, he⟩, -⟩ | ⟨c', w₀, hopened, hrun⟩
  · cases he
  obtain rfl := Provider.introduce_eq_ok hrun
  obtain ⟨-, handle, hstate⟩ := hopened.context_eq
  have hwas := introduce_wasFinal (fun i hi x => hhooks i hi x c) hopened.ready (by rw [hstate]) hrun
  intro hfinal
  rw [hwas] at hfinal
  cases hfinal

/-- **A successful attempt**: one of its calls is fruitless, or there is a final record. -/
theorem conduct_promised [EngineFailure β] (hp : p.InMemory records stamps)
    {body : Context → Client ε β (Except β α)}
    (hbody : (body c).Within (Beside Ledger.Grows records c)) (hready : c.Ready w)
    (hpromised : c.Promised records w) {a : α}
    (h : (p.conduct process key c fun c => (body c).act p.executor c).run w = (.value (.ok a), w')) :
    (∃ call ∈ p.calls c (body c) w, call.Fruitless records c) ∨
      (records.ledger c.process c.key w').Final := by
  have hcourse := course_grows records c Ledger.keeping_grows
  obtain ⟨w₁, w₂, hrun, hcomplete, hclose⟩ := Provider.conduct_eq_ok h
  rcases Client.promised hp.sound hbody hready hpromised with hpromised₁ | ⟨call, hmem, hcall⟩
  · have hready₁ := (hcourse.client hp.sound hbody w hready).1
    rw [hrun] at hpromised₁ hready₁
    rcases complete_promised hp hready₁ hpromised₁ hcomplete with hfinal | ⟨hwas, hcall⟩
    · have hready₂ := (hcourse.complete hp w₁ hready₁ (β := β)).1
      rw [hcomplete] at hready₂
      have hgrows := (hcourse.close hp w₂ hready₂).2
      rw [hclose] at hgrows
      exact .inr (hgrows.final hfinal)
    · exact .inl ⟨_, mem_calls_complete hrun hwas hcomplete, hcall⟩
  · exact .inl ⟨call, List.mem_append_left _ hmem, hcall⟩

/-- **Success means durably finished**, but for final phases that came to nothing.  If a whole process
    succeeds, then one of its calls was fruitless, or an extension had broken the promise of the
    context when the instance started; or the store finds a final record, and then a context that
    starts in any later world runs no body of a phase that has no record, whenever and in whatever
    world the phase is called. -/
theorem success_is_final [EngineFailure β] (hp : p.InMemory records stamps)
    {body : Context → Client ε β (Except β α)}
    (hbody : ∀ c, (body c).Within (Beside Ledger.Grows records c)) {a : α}
    (h : (p.runProcess process key timeout settings fun c => (body c).act p.executor c).run w =
      (.value (.ok a), w')) :
    ∃ c w₀, (p.start process key timeout settings).run w = (.value (.ok c), w₀) ∧
      ((∃ call ∈ p.calls c (body c) w₀, call.Fruitless records c) ∨ ¬ c.Promised records w₀ ∨
        (∃ id, (p.store.findFinal process key).run w' = (.value (.ok (some id)), w')) ∧
        ∀ (timeout : Duration) (settings : List Setting) (later w₁ w₂ : World ε) (c' : Context),
          (records.ledger process key w').Grows (records.ledger process key later) →
          (p.start process key timeout settings).run later = (.value (.ok c'), w₁) →
          ∀ {β γ : Type} [EngineFailure β] (phase : Phase) (codec : Codec γ),
            ∃ (answer : Except β γ) (w₃ : World ε),
              (∀ body : Action ε (Except β γ),
                (p.runPhase c' phase codec body).run w₂ = (.value answer, w₃)) ∧
              ((∃ e, answer = .error (ofError e)) ∨
                ∃ r, records.ledger process key w₂ phase.id = some r ∧
                  answer = Context.reread codec r.data)) := by
  rw [Provider.run_runProcess] at h
  cases hstart : (p.start process key timeout settings).run w with
  | mk o w₀ =>
    rw [hstart] at h
    match o, h, hstart with
    | .crashed m, h, _ => cases h
    | .value (.error e), h, _ => cases h
    | .value (.ok c), h, hstart =>
      refine ⟨c, w₀, rfl, ?_⟩
      obtain ⟨rfl, rfl, hready, -⟩ := (start_frozen hp hstart).2 c rfl
      by_cases hpromised : c.Promised records w₀
      · rcases conduct_promised hp (hbody c) hready hpromised h with hfruitless | hfinal
        · exact .inl hfruitless
        refine .inr (.inr ⟨?_, fun timeout settings later w₁ w₂ c' hgrows hstart' => ?_⟩)
        · obtain ⟨id, hid⟩ :=
            Option.isSome_iff_exists.1 ((MemoryStore.findFinal_isSome _ _ _).2 hfinal)
          refine ⟨id, ?_⟩
          rw [hp.store, ← hid]
          rfl
        · exact fun phase codec => start_late hp (hgrows.final hfinal) hstart' phase codec w₂
      · exact .inr (.inl hpromised)

/-! ## A success with a final record, and one without -/

namespace Desk

/-- Running a body as the process. -/
def handle (body : Client Desk Error (Except Error Unit)) : Action Desk (Except Error Unit) :=
  plain.runProcess "transfer" "req-42" (.ofSeconds 5) [] fun c => body.act plain.executor c

/-- A body without a phase. -/
def idle : Client Desk Error (Except Error Unit) := .done (.ok ())

/-- A body that succeeds although its final phase has failed. -/
def careless : Client Desk Error (Except Error Unit) :=
  .call { id := "charge", isFinal := true } .unit (.done (.error (.misuse "declined"))) fun _ =>
    .done (.ok ())

/-- A body that fails after a phase that is not final. -/
def interrupted : Client Desk Error (Except Error Unit) :=
  .call { id := "charge" } .unit (.done (.ok ())) fun _ => .done (.error (.misuse "interrupted"))

/-- A body to which the phase of `interrupted` is final. -/
def relabelled : Client Desk Error (Except Error Unit) :=
  .call { id := "charge", isFinal := true } .unit (.done (.ok ())) fun _ => .done (.ok ())

end Desk

open Desk in
/-- A body without a phase succeeds, and a final phase has been recorded behind it. -/
theorem success_is_final_idle : ∃ w, (handle idle).run fresh = (.value (.ok ()), w) ∧
    ∃ id, (plain.store.findFinal "transfer" "req-42").run w = (.value (.ok (some id)), w) := by
  have hrun : (handle idle).run fresh = (.value (.ok ()), ((handle idle).run fresh).2) :=
    Prod.ext (Outcome.answer?_eq_some (by decide +kernel)) rfl
  refine ⟨_, hrun, ?_⟩
  have hbody : ∀ c : Context, idle.Within (Beside Ledger.Grows recordsPart c) := fun _ => trivial
  obtain ⟨c, w₀, hstart, ⟨call, hmem, hcall⟩ | hbroken | ⟨hfinal, -⟩⟩ :=
    success_is_final inMemory_plain hbody hrun
  · -- The only call is that of the empty final phase, and there is its record.
    let started := (plain.start "transfer" "req-42" (.ofSeconds 5) []).run fresh
    have hc : c = started.1.answer?.getD default := by simp only [started, hstart]; rfl
    have hw₀ : w₀ = started.2 := by simp only [started, hstart]
    have hcalls : ∀ call ∈ plain.calls (started.1.answer?.getD default) idle started.2,
        ((recordsPart.get call.after.env).findFinal "transfer" "req-42").isSome = true := by
      decide +kernel
    obtain ⟨hprocess, hkey, -⟩ := (start_frozen inMemory_plain hstart).2 c rfl
    rw [hc, hw₀] at hmem
    refine absurd ?_ hcall.unfinished
    rw [hprocess, hkey]
    exact (MemoryStore.findFinal_isSome _ _ _).1 (hcalls call hmem)
  · exact absurd (start_promised inMemory_plain (fun _ hi => nomatch hi) hstart) hbroken
  · exact hfinal

open Desk in
/-- **Success without a final record**: the final phase failed and the body went on; or it replayed a
    record that had been stored as one that is not final. -/
theorem success_without_final_record :
    (∃ w, (handle careless).run fresh = (.value (.ok ()), w) ∧
      (plain.store.findFinal "transfer" "req-42").run w = (.value (.ok none), w)) ∧
    ∃ w, (handle relabelled).run ((handle interrupted).run fresh).2 = (.value (.ok ()), w) ∧
      (plain.store.findFinal "transfer" "req-42").run w = (.value (.ok none), w) := by
  have hfind : ∀ {w : World Desk}, (recordsPart.get w.env).findFinal "transfer" "req-42" = none →
      (plain.store.findFinal "transfer" "req-42").run w = (.value (.ok none), w) := by
    intro w hnone
    show (Outcome.value (Except.ok ((recordsPart.get w.env).findFinal "transfer" "req-42")), w) = _
    rw [hnone]
  constructor
  · exact ⟨_, Prod.ext (Outcome.answer?_eq_some (by decide +kernel)) rfl, hfind (by decide +kernel)⟩
  · exact ⟨_, Prod.ext (Outcome.answer?_eq_some (by decide +kernel)) rfl, hfind (by decide +kernel)⟩

end Idempotence
