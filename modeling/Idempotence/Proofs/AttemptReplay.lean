/-
  Replay of attempts — attempt after attempt of one deterministic process.

  1. **Plans and scripts** — a `Plan` chooses its next phase, or its result, by the outputs that it
     has seen, and passes on every error.  It leaves open what the phases do: a `Script` is a plan
     together with bodies, and every attempt may bring its own (`Attempt`).  The values of a phase are
     written and read by a `Format`, whose reading undoes its writing.

  2. **The result** (`resume_and_replay`) — take any sequence of attempts of one plan.  No record
     is ever lost or changed; an attempt depends only on those of its bodies whose phases have no
     record; every output that it sees is the reading of the record; and once an attempt has returned
     a value, every later one returns that value, whatever its bodies, and leaves the store as it is.

  3. **The crux** — a plan is SETTLED by a ledger if it finds its whole way to a value in there: every
     phase on the way may be entered where it comes, its record is there and can be read, and so is
     the record of the empty final phase if the way ends without a final one.  An attempt that returns
     a value has settled its plan (`Script.settled`), records are never lost, and a settled plan is
     replayed without a body (`Plan.Settled.replayed`).
-/
import Idempotence.Proofs.FrozenInstances
import Idempotence.Proofs.InstanceLocks

namespace Idempotence

variable {ε β γ ρ : Type}

/-! ## Plans and scripts -/

/-- **A format**: a codec whose reading undoes its writing. -/
structure Format (γ : Type) extends Codec γ where
  undoes : ∀ {v text}, encode v = .ok text → decode text = .ok v

/-- The format of the empty value. -/
def Format.unit : Format Unit where
  toCodec := .unit
  undoes h := by
    cases h
    rfl

/-- **A deterministic process**: its next phase and its result depend on the outputs seen so far. -/
inductive Plan (β ρ : Type) : Type 1 where
  | answer (a : Except β ρ)
  | phase {γ : Type} (phase : Phase) (format : Format γ) (next : γ → Plan β ρ)

/-- **A plan with the bodies of its phases.** -/
inductive Script (ε β ρ : Type) : Type 1 where
  | answer (a : Except β ρ)
  | phase {γ : Type} (phase : Phase) (format : Format γ) (body : Client ε β (Except β γ))
      (next : γ → Script ε β ρ)

namespace Script

/-- The plan alone. -/
def plan : Script ε β ρ → Plan β ρ
  | answer a => .answer a
  | phase ph format _ next => .phase ph format fun v => (next v).plan

/-- **The program of a script**: it passes on every error and every crash of a phase. -/
def client : Script ε β ρ → Client ε β (Except β ρ)
  | answer a => .done a
  | phase ph format body next => .call ph format.toCodec body fun o => match o with
    | .value (.ok v) => (next v).client
    | .value (.error e) => .done (.error e)
    | .crashed m => .crash m

/-- **A script whose bodies keep to `S`.** -/
def Within (S : World ε → World ε → Prop) : Script ε β ρ → Prop
  | answer _ => True
  | phase _ _ body next => body.Within S ∧ ∀ v, (next v).Within S

/-- **Scripts of one plan** that have the same bodies but for phases that have a record. -/
inductive Agrees (l : Ledger) : Script ε β ρ → Script ε β ρ → Prop
  | answer (a : Except β ρ) : Agrees l (.answer a) (.answer a)
  | phase {γ : Type} (ph : Phase) (format : Format γ) {body body' : Client ε β (Except β γ)}
      {next next' : γ → Script ε β ρ} (same : l ph.id = none → body = body')
      (rest : ∀ v, Agrees l (next v) (next' v)) :
      Agrees l (.phase ph format body next) (.phase ph format body' next')

/-- **An output that a script sees** in its run from a world: the value of a phase, be it run or
    replayed. -/
inductive Sees [EngineFailure β] (p : Provider ε) (c : Context) {γ : Type} (ph : Phase)
    (format : Format γ) (v : γ) : Script ε β ρ → World ε → Prop
  | here {body : Client ε β (Except β γ)} {next : γ → Script ε β ρ} {w w' : World ε}
      (run : (p.runPhase c ph format.toCodec (body.act p.executor c)).run w = (.value (.ok v), w')) :
      Sees p c ph format v (.phase ph format body next) w
  | later {δ : Type} {ph' : Phase} {format' : Format δ} {body : Client ε β (Except β δ)}
      {next : δ → Script ε β ρ} {u : δ} {w w' : World ε}
      (run : (p.runPhase c ph' format'.toCodec (body.act p.executor c)).run w = (.value (.ok u), w'))
      (rest : Sees p c ph format v (next u) w') :
      Sees p c ph format v (.phase ph' format' body next) w

theorem Within.mono {S S' : World ε → World ε → Prop} (hS : ∀ {w w'}, S w w' → S' w w')
    {s : Script ε β ρ} (h : s.Within S) : s.Within S' := by
  induction s with
  | answer a => trivial
  | phase ph format body next ih => exact ⟨h.1.mono hS, fun v => ih v (h.2 v)⟩

theorem within_client {S : World ε → World ε → Prop} {s : Script ε β ρ} (h : s.Within S) :
    s.client.Within S := by
  induction s with
  | answer a => trivial
  | phase ph format body next ih =>
    rw [client]
    refine ⟨h.1, fun o => ?_⟩
    match o with
    | .value (.ok v) => exact ih v (h.2 v)
    | .value (.error e) => trivial
    | .crashed m => trivial

variable [EngineFailure β]

/-- A script that begins with a phase goes on from its value, and ends otherwise. -/
theorem run_phase (p : Provider ε) (c : Context) (ph : Phase) (format : Format γ)
    (body : Client ε β (Except β γ)) (next : γ → Script ε β ρ) (w : World ε) :
    ((phase ph format body next).client.act p.executor c).run w =
      match (p.runPhase c ph format.toCodec (body.act p.executor c)).run w with
      | (.value (.ok v), w') => ((next v).client.act p.executor c).run w'
      | (.value (.error e), w') => (.value (.error e), w')
      | (.crashed m, w') => (.crashed m, w') := by
  rw [client, Client.run_call]
  unfold Provider.runPhase
  cases (c.run p.executor ph format.toCodec (body.act p.executor c)).run w with
  | mk o w' =>
    match o with
    | .value (.ok v) => rfl
    | .value (.error e) => rfl
    | .crashed m => rfl

/-- A script that returns a value got one from its first phase. -/
theorem run_phase_eq_ok {p : Provider ε} {c : Context} {ph : Phase} {format : Format γ}
    {body : Client ε β (Except β γ)} {next : γ → Script ε β ρ} {w w₁ : World ε} {r : ρ}
    (h : ((phase ph format body next).client.act p.executor c).run w = (.value (.ok r), w₁)) :
    ∃ v w', (p.runPhase c ph format.toCodec (body.act p.executor c)).run w = (.value (.ok v), w') ∧
      ((next v).client.act p.executor c).run w' = (.value (.ok r), w₁) := by
  rw [run_phase] at h
  split at h
  · rename_i v w' hphase
    exact ⟨v, w', hphase, h⟩
  · cases h
  · cases h

end Script

/-- **An attempt**: when it gives up its lock, its settings, and its script. -/
structure Attempt (ε β ρ : Type) where
  timeout : Duration
  settings : List Setting
  script : Context → Script ε β ρ

/-- **Making an attempt.** -/
def Attempt.act [EngineFailure β] (p : Provider ε) (process key : String) (a : Attempt ε β ρ) :
    Action ε (Except β ρ) :=
  p.runProcess process key a.timeout a.settings fun c => (a.script c).client.act p.executor c

/-- **An attempt of a plan**: its bodies have nothing to do with the records and the lock of the
    instance. -/
structure Attempt.Of (records : Part ε MemoryStore) (locks : Part ε (LockTable RecordKey))
    (plan : Plan β ρ) (a : Attempt ε β ρ) : Prop where
  plan : ∀ c, (a.script c).plan = plan
  within : ∀ c, (a.script c).Within (Foreign locks records c)

/-- **The world after a sequence of attempts.** -/
def Provider.after [EngineFailure β] (p : Provider ε) (process key : String) :
    List (Attempt ε β ρ) → World ε → World ε
  | [], w => w
  | a :: rest, w => p.after process key rest ((a.act p process key).run w).2

/-! ## Settled plans -/

/-- The ledger has a record of the id, and the format reads the value off it. -/
def Ledger.Yields (l : Ledger) (id : String) (format : Format γ) (v : γ) : Prop :=
  ∃ r, l id = some r ∧ format.decode r.data = .ok v

theorem Ledger.Grows.yields {l l' : Ledger} (h : l.Grows l') {id : String} {format : Format γ} {v : γ}
    (hl : l.Yields id format v) : l'.Yields id format v :=
  have ⟨r, hr, hread⟩ := hl
  ⟨r, h id r hr, hread⟩

/-- **A plan that is settled** by a ledger, after the given phases have been visited and a final one
    has been left or not: the way to its value is in the records. -/
inductive Plan.Settled (l : Ledger) (r : ρ) : List String → Bool → Plan β ρ → Prop
  | final {visited : List String} : Settled l r visited true (.answer (.ok r))
  | completed {visited : List String} (new : Provider.autoFinal ∉ visited)
      (there : l.Yields Provider.autoFinal .unit ()) : Settled l r visited false (.answer (.ok r))
  | phase {visited : List String} {γ : Type} {ph : Phase} {format : Format γ} {next : γ → Plan β ρ}
      {v : γ} (check : Context.checkPhase ph = .ok ()) (new : ph.id ∉ visited)
      (there : l.Yields ph.id format v) (rest : Settled l r (ph.id :: visited) ph.isFinal (next v)) :
      Settled l r visited false (.phase ph format next)

/-- Records that come later make no difference. -/
theorem Plan.Settled.grows {l l' : Ledger} {r : ρ} {plan : Plan β ρ} {visited : List String}
    {wasFinal : Bool} (h : plan.Settled l r visited wasFinal) (hl : l.Grows l') :
    plan.Settled l' r visited wasFinal := by
  induction h with
  | final => exact .final
  | completed new there => exact .completed new (hl.yields there)
  | phase check new there rest ih => exact .phase check new (hl.yields there) ih

/-- **Where a context stands** between two phases. -/
structure Context.Stands (c : Context) (visited : List String) (wasFinal : Bool) (w : World ε) : Prop
    extends c.Ready w where
  visited_eq : (w.context c.id).visited = visited
  wasFinal_eq : (w.context c.id).wasFinal = wasFinal

/-- **A context of the same instance, later**: no record has been lost since the world `w`, and the context
    stands between two phases. -/
structure Context.Resumes (records : Part ε MemoryStore) (c : Context) (w : World ε) (c' : Context)
    (visited : List String) (w' : World ε) : Prop extends c'.Stands visited false w' where
  process_eq : c'.process = c.process
  key_eq : c'.key = c.key
  grows : (records.ledger c.process c.key w).Grows (records.ledger c.process c.key w')

section

variable {records : Part ε MemoryStore} {stamps : Action ε Instant} {locks : Part ε (LockTable RecordKey)}
  {p : Provider ε} {c : Context} {visited : List String} {wasFinal : Bool} {w w' : World ε}

/-- A context that has been opened stands at the beginning. -/
theorem Provider.Opened.stands {process key : String} {timeout : Duration} {settings : List Setting}
    (h : p.Opened records process key timeout settings w c w') : c.Stands [] false w' := by
  obtain ⟨-, handle, hstate⟩ := h.context_eq
  exact ⟨h.ready, by rw [hstate], by rw [hstate]⟩

/-- **An instance without records** can be opened, and nothing is known of a final record then. -/
theorem Provider.Bare.opens_new (hp : p.Bare records stamps locks) {process key : String}
    {settings : List Setting} (hrow : locks.lockRow process key w = none)
    (hnone : ∀ id, records.ledger process key w id = none)
    (hcheck : Provider.checkStart process key settings = .ok ()) (timeout : Duration) :
    ∃ c w', (p.start process key timeout settings).run w = (.value (.ok c), w') ∧ c.process = process ∧
      c.key = key ∧ c.recordedFinal = none ∧ (∀ id, records.ledger process key w' id = none) ∧
      c.Stands [] false w' ∧ c.Holds locks w' := by
  obtain ⟨c, w', hstart, hopened⟩ := hp.start_opens hrow hcheck timeout
  have hfresh : ¬ c.recordedFinal ≠ none := by
    rw [hopened.knows_iff hp.toInMemory]
    rintro ⟨id, r, hr, -⟩
    rw [hnone] at hr
    cases hr
  refine ⟨c, w', hstart, hopened.process_eq, hopened.key_eq, Classical.not_not.1 hfresh, ?_, hopened.stands,
    hp.opened_holds hopened⟩
  rw [hopened.ledger_eq hp.toInMemory]
  exact hnone

/-- **An instance whose context is closed** can be opened again. -/
theorem Provider.Bare.reopens (hp : p.Bare records stamps locks) (hholds : c.Holds locks w)
    {settings : List Setting} (hcheck : Provider.checkStart c.process c.key settings = .ok ())
    (timeout : Duration) :
    ∃ c' w', (p.start c.process c.key timeout settings).run ((p.close c).run w).2 = (.value (.ok c'), w') ∧
      c.Resumes records w c' [] w' := by
  obtain ⟨w₁, hclose, hreleases⟩ := hp.close_unlocks hholds
  rw [hclose]
  obtain ⟨c', w', hstart, hopened⟩ := hp.start_opens hreleases.row hcheck timeout
  refine ⟨c', w', hstart, hopened.stands, hopened.process_eq, hopened.key_eq, ?_⟩
  rw [hopened.ledger_eq hp.toInMemory, Part.ledger, Part.ledger, hreleases.records]
  exact .refl _

/-- **The record of a call that answers** is there, and can be read. -/
theorem Context.Called.yields [EngineFailure β] {K : Ledger → Ledger → Prop} {ph : Phase}
    {format : Format γ} {v : γ}
    (h : c.Called K records ph format.toCodec w (.value (.ok v) : Outcome (Except β γ)) w') :
    (records.ledger c.process c.key w').Yields ph.id format v := by
  generalize ho : (.value (.ok v) : Outcome (Except β γ)) = o at h
  cases h with
  | refused permit => cases ho
  | failed permit steps failure => exact absurd ho.symm (failure v)
  | @reread s w₁ r permit steps there =>
    simp only [Outcome.value.injEq] at ho
    exact ⟨r, there, reread_eq_ok ho.symm⟩
  | @recorded s w₁ w₂ r u permit steps fresh free final written quiet =>
    cases ho
    refine ⟨r, ?_, format.undoes written⟩
    show records.ledger c.process c.key w₂ ph.id = some r
    rw [quiet.ledger, Part.ledger_store, Ledger.put, if_pos rfl]

/-- **A call that answers**: its phase could be entered, its record can be read, and the context has
    come one phase further. -/
theorem Context.Called.answered [EngineFailure β] {K : Ledger → Ledger → Prop} {ph : Phase}
    {format : Format γ} {v : γ} (hK : Ledger.Keeping K)
    (h : c.Called K records ph format.toCodec w (.value (.ok v) : Outcome (Except β γ)) w')
    (hstands : c.Stands visited wasFinal w) :
    checkPhase ph = .ok () ∧ wasFinal = false ∧ ph.id ∉ visited ∧
      (records.ledger c.process c.key w').Yields ph.id format v ∧
      c.Stands (ph.id :: visited) ph.isFinal w' := by
  have hyields := h.yields
  obtain ⟨rfl, rfl⟩ := And.intro hstands.visited_eq hstands.wasFinal_eq
  rcases h.refused_or_left hK with ⟨-, e, he⟩ | ⟨s, w₁, hpermit, hsteps, rfl⟩
  · cases he
  obtain ⟨hcheck, hwas, hnew, -, -⟩ := permit_eq_ok hpermit
  have hready := hstands.toReady
  exact ⟨hcheck, hwas, hnew, hyields, ready_leave (hready.created_later hsteps) ph,
    visited_leave hready hpermit hsteps, wasFinal_leave hready hpermit hsteps⟩

/-! ## What an attempt settles -/

/-- **The program of a script** keeps to every course beside which its bodies stay. -/
theorem Script.preserves [EngineFailure β] {I : World ε → Prop} {R : World ε → World ε → Prop}
    (h : Course Eq records c I R) (hp : p.Bare records stamps locks) {s : Script ε β ρ}
    (hs : s.Within (Foreign locks records c)) : (s.client.act p.executor c).Preserves I R :=
  h.client hp.sound (within_client (hs.mono (·.toBeside)))

/-- **A call of a script** does what calls do. -/
theorem Provider.Bare.called [EngineFailure β] (hp : p.Bare records stamps locks) {ph : Phase}
    {codec : Codec γ} {body : Client ε β (Except β γ)} (hbody : body.Within (Foreign locks records c))
    (hready : c.Ready w) {o : Outcome (Except β γ)}
    (h : (p.runPhase c ph codec (body.act p.executor c)).run w = (o, w')) :
    c.Called Eq records ph codec w o w' :=
  Client.called Ledger.keeping_eq hp.sound (hbody.mono (·.toBeside)) hready.created h

/-- **A script that returns a value**, with the empty final phase behind it, has settled its plan. -/
theorem Script.settled [EngineFailure β] (hp : p.Bare records stamps locks) {s : Script ε β ρ}
    (hs : s.Within (Foreign locks records c)) (hstands : c.Stands visited wasFinal w) {r : ρ}
    {w₁ w₂ : World ε} (hrun : (s.client.act p.executor c).run w = (.value (.ok r), w₁))
    (hcomplete : (p.complete c : Action ε (Except β Unit)).run w₁ = (.value (.ok ()), w₂)) :
    s.plan.Settled (records.ledger c.process c.key w₂) r visited wasFinal := by
  have hcourse := course_grows records c Ledger.keeping_eq
  induction s generalizing w visited wasFinal with
  | answer a =>
    cases hrun
    rw [Provider.run_complete, hstands.wasFinal_eq] at hcomplete
    cases wasFinal with
    | true => exact .final
    | false =>
      have hbody : (Client.done (.ok ()) : Client ε β (Except β Unit)).Within
        (Foreign locks records c) := trivial
      have hcall : c.Called Eq records { id := Provider.autoFinal, isFinal := true } Format.unit.toCodec
          w₁ (.value (.ok ()) : Outcome (Except β Unit)) w₂ :=
        hp.called hbody hstands.toReady hcomplete
      obtain ⟨-, -, hnew, hthere, -⟩ := hcall.answered Ledger.keeping_eq hstands
      exact .completed hnew hthere
  | phase ph format body next ih =>
    obtain ⟨v, w', hphase, hrun⟩ := run_phase_eq_ok hrun
    have hcall := hp.called hs.1 hstands.toReady hphase
    obtain ⟨hcheck, rfl, hnew, hthere, hstands'⟩ := hcall.answered Ledger.keeping_eq hstands
    -- The record of the phase is still there in the end.
    have hclient := preserves hcourse hp (hs.2 v) w' hstands'.toReady
    rw [hrun] at hclient
    have hcompleted := hcourse.complete hp.toInMemory (β := β) w₁ hclient.1
    rw [hcomplete] at hcompleted
    exact .phase hcheck hnew ((hclient.2.trans hcompleted.2).yields hthere)
      (ih v (hs.2 v) hstands' hrun)

/-! ## Replaying a settled plan -/

/-- **A phase that has a record**: the record is read, whatever the body, and no record is made. -/
theorem Provider.Bare.run_reread [EngineFailure β] (hp : p.Bare records stamps locks) {ph : Phase}
    (codec : Codec γ) {r : StoredRecord} (hcheck : Context.checkPhase ph = .ok ()) (hnew : ph.id ∉ visited)
    (hr : records.ledger c.process c.key w ph.id = some r) (hstands : c.Stands visited false w) :
    ∃ w', (∀ body : Action ε (Except β γ),
        (p.runPhase c ph codec body).run w = (.value (Context.reread codec r.data), w')) ∧
      records.get w'.env = records.get w.env := by
  obtain ⟨rfl, hwas⟩ := And.intro hstands.visited_eq hstands.wasFinal_eq
  have hpermit := Context.permit_ok hcheck hwas hnew hstands.idle
  obtain ⟨w₁, halike, hbase⟩ := MemoryStore.base_replays stamps c ph
    (w := w.modifyContext c.id fun _ => { w.context c.id with
      visited := ph.id :: (w.context c.id).visited, active := some { phase := ph } }) hr
  refine ⟨w₁.modifyContext c.id (·.leave ph), fun body => ?_, halike.records⟩
  unfold Provider.runPhase
  rw [Context.run_permitted _ _ body hpermit, hp.executor_eq, hbase]
  simp only [Context.settle_replayed codec (.stored r.data) rfl, PhaseOutput.data]

/-- **Replaying one phase**: its record is read, whatever its body, and the context has come one phase
    further. -/
theorem Provider.Bare.run_replayed [EngineFailure β] (hp : p.Bare records stamps locks) {ph : Phase}
    {format : Format γ} {v : γ} (hcheck : Context.checkPhase ph = .ok ()) (hnew : ph.id ∉ visited)
    (hthere : (records.ledger c.process c.key w).Yields ph.id format v)
    (hstands : c.Stands visited false w) :
    ∃ w', (∀ body : Action ε (Except β γ),
        (p.runPhase c ph format.toCodec body).run w = (.value (.ok v), w')) ∧
      c.Stands (ph.id :: visited) ph.isFinal w' ∧ records.get w'.env = records.get w.env := by
  obtain ⟨r, hr, hread⟩ := hthere
  obtain ⟨w', hrun, hrecords⟩ := hp.run_reread (β := β) format.toCodec hcheck hnew hr hstands
  simp only [Context.reread, hread] at hrun
  refine ⟨w', hrun, ?_, hrecords⟩
  have hbody : (Client.crash "" : Client ε β (Except β γ)).Within (Foreign locks records c) := trivial
  have hcall := hp.called hbody hstands.toReady (hrun _)
  exact (hcall.answered Ledger.keeping_eq hstands).2.2.2.2

/-- **Where a plan has come to its value**, its scripts have as well: the process is completed. -/
theorem Script.runBody_answer [EngineFailure β] {s : Script ε β ρ} {r : ρ} (hs : s.plan = .answer (.ok r))
    {completed : Except β Unit} {w' : World ε} (hcomplete : (p.complete c).run w = (.value completed, w')) :
    (p.runBody c fun c => s.client.act p.executor c).run w = (.value (completed.map fun _ => r), w') := by
  cases s with
  | phase => cases hs
  | answer a =>
    cases hs
    exact Provider.runBody_ok (Process.run_pure ..) hcomplete

/-- **Where a plan has a phase** that comes to one value, whatever its body, its scripts go on as
    scripts of what comes next. -/
theorem Script.runBody_next [EngineFailure β] {s : Script ε β ρ} {ph : Phase} {format : Format γ}
    {next : γ → Plan β ρ} (hs : s.plan = .phase ph format next) {v : γ} {w' : World ε}
    (hrun : ∀ body : Action ε (Except β γ), (p.runPhase c ph format.toCodec body).run w = (.value (.ok v), w')) :
    ∃ s' : Script ε β ρ, s'.plan = next v ∧ (p.runBody c fun c => s.client.act p.executor c).run w =
      (p.runBody c fun c => s'.client.act p.executor c).run w' := by
  cases s with
  | answer => cases hs
  | phase ph' format' body next' =>
    cases hs
    refine ⟨next' v, rfl, p.runBody_congr ?_⟩
    rw [Script.run_phase, hrun]

/-- **A settled plan is replayed**: every script of it returns the value, runs no body and makes no
    record. -/
theorem Plan.Settled.replayed [EngineFailure β] (hp : p.Bare records stamps locks) {l : Ledger} {r : ρ}
    {plan : Plan β ρ} (h : plan.Settled l r visited wasFinal) (hstands : c.Stands visited wasFinal w)
    (hl : records.ledger c.process c.key w = l) :
    ∃ w', (∀ s : Script ε β ρ, s.plan = plan →
        (p.runBody c fun c => s.client.act p.executor c).run w = (.value (.ok r), w')) ∧
      records.get w'.env = records.get w.env := by
  induction h generalizing w with
  | final =>
    have hcomplete : (p.complete c : Action ε (Except β Unit)).run w = (.value (.ok ()), w) := by
      rw [Provider.run_complete, hstands.wasFinal_eq, if_pos rfl]
    exact ⟨w, fun s hs => Script.runBody_answer hs hcomplete, rfl⟩
  | completed hnew hthere =>
    -- What is left when the plan has come to its value is the empty final phase.
    have hcheck : Context.checkPhase { id := Provider.autoFinal, isFinal := true } = .ok () := rfl
    obtain ⟨w₁, hrun, -, hsame⟩ := hp.run_replayed (β := β) hcheck hnew (hl ▸ hthere) hstands
    have hcomplete : (p.complete c : Action ε (Except β Unit)).run w = (.value (.ok ()), w₁) := by
      rw [Provider.run_complete, hstands.wasFinal_eq, if_neg Bool.false_ne_true]
      exact hrun _
    exact ⟨w₁, fun s hs => Script.runBody_answer hs hcomplete, hsame⟩
  | @phase visited γ ph format next v hcheck hnew hthere rest ih =>
    obtain ⟨w₁, hrun, hstands₁, hsame⟩ := hp.run_replayed (β := β) hcheck hnew (hl ▸ hthere) hstands
    have hledger : records.ledger c.process c.key w₁ = l := by
      rw [← hl, Part.ledger, Part.ledger, hsame]
    obtain ⟨w₂, hrest, hsame₂⟩ := ih hstands₁ hledger
    refine ⟨w₂, fun s hs => ?_, hsame₂.trans hsame⟩
    obtain ⟨s', hs', hnext⟩ := Script.runBody_next hs hrun
    exact hnext.trans (hrest s' hs')

/-! ## Bodies and outputs -/

/-- **A body that has its record makes no difference**: a script may have others for phases that are
    in the records. -/
theorem Script.Agrees.run_eq [EngineFailure β] (hp : p.Bare records stamps locks) {l : Ledger}
    {s s' : Script ε β ρ} (h : s.Agrees l s') (hs : s.Within (Foreign locks records c))
    (hready : c.Ready w) (hl : l.Grows (records.ledger c.process c.key w)) :
    (s'.client.act p.executor c).run w = (s.client.act p.executor c).run w := by
  induction h generalizing w with
  | answer a => rfl
  | @phase γ ph format body body' next next' same rest ih =>
    have hphase : (p.runPhase c ph format.toCodec (body'.act p.executor c)).run w =
        (p.runPhase c ph format.toCodec (body.act p.executor c)).run w := by
      cases hr : l ph.id with
      | none => rw [same hr]
      | some r =>
        have hthere : records.ledger c.process c.key w ph.id ≠ none := by simp [hl ph.id r hr]
        obtain ⟨answer, w', hrun, -⟩ : ∃ (answer : Except β γ) (w' : World ε),
            (∀ body : Action ε (Except β γ),
              (p.runPhase c ph format.toCodec body).run w = (.value answer, w')) ∧ _ :=
          Context.run_idle hp.sound (.inl hthere)
        exact (hrun _).trans (hrun _).symm
    rw [run_phase, run_phase, hphase]
    have hcall := hp.called hs.1 hready
      (Prod.eta ((p.runPhase c ph format.toCodec (body.act p.executor c)).run w))
    obtain ⟨hready', hgrows⟩ := (course_grows records c Ledger.keeping_eq).called hready hcall
    split
    · rename_i v w' hrun
      rw [hrun] at hready' hgrows
      exact ih v (hs.2 v) hready' (hl.trans hgrows)
    · rfl
    · rfl

/-- **What a script has seen** is in the records in the end. -/
theorem Script.Sees.yields [EngineFailure β] (hp : p.Bare records stamps locks) {s : Script ε β ρ}
    {ph : Phase} {format : Format γ} {v : γ} (h : s.Sees p c ph format v w)
    (hs : s.Within (Foreign locks records c)) (hready : c.Ready w) :
    (records.ledger c.process c.key ((s.client.act p.executor c).run w).2).Yields ph.id format v := by
  have hcourse := course_grows records c Ledger.keeping_eq
  induction h with
  | @here body next w w' run =>
    have hcall := hp.called hs.1 hready run
    obtain ⟨hready', -⟩ := hcourse.called hready hcall
    rw [run_phase, run]
    exact (preserves hcourse hp (hs.2 v) w' hready').2.yields hcall.yields
  | @later δ ph' format' body next u w w' run rest ih =>
    have hcall := hp.called hs.1 hready run
    obtain ⟨hready', -⟩ := hcourse.called hready hcall
    rw [run_phase, run]
    exact ih (hs.2 u) hready'

end

/-! ## Attempts -/

section

variable {records : Part ε MemoryStore} {stamps : Action ε Instant} {locks : Part ε (LockTable RecordKey)}
  {p : Provider ε} {process key : String} {plan : Plan β ρ} {a : Attempt ε β ρ} {w : World ε}

namespace Attempt.Of

variable [EngineFailure β]

/-- An attempt keeps all records. -/
theorem grows (ha : a.Of records locks plan) (hp : p.Bare records stamps locks) (process key : String)
    (w : World ε) :
    (records.ledger process key w).Grows
      (records.ledger process key ((a.act p process key).run w).2) :=
  (runProcess_frozen process key a.timeout a.settings hp.toInMemory
    (fun c => Script.within_client ((ha.within c).mono (·.toBeside))) w).1

/-- An attempt guards whatever context it runs on. -/
theorem guards (ha : a.Of records locks plan) (hp : p.Bare records stamps locks) (c : Context) :
    ((a.script c).client.act p.executor c).Steps (Guards locks c) :=
  hp.steps_client (Script.within_client ((ha.within c).mono (·.guards)))

/-- **An attempt depends only on bodies whose phases have no record.** -/
theorem run_eq (ha : a.Of records locks plan) (hp : p.Bare records stamps locks)
    {script : Context → Script ε β ρ}
    (h : ∀ c, (a.script c).Agrees (records.ledger process key w) (script c)) :
    ({ a with script }.act p process key).run w = (a.act p process key).run w := by
  unfold act
  rw [Provider.run_runProcess, Provider.run_runProcess]
  simp only
  cases hstart : (p.start process key a.timeout a.settings).run w with
  | mk o w₀ =>
    match o, hstart with
    | .crashed m, _ => rfl
    | .value (.error e), _ => rfl
    | .value (.ok c), hstart =>
      have hopened := hp.opened hstart
      refine p.conduct_congr process key ?_
      refine (h c).run_eq hp (ha.within c) hopened.ready ?_
      rw [hopened.process_eq, hopened.key_eq, hopened.ledger_eq hp.toInMemory]
      exact .refl _

/-- **What an attempt sees** is in the records afterwards. -/
theorem yields (ha : a.Of records locks plan) (hp : p.Bare records stamps locks) {c : Context}
    {w₀ : World ε} (hstart : (p.start process key a.timeout a.settings).run w = (.value (.ok c), w₀))
    {ph : Phase} {format : Format γ} {v : γ} (h : (a.script c).Sees p c ph format v w₀) :
    (records.ledger process key ((a.act p process key).run w).2).Yields ph.id format v := by
  have hopened := hp.opened hstart
  obtain ⟨rfl, rfl⟩ := And.intro hopened.process_eq hopened.key_eq
  have hcourse := course_grows records c Ledger.keeping_eq
  have hready := hopened.ready
  have hrest := hcourse.conduct_rest hp.toInMemory c.process c.key
    (fun c => (a.script c).client.act p.executor c)
    (Script.preserves hcourse hp (ha.within c)) hready
  unfold act
  rw [Provider.run_runProcess, hstart]
  exact hrest.yields (h.yields hp (ha.within c) hready)

/-- **A successful attempt** has settled the plan and left the instance unlocked. -/
theorem settled (ha : a.Of records locks plan) (hp : p.Bare records stamps locks) {r : ρ} {w' : World ε}
    (h : (a.act p process key).run w = (.value (.ok r), w')) :
    Provider.checkStart process key a.settings = .ok () ∧
      plan.Settled (records.ledger process key w') r [] false ∧ locks.lockRow process key w' = none := by
  cases hstart : (p.start process key a.timeout a.settings).run w with
  | mk o w₀ =>
    have hrun := h
    unfold act at hrun
    rw [Provider.run_runProcess, hstart] at hrun
    match o, hstart, hrun with
    | .crashed m, _, hrun => cases hrun
    | .value (.error e), _, hrun => cases hrun
    | .value (.ok c), hstart, hrun =>
      have hopened := hp.opened hstart
      have hunlocked := hp.runProcess_started (ha.guards hp) hstart
      have hrow : locks.lockRow process key ((a.act p process key).run w).2 = none := hunlocked
      rw [h] at hrow
      obtain ⟨rfl, rfl⟩ := And.intro hopened.process_eq hopened.key_eq
      obtain ⟨w₁, w₂, hbody, hcomplete, hclose⟩ := Provider.conduct_eq_ok hrun
      refine ⟨hopened.check, ?_, hrow⟩
      have hcourse := course_grows records c Ledger.keeping_eq
      have hready₁ := (Script.preserves hcourse hp (ha.within c) w₀ hopened.ready).1
      rw [hbody] at hready₁
      have hready₂ := (hcourse.complete hp.toInMemory (β := β) w₁ hready₁).1
      rw [hcomplete] at hready₂
      have hgrows := (hcourse.close hp.toInMemory w₂ hready₂).2
      rw [hclose] at hgrows
      have hsettled := Script.settled hp (ha.within c) hopened.stands hbody hcomplete
      rw [ha.plan c] at hsettled
      exact hsettled.grows hgrows

/-- **An attempt ends as its whole body does**, and makes no record behind it.  If all scripts of the plan
    come to one result, so do all attempts. -/
theorem ends (ha : a.Of records locks plan) (hp : p.Bare records stamps locks) {timeout : Duration}
    {settings : List Setting} {c : Context} {w₀ w₁ : World ε} {result : Except β ρ}
    (hstart : (p.start process key timeout settings).run w = (.value (.ok c), w₀))
    (hrun : ∀ s : Script ε β ρ, s.plan = plan →
      (p.runBody c fun c => s.client.act p.executor c).run w₀ = (.value result, w₁)) :
    ∃ w', records.get w'.env = records.get w₁.env ∧ ∀ script : Context → Script ε β ρ,
      (∀ c, (script c).plan = plan) →
      (Attempt.act p process key ⟨timeout, settings, script⟩).run w = (.value result, w') := by
  -- The given attempt ends like any other, and it guards the context.
  have hsteps : (p.runBody c fun c' => (a.script c).client.act p.executor c').Steps (Guards locks c) :=
    hp.steps_runBody (ha.guards hp c)
  have hguards := hsteps.run .refl .trans w₀
  rw [hrun _ (ha.plan c)] at hguards
  have hholds := (hp.opened_holds (hp.opened hstart)).guarded hguards
  obtain ⟨w', hclose, hreleases⟩ := hp.close_unlocks hholds
  refine ⟨w', hreleases.records, fun script hplan => ?_⟩
  have hbody : (p.runBody c fun c => (script c).client.act p.executor c).run w₀ = (.value result, w₁) :=
    hrun (script c) (hplan c)
  unfold act
  rw [Provider.run_runProcess, hstart]
  simp only [Provider.conduct, Process.run_bind, Process.run_onCrash, hbody, hclose]
  cases result <;> rfl

/-- **Replaying an attempt**: where the plan has been settled and the instance is unlocked, an attempt
    with whatever script of the plan returns the value and makes no record. -/
theorem replayed (ha : a.Of records locks plan) (hp : p.Bare records stamps locks) {r : ρ}
    (hsettled : plan.Settled (records.ledger process key w) r [] false)
    (hrow : locks.lockRow process key w = none) (timeout : Duration) {settings : List Setting}
    (hcheck : Provider.checkStart process key settings = .ok ()) :
    ∃ w', records.get w'.env = records.get w.env ∧ ∀ script : Context → Script ε β ρ,
      (∀ c, (script c).plan = plan) →
      (Attempt.act p process key ⟨timeout, settings, script⟩).run w = (.value (.ok r), w') := by
  obtain ⟨c, w₀, hstart, hopened⟩ := hp.start_opens hrow hcheck timeout
  obtain ⟨rfl, rfl⟩ := And.intro hopened.process_eq hopened.key_eq
  obtain ⟨w₁, hrun, hsame₁⟩ :=
    hsettled.replayed hp hopened.stands (hopened.ledger_eq hp.toInMemory _ _)
  obtain ⟨w', hsame, hall⟩ := ha.ends hp hstart hrun
  exact ⟨w', (hsame.trans hsame₁).trans (hopened.records_eq hp.toInMemory), hall⟩

end Attempt.Of

/-! ## Sequences of attempts -/

variable [EngineFailure β] {attempts : List (Attempt ε β ρ)}

/-- Attempts in sequence keep all records. -/
theorem after_grows (hp : p.Bare records stamps locks) (h : ∀ b ∈ attempts, b.Of records locks plan)
    (w : World ε) : (records.ledger process key w).Grows
      (records.ledger process key (p.after process key attempts w)) := by
  induction attempts generalizing w with
  | nil => exact .refl _
  | cons b rest ih =>
    have hb := (h b (List.mem_cons_self ..)).grows hp process key w
    exact hb.trans (ih (fun b' hb' => h b' (List.mem_cons_of_mem _ hb')) _)

/-- Attempts in sequence leave an unlocked instance unlocked. -/
theorem after_unlocked (hp : p.Bare records stamps locks) (h : ∀ b ∈ attempts, b.Of records locks plan)
    (hrow : locks.lockRow process key w = none) :
    locks.lockRow process key (p.after process key attempts w) = none := by
  induction attempts generalizing w with
  | nil => exact hrow
  | cons b rest ih =>
    have hb := h b (List.mem_cons_self ..)
    exact ih (fun b' hb' => h b' (List.mem_cons_of_mem _ hb'))
      (hp.runProcess_unlocked (hb.guards hp) hrow b.timeout b.settings)

/-- **Resume and replay.**  Let an attempt of a plan come after any others of it, and any others after
    that one.
    * No record is ever lost or changed.
    * The attempt comes to the same with other bodies for phases that have a record.
    * Every output that it sees is the reading of the record of that phase, then and ever after.
    * If it returns a value, then so does every attempt that is made later, whatever its bodies, and
      the store stays as it is. -/
theorem resume_and_replay (hp : p.Bare records stamps locks) {earlier later : List (Attempt ε β ρ)}
    (hearlier : ∀ b ∈ earlier, b.Of records locks plan) (ha : a.Of records locks plan)
    (hlater : ∀ b ∈ later, b.Of records locks plan) {w w₁ w₂ w₃ : World ε}
    {o : Outcome (Except β ρ)} (hw₁ : p.after process key earlier w = w₁)
    (hrun : (a.act p process key).run w₁ = (o, w₂)) (hw₃ : p.after process key later w₂ = w₃) :
    ((records.ledger process key w).Grows (records.ledger process key w₁) ∧
      (records.ledger process key w₁).Grows (records.ledger process key w₂) ∧
      (records.ledger process key w₂).Grows (records.ledger process key w₃)) ∧
    (∀ script : Context → Script ε β ρ,
      (∀ c, (a.script c).Agrees (records.ledger process key w₁) (script c)) →
      ({ a with script }.act p process key).run w₁ = (o, w₂)) ∧
    (∀ c w₀, (p.start process key a.timeout a.settings).run w₁ = (.value (.ok c), w₀) →
      ∀ {γ : Type} (ph : Phase) (format : Format γ) (v : γ), (a.script c).Sees p c ph format v w₀ →
        (records.ledger process key w₃).Yields ph.id format v) ∧
    ∀ r, o = .value (.ok r) → Provider.checkStart process key a.settings = .ok () ∧
      ∀ (timeout : Duration) (settings : List Setting),
        Provider.checkStart process key settings = .ok () →
        ∃ w₄, records.get w₄.env = records.get w₃.env ∧ ∀ script : Context → Script ε β ρ,
          (∀ c, (script c).plan = plan) →
          (Attempt.act p process key ⟨timeout, settings, script⟩).run w₃ = (.value (.ok r), w₄) := by
  subst hw₁ hw₃
  have hgrows := ha.grows hp process key (p.after process key earlier w)
  rw [hrun] at hgrows
  have hgrows' : (records.ledger process key w₂).Grows
      (records.ledger process key (p.after process key later w₂)) := after_grows hp hlater w₂
  refine ⟨⟨after_grows hp hearlier w, hgrows, hgrows'⟩, fun script h => ?_,
    fun c w₀ hstart _ ph format v h => ?_, fun r hr => ?_⟩
  · rw [ha.run_eq hp h, hrun]
  · have hyields := ha.yields hp hstart h
    rw [hrun] at hyields
    exact hgrows'.yields hyields
  · subst hr
    obtain ⟨hcheck, hsettled, hrow⟩ := ha.settled hp hrun
    refine ⟨hcheck, fun timeout settings hcheck' => ?_⟩
    exact ha.replayed hp (hsettled.grows hgrows') (after_unlocked hp hlater hrow) timeout hcheck'

end

/-! ## An instance that is opened for the first time -/

namespace Desk

theorem checkStart_order : Provider.checkStart "order" "req-42" [] = .ok () := by
  have hid : Identifier.isValid "order" = true := by decide +kernel
  simp [Provider.checkStart, Identifier.check, hid, Setting.check, Setting.firstConflict, bind, Except.bind]

theorem opens_order : ∃ c w, (plain.start "order" "req-42" (.ofSeconds 5) []).run fresh = (.value (.ok c), w) ∧
    c.process = "order" ∧ c.key = "req-42" ∧ c.recordedFinal = none ∧ c.Stands [] false w ∧
    c.Holds locksPart w ∧ ∀ id, recordsPart.ledger c.process c.key w id = none := by
  obtain ⟨c, w, hstart, hprocess, hkey, hfresh, hnone, hstands, hholds⟩ :=
    bare_plain.opens_new (w := fresh) rfl (fun _ => rfl) checkStart_order (.ofSeconds 5)
  refine ⟨c, w, hstart, hprocess, hkey, hfresh, hstands, hholds, ?_⟩
  rw [hprocess, hkey]
  exact hnone

/-- The order can be opened again when it has been used and closed. -/
theorem reopens_order {c : Context} {w w' : World Desk} (hprocess : c.process = "order") (hkey : c.key = "req-42")
    (hholds : c.Holds locksPart w) {a : Action Desk α} {answer : α} (ha : a.Steps (Guards locksPart c))
    (hrun : a.run w = (.value answer, w')) :
    ∃ c' w₁, (plain.start "order" "req-42" (.ofSeconds 5) []).run ((plain.close c).run w').2 =
      (.value (.ok c'), w₁) ∧ c.Resumes recordsPart w' c' [] w₁ := by
  have hguards := ha.run .refl .trans w
  rw [hrun] at hguards
  have hcheck : Provider.checkStart c.process c.key [] = .ok () := by
    rw [hprocess, hkey]
    exact checkStart_order
  obtain ⟨c', w₁, hstart, hresumes⟩ := bare_plain.reopens (hholds.guarded hguards) hcheck (.ofSeconds 5)
  rw [hprocess, hkey] at hstart
  exact ⟨c', w₁, hstart, hresumes⟩

end Desk

/-! ## An attempt that fails, one that resumes, and one that replays -/

namespace Desk

/-- A final phase after one that is not. -/
def transfer : Plan Error Unit :=
  .phase { id := "reserve" } .unit fun _ =>
    .phase { id := "charge", isFinal := true } .unit fun _ => .answer (.ok ())

/-- An attempt of the transfer with the given bodies. -/
def attemptWith (reserve charge : Client Desk Error (Except Error Unit)) : Attempt Desk Error Unit where
  timeout := .ofSeconds 5
  settings := []
  script _ := .phase { id := "reserve" } .unit reserve fun _ =>
    .phase { id := "charge", isFinal := true } .unit charge fun _ => .answer (.ok ())

theorem of_transfer {reserve charge : Client Desk Error (Except Error Unit)}
    (hreserve : ∀ c, reserve.Within (Foreign locksPart recordsPart c))
    (hcharge : ∀ c, charge.Within (Foreign locksPart recordsPart c)) :
    (attemptWith reserve charge).Of recordsPart locksPart transfer where
  plan _ := rfl
  within c := ⟨hreserve c, fun _ => ⟨hcharge c, fun _ => trivial⟩⟩

/-- An attempt whose second phase fails. -/
def declined : Attempt Desk Error Unit :=
  attemptWith (.done (.ok ())) (.done (.error (.misuse "declined")))

/-- An attempt whose second phase succeeds, and whose first one must not be run again. -/
def resumed : Attempt Desk Error Unit := attemptWith (.crash "reserved twice") (.done (.ok ()))

/-- An attempt whose bodies must not be run again. -/
def replayed : Attempt Desk Error Unit :=
  attemptWith (.crash "reserved twice") (.crash "charged twice")

end Desk

open Desk in
/-- An attempt fails in the second phase; the next one runs that phase alone and succeeds; the third one runs none,
    gives the same answer and leaves the records as they are. -/
theorem resume_and_replay_transfer : ∃ w w',
    (resumed.act plain "transfer" "req-42").run (plain.after "transfer" "req-42" [declined] fresh) =
      (.value (.ok ()), w) ∧
    (replayed.act plain "transfer" "req-42").run w = (.value (.ok ()), w') ∧
    recordsPart.get w'.env = recordsPart.get w.env := by
  have hrun : (resumed.act plain "transfer" "req-42").run
      (plain.after "transfer" "req-42" [declined] fresh) = (.value (.ok ()),
        ((resumed.act plain "transfer" "req-42").run
          (plain.after "transfer" "req-42" [declined] fresh)).2) :=
    Prod.ext (Outcome.answer?_eq_some (by decide +kernel)) rfl
  have hearlier : ∀ b ∈ [declined], b.Of recordsPart locksPart transfer := by
    intro b hb
    obtain rfl := List.mem_singleton.1 hb
    exact of_transfer (fun _ => trivial) fun _ => trivial
  have hlater : ∀ b ∈ ([] : List (Attempt Desk Error Unit)), b.Of recordsPart locksPart transfer :=
    fun _ hb => nomatch hb
  have hresumed : resumed.Of recordsPart locksPart transfer :=
    of_transfer (fun _ => trivial) fun _ => trivial
  obtain ⟨-, -, -, hsuccess⟩ :=
    resume_and_replay bare_plain hearlier hresumed hlater rfl hrun rfl
  obtain ⟨hcheck, hreplay⟩ := hsuccess () rfl
  obtain ⟨w', hsame, hall⟩ := hreplay (.ofSeconds 5) [] hcheck
  exact ⟨_, w', hrun, hall replayed.script fun _ => rfl, hsame⟩

end Idempotence
