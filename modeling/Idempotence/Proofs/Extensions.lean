/-
  Extensions — the extensions of the library are faithful.

  1. **Around an execution** — `Trailing` is something quiet behind a process.  A wrapper that begins
     quietly, lets the executor run and ends quietly is `Around` the executor, and keeps it sound
     (`Executor.Sound.around`).  Logging, counting and tracing are of that shape.

  2. **Around a body** — publishing adds to the body instead: it sends what waits once the body has
     succeeded, which may spoil the body (`Publisher.run_flushing`), but over a quiet sink only turns
     its text into an error (`Publisher.seasoned_flushing`).

  3. **Hooks** — what the extensions do when a context is created or closed is quiet, and so a client
     that calls no phase (`Quiet.client`).

  With a store, locks and clocks in memory this makes a provider for which everything that is said of
  `Provider.InMemory` holds; the one at the end is such.
-/
import Idempotence.Lock.Table
import Idempotence.Proofs.Attempts
import Idempotence.Proofs.BodyHosts

namespace Idempotence

variable {ε κ α : Type} {records : Part ε MemoryStore}

/-! ## Around an execution -/

/-- **Something quiet behind**: whatever the process, `f` answers as it does, and in a world that is
    alike and depends on nothing but the end of the process. -/
def Trailing (records : Part ε MemoryStore) (f : Action ε α → Action ε α) : Prop :=
  ∃ finish : Outcome α × World ε → World ε, (∀ r, Alike records r.2 (finish r)) ∧
    ∀ p w, (f p).run w = ((p.run w).1, finish (p.run w))

namespace Trailing

/-- The world once an answer has been followed by a last action. -/
def rest (last : α → Action ε Unit) : Outcome α × World ε → World ε
  | (.value a, w) => ((last a).run w).2
  | (.crashed _, w) => w

/-- Something quiet may follow an answer. -/
theorem after {last : α → Action ε Unit} (h : ∀ a, Quiet records (last a)) :
    Trailing records fun p : Action ε α => do
      let a ← p
      last a
      return a := by
  refine ⟨rest last, fun r => ?_, fun p w => ?_⟩
  · obtain ⟨o, w⟩ := r
    cases o with
    | value a => exact (h a).steps.run Alike.refl Alike.trans w
    | crashed m => exact .refl w
  · cases hp : p.run w with
    | mk o w₁ =>
      cases o with
      | value a =>
        obtain ⟨_, w₂, hlast, -⟩ := (h a).run w₁
        simp [hp, hlast, rest]
      | crashed m => simp [hp, rest]

/-- Something quiet may run on the way out. -/
theorem onExit {last : Action ε Unit} (h : Quiet records last) :
    Trailing records fun p : Action ε α => p.onExit last := by
  refine ⟨fun r => (last.run r.2).2, fun r => h.steps.run Alike.refl Alike.trans r.2, fun p w => ?_⟩
  obtain ⟨_, w₂, hlast, -⟩ := h.run (p.run w).2
  simp [hlast]

theorem comp {f g : Action ε α → Action ε α} (hf : Trailing records f) (hg : Trailing records g) :
    Trailing records fun p => f (g p) := by
  obtain ⟨finish, hfinish, hf⟩ := hf
  obtain ⟨finish', hfinish', hg⟩ := hg
  refine ⟨fun r => finish (r.1, finish' r), fun r => (hfinish' r).trans (hfinish (r.1, finish' r)),
    fun p w => ?_⟩
  rw [hf, hg]

end Trailing

/-- **An extension around an execution**: `y` runs `x` in an alike world, answers as it does, and leaves
    behind an alike world that depends on nothing but the end of `x`. -/
def Executor.Around (records : Part ε MemoryStore) (x y : Executor ε) : Prop :=
  ∀ (κ : Type) (c : Context) (phase : Phase) (w : World ε),
    ∃ (w₁ : World ε) (finish : Outcome (Answer κ) × World ε → World ε),
      Alike records w w₁ ∧ (∀ r, Alike records r.2 (finish r)) ∧
      ∀ body : Body ε κ, (y.execute c phase body).run w =
        (((x.execute c phase body).run w₁).1, finish ((x.execute c phase body).run w₁))

/-- An extension that begins quietly, lets the executor run, and ends quietly. -/
theorem Executor.Around.of_parts {x y : Executor ε}
    (h : ∀ (κ : Type) (c : Context) (phase : Phase),
      ∃ (lead : Action ε Unit) (f : Action ε (Answer κ) → Action ε (Answer κ)),
        Quiet records lead ∧ Trailing records f ∧
        ∀ body : Body ε κ, y.execute c phase body = lead >>= fun _ => f (x.execute c phase body)) :
    x.Around records y := by
  intro κ c phase w
  obtain ⟨lead, f, hlead, ⟨finish, hfinish, hf⟩, hy⟩ := h κ c phase
  obtain ⟨_, w₁, hrun, hq⟩ := hlead.run w
  exact ⟨w₁, finish, hq, hfinish, fun body => by simp only [hy, Process.run_bind, hrun, hf]⟩

/-- What is around a sound executor is sound. -/
theorem Executor.Sound.around {x y : Executor ε} (hx : x.Sound records) (h : x.Around records y) :
    y.Sound records where
  executed c phase body w w' o hrun := by
    obtain ⟨w₁, finish, hq, hfinish, hy⟩ := h _ c phase w
    obtain ⟨rfl, rfl⟩ := Prod.mk.inj ((hy body).symm.trans hrun)
    exact ((hx.executed c phase body (Prod.eta _)).earlier hq).later (hfinish _)
  idle {κ} c phase w hw body body' := by
    obtain ⟨w₁, finish, hq, -, hy⟩ := h κ c phase w
    have hsame := hx.idle c phase (hq.ledger c.process c.key ▸ hw) body body'
    rw [hy, hy, hsame]

/-- **The extension that logs** is around the execution. -/
theorem Recorder.around_wrap {log : Part ε CallLog} (hlog : ∀ entry, Quiet records (note log entry))
    (r : Recorder) (x : Executor ε) : x.Around records (r.wrap log x) :=
  .of_parts fun _ _ phase => ⟨note log s!"{r.name}.execute:{phase.id}", _, hlog _,
    .after fun _ => .pure (), fun body => by simp [wrap]⟩

/-- The extension that logs keeps executors sound. -/
theorem Recorder.sound_wrap {log : Part ε CallLog} (hlog : records.Apart log) (r : Recorder)
    {x : Executor ε} (hx : x.Sound records) : (r.wrap log x).Sound records :=
  hx.around (r.around_wrap (fun _ => .changePart hlog _) x)

/-- **The extension that counts** is around the execution. -/
theorem Stats.around_wrap {part : Part ε Stats} (hpart : ∀ f, Quiet records (Action.change part f))
    (x : Executor ε) : x.Around records (Stats.wrap part x) :=
  .of_parts fun _ _ _ => ⟨_, _, hpart fun s => { s with started := s.started + 1 },
    .after fun answer => hpart (·.count answer.1), fun _ => rfl⟩

/-- The extension that counts keeps executors sound. -/
theorem Stats.sound_wrap {part : Part ε Stats} (hpart : records.Apart part) {x : Executor ε}
    (hx : x.Sound records) : (Stats.wrap part x).Sound records :=
  hx.around (Stats.around_wrap (fun _ => .changePart hpart _) x)

namespace Monitoring

/-- The span of a context is found or made quietly. -/
theorem quiet_contextSpan (c : Context) : Quiet records (contextSpan c) := by
  refine .bind (.withProperties c _) fun found => ?_
  cases found with
  | some s => exact .pure s
  | none => exact .bind (.newSpan _ _) fun fresh => .withProperties c _

/-- What is told when a phase is entered. -/
def entering (phase : Phase) : Action ε Unit := do
  Action.tell .enteringPhase
  if phase.isFinal then Action.tell .enteringFinalPhase

theorem quiet_entering (phase : Phase) : Quiet records (entering phase) := by
  refine .bind (.tell _) fun _ => ?_
  split
  · exact .tell _
  · exact .pure ()

/-- All that comes before the execution of a phase. -/
def opening (c : Context) (phase : Phase) : Action ε Unit := do
  let parent ← contextSpan c
  let span ← Action.newSpanBelow parent "idempotency_phase" [("phase_id", phase.id)]
  Process.change fun w => { w with trace := w.trace.enter span }
  entering phase

theorem quiet_opening (c : Context) (phase : Phase) : Quiet records (opening c phase) :=
  .bind (quiet_contextSpan c) fun _ => .bind (.newSpanBelow _ _ _) fun _ =>
    .bind (.change fun _ => ⟨rfl, rfl, fun _ => rfl⟩) fun _ => quiet_entering phase

/-- Leaving the span of a phase. -/
def leaving : Action ε Unit := Process.change fun w => { w with trace := w.trace.leave }

theorem quiet_leaving : Quiet records (leaving : Action ε Unit) := .change fun _ => ⟨rfl, rfl, fun _ => rfl⟩

/-- Tracing, with all that comes before the execution in front. -/
theorem execute_wrap (x : Executor ε) (c : Context) (phase : Phase) (body : Body ε κ) :
    (wrap x).execute c phase body = opening c phase >>= fun _ =>
      (do
        let answer ← x.execute c phase body
        Action.tell (outcome answer.1)
        return answer).onExit leaving := by
  have hentering : (entering phase : Action ε Unit).Safe := by
    refine .bind (fun _ => trivial) fun _ => ?_
    split
    · exact fun _ => trivial
    · trivial
  simp only [opening, bind_assoc, ← hentering.onExit_bind]
  refine bind_congr fun parent => bind_congr fun span => bind_congr fun _ => ?_
  -- What is told on entering stands inside of the span.
  refine congrArg (Process.onExit · leaving) ?_
  cases h : phase.isFinal <;> simp [entering, h]

/-- **The extension that traces** is around the execution. -/
theorem around_wrap (x : Executor ε) : x.Around records (wrap x) :=
  .of_parts fun _ c phase => ⟨opening c phase, _, quiet_opening c phase,
    (Trailing.onExit quiet_leaving).comp (.after fun answer => .tell (outcome answer.1)),
    execute_wrap x c phase⟩

/-- The extension that traces keeps executors sound. -/
theorem sound_wrap {x : Executor ε} (hx : x.Sound records) : (wrap x).Sound records :=
  hx.around (around_wrap x)

end Monitoring

/-! ## Around a body -/

/-- Quiet steps take no notice of the trace and the properties of contexts. -/
theorem Alike.overlooks : Overlooks (Alike records) where
  trace _ _ := ⟨rfl, rfl, fun _ => rfl⟩
  properties _ _ _ := alike_modifyContext rfl

/-- **What may become of a body that has succeeded** when something follows it: an error, or a crash. -/
inductive Spoilt : Outcome (Except Error String × κ) → Outcome (Except Error String × κ) → Prop
  | not (o : Outcome (Except Error String × κ)) : Spoilt o o
  | failed (data : String) (k : κ) (e : Error) : Spoilt (.value (.ok data, k)) (.value (.error e, k))
  | crashed (data : String) (k : κ) (m : String) : Spoilt (.value (.ok data, k)) (.crashed m)

namespace Publisher

/-- Sending what waits does no more than that, and crashes only if the sink does. -/
theorem spoilt_sending (sink : Sink ε) (c : Context) (answer : Except Error String × κ) (w : World ε) :
    Spoilt (.value answer) ((sending sink c answer).run w).1 ∧
      ∀ m, ((sending sink c answer).run w).1 = .crashed m →
        ∃ messages w', ((sink.sendAll messages).run w').1 = .crashed m := by
  obtain ⟨text, k⟩ := answer
  obtain ⟨waiting, w₁, htake⟩ : ∃ waiting w₁, (takeQueue c).run w = (.value waiting, w₁) := ⟨_, _, rfl⟩
  simp only [sending, Process.run_bind, htake]
  cases text with
  | error e => exact ⟨.not _, fun _ h => nomatch h⟩
  | ok data =>
    dsimp only
    split
    · exact ⟨.not _, fun _ h => nomatch h⟩
    · rw [Process.run_bind]
      split
      · next sent w₂ hsend =>
        cases sent with
        | error e => exact ⟨.failed .., fun _ h => nomatch h⟩
        | ok u => exact ⟨.not _, fun _ h => nomatch h⟩
      · next m w₂ hsend =>
        refine ⟨.crashed .., fun m' h => ⟨waiting, w₁, ?_⟩⟩
        cases h
        rw [hsend]

/-- A body that ends by sending what waits is the body, spoilt at most, and goes on quietly. -/
theorem run_flushing {sink : Sink ε} (hsink : ∀ ms, (sink.sendAll ms).Steps (Alike records)) (c : Context)
    (body : Body ε κ) (w : World ε) :
    Spoilt (body.run w).1 ((flushing sink c body).run w).1 ∧
      Alike records (body.run w).2 ((flushing sink c body).run w).2 ∧
      ∀ m, ((flushing sink c body).run w).1 = .crashed m → (body.run w).1 = .crashed m ∨
        ∃ messages w', ((sink.sendAll messages).run w').1 = .crashed m := by
  rw [flushing_eq, Process.run_bind]
  cases body.run w with
  | mk o w₁ =>
    cases o with
    | crashed m => exact ⟨.not _, .refl w₁, fun _ h => .inl h⟩
    | value answer =>
      obtain ⟨hspoilt, hcrash⟩ := spoilt_sending sink c answer w₁
      exact ⟨hspoilt, (Alike.overlooks.sending hsink c answer).run Alike.refl Alike.trans w₁,
        fun m h => .inr (hcrash m h)⟩

/-- A body whose messages go to a quiet sink at its end is a seasoned one. -/
theorem seasoned_flushing {sink : Sink ε} (hsink : ∀ ms, Quiet records (sink.sendAll ms)) (c : Context)
    (body : Body ε κ) : Seasoned records body (flushing sink c body) := by
  intro w o' w' h
  obtain ⟨hspoilt, hquiet, hcrash⟩ := run_flushing (fun ms => (hsink ms).steps) c body w
  rw [h] at hspoilt hquiet hcrash
  refine ⟨_, _, Prod.eta _, hquiet, ?_⟩
  generalize (body.run w).1 = o at hspoilt hcrash
  cases hspoilt with
  | not => exact .same _
  | failed data k e => exact .failed ..
  | crashed data k m =>
    obtain hbody | ⟨messages, w₁, hsend⟩ := hcrash m rfl
    · cases hbody
    · obtain ⟨_, _, hrun, -⟩ := (hsink messages).run w₁
      rw [hrun] at hsend
      cases hsend

variable (records) in
/-- The extension hands the body on, as it is or with the sending behind it. -/
theorem run_wrap (sink : Sink ε) (x : Executor ε) (κ : Type) (c : Context) (phase : Phase)
    (w : World ε) : ∃ w₁, Alike records w w₁ ∧ ∃ flush : Bool, ∀ body : Body ε κ,
      ((wrap sink x).execute c phase body).run w =
        (x.execute c phase (if flush then flushing sink c body else body)).run w₁ := by
  have hquiet : Quiet records (strategy? c) := .withProperties c _
  obtain ⟨strategy, w₁, hstrategy, hq⟩ := hquiet.run w
  refine ⟨w₁, hq, strategy.any (·.flushes phase), fun body => ?_⟩
  simp only [wrap, Process.run_bind, hstrategy]
  cases strategy with
  | none => rfl
  | some s => rfl

/-- **The extension that publishes** keeps executors sound. -/
theorem sound_wrap {sink : Sink ε} (hsink : ∀ ms, Quiet records (sink.sendAll ms)) {x : Executor ε}
    (hx : x.Sound records) : (wrap sink x).Sound records where
  executed {κ} c phase body w w' o h := by
    obtain ⟨w₁, hq, flush, hrun⟩ := run_wrap records sink x κ c phase w
    rw [hrun] at h
    refine ((hx.executed _ _ _ h).seasoned ?_).earlier hq
    cases flush with
    | true => exact seasoned_flushing hsink c body
    | false => exact Seasoned.refl body
  idle {κ} c phase w hw body body' := by
    obtain ⟨w₁, hq, flush, hrun⟩ := run_wrap records sink x κ c phase w
    rw [hrun, hrun]
    exact hx.idle c phase (hq.ledger c.process c.key ▸ hw) _ _

end Publisher

/-! ## Faithful extensions -/

/-- A quiet hook is a client that calls no phase. -/
theorem Quiet.client {a : Action ε (Except Error Unit)} (h : Quiet records a) (x : Executor ε)
    (c : Context) : ∃ client : Client ε Error (Except Error Unit),
      client.Within (Beside Eq records c) ∧ a = client.act x c :=
  ⟨.ofAction a, Client.within_ofAction (h.steps.mono fun _ _ hq => hq.beside Ledger.keeping_eq),
    (Client.act_ofAction x c a).symm⟩

/-- **The extension that logs** is faithful. -/
theorem Recorder.faithful {log : Part ε CallLog} (hlog : records.Apart log) (r : Recorder) :
    (r.interceptor log).Faithful records where
  wrap := r.sound_wrap hlog
  created x c := Quiet.client (.bind (.changePart hlog _) fun _ => .pure _) x c
  closed x c := Quiet.client (.bind (.changePart hlog _) fun _ => .pure _) x c

/-- **The extension that counts** is faithful. -/
theorem Stats.faithful {part : Part ε Stats} (hpart : records.Apart part) :
    (Stats.interceptor part).Faithful records where
  wrap := Stats.sound_wrap hpart
  created x c := Quiet.client (.bind (.changePart hpart _) fun _ => .pure _) x c
  closed x c := Quiet.client (.bind (.changePart hpart _) fun _ => .pure _) x c

/-- **The extension that traces** is faithful. -/
theorem Monitoring.faithful : (Monitoring.interceptor : Interceptor ε).Faithful records where
  wrap := Monitoring.sound_wrap
  created x c := Quiet.client
    (.bind (quiet_contextSpan c) fun s => .bind (.within s (.tell _)) fun _ => .pure _) x c
  closed x c := Quiet.client
    (.bind (quiet_contextSpan c) fun s => .bind (.within s (.tell _)) fun _ =>
      .bind (.withProperties c _) fun _ => .pure _) x c

/-- **The extension that publishes** is faithful, over a quiet sink. -/
theorem Publisher.faithful {sink : Sink ε} (hsink : ∀ ms, Quiet records (sink.sendAll ms)) :
    (Publisher.interceptor sink).Faithful records where
  wrap := Publisher.sound_wrap hsink
  created x c := by
    refine Quiet.client ?_ x c
    simp only [interceptor]
    cases PublishStrategy.ofSettings c.settings with
    | error e => exact .pure _
    | ok s => exact .bind (.withProperties c _) fun _ => .pure _
  closed x c := Quiet.client (.pure _) x c

/-! ## Locks in a table -/

theorem LockTable.quiet_obtain {locks : Part ε (LockTable RecordKey)} (hlocks : records.Apart locks)
    (key : RecordKey) (timeout : Duration) (now : Instant) :
    Quiet records ((LockTable.adapter locks).obtain key timeout now) := by
  simp only [LockTable.adapter]
  exact .on hlocks _

theorem LockTable.quiet_release {locks : Part ε (LockTable RecordKey)} (hlocks : records.Apart locks)
    (handle : LockHandle) : Quiet records ((LockTable.adapter locks).release handle) := by
  simp only [LockTable.adapter]
  exact .on hlocks _

/-! ## A provider in memory -/

/-- An environment of records, locks and counters. -/
structure Desk where
  records : MemoryStore := Table.empty
  locks : LockTable RecordKey := default
  stats : Stats := {}

namespace Desk

/-- The records. -/
def recordsPart : Part Desk MemoryStore where
  get := (·.records)
  set a d := { d with records := a }

/-- The locks. -/
def locksPart : Part Desk (LockTable RecordKey) where
  get := (·.locks)
  set a d := { d with locks := a }

/-- The counters. -/
def statsPart : Part Desk Stats where
  get := (·.stats)
  set a d := { d with stats := a }

/-- The provider with the given extensions; its clocks stand still. -/
def provider (extensions : List (Interceptor Desk)) : Provider Desk where
  locks := LockTable.adapter locksPart
  store := MemoryStore.adapter recordsPart (pure .epoch)
  interceptors := extensions
  clock := pure .epoch

/-- The extensions that trace and count. -/
def observers : List (Interceptor Desk) := [Monitoring.interceptor, Stats.interceptor statsPart]

/-- **A provider of this kind** is one in memory, whichever faithful extensions it has. -/
theorem inMemory {extensions : List (Interceptor Desk)}
    (h : ∀ i ∈ extensions, i.Faithful recordsPart) :
    (provider extensions).InMemory recordsPart (pure .epoch) where
  store := rfl
  quiet_stamps := .pure _
  quiet_clock := .pure _
  obtained := LockTable.quiet_obtain ⟨fun _ _ => rfl, fun _ _ => rfl⟩
  released := LockTable.quiet_release ⟨fun _ _ => rfl, fun _ _ => rfl⟩
  faithful := h

theorem faithful_observers : ∀ i ∈ observers, i.Faithful recordsPart := by
  intro i hi
  rcases List.mem_cons.1 hi with rfl | hi
  · exact Monitoring.faithful
  · obtain rfl := List.mem_singleton.1 hi
    exact Stats.faithful ⟨fun _ _ => rfl, fun _ _ => rfl⟩

/-- **A provider with both observers.** -/
def observed : Provider Desk := provider observers

theorem inMemory_observed : observed.InMemory recordsPart (pure .epoch) := inMemory faithful_observers

/-- **A provider without extensions.** -/
def plain : Provider Desk := provider []

theorem inMemory_plain : plain.InMemory recordsPart (pure .epoch) := inMemory fun _ hi => nomatch hi

/-- Nothing has happened yet. -/
def fresh : World Desk := { env := {} }

end Desk

end Idempotence
