/-
  Attempts — an instance from its start to its end, with whatever is done in between.

  1. **Courses** — a `Course` is an invariant of a context together with a preorder of worlds that
     three things keep: steps beside the context, calls of phases, and the engine's own changes of the
     state of the context.  A client, the hooks of extensions, closing and dropping are made of these
     three and nothing else, so every course runs through all of them (`Course.client`,
     `Course.close`, `Course.drop`, `Course.introduce`, `Course.conduct`).

  2. **Providers in memory** — `Provider.InMemory` is what is asked of the components: a store in
     memory, quiet clocks and locks, and extensions that keep executors sound and whose hooks are
     clients themselves.  `Provider.start_cases` says once how an instance starts.

  3. **The crux** — two courses are all there is to know.  Beside steps that add records, a context
     stays ready and its ledger grows (`course_grows`).  Beside steps that leave the ledger alone it is
     SEALED as well: once there is a final record the context knows of it, because it was there when
     the instance started or because the context has left a final phase, and then the ledger stays
     as it is (`course_frozen`).
-/
import Idempotence.Proofs.EngineRelations

namespace Idempotence

variable {σ ε α β γ : Type}

/-! ## Invariants of whole runs -/

/-- **Keeping an invariant**: however the process ends, `I` holds then, and `R` relates the states
    before and after. -/
def Process.Preserves (I : σ → Prop) (R : σ → σ → Prop) (p : Process σ α) : Prop :=
  ∀ s, I s → I (p.run s).2 ∧ R s (p.run s).2

namespace Process.Preserves

variable {I : σ → Prop} {R : σ → σ → Prop}

theorem pure (hrefl : ∀ s, R s s) (a : α) : Preserves I R (Pure.pure a : Process σ α) :=
  fun s hs => ⟨hs, hrefl s⟩

theorem look (hrefl : ∀ s, R s s) (f : σ → α) : Preserves I R (Process.look f) :=
  fun s hs => ⟨hs, hrefl s⟩

theorem atomically {f : σ → α × σ} (h : ∀ s, I s → I (f s).2 ∧ R s (f s).2) :
    Preserves I R (Process.atomically f) := h

theorem change {f : σ → σ} (h : ∀ s, I s → I (f s) ∧ R s (f s)) : Preserves I R (Process.change f) := h

theorem bind (htrans : ∀ s t u, R s t → R t u → R s u) {p : Process σ α} {f : α → Process σ β}
    (hp : p.Preserves I R) (hf : ∀ a, (f a).Preserves I R) : (p >>= f).Preserves I R := by
  intro s hs
  obtain ⟨ht, hst⟩ := hp s hs
  rw [run_bind]
  cases hrun : p.run s with
  | mk o t =>
    rw [hrun] at ht hst
    cases o with
    | crashed m => exact ⟨ht, hst⟩
    | value a =>
      obtain ⟨hu, htu⟩ := hf a t ht
      exact ⟨hu, htrans _ _ _ hst htu⟩

theorem caught {p : Process σ α} (hp : p.Preserves I R) : p.caught.Preserves I R := by
  intro s hs
  rw [run_caught]
  exact hp s hs

theorem onCrash (htrans : ∀ s t u, R s t → R t u → R s u) {p : Process σ α} {last : Process σ Unit}
    (hp : p.Preserves I R) (hlast : last.Preserves I R) : (p.onCrash last).Preserves I R := by
  intro s hs
  obtain ⟨ht, hst⟩ := hp s hs
  rw [run_onCrash]
  cases hrun : p.run s with
  | mk o t =>
    rw [hrun] at ht hst
    cases o with
    | value a => exact ⟨ht, hst⟩
    | crashed m =>
      obtain ⟨hu, htu⟩ := hlast t ht
      cases hlast' : last.run t with
      | mk o' u =>
        rw [hlast'] at hu htu
        cases o' <;> simpa [hlast'] using ⟨hu, htrans _ _ _ hst htu⟩

end Process.Preserves

/-! ## Courses -/

/-- **An invariant of a context** and a preorder of worlds that whatever happens to it keeps. -/
structure Course (K : Ledger → Ledger → Prop) (records : Part ε MemoryStore) (c : Context)
    (I : World ε → Prop) (R : World ε → World ε → Prop) : Prop where
  keeping : Ledger.Keeping K
  refl : ∀ w, R w w
  trans : ∀ w w' w'', R w w' → R w' w'' → R w w''
  /-- The context has been created. -/
  created : ∀ {w}, I w → c.id < w.contexts.length
  beside : ∀ {w w'}, I w → Beside K records c w w' → I w' ∧ R w w'
  called : ∀ {β γ : Type} [EngineFailure β] {phase : Phase} {codec : Codec γ} {w w' : World ε}
    {o : Outcome (Except β γ)}, I w → c.Called K records phase codec w o w' → I w' ∧ R w w'
  /-- The engine's own changes, which enter and leave no phase. -/
  own : ∀ {w} {f : ContextState → ContextState},
    (∀ s, (f s).wasFinal = s.wasFinal ∧ (f s).active = s.active) → I w →
    I (w.modifyContext c.id f) ∧ R w (w.modifyContext c.id f)

/-- **A faithful extension**: it keeps executors sound, and its hooks use the context as any program
    may. -/
structure Interceptor.Faithful (records : Part ε MemoryStore) (i : Interceptor ε) : Prop where
  wrap : ∀ {x : Executor ε}, x.Sound records → (i.wrap x).Sound records
  created : ∀ (x : Executor ε) (c : Context), ∃ client : Client ε Error (Except Error Unit),
    client.Within (Beside Eq records c) ∧ i.created x c = client.act x c
  closed : ∀ (x : Executor ε) (c : Context), ∃ client : Client ε Error (Except Error Unit),
    client.Within (Beside Eq records c) ∧ i.closed x c = client.act x c

/-- **A provider over a store in memory.** -/
structure Provider.InMemory (p : Provider ε) (records : Part ε MemoryStore) (stamps : Action ε Instant) :
    Prop where
  store : p.store = MemoryStore.adapter records stamps
  quiet_stamps : Quiet records stamps
  quiet_clock : Quiet records p.clock
  obtained : ∀ key timeout now, Quiet records (p.locks.obtain key timeout now)
  released : ∀ handle, Quiet records (p.locks.release handle)
  faithful : ∀ i ∈ p.interceptors, i.Faithful records

/-- The whole chain of executors is sound. -/
theorem Provider.InMemory.sound {p : Provider ε} {records : Part ε MemoryStore}
    {stamps : Action ε Instant} (hp : p.InMemory records stamps) : p.executor.Sound records := by
  refine Executor.compose_induction ?_ fun i hi x hx => (hp.faithful i hi).wrap hx
  rw [hp.store]
  exact MemoryStore.sound_base hp.quiet_stamps

namespace Course

variable {K : Ledger → Ledger → Prop} {records : Part ε MemoryStore} {c : Context}
  {I : World ε → Prop} {R : World ε → World ε → Prop} {x : Executor ε}

theorem quiet (h : Course K records c I R) {a : Action ε α} (ha : Quiet records a) :
    a.Preserves I R :=
  fun w hw => h.beside hw ((ha.steps.run Alike.refl Alike.trans w).beside h.keeping)

theorem changed (h : Course K records c I R) {f : ContextState → ContextState}
    (hf : ∀ s, (f s).wasFinal = s.wasFinal ∧ (f s).active = s.active) :
    (c.change f : Action ε Unit).Preserves I R :=
  fun _ hw => h.own hf hw

/-- **Clients** keep to the course. -/
theorem client [EngineFailure β] (h : Course K records c I R) (hx : x.Sound records)
    {client : Client ε β α} (hclient : client.Within (Beside K records c)) :
    (client.act x c).Preserves I R := by
  intro w hw
  induction client generalizing w with
  | done a => exact ⟨hw, h.refl w⟩
  | crash m => exact ⟨hw, h.refl w⟩
  | step e k ih =>
    obtain ⟨hw', hR⟩ := h.beside hw (hclient.1 w)
    obtain ⟨hw'', hR'⟩ := ih w (hclient.2 w) (e w) hw'
    exact ⟨hw'', h.trans _ _ _ hR hR'⟩
  | call phase codec body k _ ih =>
    rw [Client.run_call]
    have hcall := Client.called h.keeping hx hclient.1 (h.created hw)
      (Prod.eta ((c.run x phase codec (body.act x c)).run w))
    obtain ⟨hw', hR⟩ := h.called hw hcall
    obtain ⟨hw'', hR'⟩ := ih _ (hclient.2 _) _ hw'
    exact ⟨hw'', h.trans _ _ _ hR hR'⟩

/-- A hook keeps to the course. -/
theorem hook (h : Course K records c I R) (hx : x.Sound records) {a : Action ε (Except Error Unit)}
    (ha : ∃ client : Client ε Error (Except Error Unit),
      client.Within (Beside Eq records c) ∧ a = client.act x c) : a.Preserves I R := by
  obtain ⟨client, hclient, rfl⟩ := ha
  refine h.client hx (hclient.mono fun hbeside => ?_)
  exact ⟨hbeside.ledger ▸ h.keeping.refl _, hbeside.length, hbeside.bare⟩

/-! ## Starting and closing -/

variable {p : Provider ε} {stamps : Action ε Instant}

/-- To keep to a course goes through sequencing. -/
theorem sequential (h : Course K records c I R) :
    Process.Sequential fun a _ : Action ε _ => a.Preserves I R where
  done _ := .pure h.refl _
  bind ha hf := .bind h.trans ha hf

theorem runCreated (h : Course K records c I R) (hx : x.Sound records)
    {extensions : List (Interceptor ε)} (hfaithful : ∀ i ∈ extensions, i.Faithful records) :
    (Provider.runCreated x c extensions).Preserves I R := by
  have hcount : (c.change fun s => { s with notified := s.notified + 1 } : Action ε Unit).Preserves I R :=
    h.changed fun _ => ⟨rfl, rfl⟩
  exact h.sequential.runCreated hcount fun i hi => h.hook hx ((hfaithful i hi).created x c)

theorem tends (h : Course K records c I R) (hp : p.InMemory records stamps) :
    p.Tends (fun a _ => a.Preserves I R) c where
  sequential := h.sequential
  tell e := h.quiet (.tell e)
  closed i hi := h.hook hp.sound ((hp.faithful i hi).closed p.executor c)
  notified := .look h.refl _
  wasClosed := .look h.refl _
  mark := .atomically fun _ hw => h.own (fun _ => ⟨rfl, rfl⟩) hw
  take := .atomically fun _ hw => h.own (fun _ => ⟨rfl, rfl⟩) hw
  release handle := h.quiet (hp.released handle)

/-- **Closing** keeps to the course. -/
theorem close (h : Course K records c I R) (hp : p.InMemory records stamps) :
    (p.close c).Preserves I R := (h.tends hp).close

/-- **Dropping** keeps to the course. -/
theorem drop (h : Course K records c I R) (hp : p.InMemory records stamps) :
    (p.drop c).Preserves I R := (h.tends hp).drop

end Course

/-! ## How an instance starts and ends -/

namespace Provider

/-- **All that starting does once there is a context**: the extensions learn of it. -/
def introduce (p : Provider ε) (c : Context) : Action ε (Except Error Context) := do
  match ← (runCreated p.executor c p.interceptors).onCrash (p.drop c) with
  | .ok () => return .ok c
  | .error e =>
    p.drop c
    return .error e

/-- **All that running a process does once it has started.** -/
def conduct [EngineFailure β] (p : Provider ε) (process key : String) (c : Context)
    (body : Context → Action ε (Except β α)) : Action ε (Except β α) := do
  let result ← (p.runBody c body).onCrash (p.drop c)
  let closing ← p.close c
  match result, closing with
  | .ok a, .ok () => return .ok a
  | .ok _, .error e => return .error (ofError e)
  | .error e, .ok () => return .error e
  | .error e, .error closing =>
    Action.tell (.closingFailedToo process key closing)
    return .error e

/-- The empty final phase is run where no final phase has been left. -/
theorem run_complete [EngineFailure β] (p : Provider ε) (c : Context) (w : World ε) :
    (p.complete c : Action ε (Except β Unit)).run w =
      if (w.context c.id).wasFinal then (.value (.ok ()), w)
      else (p.runPhase c { id := autoFinal, isFinal := true } .unit (pure (.ok ()))).run w := by
  unfold complete Context.wasFinal Context.look
  rw [Process.run_bind, Process.run_look]
  show Process.run (if (w.context c.id).wasFinal = true then _ else _) w = _
  split <;> rfl

theorem run_runProcess [EngineFailure β] (p : Provider ε) (process key : String) (timeout : Duration)
    (settings : List Setting) (body : Context → Action ε (Except β α)) (w : World ε) :
    (p.runProcess process key timeout settings body).run w =
      match (p.start process key timeout settings).run w with
      | (.value (.error e), w') => (.value (.error (ofError e)), w')
      | (.value (.ok c), w') => (p.conduct process key c body).run w'
      | (.crashed m, w') => (.crashed m, w') := by
  unfold runProcess conduct
  rw [Process.run_bind]
  cases (p.start process key timeout settings).run w with
  | mk o w' =>
    cases o with
    | crashed m => rfl
    | value answer => cases answer <;> rfl

/-- A body together with the empty final phase behind it goes by how the body ends. -/
theorem runBody_congr [EngineFailure β] (p : Provider ε) {c : Context}
    {body body' : Context → Action ε (Except β α)} {w w' : World ε}
    (h : (body c).run w = (body' c).run w') :
    (p.runBody c body).run w = (p.runBody c body').run w' := by
  unfold runBody
  rw [Process.run_bind, Process.run_bind, h]

/-- A body that fails is not completed by the empty final phase. -/
theorem runBody_error [EngineFailure β] {p : Provider ε} {c : Context}
    {body : Context → Action ε (Except β α)} {e : β} {w w' : World ε}
    (h : (body c).run w = (.value (.error e), w')) :
    (p.runBody c body).run w = (.value (.error e), w') := by
  unfold runBody
  simp only [Process.run_bind, h, Process.run_pure]

/-- A body that returns a value is completed by the empty final phase; where that fails, the value is lost. -/
theorem runBody_ok [EngineFailure β] {p : Provider ε} {c : Context}
    {body : Context → Action ε (Except β α)} {a : α} {completed : Except β Unit} {w w₁ w' : World ε}
    (h : (body c).run w = (.value (.ok a), w₁)) (hcomplete : (p.complete c).run w₁ = (.value completed, w')) :
    (p.runBody c body).run w = (.value (completed.map fun _ => a), w') := by
  unfold runBody
  simp only [Process.run_bind, h, hcomplete]
  cases completed <;> rfl

/-- The whole attempt goes by how the body ends. -/
theorem conduct_congr [EngineFailure β] (p : Provider ε) (process key : String) {c : Context}
    {body body' : Context → Action ε (Except β α)} {w w' : World ε}
    (h : (body c).run w = (body' c).run w') :
    (p.conduct process key c body).run w = (p.conduct process key c body').run w' := by
  unfold conduct
  rw [Process.run_bind, Process.run_bind, Process.run_onCrash, Process.run_onCrash,
    p.runBody_congr h]

/-- **An instance that has been opened**: its lock has been obtained, and there is a context that
    knows of the recorded final phase, if there is one. -/
structure Opened (p : Provider ε) (records : Part ε MemoryStore) (process key : String)
    (timeout : Duration) (settings : List Setting) (w : World ε) (c : Context) (w₀ : World ε) : Prop where
  check : checkStart process key settings = .ok ()
  taken : ∃ now w₁ handle w₂, p.clock.run w = (.value now, w₁) ∧
    (p.locks.obtain (RecordKey.lock process key) timeout now).run w₁ =
      (.value (.ok (.obtained handle)), w₂) ∧
    c = { id := w₂.contexts.length, process, key, settings,
          recordedFinal := (records.get w₂.env).findFinal process key } ∧
    w₀ = { w₂ with contexts := w₂.contexts ++ [{ lock := some handle }] }

variable {p : Provider ε} {records : Part ε MemoryStore} {stamps : Action ε Instant}
  {process key : String} {timeout : Duration} {settings : List Setting} {w w₀ w' : World ε}
  {c : Context}

namespace Opened

theorem process_eq (h : p.Opened records process key timeout settings w c w₀) : c.process = process := by
  obtain ⟨now, w₁, handle, w₂, -, -, rfl, -⟩ := h.taken
  rfl

theorem key_eq (h : p.Opened records process key timeout settings w c w₀) : c.key = key := by
  obtain ⟨now, w₁, handle, w₂, -, -, rfl, -⟩ := h.taken
  rfl

/-- Opening an instance makes no record. -/
theorem records_eq (hp : p.InMemory records stamps)
    (h : p.Opened records process key timeout settings w c w₀) :
    records.get w₀.env = records.get w.env := by
  obtain ⟨now, w₁, handle, w₂, hclock, hlock, -, rfl⟩ := h.taken
  have h₁ := hp.quiet_clock.steps.run Alike.refl Alike.trans w
  have h₂ := (hp.obtained (RecordKey.lock process key) timeout now).steps.run Alike.refl Alike.trans w₁
  rw [hclock] at h₁
  rw [hlock] at h₂
  exact h₂.records.trans h₁.records

theorem ledger_eq (hp : p.InMemory records stamps)
    (h : p.Opened records process key timeout settings w c w₀) (process' key' : String) :
    records.ledger process' key' w₀ = records.ledger process' key' w := by
  unfold Part.ledger
  rw [h.records_eq hp]

/-- The context is there, and all that has been done to it is that it got the lock. -/
theorem context_eq (h : p.Opened records process key timeout settings w c w₀) :
    c.id < w₀.contexts.length ∧ ∃ handle, w₀.context c.id = { lock := some handle } := by
  obtain ⟨now, w₁, handle, w₂, -, -, rfl, rfl⟩ := h.taken
  refine ⟨by simp, handle, ?_⟩
  simp [World.context, List.getD_eq_getElem?_getD]

/-- The context knows of the recorded final phase that the store finds. -/
theorem recordedFinal_eq (hp : p.InMemory records stamps)
    (h : p.Opened records process key timeout settings w c w₀) :
    c.recordedFinal = (records.get w.env).findFinal process key := by
  have hrecords := h.records_eq hp
  obtain ⟨now, w₁, handle, w₂, -, -, rfl, rfl⟩ := h.taken
  rw [← hrecords]

/-- The context knows of a recorded final phase exactly if there is one. -/
theorem knows_iff (hp : p.InMemory records stamps)
    (h : p.Opened records process key timeout settings w c w₀) :
    c.recordedFinal ≠ none ↔ (records.ledger process key w).Final := by
  unfold Part.ledger
  rw [h.recordedFinal_eq hp, ← MemoryStore.findFinal_isSome, Option.isSome_iff_ne_none]

end Opened

/-- **How an instance starts.**  Either it cannot be opened, and then nothing has changed that counts;
    or it has been opened, and its extensions learn of it. -/
theorem start_cases (hp : p.InMemory records stamps) {o : Outcome (Except Error Context)}
    (h : (p.start process key timeout settings).run w = (o, w')) :
    (Alike records w w' ∧ (∃ e, o = .value (.error e)) ∧
      ∀ c w₀, ¬ p.Opened records process key timeout settings w c w₀) ∨
    ∃ c w₀, p.Opened records process key timeout settings w c w₀ ∧
      (p.introduce c).run w₀ = (o, w') := by
  unfold start at h
  split at h
  · rename_i hcheck
    obtain ⟨rfl, rfl⟩ := Prod.mk.inj h
    refine .inl ⟨.refl w, ⟨_, rfl⟩, fun c w₀ hopened => ?_⟩
    rw [hopened.check] at hcheck
    cases hcheck
  · rename_i hcheck
    obtain ⟨now, w₁, hclock, hq₁⟩ := hp.quiet_clock.run w
    obtain ⟨answer, w₂, hlock, hq₂⟩ := (hp.obtained (RecordKey.lock process key) timeout now).run w₁
    have hnot : (∀ handle, answer ≠ .ok (.obtained handle)) →
        ∀ c w₀, ¬ p.Opened records process key timeout settings w c w₀ := by
      rintro hanswer c w₀ ⟨-, now', w₁', handle, w₂', hclock', hlock', -, -⟩
      rw [hclock] at hclock'
      cases hclock'
      rw [hlock] at hlock'
      cases hlock'
      exact hanswer handle rfl
    simp only [Process.run_bind, hclock, hlock] at h
    match answer, hlock, hnot, h with
    | .error e, _, hnot, h =>
      obtain ⟨rfl, rfl⟩ := Prod.mk.inj h
      exact .inl ⟨hq₁.trans hq₂, ⟨_, rfl⟩, hnot fun handle h => nomatch h⟩
    | .ok (.locked tryAt), _, hnot, h =>
      obtain ⟨rfl, rfl⟩ := Prod.mk.inj h
      exact .inl ⟨(hq₁.trans hq₂).trans ⟨rfl, rfl, fun _ => rfl⟩, ⟨_, rfl⟩, hnot fun handle h => nomatch h⟩
    | .ok (.obtained handle), hlock, _, h =>
      refine .inr ⟨_, _, ⟨hcheck, now, w₁, handle, w₂, hclock, hlock, rfl, rfl⟩, ?_⟩
      have h : (p.startLocked process key settings handle).run w₂ = (o, w') := h
      unfold startLocked at h
      rw [hp.store] at h
      simp only [MemoryStore.adapter, Action.look, newContext, Process.run_bind, Process.run_look,
        Process.run_atomically] at h
      rw [← h]
      exact Process.run_bind ..

/-- Whoever is introduced is the context that was opened. -/
theorem introduce_eq_ok {c' : Context} (h : (p.introduce c).run w₀ = (.value (.ok c'), w')) : c' = c := by
  obtain ⟨answer, w₁, -, h⟩ := Process.run_bind_eq_value h
  cases answer with
  | ok u =>
    cases h
    rfl
  | error e =>
    obtain ⟨_, _, -, h⟩ := Process.run_bind_eq_value h
    cases h

/-- **An attempt that succeeds** has run its body to a value, recorded the empty final phase where it
    had to, and closed the context. -/
theorem conduct_eq_ok [EngineFailure β] {body : Context → Action ε (Except β α)} {a : α}
    (h : (p.conduct process key c body).run w₀ = (.value (.ok a), w')) :
    ∃ w₁ w₂, (body c).run w₀ = (.value (.ok a), w₁) ∧
      (p.complete c : Action ε (Except β Unit)).run w₁ = (.value (.ok ()), w₂) ∧
      (p.close c).run w₂ = (.value (.ok ()), w') := by
  obtain ⟨result, w₂, hresult, h⟩ := Process.run_bind_eq_value h
  obtain ⟨closing, w₃, hclosing, h⟩ := Process.run_bind_eq_value h
  have hresult := Process.run_onCrash_eq_value hresult
  match result, closing, h with
  | .ok _, .error e, h => cases h
  | .error e, .ok (), h => cases h
  | .error e, .error closing, h =>
    obtain ⟨_, _, _, h⟩ := Process.run_bind_eq_value h
    cases h
  | .ok b, .ok (), h =>
    cases h
    obtain ⟨answer, w₁, hbody, hresult⟩ := Process.run_bind_eq_value hresult
    cases answer with
    | error e => cases hresult
    | ok b =>
      obtain ⟨completed, w₂', hcomplete, hresult⟩ := Process.run_bind_eq_value hresult
      cases completed with
      | error e => cases hresult
      | ok u =>
        cases hresult
        exact ⟨w₁, w₂, hbody, hcomplete, hclosing⟩

end Provider

namespace Course

variable {K : Ledger → Ledger → Prop} {records : Part ε MemoryStore} {c : Context}
  {I : World ε → Prop} {R : World ε → World ε → Prop} {p : Provider ε} {stamps : Action ε Instant}

/-- **Introducing a context** to the extensions keeps to its course. -/
theorem introduce (h : Course K records c I R) (hp : p.InMemory records stamps) :
    (p.introduce c).Preserves I R := by
  refine .bind h.trans (.onCrash h.trans (h.runCreated hp.sound hp.faithful) (h.drop hp)) fun answer => ?_
  cases answer with
  | ok u => exact .pure h.refl _
  | error e => exact .bind h.trans (h.drop hp) fun _ => .pure h.refl _

/-- A call of a phase whose body does nothing, such as the empty final phase. -/
theorem complete [EngineFailure β] (h : Course K records c I R) (hp : p.InMemory records stamps) :
    (p.complete c : Action ε (Except β Unit)).Preserves I R := by
  refine .bind h.trans (.look h.refl _) fun wasFinal => ?_
  split
  · exact .pure h.refl _
  · intro w hw
    have hbody : (Client.done (.ok ()) : Client ε β (Except β Unit)).Within (Beside K records c) := trivial
    exact h.called hw (Client.called h.keeping hp.sound hbody (h.created hw) (Prod.eta _))

/-- **A whole body** keeps to the course, to the closing of the context. -/
theorem conduct [EngineFailure β] (h : Course K records c I R) (hp : p.InMemory records stamps)
    (process key : String) (body : Context → Action ε (Except β α))
    (hbody : (body c).Preserves I R) : (p.conduct process key c body).Preserves I R := by
  have hrunBody : (p.runBody c body).Preserves I R := by
    refine .bind h.trans hbody fun answer => ?_
    cases answer with
    | error e => exact .pure h.refl _
    | ok a =>
      refine .bind h.trans (h.complete hp) fun completed => ?_
      cases completed <;> exact .pure h.refl _
  refine .bind h.trans (.onCrash h.trans hrunBody (h.drop hp)) fun result => ?_
  refine .bind h.trans (h.close hp) fun closing => ?_
  cases result with
  | ok a => cases closing <;> exact .pure h.refl _
  | error e =>
    cases closing with
    | ok u => exact .pure h.refl _
    | error e' => exact .bind h.trans (h.quiet (.tell _)) fun _ => .pure h.refl _

/-- What comes **after the body** keeps to the course. -/
theorem conduct_rest [EngineFailure β] (h : Course K records c I R) (hp : p.InMemory records stamps)
    (process key : String) (body : Context → Action ε (Except β α)) (hbody : (body c).Preserves I R)
    {w : World ε} (hw : I w) :
    R ((body c).run w).2 ((p.conduct process key c body).run w).2 := by
  obtain ⟨hw₁, -⟩ := hbody w hw
  cases hrun : (body c).run w with
  | mk o w₁ =>
    rw [hrun] at hw₁
    -- An attempt goes by how its body ends, so the body might as well begin there.
    cases o with
    | value a =>
      have hdone : (Process.done a : Action ε (Except β α)).Preserves I R := .pure h.refl a
      have hsame : (p.conduct process key c body).run w =
          (p.conduct process key c fun _ => .done a).run w₁ := p.conduct_congr process key hrun
      rw [hsame]
      exact (h.conduct hp process key (fun _ => .done a) hdone w₁ hw₁).2
    | crashed m =>
      have hcrash : (Process.crash m : Action ε (Except β α)).Preserves I R :=
        fun w hw => ⟨hw, h.refl w⟩
      have hsame : (p.conduct process key c body).run w =
          (p.conduct process key c fun _ => .crash m).run w₁ := p.conduct_congr process key hrun
      rw [hsame]
      exact (h.conduct hp process key (fun _ => .crash m) hcrash w₁ hw₁).2

end Course

/-! ## The two courses -/

/-- **A context that waits**: it has been created, and no phase is active. -/
structure Context.Ready (c : Context) (w : World ε) : Prop where
  created : c.id < w.contexts.length
  idle : (w.context c.id).active = none

/-- **A sealed context**: if there is a final record, the context knows of it or has left a final
    phase. -/
def Context.Sealed (c : Context) (records : Part ε MemoryStore) (w : World ε) : Prop :=
  (records.ledger c.process c.key w).Final →
    c.recordedFinal ≠ none ∨ (w.context c.id).wasFinal = true

section

variable {K : Ledger → Ledger → Prop} {records : Part ε MemoryStore} {c : Context} {phase : Phase}
  {w w' : World ε}

/-- A context that has just been opened waits. -/
theorem Provider.Opened.ready {p : Provider ε} {process key : String} {timeout : Duration}
    {settings : List Setting} (h : p.Opened records process key timeout settings w c w') :
    c.Ready w' := by
  obtain ⟨hcreated, handle, hstate⟩ := h.context_eq
  exact ⟨hcreated, by rw [hstate]⟩

/-- Steps beside a context leave it waiting. -/
theorem Context.Ready.beside (h : c.Ready w) (hw : Beside K records c w w') : c.Ready w' :=
  ⟨Nat.lt_of_lt_of_le h.created hw.length,
    (ContextState.active_eq_none (hw.bare h.created)).2 h.idle⟩

/-- Whoever leaves a phase waits. -/
theorem Context.ready_leave (h : c.id < w.contexts.length) (phase : Phase) :
    c.Ready (w.modifyContext c.id (·.leave phase)) := by
  refine ⟨by rw [World.length_modifyContext]; exact h, ?_⟩
  rw [World.context_modifyContext_self _ _ h]
  rfl

/-- The context is there when the phase is left. -/
theorem Context.Ready.created_later {s : ContextState} (hready : c.Ready w)
    (hsteps : Beside K records c (w.modifyContext c.id fun _ => s) w') :
    c.id < w'.contexts.length := by
  have hlength := hsteps.length
  rw [World.length_modifyContext] at hlength
  exact Nat.lt_of_lt_of_le hready.created hlength

/-- What goes on while a phase is active makes no difference to the state in which it is left. -/
theorem Context.bare_leave {s : ContextState} (hready : c.Ready w)
    (hsteps : Beside K records c (w.modifyContext c.id fun _ => s) w') :
    ((w'.modifyContext c.id (·.leave phase)).context c.id).bare = (s.leave phase).bare := by
  have hlength : c.id < (w.modifyContext c.id fun _ => s).contexts.length := by
    rw [World.length_modifyContext]
    exact hready.created
  have hbare := hsteps.bare hlength
  rw [World.context_modifyContext_self _ _ hready.created] at hbare
  rw [World.context_modifyContext_self _ _ (hready.created_later hsteps)]
  exact ContextState.bare_leave hbare phase

/-- When a phase has been left, a final phase has been left exactly if it is final. -/
theorem Context.wasFinal_leave {s : ContextState} (hready : c.Ready w) (hpermit : c.permit phase w = .ok s)
    (hsteps : Beside K records c (w.modifyContext c.id fun _ => s) w') :
    ((w'.modifyContext c.id (·.leave phase)).context c.id).wasFinal = phase.isFinal := by
  obtain ⟨-, hfinal, -, -, rfl⟩ := Context.permit_eq_ok hpermit
  rw [ContextState.wasFinal_eq (Context.bare_leave hready hsteps)]
  show ((w.context c.id).wasFinal || phase.isFinal) = phase.isFinal
  rw [hfinal, Bool.false_or]

/-- A phase that has been left is the last one visited. -/
theorem Context.visited_leave {s : ContextState} (hready : c.Ready w) (hpermit : c.permit phase w = .ok s)
    (hsteps : Beside K records c (w.modifyContext c.id fun _ => s) w') :
    ((w'.modifyContext c.id (·.leave phase)).context c.id).visited =
      phase.id :: (w.context c.id).visited := by
  obtain ⟨-, -, -, -, rfl⟩ := Context.permit_eq_ok hpermit
  rw [ContextState.visited_eq (Context.bare_leave hready hsteps)]
  rfl

/-- A new record is a step beside the context by which the ledger grows. -/
theorem beside_store {id : String} (h : records.ledger c.process c.key w id = none) (r : StoredRecord) :
    Beside Ledger.Grows records c w (records.store ⟨c.process, c.key, id⟩ r w) := by
  refine ⟨?_, Nat.le_refl _, fun _ => rfl⟩
  rw [Part.ledger_store]
  exact Ledger.grows_put h r

/-- **A call that is permitted** enters the phase, does nothing but steps beside the context by which
    the ledger grows, and leaves the phase. -/
theorem Context.Called.refused_or_left [EngineFailure β] {codec : Codec γ} {o : Outcome (Except β γ)}
    (hK : Ledger.Keeping K) (h : c.Called K records phase codec w o w') :
    (w' = w ∧ ∃ e, o = .value (.error (ofError e))) ∨ ∃ s w₁, c.permit phase w = .ok s ∧
      Beside Ledger.Grows records c (w.modifyContext c.id fun _ => s) w₁ ∧
      w' = w₁.modifyContext c.id (·.leave phase) := by
  cases h with
  | @refused e permit => exact .inl ⟨rfl, e, rfl⟩
  | failed permit steps failure => exact .inr ⟨_, _, permit, steps.grows hK, rfl⟩
  | reread permit steps there => exact .inr ⟨_, _, permit, steps.grows hK, rfl⟩
  | recorded permit steps fresh free final written quiet =>
    have hstore := beside_store free
    exact .inr ⟨_, _, permit, ((steps.grows hK).trans Ledger.keeping_grows (hstore _)).trans
      Ledger.keeping_grows (quiet.beside Ledger.keeping_grows), rfl⟩

variable (records c)

/-- **A ledger only grows**, and a context that waits waits again. -/
theorem course_grows (hK : Ledger.Keeping K) :
    Course K records c c.Ready fun w w' : World ε =>
      (records.ledger c.process c.key w).Grows (records.ledger c.process c.key w') where
  keeping := hK
  refl _ := .refl _
  trans _ _ _ := .trans
  created h := h.created
  beside h hw := ⟨h.beside hw, hK.grows hw.ledger⟩
  own {w f} hf h := by
    refine ⟨⟨by rw [World.length_modifyContext]; exact h.created, ?_⟩, .refl _⟩
    rw [World.context_modifyContext_self _ _ h.created, (hf _).2]
    exact h.idle
  called h hcall := by
    rcases hcall.refused_or_left hK with ⟨rfl, -⟩ | ⟨s, w₁, hpermit, hsteps, rfl⟩
    · exact ⟨h, .refl _⟩
    · exact ⟨Context.ready_leave (h.created_later hsteps) _, hsteps.ledger⟩

/-- **Final means frozen**: beside steps that leave the ledger alone, a context stays sealed, and a
    ledger with a final record stays as it is. -/
theorem course_frozen :
    Course Eq records c (fun w : World ε => c.Ready w ∧ c.Sealed records w) fun w w' =>
      (records.ledger c.process c.key w).Grows (records.ledger c.process c.key w') ∧
      ((records.ledger c.process c.key w).Final →
        records.ledger c.process c.key w' = records.ledger c.process c.key w) where
  keeping := Ledger.keeping_eq
  refl _ := ⟨.refl _, fun _ => rfl⟩
  trans _ _ _ h h' := ⟨h.1.trans h'.1, fun hfinal => (h'.2 (h.1.final hfinal)).trans (h.2 hfinal)⟩
  created h := h.1.created
  beside {w w'} h hw := by
    refine ⟨⟨h.1.beside hw, fun hfinal => ?_⟩, hw.ledger ▸ .refl _, fun _ => hw.ledger.symm⟩
    rw [ContextState.wasFinal_eq (hw.bare h.1.created)]
    exact h.2 (hw.ledger ▸ hfinal)
  own {w f} hf h := by
    refine ⟨⟨((course_grows records c Ledger.keeping_eq).own hf h.1).1, fun hfinal => ?_⟩,
      .refl _, fun _ => rfl⟩
    rw [World.context_modifyContext_self _ _ h.1.created, (hf _).1]
    exact h.2 hfinal
  called {β γ _ phase codec w w' o} h hcall := by
    obtain ⟨hready, hsealed⟩ := h
    obtain ⟨hready', hgrows⟩ := (course_grows records c Ledger.keeping_eq).called hready hcall
    -- A phase that is entered finds no final phase left, so only an earlier attempt may have one.
    have hknows : ∀ {s}, c.permit phase w = .ok s → (records.ledger c.process c.key w).Final →
        c.recordedFinal ≠ none := by
      intro s hpermit hfinal
      rcases hsealed hfinal with h | h
      · exact h
      · rw [(Context.permit_eq_ok hpermit).2.1] at h
        cases h
    cases hcall with
    | refused permit => exact ⟨⟨hready, hsealed⟩, .refl _, fun _ => rfl⟩
    | failed permit steps failure =>
      exact ⟨⟨hready', fun hfinal => .inl (hknows permit (steps.ledger ▸ hfinal))⟩, hgrows,
        fun _ => steps.ledger.symm⟩
    | reread permit steps there =>
      exact ⟨⟨hready', fun hfinal => .inl (hknows permit (steps.ledger ▸ hfinal))⟩, hgrows,
        fun _ => steps.ledger.symm⟩
    | @recorded s w₁ w₂ r v permit steps fresh free final written quiet =>
      have hnone : ¬ (records.ledger c.process c.key w).Final :=
        fun hfinal => hknows permit hfinal fresh
      have hput : records.ledger c.process c.key (w₂.modifyContext c.id (·.leave phase)) =
          (records.ledger c.process c.key w).put phase.id r := by
        show records.ledger c.process c.key w₂ = _
        rw [quiet.ledger, Part.ledger_store, ← steps.ledger]
        rfl
      refine ⟨⟨hready', fun hfinal => .inr ?_⟩, hgrows, fun hfinal => absurd hfinal hnone⟩
      -- The record is the only one that can be final, and then the phase was.
      have hstore := beside_store free r
      rw [Context.wasFinal_leave hready permit (((steps.grows Ledger.keeping_eq).trans
        Ledger.keeping_grows hstore).trans Ledger.keeping_grows (quiet.beside Ledger.keeping_grows)), ← final]
      cases hr : r.isFinal with
      | true => rfl
      | false => exact absurd (Ledger.final_put hr (hput ▸ hfinal)) hnone

end

end Idempotence
