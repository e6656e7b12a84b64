/-
  Relations through the engine — relations on actions that go through all that the engine does.

  Whatever is said of all that a provider does, be it that an invariant is kept or that two runs look alike,
  is proved along the same lines: through every function of the provider, down to its parts.  This file goes
  that way once, for any relation that goes through sequencing.

  1. **Relations** — such a relation is SEQUENTIAL, HEREDITARY if it goes through whatever may become of a
     crash, too, and CONGRUENT if it goes through everything that processes are built with.  A property of
     processes is one that does not look at its other side.

  2. **Opening and closing** — a sequential relation holds of closing and dropping a context, if it holds of
     the parts (`Provider.Tends`).

  3. **Executing and calling** — a sequential one holds of executions by the base executor, if it holds of what
     they ask of the store (`StoreAdapter.Related`); a hereditary one holds of calls, if it holds of executions.

  4. **Starting** — a congruent one holds of calls, starts and whole processes of two providers, if it holds of
     theirs (`Provider.Related`).
-/
import Idempotence.Proofs.PhaseCalls
import Idempotence.Provider

namespace Idempotence

variable {σ ε α β γ κ : Type}

/-! ## Relations -/

/-- **A relation on processes that goes through sequencing.** -/
structure Process.Sequential (R : {α : Type} → Process σ α → Process σ α → Prop) : Prop where
  done : ∀ {α : Type} (a : α), R (.done a) (.done a)
  bind : ∀ {α β : Type} {a a' : Process σ α} {f f' : α → Process σ β}, R a a' → (∀ r, R (f r) (f' r)) →
    R (a >>= f) (a' >>= f')

/-- **A relation on processes that goes through all that they are built with**, but for crashes themselves. -/
structure Process.Hereditary (R : {α : Type} → Process σ α → Process σ α → Prop) : Prop
    extends Process.Sequential R where
  caught : ∀ {α : Type} {a a' : Process σ α}, R a a' → R a.caught a'.caught
  onExit : ∀ {α : Type} {a a' : Process σ α} {last last' : Process σ Unit}, R a a' → R last last' →
    R (a.onExit last) (a'.onExit last')
  onCrash : ∀ {α : Type} {a a' : Process σ α} {last last' : Process σ Unit}, R a a' → R last last' →
    R (a.onCrash last) (a'.onCrash last')

/-- **A relation on processes that goes through all that they are built with.** -/
structure Process.Congruent (R : {α : Type} → Process σ α → Process σ α → Prop) : Prop
    extends Process.Hereditary R where
  crash : ∀ {α : Type} (m : String), R (.crash m : Process σ α) (.crash m)

section

variable (R : {α : Type} → Action ε α → Action ε α → Prop)

/-! ## Opening and closing -/

namespace Provider

/-- Telling extensions of a context, some of them and then the others. -/
theorem runCreated_append (x : Executor ε) (c : Context) (first rest : List (Interceptor ε)) :
    runCreated x c (first ++ rest) = (do
      match ← runCreated x c first with
      | .error e => return .error e
      | .ok () => runCreated x c rest) := by
  induction first with
  | nil => rfl
  | cons i first ih =>
    simp only [List.cons_append, runCreated, bind_assoc]
    refine bind_congr fun answer => ?_
    cases answer with
    | error e => rfl
    | ok u => simp only [bind_assoc, ih]

/-- Telling extensions of the end of a context goes by the parts of their list. -/
theorem runClosed_append (x : Executor ε) (c : Context) (first rest : List (Interceptor ε)) :
    runClosed x c (first ++ rest) = (do
      let errors ← runClosed x c first
      let more ← runClosed x c rest
      return errors ++ more) := by
  induction first with
  | nil => exact (bind_pure _).symm
  | cons i first ih =>
    simp only [List.cons_append, runClosed, bind_assoc, ih]
    refine bind_congr fun answer => bind_congr fun errors => ?_
    cases answer <;> simp

end Provider

namespace Process.Sequential

variable {R} (hR : Process.Sequential R)
include hR

/-- Telling extensions of a new context is related to itself. -/
theorem runCreated {x : Executor ε} {c : Context}
    (hcount : R (c.change fun s => { s with notified := s.notified + 1 })
      (c.change fun s => { s with notified := s.notified + 1 }))
    {extensions : List (Interceptor ε)} (h : ∀ i ∈ extensions, R (i.created x c) (i.created x c)) :
    R (Provider.runCreated x c extensions) (Provider.runCreated x c extensions) := by
  induction extensions with
  | nil => exact hR.done _
  | cons i rest ih =>
    obtain ⟨hi, hrest⟩ := List.forall_mem_cons.1 h
    refine hR.bind hi fun answer => ?_
    cases answer with
    | error e => exact hR.done _
    | ok u => exact hR.bind hcount fun _ => ih hrest

/-- Telling extensions of the end of a context. -/
theorem runClosed {x : Executor ε} {c : Context} {extensions : List (Interceptor ε)}
    (h : ∀ i ∈ extensions, R (i.closed x c) (i.closed x c)) :
    R (Provider.runClosed x c extensions) (Provider.runClosed x c extensions) := by
  induction extensions with
  | nil => exact hR.done _
  | cons i rest ih =>
    obtain ⟨hi, hrest⟩ := List.forall_mem_cons.1 h
    refine hR.bind hi fun answer => hR.bind (ih hrest) fun errors => ?_
    cases answer <;> exact hR.done _

/-- Releasing a lock is related to itself. -/
theorem releaseLock {c : Context}
    (htell : ∀ e, R (Action.tell (.releaseFailed c.process c.key e)) (Action.tell (.releaseFailed c.process c.key e)))
    (htake : R (Provider.takeLock c) (Provider.takeLock c)) {p : Provider ε}
    (hrelease : ∀ handle, R (p.locks.release handle) (p.locks.release handle)) :
    R (p.releaseLock c) (p.releaseLock c) := by
  refine hR.bind htake fun handle? => ?_
  cases handle? with
  | none => exact hR.done _
  | some handle =>
    refine hR.bind (hrelease handle) fun answer => ?_
    cases answer with
    | ok u => exact hR.done _
    | error e => exact htell _

/-- Closing when nobody waits for it: a failure is told. -/
theorem closeTelling (c : Context) (htell : ∀ e, R (Action.tell (.closingDroppedFailed c.process c.key e))
      (Action.tell (.closingDroppedFailed c.process c.key e)))
    {closing closing' : Action ε (Except Error Unit)} (h : R closing closing') :
    R (do
      match ← closing with
      | .ok () => return ()
      | .error e => Action.tell (.closingDroppedFailed c.process c.key e)) (do
      match ← closing' with
      | .ok () => return ()
      | .error e => Action.tell (.closingDroppedFailed c.process c.key e)) := by
  refine hR.bind h fun answer => ?_
  cases answer with
  | ok u => exact hR.done _
  | error e => exact htell _

end Process.Sequential

/-- **A provider that is related to itself** in what it does to close a context. -/
structure Provider.Tends (p : Provider ε) (c : Context) : Prop where
  sequential : Process.Sequential R
  tell : ∀ e : Event, R (Action.tell e) (Action.tell e)
  closed : ∀ i ∈ p.interceptors, R (i.closed p.executor c) (i.closed p.executor c)
  notified : R (c.look (·.notified)) (c.look (·.notified))
  wasClosed : R (c.look (·.closed)) (c.look (·.closed))
  mark : R (Provider.markClosed c) (Provider.markClosed c)
  take : R (Provider.takeLock c) (Provider.takeLock c)
  release : ∀ handle, R (p.locks.release handle) (p.locks.release handle)

namespace Provider.Tends

variable {R} {p : Provider ε} {c : Context} (hp : p.Tends R c)
include hp

/-- **Closing a context** is related to itself. -/
theorem close : R (p.close c) (p.close c) := by
  refine hp.sequential.bind hp.mark fun before => ?_
  cases before with
  | true => exact hp.sequential.done _
  | false =>
    refine hp.sequential.bind hp.notified fun notified => ?_
    have hhooks : ∀ i ∈ (p.interceptors.take notified).reverse,
        R (i.closed p.executor c) (i.closed p.executor c) := fun i hi =>
      hp.closed i (List.mem_of_mem_take (List.mem_reverse.1 hi))
    have hreleasing := hp.sequential.releaseLock (fun _ => hp.tell _) hp.take hp.release
    exact hp.sequential.bind (hp.sequential.runClosed hhooks) fun errors =>
      hp.sequential.bind hreleasing fun _ => hp.sequential.done _

/-- **Dropping a context** is related to itself. -/
theorem drop : R (p.drop c) (p.drop c) := by
  have hclosing := hp.sequential.closeTelling c (fun _ => hp.tell _) hp.close
  refine hp.sequential.bind hp.wasClosed fun closed => ?_
  cases closed with
  | true => exact hp.sequential.done _
  | false =>
    refine hp.sequential.bind hp.notified fun notified => ?_
    -- Whether it is told that the context is dropped or not, the context is closed then.
    dsimp only
    split
    · exact hp.sequential.bind (hp.tell _) fun _ => hclosing
    · exact hclosing

end Provider.Tends

/-! ## Executing and calling -/

/-- **A store that is related to itself** in what executions ask of it. -/
structure StoreAdapter.Related (store : StoreAdapter ε) : Prop where
  get : ∀ key, R (store.get key) (store.get key)
  begin : R store.begin store.begin
  insert : ∀ key data isFinal txn, R ((store.insert key data isFinal).run txn) ((store.insert key data isFinal).run txn)
  conclude : ∀ txn answer, R (store.conclude txn answer) (store.conclude txn answer)

namespace Process.Sequential

variable {R} (hR : Process.Sequential R) {store : StoreAdapter ε} (hstore : store.Related R)
include hR hstore

/-- Recording what two related bodies answer is related. -/
theorem runAndRecord (key : RecordKey) (phase : Phase) {body body' : Body ε κ} (hbody : R body body') :
    R (Executor.runAndRecord store key phase body) (Executor.runAndRecord store key phase body') := by
  cases hmode : phase.transactional with
  | true =>
    rw [Executor.runAndRecord_transactional store key body hmode,
      Executor.runAndRecord_transactional store key body' hmode]
    refine hR.bind hstore.begin fun begun => ?_
    split
    · exact hR.done _
    · exact hR.done _
    · next txn =>
      refine hR.bind hbody fun answer => ?_
      obtain ⟨text, k⟩ := answer
      cases text with
      | error e =>
        refine hR.bind (hstore.conclude ..) fun result => ?_
        cases result <;> exact hR.done _
      | ok data => exact hR.bind (hstore.insert ..) fun _ => hR.bind (hstore.conclude ..) fun _ => hR.done _
  | false =>
    rw [Executor.runAndRecord_plain store key body hmode, Executor.runAndRecord_plain store key body' hmode]
    refine hR.bind hbody fun answer => ?_
    obtain ⟨text, k⟩ := answer
    cases text with
    | error e => exact hR.done _
    | ok data =>
      refine hR.bind hstore.begin fun begun => ?_
      split
      · exact hR.done _
      · exact hR.done _
      · exact hR.bind (hstore.insert ..) fun _ => hR.bind (hstore.conclude ..) fun _ => hR.done _

/-- **The base executor** does related things with related bodies. -/
theorem base (hstored : ∀ id, R (Action.tell (.resultStored id)) (Action.tell (.resultStored id)))
    (hmany : ∀ id, R (Action.tell (.multipleExecutions id)) (Action.tell (.multipleExecutions id))) (c : Context)
    (phase : Phase)
    {body body' : Body ε κ} (hbody : R body body') :
    R ((Executor.base store).execute c phase body) ((Executor.base store).execute c phase body') := by
  have hresolve : ∀ key phase e, R (Executor.resolve store key phase e) (Executor.resolve store key phase e) := by
    intro key phase e
    unfold Executor.resolve
    split
    · refine hR.bind (hstore.get key) fun found => ?_
      split
      · exact hR.done _
      · exact hR.done _
      · exact hR.bind (hmany _) fun _ => hR.done _
    · exact hR.done _
  refine hR.bind (hstore.get _) fun found => ?_
  split
  · exact hR.done _
  · exact hR.bind (hstored _) fun _ => hR.done _
  · split
    · exact hR.done _
    · refine hR.bind (hR.runAndRecord hstore _ phase hbody) fun answer => ?_
      obtain ⟨text, k⟩ := answer
      cases text with
      | error e => exact hR.bind (hresolve _ _ e) fun _ => hR.done _
      | ok data => exact hR.done _

end Process.Sequential

/-- **A call of a phase**, through chains whose executions are related. -/
theorem Process.Hereditary.run {R : {α : Type} → Action ε α → Action ε α → Prop} (hR : Process.Hereditary R)
    [EngineFailure β] {x x' : Executor ε} {c : Context} {phase phase' : Phase} (hid : phase.id = phase'.id)
    (hsettings : phase.settings = phase'.settings) (henter : R (c.enter phase) (c.enter phase'))
    (hleave : R (c.leave phase) (c.leave phase'))
    (hexecute : ∀ {body body' : Body ε (Option (Except β γ))}, R body body' →
      R (x.execute c phase body) (x'.execute c phase' body'))
    (codec : Codec γ) {body body' : Action ε (Except β γ)} (hbody : R body body') :
    R (c.run x phase codec body) (c.run x' phase' codec body') := by
  have herase : R (Context.erase phase codec body) (Context.erase phase' codec body') := by
    refine hR.bind hbody fun answer => ?_
    rw [hid]
    cases answer with
    | error failure => exact hR.done _
    | ok a =>
      dsimp only
      split <;> exact hR.done _
  have hcheck : Context.checkPhase phase' = Context.checkPhase phase := by
    unfold Context.checkPhase
    rw [hid, hsettings]
  unfold Context.run
  rw [hcheck]
  cases Context.checkPhase phase with
  | error e => exact hR.done _
  | ok u =>
    refine hR.bind henter fun entered => ?_
    cases entered with
    | error e => exact hR.done _
    | ok u => exact hR.bind (hR.onExit (hexecute herase) hleave) fun _ => hR.done _

/-- **The body of a whole process**, and the empty final phase. -/
theorem Process.Sequential.runBody {R : {α : Type} → Action ε α → Action ε α → Prop}
    (hR : Process.Sequential R) [EngineFailure β] {p p' : Provider ε} {c : Context}
    (hwasFinal : R c.wasFinal c.wasFinal)
    (hauto : R (p.runPhase c { id := Provider.autoFinal, isFinal := true } .unit (pure (.ok ())) :
        Action ε (Except β Unit))
      (p'.runPhase c { id := Provider.autoFinal, isFinal := true } .unit (pure (.ok ()))))
    {body body' : Context → Action ε (Except β α)} (hbody : R (body c) (body' c)) :
    R (p.runBody c body) (p'.runBody c body') := by
  have hcomplete : R (p.complete c : Action ε (Except β Unit)) (p'.complete c) := by
    refine hR.bind hwasFinal fun wasFinal => ?_
    cases wasFinal with
    | true => exact hR.done _
    | false => exact hauto
  refine hR.bind hbody fun answer => ?_
  cases answer with
  | error e => exact hR.done _
  | ok a =>
    refine hR.bind hcomplete fun completed => ?_
    cases completed <;> exact hR.done _

/-! ## Starting -/

/-- **Providers that are related in all that they do**, between phases that are `like` each other. -/
structure Provider.Related (like : Phase → Phase → Prop) (p p' : Provider ε) : Prop where
  congruent : Process.Congruent R
  like_id : ∀ {phase phase' : Phase}, like phase phase' → phase.id = phase'.id
  like_settings : ∀ {phase phase' : Phase}, like phase phase' → phase.settings = phase'.settings
  like_auto : like { id := autoFinal, isFinal := true } { id := autoFinal, isFinal := true }
  tell : ∀ e : Event, R (Action.tell e) (Action.tell e)
  wasFinal : ∀ c : Context, R c.wasFinal c.wasFinal
  enter : ∀ (c : Context) {phase phase' : Phase}, like phase phase' → R (c.enter phase) (c.enter phase')
  leave : ∀ (c : Context) {phase phase' : Phase}, like phase phase' → R (c.leave phase) (c.leave phase')
  execute : ∀ {κ : Type} (c : Context) {phase phase' : Phase} {body body' : Body ε κ}, like phase phase' →
    R body body' → R (p.executor.execute c phase body) (p'.executor.execute c phase' body')
  newContext : ∀ process key settings recordedFinal handle,
    R (newContext process key settings recordedFinal handle)
      (newContext process key settings recordedFinal handle)
  created : ∀ c, R (runCreated p.executor c p.interceptors) (runCreated p'.executor c p'.interceptors)
  close : ∀ c, R (p.close c) (p'.close c)
  drop : ∀ c, R (p.drop c) (p'.drop c)
  clock : R p.clock p'.clock
  findFinal : ∀ process key, R (p.store.findFinal process key) (p'.store.findFinal process key)
  obtain : ∀ key timeout now, R (p.locks.obtain key timeout now) (p'.locks.obtain key timeout now)
  release : ∀ handle, R (p.locks.release handle) (p'.locks.release handle)

namespace Provider.Related

variable {R} {like : Phase → Phase → Prop} {p p' : Provider ε} (h : Provider.Related R like p p')
include h

/-- **A call of a phase** is related if its body is. -/
theorem runPhase [EngineFailure β] (c : Context) {phase phase' : Phase} (hphase : like phase phase')
    (codec : Codec γ) {body body' : Action ε (Except β γ)} (hbody : R body body') :
    R (p.runPhase c phase codec body) (p'.runPhase c phase' codec body') :=
  h.congruent.toHereditary.run (h.like_id hphase) (h.like_settings hphase) (h.enter c hphase) (h.leave c hphase)
    (fun hbody => h.execute c hphase hbody) codec hbody

theorem startLocked (process key : String) (settings : List Setting) (handle : LockHandle) :
    R (p.startLocked process key settings handle) (p'.startLocked process key settings handle) := by
  refine h.congruent.bind (h.findFinal process key) fun found => ?_
  cases found with
  | error e =>
    refine h.congruent.bind (h.release handle) fun answer => ?_
    cases answer with
    | ok u => exact h.congruent.done _
    | error r => exact h.congruent.bind (h.tell _) fun _ => h.congruent.done _
  | ok recordedFinal =>
    refine h.congruent.bind (h.newContext process key settings recordedFinal handle) fun c => ?_
    refine h.congruent.bind (h.congruent.onCrash (h.created c) (h.drop c)) fun answer => ?_
    cases answer with
    | ok u => exact h.congruent.done _
    | error e => exact h.congruent.bind (h.drop c) fun _ => h.congruent.done _

theorem start (process key : String) (timeout : Duration) (settings : List Setting) :
    R (p.start process key timeout settings) (p'.start process key timeout settings) := by
  unfold Provider.start
  split
  · exact h.congruent.done _
  · refine h.congruent.bind h.clock fun now => h.congruent.bind (h.obtain ..) fun answer => ?_
    cases answer with
    | error e => exact h.congruent.done _
    | ok decision =>
      cases decision with
      | locked tryAt => exact h.congruent.bind (h.tell _) fun _ => h.congruent.done _
      | obtained handle => exact h.startLocked process key settings handle

theorem runBody [EngineFailure β] (c : Context) {body body' : Context → Action ε (Except β α)}
    (hbody : R (body c) (body' c)) : R (p.runBody c body) (p'.runBody c body') :=
  h.congruent.toSequential.runBody (h.wasFinal c) (h.runPhase c h.like_auto .unit (h.congruent.done _)) hbody

/-- **A whole process** is related if its body is. -/
theorem runProcess [EngineFailure β] (process key : String) (timeout : Duration) (settings : List Setting)
    {body body' : Context → Action ε (Except β α)} (hbody : ∀ c, R (body c) (body' c)) :
    R (p.runProcess process key timeout settings body) (p'.runProcess process key timeout settings body') := by
  refine h.congruent.bind (h.start process key timeout settings) fun started => ?_
  cases started with
  | error e => exact h.congruent.done _
  | ok c =>
    refine h.congruent.bind (h.congruent.onCrash (h.runBody c (hbody c)) (h.drop c)) fun result => ?_
    refine h.congruent.bind (h.close c) fun closing => ?_
    cases result with
    | ok a => cases closing <;> exact h.congruent.done _
    | error e =>
      cases closing with
      | ok u => exact h.congruent.done _
      | error closing => exact h.congruent.bind (h.tell _) fun _ => h.congruent.done _

end Provider.Related

end

end Idempotence
