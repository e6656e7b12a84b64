/-
  Lifecycle — the calls that bracket an attempt.

  1. **Watching** — `Provider.watched` is a provider that logs its calls of locks, of the search for a
     final record and of hooks, each with its answer, and does nothing else differently.

  2. **Discretion** — `Logged` says which calls were logged between two worlds and that the context has
     the same lock, is as closed and known to as many extensions as before.  A provider is `Discreet` if
     its components do not reach into that: they log nothing, answer, and leave it alone.  What they
     answer, what else they change, and which phases they run is up to them.

  3. **One routine** — closing, dropping, a start that fails half way and a crash all come to the same
     calls: the closing hooks of those extensions that know of the context, the latest first, and then
     the release (`close_watched`, `drop_watched`).  A context that has been closed is past all that.

  4. **The result** — `lifecycle_bracketed`: how every start ends and with which calls, how a context
     that was opened is closed, and what a whole process answers.
-/
import Idempotence.Proofs.Attempts
import Idempotence.Proofs.BodyHosts
import Idempotence.Testing.Recording
import Idempotence.Testing.StubLocks

namespace Idempotence

variable {σ ε α β γ κ : Type}

/-! ## Watching -/

namespace Executor

/-- How a store searches for final records makes no difference to recording. -/
theorem runAndRecord_findFinal (store : StoreAdapter ε)
    (findFinal : String → String → Action ε (Except StoreError (Option String))) (key : RecordKey)
    (phase : Phase) (body : Body ε κ) :
    runAndRecord { store with findFinal } key phase body = runAndRecord store key phase body := by
  cases hmode : phase.transactional with
  | true =>
    rw [runAndRecord_transactional _ key body hmode, runAndRecord_transactional _ key body hmode]
    refine bind_congr fun begun => ?_
    cases begun with
    | error e => rfl
    | ok txn? =>
      cases txn? with
      | none => rfl
      | some txn =>
        refine bind_congr fun answer => ?_
        obtain ⟨text, k⟩ := answer
        cases text <;> rfl
  | false =>
    rw [runAndRecord_plain _ key body hmode, runAndRecord_plain _ key body hmode]
    refine bind_congr fun answer => ?_
    obtain ⟨text, k⟩ := answer
    cases text with
    | error e => rfl
    | ok data =>
      refine bind_congr fun begun => ?_
      cases begun with
      | error e => rfl
      | ok txn? => cases txn? <;> rfl

/-- How a store searches for final records makes no difference to the base executor. -/
theorem base_findFinal (store : StoreAdapter ε)
    (findFinal : String → String → Action ε (Except StoreError (Option String))) :
    base { store with findFinal } = base store := by
  simp only [base, resolve, runAndRecord_findFinal]

end Executor

/-- **A call that brackets an attempt**, with its answer.  Extensions go by their place in the order of
    registration. -/
inductive LifeCall where
  | obtained (key : RecordKey) (answer : Except LockError LockDecision)
  | foundFinal (answer : Except StoreError (Option String))
  | created (extension : Nat) (answer : Except Error Unit)
  | closed (extension : Nat) (answer : Except Error Unit)
  | released (handle : LockHandle) (answer : Except LockError Unit)

/-- The action, its answer logged. -/
def Action.logged (log : Part ε (List LifeCall)) (call : α → LifeCall) (a : Action ε α) : Action ε α := do
  let answer ← a
  Action.change log (· ++ [call answer])
  return answer

/-- The extension, its hooks logged. -/
def Interceptor.watched (log : Part ε (List LifeCall)) (i : Interceptor ε) (place : Nat) : Interceptor ε where
  created x c := (i.created x c).logged log (.created place)
  closed x c := (i.closed x c).logged log (.closed place)
  wrap := i.wrap

namespace Provider

/-- **The provider, its calls logged.** -/
def watched (log : Part ε (List LifeCall)) (p : Provider ε) : Provider ε where
  locks :=
    { obtain := fun key timeout now => (p.locks.obtain key timeout now).logged log (.obtained key)
      release := fun handle => (p.locks.release handle).logged log (.released handle) }
  store :=
    { p.store with findFinal := fun process key => (p.store.findFinal process key).logged log .foundFinal }
  interceptors := p.interceptors.zipIdx.map fun i => i.1.watched log i.2
  clock := p.clock
  config := p.config

/-- Watching changes nothing about phases. -/
theorem executor_watched (log : Part ε (List LifeCall)) (p : Provider ε) :
    (p.watched log).executor = p.executor := by
  have hchain : ∀ (extensions : List (Interceptor ε)) (place : Nat) (base : Executor ε),
      base.compose ((extensions.zipIdx place).map fun i => i.1.watched log i.2) =
        base.compose extensions := by
    intro extensions
    induction extensions with
    | nil => intro _ _; rfl
    | cons i rest ih => exact fun place base => congrArg i.wrap (ih (place + 1) base)
  exact (congrArg (Executor.compose · _) (Executor.base_findFinal p.store _)).trans (hchain p.interceptors 0 _)

end Provider

/-! ## Discretion -/

/-- **Which calls were logged** between two worlds, while nothing about the closing of the context
    changed. -/
structure Logged (log : Part ε (List LifeCall)) (c : Context) (calls : List LifeCall) (w w' : World ε) :
    Prop where
  log : log.get w'.env = log.get w.env ++ calls
  length : w.contexts.length ≤ w'.contexts.length
  state : c.id < w.contexts.length → (w'.context c.id).lock = (w.context c.id).lock ∧
    (w'.context c.id).closed = (w.context c.id).closed ∧
    (w'.context c.id).notified = (w.context c.id).notified

/-- **A process that always answers**, and keeps to `R`. -/
def Process.Answers (R : σ → σ → Prop) (p : Process σ α) : Prop :=
  ∀ s, ∃ a t, p.run s = (.value a, t) ∧ R s t

/-- **A provider whose components keep to themselves**: they answer, they log nothing, and they do not
    meddle with the closing of contexts.  The executors host their bodies. -/
structure Provider.Discreet (log : Part ε (List LifeCall)) (p : Provider ε) : Prop where
  clock : ∀ c, p.clock.Answers (Logged log c [])
  obtain : ∀ c key timeout now, (p.locks.obtain key timeout now).Answers (Logged log c [])
  release : ∀ c handle, (p.locks.release handle).Answers (Logged log c [])
  findFinal : ∀ c process key, (p.store.findFinal process key).Answers (Logged log c [])
  created : ∀ c, ∀ i ∈ p.interceptors, (i.created p.executor c).Answers (Logged log c [])
  closed : ∀ c, ∀ i ∈ p.interceptors, (i.closed p.executor c).Answers (Logged log c [])
  executor : ∀ c, p.executor.Hosts (Logged log c []) c

/-- **A context that is to be closed**: it has a lock, and so many extensions know of it. -/
structure Context.Pending (c : Context) (handle : LockHandle) (known : Nat) (w : World ε) : Prop where
  created : c.id < w.contexts.length
  unclosed : (w.context c.id).closed = false
  lock : (w.context c.id).lock = some handle
  notified : (w.context c.id).notified = known

/-- **A context that has been closed.** -/
structure Context.Over (c : Context) (w : World ε) : Prop where
  created : c.id < w.contexts.length
  closed : (w.context c.id).closed = true

section

variable {log : Part ε (List LifeCall)} {c : Context} {calls calls' : List LifeCall}
  {w w' w'' : World ε} {handle : LockHandle} {known : Nat}

theorem Logged.refl (w : World ε) : Logged log c [] w w :=
  ⟨(List.append_nil _).symm, Nat.le_refl _, fun _ => ⟨rfl, rfl, rfl⟩⟩

theorem Logged.trans (h : Logged log c calls w w') (h' : Logged log c calls' w' w'') :
    Logged log c (calls ++ calls') w w'' where
  log := by rw [h'.log, h.log, List.append_assoc]
  length := Nat.le_trans h.length h'.length
  state hc := by
    obtain ⟨hlock, hclosed, hnotified⟩ := h.state hc
    obtain ⟨hlock', hclosed', hnotified'⟩ := h'.state (Nat.lt_of_lt_of_le hc h.length)
    exact ⟨hlock'.trans hlock, hclosed'.trans hclosed, hnotified'.trans hnotified⟩

/-- Changing what has nothing to do with the closing of a context. -/
theorem Logged.modifyContext {id : Nat} {f : ContextState → ContextState}
    (hf : (f (w.context id)).lock = (w.context id).lock ∧ (f (w.context id)).closed = (w.context id).closed ∧
      (f (w.context id)).notified = (w.context id).notified) : Logged log c [] w (w.modifyContext id f) := by
  refine ⟨(List.append_nil _).symm, Nat.le_of_eq (World.length_modifyContext ..).symm, fun _ => ?_⟩
  rw [World.context_modifyContext]
  split
  · next h =>
    obtain ⟨rfl, -⟩ := h
    exact hf
  · exact ⟨rfl, rfl, rfl⟩

/-- Neither the trace nor properties are logged. -/
theorem Logged.overlooks : Overlooks (Logged log c []) where
  trace _ _ := ⟨(List.append_nil _).symm, Nat.le_refl _, fun _ => ⟨rfl, rfl, rfl⟩⟩
  properties _ _ _ := .modifyContext ⟨rfl, rfl, rfl⟩

theorem Context.Pending.later (h : c.Pending handle known w) (hw : Logged log c calls w w') :
    c.Pending handle known w' := by
  obtain ⟨hlock, hclosed, hnotified⟩ := hw.state h.created
  exact ⟨Nat.lt_of_lt_of_le h.created hw.length, hclosed.trans h.unclosed, hlock.trans h.lock,
    hnotified.trans h.notified⟩

theorem Context.Over.later (h : c.Over w) (hw : Logged log c calls w w') : c.Over w' :=
  ⟨Nat.lt_of_lt_of_le h.created hw.length, (hw.state h.created).2.1.trans h.closed⟩

/-- An action that is logged answers and logs one call. -/
theorem Action.run_logged {a : Action ε α} (ha : a.Answers (Logged log c [])) (call : α → LifeCall)
    (w : World ε) :
    ∃ answer w', (a.logged log call).run w = (.value answer, w') ∧ Logged log c [call answer] w w' := by
  obtain ⟨answer, w₁, hrun, hw⟩ := ha w
  refine ⟨answer, { w₁ with env := log.set (log.get w₁.env ++ [call answer]) w₁.env }, ?_, ?_⟩
  · simp only [Action.logged, Action.change, Process.run_bind, hrun, Process.run_change, Process.run_pure]
  · exact hw.trans ⟨log.get_set _ _, Nat.le_refl _, fun _ => ⟨rfl, rfl, rfl⟩⟩

end

/-! ## Closing -/

namespace Provider

/-- The errors among the answers of hooks, in the order of the calls. -/
def failures (answers : List (Except Error Unit)) : List Error :=
  answers.filterMap fun
    | .error e => some e
    | .ok () => none

/-- What closing answers. -/
def closeVerdict (answers : List (Except Error Unit)) : Except Error Unit :=
  if (failures answers).isEmpty then .ok () else .error (.contextClose (failures answers))

/-- **The calls of closing**: the hooks of as many extensions as there are answers, the latest first,
    and then the release. -/
def closing (answers : List (Except Error Unit)) (handle : LockHandle) (released : Except LockError Unit) :
    List LifeCall :=
  List.zipWith .closed (List.range answers.length).reverse answers ++ [.released handle released]

variable {log : Part ε (List LifeCall)} {p : Provider ε} {c : Context} {w w' : World ε}
  {handle : LockHandle} {known : Nat}

/-- **The closing hooks** are all called, whatever the others answer. -/
theorem runClosed_watched {x : Executor ε} {extensions : List (Interceptor ε × Nat)}
    (h : ∀ i ∈ extensions, (i.1.closed x c).Answers (Logged log c [])) (w : World ε) :
    ∃ answers w', answers.length = extensions.length ∧
      (runClosed x c (extensions.map fun i => i.1.watched log i.2)).run w =
        (.value (failures answers), w') ∧
      Logged log c (List.zipWith .closed (extensions.map Prod.snd) answers) w w' := by
  induction extensions generalizing w with
  | nil => exact ⟨[], w, rfl, rfl, .refl w⟩
  | cons i rest ih =>
    obtain ⟨hi, hrest⟩ := List.forall_mem_cons.1 h
    obtain ⟨answer, w₁, hrun, hw₁⟩ := Action.run_logged hi (.closed i.2) w
    obtain ⟨answers, w₂, hlength, hruns, hw₂⟩ := ih hrest w₁
    refine ⟨answer :: answers, w₂, congrArg Nat.succ hlength, ?_, hw₁.trans hw₂⟩
    simp only [List.map_cons, runClosed, Interceptor.watched, Process.run_bind, hrun]
    simp only [Interceptor.watched] at hruns
    rw [hruns]
    cases answer <;> rfl

/-- The places of the first extensions. -/
theorem places_take (extensions : List (Interceptor ε)) {n : Nat} (hn : n ≤ extensions.length) :
    (extensions.zipIdx.take n).map Prod.snd = List.range n := by
  rw [List.map_take, List.zipIdx_map_snd, List.range_eq_range', List.take_range'_of_length_ge hn]

/-- **Releasing** the lock of a context calls for its release once, and whatever that answers is not
    answered again. -/
theorem releaseLock_watched (hp : p.Discreet log) (hcreated : c.id < w.contexts.length)
    (hlock : (w.context c.id).lock = some handle) :
    ∃ released w', ((p.watched log).releaseLock c).run w = (.value (), w') ∧
      log.get w'.env = log.get w.env ++ [.released handle released] ∧
      w.contexts.length ≤ w'.contexts.length ∧
      (w'.context c.id).closed = (w.context c.id).closed := by
  let taken : World ε := w.modifyContext c.id fun s => { s with lock := none }
  have hlength : taken.contexts.length = w.contexts.length := World.length_modifyContext ..
  have hclosed : (taken.context c.id).closed = (w.context c.id).closed := by
    rw [World.context_modifyContext_self _ _ hcreated]
  obtain ⟨answer, w₁, hrun, hw₁⟩ := Action.run_logged (hp.release c handle) (.released handle) taken
  have hstate := (hw₁.state (hlength ▸ hcreated)).2.1.trans hclosed
  simp only [taken] at hrun
  cases answer with
  | ok u =>
    refine ⟨.ok u, w₁, ?_, hw₁.log, hlength ▸ hw₁.length, hstate⟩
    simp only [releaseLock, takeLock, watched, Process.run_bind, Process.run_atomically, hlock, hrun,
      Process.run_pure]
  | error e =>
    refine ⟨.error e, { w₁ with trace := w₁.trace.tell (.releaseFailed c.process c.key e) }, ?_, hw₁.log,
      hlength ▸ hw₁.length, hstate⟩
    simp only [releaseLock, takeLock, watched, Process.run_bind, Process.run_atomically, hlock, hrun,
      Action.tell, Process.run_change]

/-- **Closing a context** that is to be closed makes the calls of closing. -/
theorem close_watched (hp : p.Discreet log) (h : c.Pending handle known w)
    (hknown : known ≤ p.interceptors.length) :
    ∃ answers released w', answers.length = known ∧
      ((p.watched log).close c).run w = (.value (closeVerdict answers), w') ∧
      log.get w'.env = log.get w.env ++ closing answers handle released ∧ c.Over w' := by
  let marked : World ε := w.modifyContext c.id fun s => { s with closed := true }
  have hmarked : marked.context c.id = { w.context c.id with closed := true } :=
    World.context_modifyContext_self _ _ h.created
  have hlength : marked.contexts.length = w.contexts.length := World.length_modifyContext ..
  -- The extensions that know of the context, the latest first.
  let knowing := (p.interceptors.zipIdx.take known).reverse
  have hhooks : ∀ i ∈ knowing, (i.1.closed p.executor c).Answers (Logged log c []) := fun i hi =>
    hp.closed c i.1 (List.fst_mem_of_mem_zipIdx (List.mem_of_mem_take (List.mem_reverse.1 hi)))
  have hplaces : knowing.map Prod.snd = (List.range known).reverse := by
    rw [List.map_reverse, places_take _ hknown]
  have hwatched : ((p.watched log).interceptors.take known).reverse =
      knowing.map fun i => i.1.watched log i.2 := by
    rw [List.map_reverse, List.map_take]
    rfl
  obtain ⟨answers, w₁, hanswers, hrun, hw₁⟩ := runClosed_watched hhooks marked
  have hcount : answers.length = known := by
    rw [hanswers, List.length_reverse, List.length_take, List.length_zipIdx, Nat.min_eq_left hknown]
  have hcreated₁ : c.id < w₁.contexts.length :=
    Nat.lt_of_lt_of_le (hlength ▸ h.created) hw₁.length
  obtain ⟨hlock₁, hclosed₁, -⟩ := hw₁.state (hlength ▸ h.created)
  rw [hmarked] at hlock₁ hclosed₁
  obtain ⟨released, w₂, hrelease, hlog₂, hlength₂, hclosed₂⟩ :=
    releaseLock_watched hp hcreated₁ (hlock₁.trans h.lock)
  refine ⟨answers, released, w₂, hcount, ?_, ?_, ?_⟩
  · unfold close markClosed
    rw [Process.run_bind, Process.run_atomically]
    show Process.run (if (w.context c.id).closed = true then _ else _) marked = _
    rw [h.unclosed, if_neg Bool.false_ne_true, Context.look, Process.run_bind, Process.run_look, hmarked]
    simp only [h.notified, hwatched, executor_watched, Process.run_bind, hrun, hrelease, Process.run_pure]
    rfl
  · rw [hlog₂, hw₁.log, hplaces, ← hcount, List.append_assoc]
    rfl
  · exact ⟨Nat.lt_of_lt_of_le hcreated₁ hlength₂, hclosed₂.trans hclosed₁⟩

/-- **Dropping a context** that is to be closed makes the calls of closing. -/
theorem drop_watched (hp : p.Discreet log) (h : c.Pending handle known w)
    (hknown : known ≤ p.interceptors.length) :
    ∃ answers released w', answers.length = known ∧
      ((p.watched log).drop c).run w = (.value (), w') ∧
      log.get w'.env = log.get w.env ++ closing answers handle released ∧ c.Over w' := by
  -- Whether it is told that the context is dropped or not, closing it makes the calls.
  have hdrop : ∃ (w₁ : World ε) (f : Except Error Unit → Action ε Unit), Logged log c [] w w₁ ∧
      ((p.watched log).drop c).run w = ((p.watched log).close c >>= f).run w₁ ∧ f (.ok ()) = pure () ∧
      ∀ e, f (.error e) = Action.tell (.closingDroppedFailed c.process c.key e) := by
    unfold drop
    rw [Context.look, Process.run_bind, Process.run_look]
    dsimp only
    rw [h.unclosed, if_neg Bool.false_ne_true, Context.look, Process.run_bind, Process.run_look]
    dsimp only
    split
    · exact ⟨_, _, Logged.overlooks.trace w (w.trace.tell (.contextDropped c.process c.key)), rfl, rfl,
        fun _ => rfl⟩
    · exact ⟨w, _, .refl w, rfl, rfl, fun _ => rfl⟩
  obtain ⟨w₁, f, hw₁, hrun, hok, herror⟩ := hdrop
  obtain ⟨answers, released, w₂, hcount, hclose, hlog, hover⟩ := close_watched hp (h.later hw₁) hknown
  have hlog₁ : log.get w₁.env = log.get w.env := by rw [hw₁.log, List.append_nil]
  rw [hlog₁] at hlog
  rw [Process.run_bind, hclose] at hrun
  cases hverdict : closeVerdict answers with
  | ok u =>
    simp only [hverdict, hok] at hrun
    exact ⟨answers, released, w₂, hcount, hrun, hlog, hover⟩
  | error e =>
    simp only [hverdict, herror] at hrun
    exact ⟨answers, released, _, hcount, hrun, hlog, ⟨hover.created, hover.closed⟩⟩

/-- **A context that has been closed** stays so: closing or dropping it does nothing more. -/
theorem close_over (P : Provider ε) (h : c.Over w) :
    ∃ w', (P.close c).run w = (.value (.ok ()), w') ∧ w'.env = w.env := by
  refine ⟨w.modifyContext c.id fun s => { s with closed := true }, ?_, rfl⟩
  unfold close markClosed
  rw [Process.run_bind, Process.run_atomically]
  simp only [h.closed, if_true]
  rfl

theorem drop_over (P : Provider ε) (h : c.Over w) : (P.drop c).run w = (.value (), w) := by
  unfold drop
  rw [Context.look, Process.run_bind, Process.run_look]
  simp only [h.closed, if_true]
  rfl

/-! ## Starting -/

/-- The calls of the creating hooks of so many extensions from a place on, all of them successful. -/
def greetings (first count : Nat) : List LifeCall :=
  (List.range' first count).map fun place => .created place (.ok ())

/-- The calls of a start up to the creating hooks of so many extensions. -/
def greeting (process key : String) (handle : LockHandle) (final : Option String) (count : Nat) :
    List LifeCall :=
  [.obtained (RecordKey.lock process key) (.ok (.obtained handle)), .foundFinal (.ok final)]
    ++ greetings 0 count

/-- **How a start fails, and the calls that it has made**: before the lock, at the lock, at the search for
    a final record, or at the hook of an extension.  What has been obtained is released, and whoever
    knows of the context learns that it is closed. -/
inductive NotStarted (p : Provider ε) (log : Part ε (List LifeCall)) (process key : String)
    (timeout : Duration) (settings : List Setting) (w : World ε) :
    Error → List LifeCall → World ε → Prop
  /-- Any provider would do so, without a step. -/
  | rejected {e : Error} (check : checkStart process key settings = .error e)
      (anywhere : ∀ q : Provider ε, q.start process key timeout settings = pure (.error e)) :
      NotStarted p log process key timeout settings w e [] w
  | unlockable {e : LockError} {w' : World ε} :
      NotStarted p log process key timeout settings w (.lock e)
        [.obtained (RecordKey.lock process key) (.error e)] w'
  /-- A provider with any other store and extensions would answer the same. -/
  | locked {tryAt : Instant} {w' : World ε}
      (anyway : ∀ (store : StoreAdapter ε) (extensions : List (Interceptor ε)),
        (({ p.watched log with store, interceptors := extensions } : Provider ε).start process key timeout
          settings).run w = (.value (.error (.processLocked tryAt process key)), w')) :
      NotStarted p log process key timeout settings w (.processLocked tryAt process key)
        [.obtained (RecordKey.lock process key) (.ok (.locked tryAt))] w'
  | lost {handle : LockHandle} {e : StoreError} {released : Except LockError Unit} {w' : World ε} :
      NotStarted p log process key timeout settings w (.store e)
        [.obtained (RecordKey.lock process key) (.ok (.obtained handle)), .foundFinal (.error e),
          .released handle released] w'
  | unwelcome {handle : LockHandle} {final : Option String} {place : Nat} {e : Error}
      {answers : List (Except Error Unit)} {released : Except LockError Unit} {w' : World ε}
      (early : place < p.interceptors.length) (all : answers.length = place) :
      NotStarted p log process key timeout settings w e
        (greeting process key handle final place ++ [.created place (.error e)]
          ++ closing answers handle released) w'

/-- **The creating hooks** are called in order, up to the first one that fails. -/
theorem runCreated_watched {x : Executor ε} {extensions : List (Interceptor ε)}
    (h : ∀ i ∈ extensions, (i.created x c).Answers (Logged log c [])) {first : Nat}
    (hw : c.Pending handle first w) :
    ∃ count w', c.Pending handle (first + count) w' ∧
      ((count = extensions.length ∧ log.get w'.env = log.get w.env ++ greetings first count ∧
          (runCreated x c ((extensions.zipIdx first).map fun i => i.1.watched log i.2)).run w =
            (.value (.ok ()), w')) ∨
        ∃ e, count < extensions.length ∧
          log.get w'.env = log.get w.env ++ (greetings first count ++ [.created (first + count) (.error e)]) ∧
          (runCreated x c ((extensions.zipIdx first).map fun i => i.1.watched log i.2)).run w =
            (.value (.error e), w')) := by
  induction extensions generalizing first w with
  | nil => exact ⟨0, w, hw, .inl ⟨rfl, (List.append_nil _).symm, rfl⟩⟩
  | cons i rest ih =>
    obtain ⟨hi, hrest⟩ := List.forall_mem_cons.1 h
    obtain ⟨answer, w₁, hrun, hw₁⟩ := Action.run_logged hi (.created first) w
    have hpending := hw.later hw₁
    cases answer with
    | error e =>
      refine ⟨0, w₁, hpending, .inr ⟨e, Nat.zero_lt_succ _, hw₁.log, ?_⟩⟩
      simp only [List.zipIdx_cons, List.map_cons, runCreated, Interceptor.watched, Process.run_bind, hrun,
        Process.run_pure]
    | ok u =>
      let noted : World ε := w₁.modifyContext c.id fun s => { s with notified := s.notified + 1 }
      have hnoted : c.Pending handle (first + 1) noted := by
        have hstate : noted.context c.id =
            { w₁.context c.id with notified := (w₁.context c.id).notified + 1 } :=
          World.context_modifyContext_self _ _ hpending.created
        refine ⟨?_, ?_, ?_, ?_⟩
        · rw [World.length_modifyContext]
          exact hpending.created
        · rw [hstate]
          exact hpending.unclosed
        · rw [hstate]
          exact hpending.lock
        · rw [hstate]
          exact congrArg (· + 1) hpending.notified
      obtain ⟨count, w₂, hpending₂, hcases⟩ := ih hrest hnoted
      have hlog : log.get noted.env = log.get w.env ++ [.created first (.ok ())] := hw₁.log
      have hgreetings : greetings first (count + 1) = .created first (.ok ()) :: greetings (first + 1) count :=
        rfl
      have hsum : first + 1 + count = first + (count + 1) := by omega
      rw [hsum] at hpending₂
      refine ⟨count + 1, w₂, hpending₂, hcases.imp (fun h => ?_) fun h => ?_⟩
      · obtain ⟨hcount, hlog₂, hruns⟩ := h
        refine ⟨congrArg (· + 1) hcount, ?_, ?_⟩
        · rw [hlog₂, hlog, hgreetings, List.append_assoc]
          rfl
        · simp only [List.zipIdx_cons, List.map_cons, runCreated, Interceptor.watched, Process.run_bind, hrun,
            Context.change, Process.run_change]
          exact hruns
      · obtain ⟨e, hcount, hlog₂, hruns⟩ := h
        refine ⟨e, Nat.succ_lt_succ hcount, ?_, ?_⟩
        · rw [hlog₂, hlog, hgreetings, hsum, List.append_assoc]
          rfl
        · simp only [List.zipIdx_cons, List.map_cons, runCreated, Interceptor.watched, Process.run_bind, hrun,
            Context.change, Process.run_change]
          exact hruns

/-- **The extensions learn of a new context**, or it is closed again. -/
theorem introduce_watched (hp : p.Discreet log) (hw : c.Pending handle 0 w) :
    (∃ w', ((p.watched log).introduce c).run w = (.value (.ok c), w') ∧
      log.get w'.env = log.get w.env ++ greetings 0 p.interceptors.length ∧
      c.Pending handle p.interceptors.length w') ∨
    ∃ place e answers released w', place < p.interceptors.length ∧ answers.length = place ∧
      ((p.watched log).introduce c).run w = (.value (.error e), w') ∧
      log.get w'.env = log.get w.env ++
        (greetings 0 place ++ [.created place (.error e)] ++ closing answers handle released) := by
  obtain ⟨count, w₁, hpending, hcases⟩ := runCreated_watched (hp.created c) hw
  rw [Nat.zero_add] at hpending
  rcases hcases with ⟨hcount, hlog, hrun⟩ | ⟨e, hcount, hlog, hrun⟩
  · rw [hcount] at hlog hpending
    refine .inl ⟨w₁, ?_, hlog, hpending⟩
    rw [introduce, executor_watched, Process.run_bind, Process.run_onCrash]
    simp only [watched, hrun, Process.run_pure]
  · obtain ⟨answers, released, w₂, hlength, hdrop, hlog₂, -⟩ :=
      drop_watched hp hpending (Nat.le_of_lt hcount)
    refine .inr ⟨count, e, answers, released, w₂, hcount, hlength, ?_, ?_⟩
    · rw [introduce, executor_watched, Process.run_bind, Process.run_onCrash]
      simp only [watched] at hdrop ⊢
      simp only [hrun, Process.run_bind, hdrop, Process.run_pure]
    · rw [hlog₂, hlog, Nat.zero_add, List.append_assoc]

/-- **A start that has obtained its lock** searches for a final record; it releases the lock where that fails, and
    creates the context where it does not. -/
theorem startLocked_watched (hp : p.Discreet log) (process key : String) (settings : List Setting)
    (handle : LockHandle) (w : World ε) :
    (∃ e released w', ((p.watched log).startLocked process key settings handle).run w =
        (.value (.error (.store e)), w') ∧
      log.get w'.env = log.get w.env ++ [.foundFinal (.error e), .released handle released]) ∨
    ∃ (final : Option String) (w₁ : World ε),
      log.get w₁.env = log.get w.env ++ [.foundFinal (.ok final)] ∧
      let c : Context := { id := w₁.contexts.length, process, key, settings, recordedFinal := final }
      let w₂ : World ε := { w₁ with contexts := w₁.contexts ++ [{ lock := some handle }] }
      c.Pending handle 0 w₂ ∧
      ((p.watched log).startLocked process key settings handle).run w = ((p.watched log).introduce c).run w₂ := by
  -- No context is there yet, so any one will do.
  obtain ⟨found, w₁, hfind, hw₁⟩ := Action.run_logged (hp.findFinal default process key) .foundFinal w
  cases found with
  | error e =>
    obtain ⟨released, w₂, hrelease, hw₂⟩ := Action.run_logged (hp.release default handle) (.released handle) w₁
    have hlog := (hw₁.trans hw₂).log
    cases released with
    | ok u =>
      refine .inl ⟨e, .ok u, w₂, ?_, hlog⟩
      simp only [startLocked, watched, Process.run_bind, hfind, hrelease, Process.run_pure]
    | error r =>
      refine .inl ⟨e, .error r, { w₂ with trace := w₂.trace.tell (.releaseAfterFailedStart process key r) },
        ?_, hlog⟩
      simp only [startLocked, watched, Process.run_bind, hfind, hrelease, Action.tell, Process.run_change,
        Process.run_pure]
  | ok final =>
    refine .inr ⟨final, w₁, hw₁.log, ?_, ?_⟩
    · have hstate : World.context { w₁ with contexts := w₁.contexts ++ [{ lock := some handle }] }
          w₁.contexts.length = { lock := some handle } := by
        simp [World.context, List.getD_eq_getElem?_getD]
      exact ⟨by simp, congrArg (·.closed) hstate, congrArg (·.lock) hstate, congrArg (·.notified) hstate⟩
    · have hfind : ((p.watched log).store.findFinal process key).run w = (.value (.ok final), w₁) := hfind
      simp only [startLocked, Process.run_bind, hfind, newContext, Process.run_atomically]
      exact (Process.run_bind ..).symm

/-- **Starting**, with its calls: it fails, or there is a context that all extensions know of. -/
theorem start_watched (hp : p.Discreet log) (process key : String) (timeout : Duration)
    (settings : List Setting) (w : World ε) :
    (∃ e calls w', ((p.watched log).start process key timeout settings).run w = (.value (.error e), w') ∧
      log.get w'.env = log.get w.env ++ calls ∧ p.NotStarted log process key timeout settings w e calls w') ∨
    ∃ c handle final w', ((p.watched log).start process key timeout settings).run w =
        (.value (.ok c), w') ∧
      log.get w'.env = log.get w.env ++ greeting process key handle final p.interceptors.length ∧
      c.Pending handle p.interceptors.length w' := by
  cases hcheck : checkStart process key settings with
  | error e =>
    have hanywhere : ∀ q : Provider ε, q.start process key timeout settings = pure (.error e) := by
      intro q
      simp only [start, hcheck]
    refine .inl ⟨e, [], w, ?_, (List.append_nil _).symm, .rejected hcheck hanywhere⟩
    rw [hanywhere, Process.run_pure]
  | ok u =>
    -- No context is there yet, so any one will do.
    obtain ⟨now, w₁, hnow, hw₁⟩ := hp.clock default w
    obtain ⟨answer, w₂, hobtain, hw₂⟩ := Action.run_logged
      (hp.obtain default (RecordKey.lock process key) timeout now) (.obtained (RecordKey.lock process key)) w₁
    have hlog₂ := (hw₁.trans hw₂).log
    have hnow : (p.watched log).clock.run w = (.value now, w₁) := hnow
    have hobtain : ((p.watched log).locks.obtain (RecordKey.lock process key) timeout now).run w₁ =
      (.value answer, w₂) := hobtain
    match answer, hobtain, hlog₂ with
    | .error e, hobtain, hlog₂ =>
      refine .inl ⟨_, _, w₂, ?_, hlog₂, .unlockable⟩
      simp only [start, hcheck, Process.run_bind, hnow, hobtain, Process.run_pure]
    | .ok (.locked tryAt), hobtain, hlog₂ =>
      have hanyway : ∀ (store : StoreAdapter ε) (extensions : List (Interceptor ε)),
          (({ p.watched log with store, interceptors := extensions } : Provider ε).start process key timeout
            settings).run w = (.value (.error (.processLocked tryAt process key)),
              { w₂ with trace := w₂.trace.tell (.processLocked process key tryAt) }) := by
        intro store extensions
        simp only [start, hcheck, Process.run_bind, hnow, hobtain, Action.tell, Process.run_change,
          Process.run_pure]
      exact .inl ⟨_, _, _, hanyway _ _, hlog₂, .locked hanyway⟩
    | .ok (.obtained handle), hobtain, hlog₂ =>
      have hstart : ((p.watched log).start process key timeout settings).run w =
          ((p.watched log).startLocked process key settings handle).run w₂ := by
        simp only [start, hcheck, Process.run_bind, hnow, hobtain]
      rw [hstart]
      rcases startLocked_watched hp process key settings handle w₂ with
        ⟨e, released, w₃, hrun, hlog₃⟩ | ⟨final, w₃, hlog₃, hpending, hrun⟩
      · refine .inl ⟨.store e, [.obtained (RecordKey.lock process key) (.ok (.obtained handle)),
          .foundFinal (.error e), .released handle released], w₃, hrun, ?_, .lost⟩
        rw [hlog₃, hlog₂, List.append_assoc]
        rfl
      · rw [hrun]
        rcases introduce_watched hp hpending with ⟨w₄, hrun, hlog₄, hpending⟩ |
          ⟨place, e, answers, released, w₄, hplace, hanswers, hrun, hlog₄⟩
        · refine .inr ⟨_, handle, final, w₄, hrun, ?_, hpending⟩
          simp only [hlog₄, hlog₃, hlog₂, greeting, List.append_assoc]
          rfl
        · refine .inl ⟨e, greeting process key handle final place ++ [.created place (.error e)]
            ++ closing answers handle released, w₄, hrun, ?_, .unwelcome hplace hanswers⟩
          simp only [hlog₄, hlog₃, hlog₂, greeting, List.append_assoc]
          rfl

/-! ## Whole processes -/

/-- Running a phase logs no call if its body logs none. -/
theorem steps_run [EngineFailure β] {x : Executor ε} (hx : x.Hosts (Logged log c []) c) (phase : Phase)
    (codec : Codec γ) {body : Action ε (Except β γ)} (hbody : body.Steps (Logged log c [])) :
    (c.run x phase codec body).Steps (Logged log c []) := by
  refine hx.steps_run .refl (fun w s hs => .modifyContext ?_) (fun w => .modifyContext ⟨rfl, rfl, rfl⟩) codec hbody
  rw [(ContextState.enter_eq_ok hs).2.2.2]
  exact ⟨rfl, rfl, rfl⟩

/-- A body and the empty final phase behind it log no call. -/
theorem runBody_logged [EngineFailure β] (hp : p.Discreet log)
    {body : Context → Action ε (Except β α)} (hbody : ∀ w, Logged log c [] w ((body c).run w).2)
    (w : World ε) : Logged log c [] w (((p.watched log).runBody c body).run w).2 := by
  have hcomplete : ∀ w, Logged log c [] w (((p.watched log).complete c : Action ε (Except β Unit)).run w).2 := by
    intro w
    rw [run_complete]
    split
    · exact .refl w
    · rw [runPhase, executor_watched]
      exact (steps_run (hp.executor c) _ _ (.pure _)).run .refl .trans w
  have hbody := hbody w
  unfold runBody
  rw [Process.run_bind]
  cases hrun : (body c).run w with
  | mk o w₁ =>
    rw [hrun] at hbody
    match o with
    | .crashed m => exact hbody
    | .value (.error e) => exact hbody
    | .value (.ok a) =>
      have hcomplete := hcomplete w₁
      simp only [Process.run_bind]
      cases hlast : ((p.watched log).complete c : Action ε (Except β Unit)).run w₁ with
      | mk o w₂ =>
        rw [hlast] at hcomplete
        match o with
        | .crashed m => exact hbody.trans hcomplete
        | .value (.error e) => exact hbody.trans hcomplete
        | .value (.ok u) => exact hbody.trans hcomplete

/-- **How a body ends**, the empty final phase behind it included: as it ends itself if it fails, crashes or has
    left a final phase; else as the empty one does, and with its own value if that succeeds. -/
structure BodyEnds [EngineFailure β] (p : Provider ε) (c : Context) (body : Context → Action ε (Except β α))
    (w : World ε) : Prop where
  failed : ∀ {e w'}, (body c).run w = (.value (.error e), w') →
    (p.runBody c body).run w = (.value (.error e), w')
  crashed : ∀ {m w'}, (body c).run w = (.crashed m, w') → (p.runBody c body).run w = (.crashed m, w')
  left : ∀ {a w'}, (body c).run w = (.value (.ok a), w') → (w'.context c.id).wasFinal = true →
    (p.runBody c body).run w = (.value (.ok a), w')
  completed : ∀ {a w₁ answer w'}, (body c).run w = (.value (.ok a), w₁) → (w₁.context c.id).wasFinal = false →
    (p.runPhase c { id := autoFinal, isFinal := true } .unit (pure (.ok ()))).run w₁ = (.value answer, w') →
    (p.runBody c body).run w = (.value (answer.map fun _ => a), w')
  crashedLast : ∀ {a w₁ m w'}, (body c).run w = (.value (.ok a), w₁) → (w₁.context c.id).wasFinal = false →
    (p.runPhase c { id := autoFinal, isFinal := true } .unit
      (pure (.ok ()) : Action ε (Except β Unit))).run w₁ = (.crashed m, w') →
    (p.runBody c body).run w = (.crashed m, w')

theorem bodyEnds [EngineFailure β] (p : Provider ε) (c : Context) (body : Context → Action ε (Except β α))
    (w : World ε) : p.BodyEnds c body w where
  failed h := runBody_error h
  crashed h := by
    unfold runBody
    simp only [Process.run_bind, h]
  left {a w'} h hleft := by
    have hcomplete : (p.complete c : Action ε (Except β Unit)).run w' = (.value (.ok ()), w') := by
      rw [run_complete, if_pos hleft]
    exact runBody_ok h hcomplete
  completed h hopen hlast := by
    refine runBody_ok h ?_
    rw [run_complete, hopen]
    exact hlast
  crashedLast h hopen hlast := by
    have hcomplete := run_complete (β := β) p c
    unfold runBody
    simp only [Process.run_bind, h, hcomplete, hopen, Bool.false_eq_true, if_false, hlast]

/-- **What a whole process answers** for how its body ended and what the closing hooks answered. -/
def verdict [EngineFailure β] : Outcome (Except β α) → List (Except Error Unit) → Outcome (Except β α)
  | .value (.ok a), answers => match closeVerdict answers with
    | .ok () => .value (.ok a)
    | .error e => .value (.error (ofError e))
  | .value (.error e), _ => .value (.error e)
  | .crashed m, _ => .crashed m

/-- **A context that has been closed, once**: the closing hooks of all extensions have answered, the lock has
    been released, and closing or dropping the context later calls nothing any more. -/
structure Closed (log : Part ε (List LifeCall)) (p : Provider ε) (c : Context) (handle : LockHandle)
    (answers : List (Except Error Unit)) (w w' : World ε) : Prop where
  all : answers.length = p.interceptors.length
  calls : ∃ released, log.get w'.env = log.get w.env ++ closing answers handle released
  closedAgain : ∀ w₁, Logged log c [] w' w₁ → ∃ w₂,
    ((p.watched log).close c).run w₁ = (.value (.ok ()), w₂) ∧ log.get w₂.env = log.get w'.env
  droppedAgain : ∀ w₁, Logged log c [] w' w₁ → ∃ w₂,
    ((p.watched log).drop c).run w₁ = (.value (), w₂) ∧ log.get w₂.env = log.get w'.env

theorem Closed.of_over {answers : List (Except Error Unit)} {released : Except LockError Unit}
    (hall : answers.length = p.interceptors.length)
    (hcalls : log.get w'.env = log.get w.env ++ closing answers handle released) (hover : c.Over w') :
    p.Closed log c handle answers w w' where
  all := hall
  calls := ⟨released, hcalls⟩
  closedAgain w₁ hw₁ := by
    obtain ⟨w₂, hrun, henv⟩ := close_over (p.watched log) (hover.later hw₁)
    exact ⟨w₂, hrun, by rw [henv, hw₁.log, List.append_nil]⟩
  droppedAgain w₁ hw₁ :=
    ⟨w₁, drop_over (p.watched log) (hover.later hw₁), by rw [hw₁.log, List.append_nil]⟩

/-- **Conducting an attempt** closes its context, however the body ends. -/
theorem conduct_watched [EngineFailure β] (hp : p.Discreet log) (process key : String)
    (h : c.Pending handle p.interceptors.length w) {body : Context → Action ε (Except β α)}
    (hbody : ∀ w, Logged log c [] w ((body c).run w).2) :
    ∃ answers w', ((p.watched log).conduct process key c body).run w =
        (verdict (((p.watched log).runBody c body).run w).1 answers, w') ∧
      p.Closed log c handle answers w w' := by
  have hlogged := runBody_logged hp hbody w
  unfold conduct
  rw [Process.run_bind, Process.run_onCrash]
  cases hrun : ((p.watched log).runBody c body).run w with
  | mk o w₁ =>
    rw [hrun] at hlogged
    have hlog₁ : log.get w₁.env = log.get w.env := hlogged.log.trans (List.append_nil _)
    cases o with
    | crashed m =>
      obtain ⟨answers, released, w₂, hall, hdrop, hlog₂, hover⟩ :=
        drop_watched hp (h.later hlogged) (Nat.le_refl _)
      rw [hlog₁] at hlog₂
      refine ⟨answers, w₂, ?_, .of_over hall hlog₂ hover⟩
      simp only [hdrop, verdict]
    | value result =>
      obtain ⟨answers, released, w₂, hall, hclose, hlog₂, hover⟩ :=
        close_watched hp (h.later hlogged) (Nat.le_refl _)
      rw [hlog₁] at hlog₂
      simp only [Process.run_bind, hclose]
      match result with
      | .ok a =>
        refine ⟨answers, w₂, ?_, .of_over hall hlog₂ hover⟩
        simp only [verdict]
        cases closeVerdict answers <;> rfl
      | .error e =>
        cases closeVerdict answers with
        | ok u =>
          refine ⟨answers, w₂, ?_, .of_over hall hlog₂ hover⟩
          simp only [Process.run_pure, verdict]
        | error closing =>
          refine ⟨answers, { w₂ with trace := w₂.trace.tell (.closingFailedToo process key closing) }, ?_,
            .of_over hall hlog₂ ⟨hover.created, hover.closed⟩⟩
          simp only [Process.run_bind, Action.tell, Process.run_change, Process.run_pure, verdict]

/-- **Every attempt is bracketed.**  A start fails with its calls undone, and then so does the process.  Or it
    succeeds; then closing and dropping the context, whenever that comes, make the calls of closing
    once, and so does a whole process, whose answer is the error of its body or of the empty final phase
    behind that, else the errors of closing in the order of the calls, else the value of its body. -/
theorem lifecycle_bracketed [EngineFailure β] (hp : p.Discreet log) (process key : String)
    (timeout : Duration) (settings : List Setting) (body : Context → Action ε (Except β α))
    (hbody : ∀ c w, Logged log c [] w ((body c).run w).2) (w : World ε) :
    (∃ e calls w₀, ((p.watched log).start process key timeout settings).run w = (.value (.error e), w₀) ∧
      log.get w₀.env = log.get w.env ++ calls ∧ p.NotStarted log process key timeout settings w e calls w₀ ∧
      ((p.watched log).runProcess process key timeout settings body).run w =
        (.value (.error (ofError e)), w₀)) ∨
    ∃ c handle final w₀,
      ((p.watched log).start process key timeout settings).run w = (.value (.ok c), w₀) ∧
      log.get w₀.env = log.get w.env ++ greeting process key handle final p.interceptors.length ∧
      (∀ w₁, Logged log c [] w₀ w₁ → ∃ answers w₂,
        ((p.watched log).close c).run w₁ = (.value (closeVerdict answers), w₂) ∧
        p.Closed log c handle answers w₁ w₂) ∧
      (∀ w₁, Logged log c [] w₀ w₁ → ∃ answers w₂,
        ((p.watched log).drop c).run w₁ = (.value (), w₂) ∧ p.Closed log c handle answers w₁ w₂) ∧
      ∃ answers w₂, ((p.watched log).runProcess process key timeout settings body).run w =
          (verdict (((p.watched log).runBody c body).run w₀).1 answers, w₂) ∧
        (p.watched log).BodyEnds c body w₀ ∧ p.Closed log c handle answers w₀ w₂ := by
  rcases start_watched hp process key timeout settings w with
    ⟨e, calls, w₀, hstart, hlog, hnot⟩ | ⟨c, handle, final, w₀, hstart, hlog, hpending⟩
  · refine .inl ⟨e, calls, w₀, hstart, hlog, hnot, ?_⟩
    rw [run_runProcess, hstart]
  · refine .inr ⟨c, handle, final, w₀, hstart, hlog, fun w₁ hw₁ => ?_, fun w₁ hw₁ => ?_, ?_⟩
    · obtain ⟨answers, released, w₂, hall, hclose, hcalls, hover⟩ :=
        close_watched hp (hpending.later hw₁) (Nat.le_refl _)
      exact ⟨answers, w₂, hclose, .of_over hall hcalls hover⟩
    · obtain ⟨answers, released, w₂, hall, hdrop, hcalls, hover⟩ :=
        drop_watched hp (hpending.later hw₁) (Nat.le_refl _)
      exact ⟨answers, w₂, hdrop, .of_over hall hcalls hover⟩
    · obtain ⟨answers, w₂, hrun, hclosed⟩ := conduct_watched hp process key hpending (hbody c)
      rw [run_runProcess, hstart]
      exact ⟨answers, w₂, hrun, bodyEnds _ c body w₀, hclosed⟩

end Provider

/-! ### An attempt on which everything fails -/

/-- Records, locks that cannot be released, two logs. -/
structure Lobby where
  records : MemoryStore := Table.empty
  stub : StubCalls := {}
  entries : CallLog := []
  calls : List LifeCall := []

namespace Lobby

/-- The log of the calls. -/
def callsPart : Part Lobby (List LifeCall) where
  get := (·.calls)
  set a l := { l with calls := a }

/-- The log of the extensions. -/
def entriesPart : Part Lobby CallLog where
  get := (·.entries)
  set a l := { l with entries := a }

/-- Three extensions; the second one fails when it is told that a context is closed. -/
def guests : List (Interceptor Lobby) :=
  [Recorder.interceptor { name := "a" } entriesPart,
    Recorder.interceptor { name := "b", refusesClose := true } entriesPart,
    Recorder.interceptor { name := "c" } entriesPart]

/-- A provider with these extensions; releasing its locks fails. -/
def provider : Provider Lobby where
  locks := StubLocks.adapter { failsRelease := true }
    ⟨(·.stub), fun a l => { l with stub := a }, fun _ _ => rfl, fun _ => rfl, fun _ _ _ => rfl⟩
  store := MemoryStore.adapter
    ⟨(·.records), fun a l => { l with records := a }, fun _ _ => rfl, fun _ => rfl, fun _ _ _ => rfl⟩
    (pure .epoch)
  interceptors := guests
  clock := pure .epoch

/-- A change of anything but the log and the contexts logs nothing. -/
theorem logged_env {c : Context} {w : World Lobby} {l : Lobby} (h : l.calls = w.env.calls) :
    Logged callsPart c [] w { w with env := l } :=
  ⟨h.trans (List.append_nil _).symm, Nat.le_refl _, fun _ => ⟨rfl, rfl, rfl⟩⟩

theorem discreet_provider : provider.Discreet callsPart where
  clock _ w := ⟨_, w, rfl, .refl w⟩
  obtain _ _ _ _ _ := ⟨_, _, rfl, logged_env rfl⟩
  release _ _ _ := ⟨_, _, rfl, logged_env rfl⟩
  findFinal _ _ _ w := ⟨_, w, rfl, .refl w⟩
  created c i hi w := by
    simp only [provider, guests, List.mem_cons, List.not_mem_nil, or_false] at hi
    rcases hi with rfl | rfl | rfl <;> exact ⟨_, _, rfl, logged_env rfl⟩
  closed c i hi w := by
    simp only [provider, guests, List.mem_cons, List.not_mem_nil, or_false] at hi
    rcases hi with rfl | rfl | rfl <;> exact ⟨_, _, rfl, logged_env rfl⟩
  executor c := by
    refine Provider.hosts_executor Logged.overlooks
      (MemoryStore.keeps_adapter .refl (fun w s => logged_env rfl) (.pure _)) (fun i hi => ?_) c
    simp only [provider, guests, List.mem_cons, List.not_mem_nil, or_false] at hi
    rcases hi with rfl | rfl | rfl <;> exact .recording _ _ fun w l => logged_env rfl

/-- A body that fails. -/
def refusal (_ : Context) : Action Lobby (Except Error Unit) := pure (.error (.misuse "no"))

/-- A body that returns a value. -/
def consent (_ : Context) : Action Lobby (Except Error Nat) := pure (.ok 7)

/-- At the end of either attempt an extension fails, and so does the release of the lock.  Where the body fails, its
    error is the answer; where it succeeds, the error of the extension is.  That of the release never is. -/
theorem lifecycle_bracketed_refusal :
    ((∀ c w, Logged callsPart c [] w ((refusal c).run w).2) ∧
      ∃ c handle final w₀ answers w₂,
        ((provider.watched callsPart).start "p" "k" ⟨10⟩ []).run { env := {} } = (.value (.ok c), w₀) ∧
        w₀.env.calls = Provider.greeting "p" "k" handle final 3 ∧
        ((provider.watched callsPart).runProcess "p" "k" ⟨10⟩ [] refusal).run { env := {} } =
          (.value (.error (.misuse "no")), w₂) ∧
        provider.Closed callsPart c handle answers w₀ w₂) ∧
    (∀ c w, Logged callsPart c [] w ((consent c).run w).2) ∧
      ∃ c handle final w₀ answers w₂,
        ((provider.watched callsPart).start "p" "k" ⟨10⟩ []).run { env := {} } = (.value (.ok c), w₀) ∧
        w₀.env.calls = Provider.greeting "p" "k" handle final 3 ∧
        ((provider.watched callsPart).runProcess "p" "k" ⟨10⟩ [] consent).run { env := {} } =
          (.value (.error (.contextClose [.misuse "b refused to close"])), w₂) ∧
        provider.Closed callsPart c handle answers w₀ w₂ := by
  have hrefusal : ∀ c w, Logged callsPart c [] w ((refusal c).run w).2 := fun c w => .refl w
  have hconsent : ∀ c w, Logged callsPart c [] w ((consent c).run w).2 := fun c w => .refl w
  refine ⟨⟨hrefusal, ?_⟩, hconsent, ?_⟩
  · rcases Provider.lifecycle_bracketed discreet_provider "p" "k" ⟨10⟩ [] refusal hrefusal { env := {} } with
      ⟨e, calls, w₀, hstart, -⟩ | ⟨c, handle, final, w₀, hstart, hlog, -, -, answers, w₂, hrun, -, hclosed⟩
    · cases hstart
    · exact ⟨c, handle, final, w₀, answers, w₂, hstart, hlog, hrun, hclosed⟩
  · rcases Provider.lifecycle_bracketed discreet_provider "p" "k" ⟨10⟩ [] consent hconsent { env := {} } with
      ⟨e, calls, w₀, hstart, -⟩ | ⟨c, handle, final, w₀, hstart, hlog, -, -, answers, w₂, hrun, -, hclosed⟩
    · cases hstart
    · have hanswer : (((provider.watched callsPart).runProcess "p" "k" ⟨10⟩ [] consent).run { env := {} }).1 =
          .value (.error (.contextClose [.misuse "b refused to close"])) := rfl
      refine ⟨c, handle, final, w₀, answers, w₂, hstart, hlog, ?_, hclosed⟩
      rw [hrun] at hanswer ⊢
      exact Prod.ext hanswer rfl

end Lobby

end Idempotence
