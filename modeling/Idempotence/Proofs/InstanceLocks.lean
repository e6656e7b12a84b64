/-
  Locks of instances — the lock of an instance, from the start of an attempt to its end.

  1. **Guarding** — a step `Guards` a context if it leaves alone the row of its lock, the handle that
     the context has of it, and whether the context is closed.  Whatever a provider without
     extensions does between opening and closing a context is made of such steps, whatever becomes
     of the phases (`Bare.steps_run`, `Bare.steps_runBody`).

  2. **Holding** — a context `Holds` its lock while the row is the one that its handle speaks of.  It
     does once it has been opened, guarding steps keep it so, and closing or dropping the context
     then takes the row away and makes no record (`Bare.close_unlocks`, `Bare.drop_unlocks`).

  3. **The result** — an attempt that finds the instance unlocked opens it (`Bare.start_opens`) and
     leaves it unlocked however it ends, also where its body crashes (`Bare.runProcess_unlocked`).
     So attempts in sequence do not meet each other's locks.
-/
import Idempotence.Proofs.Extensions

namespace Idempotence

variable {ε α β γ : Type}

/-! ## Guarding and holding -/

section

variable (locks : Part ε (LockTable RecordKey))

/-- The row of an instance's lock. -/
def Part.lockRow (process key : String) (w : World ε) : Option LockRow :=
  (locks.get w.env).row? (RecordKey.lock process key)

/-- **A step that guards a context**: neither the lock nor what the context has of it changes. -/
structure Guards (c : Context) (w w' : World ε) : Prop where
  row : locks.lockRow c.process c.key w' = locks.lockRow c.process c.key w
  length : w.contexts.length ≤ w'.contexts.length
  state : c.id < w.contexts.length →
    (w'.context c.id).lock = (w.context c.id).lock ∧ (w'.context c.id).closed = (w.context c.id).closed

/-- **A context that holds its lock**, and has not been closed. -/
structure Context.Holds (c : Context) (w : World ε) : Prop where
  created : c.id < w.contexts.length
  unclosed : (w.context c.id).closed = false
  held : ∃ row, locks.lockRow c.process c.key w = some row ∧
    (w.context c.id).lock = some ⟨RecordKey.lock c.process c.key, row.operation⟩

/-- **A way that gives back the lock** of a context: its row is gone then, and everything else is as it
    was, the other rows and all records. -/
structure Releases (records : Part ε MemoryStore) (c : Context) (w w' : World ε) : Prop where
  row : locks.lockRow c.process c.key w' = none
  others : ∀ process key, ¬ (process = c.process ∧ key = c.key) →
    locks.lockRow process key w' = locks.lockRow process key w
  records : records.get w'.env = records.get w.env

/-- **A step that has nothing to do with the instance** of a context: it leaves alone its records and
    its lock, and the state of the context but for the properties. -/
structure Foreign (records : Part ε MemoryStore) (c : Context) (w w' : World ε) : Prop extends
    Beside Eq records c w w' where
  row : locks.lockRow c.process c.key w' = locks.lockRow c.process c.key w

end

variable {records : Part ε MemoryStore} {locks : Part ε (LockTable RecordKey)} {stamps : Action ε Instant}
  {c : Context} {w w' w'' : World ε}

theorem Guards.refl (w : World ε) : Guards locks c w w := ⟨rfl, Nat.le_refl _, fun _ => ⟨rfl, rfl⟩⟩

theorem Guards.trans (h : Guards locks c w w') (h' : Guards locks c w' w'') : Guards locks c w w'' where
  row := h'.row.trans h.row
  length := Nat.le_trans h.length h'.length
  state hc := by
    obtain ⟨hlock, hclosed⟩ := h.state hc
    obtain ⟨hlock', hclosed'⟩ := h'.state (Nat.lt_of_lt_of_le hc h.length)
    exact ⟨hlock'.trans hlock, hclosed'.trans hclosed⟩

theorem Foreign.guards (h : Foreign locks records c w w') : Guards locks c w w' where
  row := h.row
  length := h.length
  state hc := ⟨ContextState.lock_eq (h.bare hc), ContextState.closed_eq (h.bare hc)⟩

/-- Whoever holds its lock goes on holding it while it is guarded. -/
theorem Context.Holds.guarded (h : c.Holds locks w) (hw : Guards locks c w w') : c.Holds locks w' where
  created := Nat.lt_of_lt_of_le h.created hw.length
  unclosed := (hw.state h.created).2.trans h.unclosed
  held := by
    obtain ⟨row, hrow, hlock⟩ := h.held
    exact ⟨row, hw.row.trans hrow, (hw.state h.created).1.trans hlock⟩

/-- Changing the state of the context without touching its lock. -/
theorem guards_modifyContext {f : ContextState → ContextState}
    (hf : (f (w.context c.id)).lock = (w.context c.id).lock ∧
      (f (w.context c.id)).closed = (w.context c.id).closed) :
    Guards locks c w (w.modifyContext c.id f) := by
  refine ⟨rfl, Nat.le_of_eq (World.length_modifyContext ..).symm, fun hc => ?_⟩
  rw [World.context_modifyContext_self _ _ hc]
  exact hf

/-- Taking a lock writes its row and no other. -/
theorem LockTable.row?_take {t t' : LockTable RecordKey} {key : RecordKey} {timeout : Duration}
    {now : Instant} {operation : Nat} (h : t.take key timeout now = (.ok operation, t')) (j : RecordKey) :
    t'.row? j = if j = key then some ⟨operation, now.deadline timeout⟩ else t.row? j := by
  unfold take at h
  split at h
  · split at h
    · cases h
    · cases h
      exact row?_write ..
  · cases h
    exact row?_write ..

/-- A lock that is held is not taken, and the table stays as it is. -/
theorem LockTable.take_refused {t t' : LockTable RecordKey} {key : RecordKey} {timeout : Duration}
    {now expiry : Instant} (h : t.take key timeout now = (.error expiry, t')) : t' = t := by
  unfold take at h
  split at h
  · split at h
    · cases h
      rfl
    · cases h
  · cases h

/-! ## Providers without extensions -/

/-- **A provider without extensions** over stores and locks in memory. -/
structure Provider.Bare (p : Provider ε) (records : Part ε MemoryStore) (stamps : Action ε Instant)
    (locks : Part ε (LockTable RecordKey)) : Prop extends p.InMemory records stamps where
  extensions : p.interceptors = []
  locking : p.locks = LockTable.adapter locks
  apart : records.Apart locks
  clock_locks : p.clock.Steps fun w w' => locks.get w'.env = locks.get w.env
  stamps_locks : stamps.Steps fun w w' => locks.get w'.env = locks.get w.env

namespace Provider.Bare

variable {p : Provider ε}

theorem executor_eq (hp : p.Bare records stamps locks) :
    p.executor = Executor.base (MemoryStore.adapter records stamps) := by
  unfold executor
  rw [hp.extensions, hp.store]
  rfl

/-- The executor hosts bodies and guards the context itself. -/
theorem hosts_executor (hp : p.Bare records stamps locks) (c : Context) :
    p.executor.Hosts (Guards locks c) c := by
  have hrecords : ∀ (w : World ε) s, Guards locks c w { w with env := records.set s w.env } := by
    refine fun w s => ⟨?_, Nat.le_refl _, fun _ => ⟨rfl, rfl⟩⟩
    simp only [Part.lockRow, hp.apart.get_set_right]
  have hstamps : stamps.Steps (Guards locks c) := by
    refine (hp.quiet_stamps.steps.and hp.stamps_locks).mono fun w w' h => ?_
    refine ⟨by simp only [Part.lockRow, h.2], Nat.le_of_eq h.1.length.symm, fun _ => ?_⟩
    exact ⟨ContextState.lock_eq (h.1.bare c.id), ContextState.closed_eq (h.1.bare c.id)⟩
  rw [hp.executor_eq]
  exact Executor.hosts_base (MemoryStore.keeps_adapter .refl hrecords hstamps)
    (fun e => .change fun w => ⟨rfl, Nat.le_refl _, fun _ => ⟨rfl, rfl⟩⟩) c

/-- **A call guards the context** if its body does. -/
theorem steps_run [EngineFailure β] (hp : p.Bare records stamps locks) (phase : Phase) (codec : Codec γ)
    {body : Action ε (Except β γ)} (hbody : body.Steps (Guards locks c)) :
    (p.runPhase c phase codec body).Steps (Guards locks c) := by
  refine (hp.hosts_executor c).steps_run .refl (fun w s hs => guards_modifyContext ?_)
    (fun w => guards_modifyContext ⟨rfl, rfl⟩) codec hbody
  rw [(ContextState.enter_eq_ok hs).2.2.2]
  exact ⟨rfl, rfl⟩

/-- **A whole body guards the context** if it does so but for the empty final phase. -/
theorem steps_runBody [EngineFailure β] (hp : p.Bare records stamps locks)
    {body : Context → Action ε (Except β α)} (hbody : (body c).Steps (Guards locks c)) :
    (p.runBody c body).Steps (Guards locks c) := by
  refine .bind hbody fun answer => ?_
  cases answer with
  | error e => exact .pure _
  | ok a =>
    refine .bind (.bind (.look .refl _) fun wasFinal => ?_) fun completed => ?_
    · split
      · exact .pure _
      · exact hp.steps_run _ _ (.pure _)
    · cases completed <;> exact .pure _

/-- **A program guards the context** if it does so beside its calls. -/
theorem steps_client [EngineFailure β] (hp : p.Bare records stamps locks) {client : Client ε β α}
    (hclient : client.Within (Guards locks c)) : (client.act p.executor c).Steps (Guards locks c) := by
  induction client with
  | done a => trivial
  | crash m => trivial
  | step e k ih => exact ⟨hclient.1, fun w => ih w (hclient.2 w)⟩
  | call phase codec body k ihbody ih =>
    exact .bind (Process.steps_caught (hp.steps_run phase codec (ihbody hclient.1))) fun o =>
      ih o (hclient.2 o)

/-! ## From the start to the end -/

variable {process key : String} {timeout : Duration} {settings : List Setting} {w₀ : World ε}

/-- Nobody has to be told of a context. -/
theorem introduce_run (hp : p.Bare records stamps locks) (c : Context) (w : World ε) :
    (p.introduce c).run w = (.value (.ok c), w) := by
  unfold introduce
  rw [hp.extensions]
  rfl

/-- **Starting is opening**, where there are no extensions. -/
theorem opened (hp : p.Bare records stamps locks)
    (h : (p.start process key timeout settings).run w = (.value (.ok c), w₀)) :
    p.Opened records process key timeout settings w c w₀ := by
  rcases start_cases hp.toInMemory h with ⟨-, ⟨e, he⟩, -⟩ | ⟨c', w', hopened, hrun⟩
  · cases he
  · rw [hp.introduce_run] at hrun
    cases hrun
    exact hopened

/-- **Opening is starting**, where there are no extensions. -/
theorem start_run (hp : p.Bare records stamps locks)
    (h : p.Opened records process key timeout settings w c w₀) :
    (p.start process key timeout settings).run w = (.value (.ok c), w₀) := by
  rcases start_cases hp.toInMemory (Prod.eta ((p.start process key timeout settings).run w))
    with ⟨-, -, hnot⟩ | ⟨c', w', hopened, hrun⟩
  · exact absurd h (hnot c w₀)
  · obtain ⟨now, w₁, handle, w₂, hclock, hobtain, rfl, rfl⟩ := h.taken
    obtain ⟨now', w₁', handle', w₂', hclock', hobtain', rfl, rfl⟩ := hopened.taken
    rw [hclock] at hclock'
    cases hclock'
    rw [hobtain] at hobtain'
    cases hobtain'
    rw [hp.introduce_run] at hrun
    exact hrun.symm

/-- **Whoever has been opened holds the lock**: the row is the one that has just been written. -/
theorem opened_holds (hp : p.Bare records stamps locks)
    (h : p.Opened records process key timeout settings w c w₀) : c.Holds locks w₀ := by
  obtain ⟨hcreated, -⟩ := h.context_eq
  obtain ⟨now, w₁, handle, w₂, -, hobtain, rfl, rfl⟩ := h.taken
  rw [hp.locking] at hobtain
  simp only [LockTable.adapter, Action.on, Process.run_atomically] at hobtain
  cases htake : (locks.get w₁.env).take (RecordKey.lock process key) timeout now with
  | mk answer t =>
    rw [htake] at hobtain
    cases answer with
    | error expiry => cases hobtain
    | ok operation =>
      cases hobtain
      have hrow := (LockTable.row?_take htake _).trans (if_pos rfl)
      have hlock : ∀ state : ContextState,
          World.context { w₁ with contexts := w₁.contexts ++ [state] } w₁.contexts.length = state := by
        intro state
        simp [World.context, List.getD_eq_getElem?_getD]
      refine ⟨hcreated, congrArg (·.closed) (hlock _), ⟨operation, now.deadline timeout⟩, ?_,
        congrArg (·.lock) (hlock _)⟩
      simp only [Part.lockRow, Part.get_set]
      exact hrow

/-- **An unlocked instance can be started.** -/
theorem start_opens (hp : p.Bare records stamps locks) (hrow : locks.lockRow process key w = none)
    (hcheck : checkStart process key settings = .ok ()) (timeout : Duration) :
    ∃ c w₀, (p.start process key timeout settings).run w = (.value (.ok c), w₀) ∧
      p.Opened records process key timeout settings w c w₀ := by
  rcases start_cases hp.toInMemory (Prod.eta ((p.start process key timeout settings).run w))
    with ⟨-, -, hnot⟩ | ⟨c, w₀, hopened, hrun⟩
  · obtain ⟨now, w₁, hclock, -⟩ := hp.quiet_clock.run w
    have hlocks := hp.clock_locks.run (fun _ => rfl) (fun h h' => h'.trans h) w
    rw [hclock] at hlocks
    have hfree : (locks.get w₁.env).lockedUntil? (RecordKey.lock process key) = none := by
      unfold Part.lockRow at hrow
      rw [LockTable.lockedUntil?, hlocks, hrow]
      rfl
    have hobtain : (p.locks.obtain (RecordKey.lock process key) timeout now).run w₁ =
        (.value (.ok (.obtained ⟨RecordKey.lock process key, (locks.get w₁.env).nextOperation⟩)),
          { w₁ with env := locks.set ((locks.get w₁.env).write (RecordKey.lock process key)
              (now.deadline timeout)) w₁.env }) := by
      rw [hp.locking]
      simp only [LockTable.adapter, Action.on, Process.run_atomically, LockTable.take, hfree]
    exact absurd ⟨hcheck, now, w₁, _, _, hclock, hobtain, rfl, rfl⟩ (hnot _ _)
  · rw [hp.introduce_run] at hrun
    exact ⟨c, w₀, hrun.symm, hopened⟩

/-- The world without the lock of a context: neither the row nor the handle. -/
def unlocked (locks : Part ε (LockTable RecordKey)) (c : Context) (handle : LockHandle) (w : World ε) :
    World ε :=
  { w.modifyContext c.id fun s => { s with lock := none } with
    env := locks.set ((locks.get w.env).release handle.key handle.operation) w.env }

/-- Releasing the lock. -/
theorem releaseLock_run (hp : p.Bare records stamps locks) {handle : LockHandle}
    (h : (w.context c.id).lock = some handle) :
    (p.releaseLock c).run w = (.value (), unlocked locks c handle w) := by
  unfold releaseLock takeLock
  rw [hp.locking]
  simp only [LockTable.adapter, Action.on, Process.run_bind, Process.run_atomically, h]
  rfl

/-- **Closing unlocks**, and makes no record. -/
theorem close_unlocks (hp : p.Bare records stamps locks) (h : c.Holds locks w) :
    ∃ w', (p.close c).run w = (.value (.ok ()), w') ∧ Releases locks records c w w' := by
  obtain ⟨row, hrow, hlock⟩ := h.held
  let marked : World ε := w.modifyContext c.id fun s => { s with closed := true }
  have hmarked : (marked.context c.id).lock = some ⟨RecordKey.lock c.process c.key, row.operation⟩ := by
    rw [World.context_modifyContext_self _ _ h.created]
    exact hlock
  let released : World ε := unlocked locks c ⟨RecordKey.lock c.process c.key, row.operation⟩ marked
  -- The row is the one that the operation of the handle wrote.
  have hrows : ∀ key, (locks.get released.env).row? key =
      if key = RecordKey.lock c.process c.key then none else (locks.get w.env).row? key := by
    intro key
    show (locks.get (locks.set ((locks.get w.env).release _ _) _)).row? key = _
    unfold Part.lockRow at hrow
    rw [Part.get_set, LockTable.release, hrow, Option.map_some, if_pos rfl, LockTable.row?_erase]
  refine ⟨released, ?_, ?_, fun process key hother => ?_, hp.apart.get_set_left _ _⟩
  · unfold close markClosed
    rw [hp.extensions, Process.run_bind, Process.run_atomically]
    show Process.run (if (w.context c.id).closed = true then _ else _) marked = _
    rw [h.unclosed, if_neg Bool.false_ne_true, Context.look, Process.run_bind, Process.run_look]
    simp only [List.take_nil, List.reverse_nil, runClosed, Process.run_bind, Process.run_pure,
      hp.releaseLock_run hmarked, List.isEmpty_nil, if_true, released]
  · exact (hrows _).trans (if_pos rfl)
  · have hkey : RecordKey.lock process key ≠ RecordKey.lock c.process c.key :=
      fun h => hother ⟨congrArg (·.process) h, congrArg (·.key) h⟩
    exact (hrows _).trans (if_neg hkey)

/-- **Dropping unlocks.** -/
theorem drop_unlocks (hp : p.Bare records stamps locks) (h : c.Holds locks w) :
    ∃ w', (p.drop c).run w = (.value (), w') ∧ Releases locks records c w w' := by
  unfold drop
  rw [Context.look, Process.run_bind, Process.run_look]
  show ∃ w', Process.run (if (w.context c.id).closed = true then _ else _) w = _ ∧ _
  rw [h.unclosed, if_neg Bool.false_ne_true, Context.look, Process.run_bind, Process.run_look]
  simp only
  split
  · -- Telling that the context is dropped guards it.
    have hholds : c.Holds locks { w with trace := w.trace.tell (.contextDropped c.process c.key) } :=
      h.guarded ⟨rfl, Nat.le_refl _, fun _ => ⟨rfl, rfl⟩⟩
    obtain ⟨w', hclose, hreleases⟩ := hp.close_unlocks hholds
    refine ⟨w', ?_, hreleases.row, hreleases.others, hreleases.records⟩
    rw [Process.run_bind, Action.tell, Process.run_change]
    simp only [Process.run_bind, hclose, Process.run_pure]
  · obtain ⟨w', hclose, hreleases⟩ := hp.close_unlocks h
    refine ⟨w', ?_, hreleases⟩
    simp only [Process.run_bind, hclose, Process.run_pure]

/-- **An attempt unlocks what it has opened**, however its body ends, and does no more behind it. -/
theorem conduct_releases [EngineFailure β] (hp : p.Bare records stamps locks) (process key : String)
    (h : c.Holds locks w) {body : Context → Action ε (Except β α)} (hbody : (body c).Steps (Guards locks c)) :
    Releases locks records c ((p.runBody c body).run w).2 ((p.conduct process key c body).run w).2 := by
  have hguards := (hp.steps_runBody hbody).run .refl .trans w
  unfold conduct
  rw [Process.run_bind, Process.run_onCrash]
  cases hrun : (p.runBody c body).run w with
  | mk o w₁ =>
    rw [hrun] at hguards
    have hholds := h.guarded hguards
    cases o with
    | crashed m =>
      obtain ⟨w₂, hdrop, hreleases⟩ := hp.drop_unlocks hholds
      simp only [hdrop]
      exact hreleases
    | value result =>
      obtain ⟨w₂, hclose, hreleases⟩ := hp.close_unlocks hholds
      simp only [Process.run_bind, hclose]
      cases result <;> exact hreleases

/-- **An attempt leaves its instance unlocked**, however it ends. -/
theorem conduct_unlocks [EngineFailure β] (hp : p.Bare records stamps locks) (process key : String)
    (h : c.Holds locks w) {body : Context → Action ε (Except β α)} (hbody : (body c).Steps (Guards locks c)) :
    locks.lockRow c.process c.key ((p.conduct process key c body).run w).2 = none :=
  (hp.conduct_releases process key h hbody).row

/-- Whatever was started ends unlocked. -/
theorem runProcess_started [EngineFailure β] (hp : p.Bare records stamps locks)
    {body : Context → Action ε (Except β α)} (hbody : ∀ c, (body c).Steps (Guards locks c))
    (h : (p.start process key timeout settings).run w = (.value (.ok c), w₀)) :
    locks.lockRow process key ((p.runProcess process key timeout settings body).run w).2 = none := by
  have hopened := hp.opened h
  have hunlocked := hp.conduct_unlocks process key (hp.opened_holds hopened) (hbody c)
  rw [run_runProcess, h]
  rw [hopened.process_eq, hopened.key_eq] at hunlocked
  exact hunlocked

/-- **A whole process leaves an unlocked instance unlocked**, however it ends. -/
theorem runProcess_unlocked [EngineFailure β] (hp : p.Bare records stamps locks)
    {body : Context → Action ε (Except β α)} (hbody : ∀ c, (body c).Steps (Guards locks c))
    (hrow : locks.lockRow process key w = none) (timeout : Duration) (settings : List Setting) :
    locks.lockRow process key ((p.runProcess process key timeout settings body).run w).2 = none := by
  cases hcheck : checkStart process key settings with
  | error e =>
    rw [run_runProcess, start, hcheck]
    exact hrow
  | ok u =>
    obtain ⟨c, w₀, hstart, -⟩ := hp.start_opens hrow hcheck timeout
    exact hp.runProcess_started hbody hstart

end Provider.Bare

/-- **The provider without extensions** of the desk is one. -/
theorem Desk.bare_plain : plain.Bare recordsPart (pure .epoch) locksPart where
  toInMemory := inMemory_plain
  extensions := rfl
  locking := rfl
  apart := ⟨fun _ _ => rfl, fun _ _ => rfl⟩
  clock_locks := trivial
  stamps_locks := trivial

end Idempotence
