/-
  Switching modes — no program can tell which of its phases are transactional, over records in memory.

  1. **The engine** — a provider over records in memory, with extensions of the library, goes in step with
     itself: in calls of phases that are switched, and in whatever starts and ends contexts, though worlds may
     differ in the modes of other phases that are active meanwhile (`Provider.Modeless.related`).

  2. **The result** — `Program.Switched` says that two programs are the same but for the modes of phases, of
     any of them at any depth.  Alone they come to the same end in the same environment, and in company they
     do so under every schedule (`Provider.modes_unseen`).
-/
import Idempotence.Proofs.FinalDelivery
import Idempotence.Proofs.ModeBlindness
import Idempotence.Proofs.Programs

namespace Idempotence

variable {σ τ ε α : Type}

/-! ## The engine -/

/-- **The same phase in any mode.** -/
def Phase.Switched (phase phase' : Phase) : Prop := ∃ mode : Bool, phase' = { phase with transactional := mode }

theorem Phase.Switched.refl (phase : Phase) : phase.Switched phase := ⟨phase.transactional, rfl⟩

/-- **A provider that takes no notice of modes**: none of its parts does. -/
structure Provider.Modeless (p : Provider ε) : Prop where
  base : (Executor.base p.store).Modeless
  findFinal : ∀ process key, (p.store.findFinal process key).Modeless
  clock : p.clock.Modeless
  obtain : ∀ key timeout now, (p.locks.obtain key timeout now).Modeless
  release : ∀ handle, (p.locks.release handle).Modeless
  extensions : ∀ i ∈ p.interceptors, i.Modeless

/-- To go in step goes through all that processes are built with. -/
theorem Process.InStep.congruent {V : σ → τ} :
    Process.Congruent fun a a' : Process σ _ => a.InStep V a' where
  done := .done
  crash := .crash
  bind := .bind
  caught := .caught
  onExit := .onExit
  onCrash := .onCrash

namespace Provider.Modeless

variable {p : Provider ε} (hp : p.Modeless)
include hp

/-- The whole chain of executors. -/
theorem executor : p.executor.Modeless :=
  Executor.compose_induction hp.base fun i hi _ hx => (hp.extensions i hi).wrap hx

theorem tends (c : Context) : p.Tends (fun a a' => a.InStep World.modeless a') c where
  sequential := Process.InStep.congruent.toSequential
  tell := Action.modeless_tell
  closed i hi := (hp.extensions i hi).closed hp.executor c
  notified := c.modeless_look fun _ => rfl
  wasClosed := c.modeless_look fun _ => rfl
  mark := c.modeless_exchange (fun _ => rfl) fun _ => rfl
  take := c.modeless_exchange (fun _ => rfl) fun _ => rfl
  release := hp.release

/-- **All that the engine does** goes in step with what it does with switched phases. -/
theorem related : Provider.Related (fun a a' => a.InStep World.modeless a') Phase.Switched p p where
  congruent := Process.InStep.congruent
  like_id := by
    rintro phase _ ⟨mode, rfl⟩
    rfl
  like_settings := by
    rintro phase _ ⟨mode, rfl⟩
    rfl
  like_auto := .refl _
  tell := Action.modeless_tell
  wasFinal c := c.modeless_wasFinal
  enter := by
    rintro c phase _ ⟨mode, rfl⟩
    exact c.enter_inStep phase mode
  leave := by
    rintro c phase _ ⟨mode, rfl⟩
    exact c.modeless_leave phase
  execute := by
    rintro κ c phase _ body body' ⟨mode, rfl⟩ hbody
    exact hp.executor.execute c phase mode hbody
  newContext := modeless_newContext
  created c := Process.InStep.congruent.runCreated (c.modeless_change fun _ => rfl) fun i hi =>
    (hp.extensions i hi).created hp.executor c
  close c := (hp.tends c).close
  drop c := (hp.tends c).drop
  clock := hp.clock
  findFinal := hp.findFinal
  obtain := hp.obtain
  release := hp.release

end Provider.Modeless

/-! ## The result -/

/-- **Programs that differ in the modes of phases only**, of any phases at any depth.  What they do of their
    own goes in step, as publishing does. -/
abbrev Program.Switched (prog prog' : Program ε α) : Prop :=
  Program.Related (fun a a' => a.InStep World.modeless a') Phase.Switched prog prog'

/-- **Modes are not seen.**  Over records and locks in memory, take two programs that differ in the modes of
    phases only, with attempts, errors, crashes and publishing in any nesting.  Alone they come to the same
    end, and leave the same environment, with all its records, locks, deliveries and counters, and the same
    trace.  In company with others that differ likewise they do so under every schedule: at any moment the
    environments and traces are the same, and each program has ended if its like has, and alike. -/
theorem Provider.modes_unseen {p : Provider ε} {records : Part ε MemoryStore}
    {locks : Part ε (LockTable RecordKey)} {stamps : Action ε Instant}
    (hstore : p.store = MemoryStore.adapter records stamps) (hlocks : p.locks = LockTable.adapter locks)
    (hclock : p.clock.Modeless) (hstamps : stamps.Modeless) (hextensions : ∀ i ∈ p.interceptors, i.Library)
    {w v : World ε} (h : w.modeless = v.modeless) :
    (∀ {α : Type} {prog prog' : Program ε α}, prog.Switched prog' → ∀ {o w'},
      (prog.act p).run w = (o, w') →
      ∃ v', (prog'.act p).run v = (o, v') ∧ w'.env = v'.env ∧ w'.trace = v'.trace ∧
        w'.modeless = v'.modeless) ∧
    ∀ {α : Type} {pairs : List (Program ε α × Program ε α)}, (∀ q ∈ pairs, q.1.Switched q.2) →
      ∀ (schedule : List Nat) {pool pool' : Pool (World ε) α},
        pool = Pool.play ⟨pairs.map (·.1.act p), w⟩ schedule →
        pool' = Pool.play ⟨pairs.map (·.2.act p), v⟩ schedule →
        pool.state.env = pool'.state.env ∧ pool.state.trace = pool'.state.trace ∧
          pool.threads.map (·.outcome?) = pool'.threads.map (·.outcome?) := by
  have hp : p.Modeless := by
    refine ⟨?_, ?_, hclock, ?_, ?_, fun i hi => (hextensions i hi).modeless⟩
    · rw [hstore]
      exact MemoryStore.modeless_base records hstamps
    · rw [hstore]
      intro process key
      dsimp only [MemoryStore.adapter]
      exact Action.modeless_look records _
    · rw [hlocks]
      intro key timeout now
      dsimp only [LockTable.adapter]
      exact Action.modeless_on locks _
    · rw [hlocks]
      intro handle
      dsimp only [LockTable.adapter]
      exact Action.modeless_on locks _
  constructor
  · intro α prog prog' hprog o w' hrun
    obtain ⟨hend, hworld⟩ := (hp.related.program hprog).run h
    rw [hrun] at hend hworld
    exact ⟨((prog'.act p).run v).2, Prod.ext hend.symm rfl, World.env_eq hworld, World.trace_eq hworld, hworld⟩
  · intro α pairs hpairs schedule pool pool' hpool hpool'
    have hstart : Pool.InStep World.modeless ⟨pairs.map (·.1.act p), w⟩ ⟨pairs.map (·.2.act p), v⟩ := by
      refine ⟨h, fun i => ?_⟩
      simp only [List.getElem?_map]
      cases hi : pairs[i]? with
      | none => exact .inl ⟨rfl, rfl⟩
      | some q => exact .inr ⟨_, _, rfl, rfl, hp.related.program (hpairs q (List.mem_of_getElem? hi))⟩
    have hplayed := hstart.play schedule
    rw [← hpool, ← hpool'] at hplayed
    exact ⟨World.env_eq hplayed.state, World.trace_eq hplayed.state, hplayed.outcomes_eq⟩

/-! ## At the post office -/

namespace PostOffice

/-- A process whose first phase starts the process again and is overtaken by it, which publishes under the
    same id, records its output first and crashes; the second phase crashes as well, and the engine completes
    the instance. -/
def relay (outer inner : Bool) : Program PostOffice Unit :=
  .attempt "p" "k" ⟨0⟩ [.publishing .atEndOfCurrentPhase]
    (fun c =>
      .call c { id := "one", transactional := outer } .unit
        (.own (c.publish outbox.sink (letter "outer")) fun _ =>
          .attempt "p" "k" ⟨0⟩ [.publishing .atEndOfCurrentPhase]
            (fun d =>
              .call d { id := "one", transactional := inner } .unit
                (.own (d.publish outbox.sink (letter "inner")) fun _ => .done (.ok () : Except Error Unit))
                fun _ => .crash "boom")
            fun (_ : Outcome (Except Error Unit)) => .done (.ok () : Except Error Unit)) fun _ =>
      .call c { id := "two", transactional := inner } .unit
        (.crash "boom" : Program PostOffice (Except Error Unit)) fun _ =>
      .done (.ok () : Except Error Unit))
    fun _ => .done ()

theorem modeless_sink : outbox.sink.Modeless := (Sink.modeless_memory deliveriesPart).onSink faultsPart

theorem library_provider : ∀ i ∈ provider.interceptors, i.Library := by
  intro i hi
  simp only [provider, List.mem_cons, List.not_mem_nil, or_false] at hi
  rcases hi with rfl | rfl
  · exact .publishing outbox.sink modeless_sink
  · exact .counting statsPart

theorem switched_relay (outer inner outer' inner' : Bool) :
    (relay outer inner).Switched (relay outer' inner') := by
  refine .attempt _ _ _ _ (fun c => ?_) fun _ => .done _
  refine .call c ⟨outer', rfl⟩ .unit ?_ fun _ => ?_
  · refine .own (c.modeless_publish modeless_sink _) fun _ => ?_
    refine .attempt _ _ _ _ (fun d => ?_) fun _ => .done _
    refine .call d ⟨inner', rfl⟩ .unit ?_ fun _ => .crash _
    exact .own (d.modeless_publish modeless_sink _) fun _ => .done _
  · exact .call c ⟨inner', rfl⟩ .unit (.crash _) fun _ => .done _

/-- The world after the relay with all phases transactional. -/
def relayed : World PostOffice := ((relay true true).act provider).run fresh |>.2

theorem run_relayed : ((relay true true).act provider).run fresh = (.value (), relayed) :=
  Prod.ext (by decide +kernel) rfl

/-- Turns that are enough for two processes. -/
def laps : List Nat := (List.replicate 100 [0, 1]).flatten

/-- Two programs on one provider, side by side. -/
def pair (first second : Program PostOffice Unit) : Pool (World PostOffice) Unit :=
  Pool.play ⟨[first, second].map (·.act provider), fresh⟩ laps

/-- **An attempt that is overtaken by one of its own** delivers after that one and its phase is counted as
    raced, with its first phase outside of the transaction as with it inside.  Two of them in company race
    each other as well, in their last phases too, whichever of their phases are switched. -/
theorem modes_unseen_relay : (∃ switched,
      ((relay false true).act provider).run fresh = (.value (), switched) ∧
      (deliveriesPart.get switched.env).map (·.map (·.key)) = [["inner"], ["outer"]] ∧
      statsPart.get switched.env = { created := 2, closed := 2, started := 4, executed := 2, raced := 1 }) ∧
    ∀ last, last = pair (relay false true) (relay true false) →
      last.threads.map (·.outcome?) = [some (.value ()), some (.value ())] ∧
      (deliveriesPart.get last.state.env).map (·.map (·.key)) =
        [["inner"], ["inner"], ["outer"], ["outer"]] ∧
      statsPart.get last.state.env = { created := 4, closed := 4, started := 8, executed := 2, raced := 4 } := by
  have hclock : provider.clock.Modeless := .done _
  obtain ⟨halone, hcompany⟩ := Provider.modes_unseen rfl rfl hclock (.done .epoch) library_provider
    (rfl : fresh.modeless = fresh.modeless)
  constructor
  · obtain ⟨switched, hrun, henv, -⟩ := halone (switched_relay true true false true) run_relayed
    refine ⟨switched, hrun, ?_, ?_⟩
    · rw [← henv]
      decide +kernel
    · rw [← henv]
      decide +kernel
  · intro last hlast
    have hpairs : ∀ q ∈ [(relay true true, relay false true), (relay true true, relay true false)],
        q.1.Switched q.2 := by
      intro q hq
      simp only [List.mem_cons, List.not_mem_nil, or_false] at hq
      rcases hq with rfl | rfl <;> exact switched_relay _ _ _ _
    -- What is to be shown of the two is evaluated where all phases are transactional.
    have hsame : pair (relay true true) (relay true true) = Pool.play ⟨_, fresh⟩ laps := rfl
    obtain ⟨henv, -, houtcomes⟩ := hcompany hpairs laps hsame hlast
    rw [← henv, ← houtcomes]
    exact ⟨by decide +kernel, by decide +kernel, by decide +kernel⟩

end PostOffice

end Idempotence
