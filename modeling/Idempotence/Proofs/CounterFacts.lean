/-
  Facts about counters — what the counters of a provider have to do with its contexts, its phases and its records.

  The counters change in hooks and around executions, one step at a time, so they never agree with the rest
  of the world in the midst of an operation.  What can be said there is what they OWE.

  1. **Bringing about** — `Process.Brings` says from where to where a process goes, if it answers and if it
     crashes.

  2. **Facts** — all that the counters are about is read off the world at once (`Books.facts`): the counters
     themselves, which contexts are closed and known to how many extensions, how many records there are, and
     a tally of bodies that are running or have crashed.

  3. **Extensions at hand** — one of them counts and the others record; an open context counts as far as it
     is known (`told`).

  4. **Debts** — the facts are EVEN, up to a debt, if the counters account for the rest (`Facts.Even`); they
     are SETTLED if beside that all open contexts are known to all extensions.  Each thing that happens to
     the facts adds to a debt or takes from it: a phase that reaches the counters and its outcome, a record
     that is made, a context that is made, learnt of and closed.
-/
import Idempotence.Proofs.PhaseCalls
import Idempotence.Stats
import Idempotence.Testing.Recording

namespace Idempotence

variable {σ ε α β γ κ : Type}

/-! ## Bringing about -/

namespace Process

/-- **From where to where a process goes**: from `P` to `Q` with an answer, or to `C` by a crash. -/
def Brings (P : σ → Prop) (Q : α → σ → Prop) (C : σ → Prop) (p : Process σ α) : Prop :=
  ∀ s, P s → match p.run s with
    | (.value a, t) => Q a t
    | (.crashed _, t) => C t

namespace Brings

variable {P : σ → Prop} {Q R : α → σ → Prop} {C : σ → Prop}

theorem done {a : α} (h : ∀ s, P s → Q a s) : Brings P Q C (.done a) := h

theorem crash {m : String} (h : ∀ s, P s → C s) : Brings P Q C (.crash m) := h

theorem atomically {f : σ → α × σ} (h : ∀ s, P s → Q (f s).1 (f s).2) : Brings P Q C (Process.atomically f) := h

theorem look {f : σ → α} (h : ∀ s, P s → Q (f s) s) : Brings P Q C (Process.look f) := h

theorem change {f : σ → σ} {Q : Unit → σ → Prop} (h : ∀ s, P s → Q () (f s)) :
    Brings P Q C (Process.change f) := h

theorem mono {p : Process σ α} {P' : σ → Prop} {Q' : α → σ → Prop} {C' : σ → Prop} (h : Brings P Q C p)
    (hP : ∀ s, P' s → P s) (hQ : ∀ a s, Q a s → Q' a s) (hC : ∀ s, C s → C' s) : Brings P' Q' C' p := by
  intro s hs
  have hrun := h s (hP s hs)
  revert hrun
  rcases p.run s with ⟨o, t⟩
  cases o with
  | value a => exact hQ a t
  | crashed m => exact hC t

/-- Where one process leads from is where the one before it led to. -/
theorem bind {p : Process σ α} {f : α → Process σ β} {Q' : β → σ → Prop} (hp : Brings P Q C p)
    (hf : ∀ a, Brings (Q a) Q' C (f a)) : Brings P Q' C (p >>= f) := by
  intro s hs
  have hrun := hp s hs
  rw [run_bind]
  revert hrun
  rcases p.run s with ⟨o, t⟩
  cases o with
  | value a => exact hf a t
  | crashed m => exact id

/-- What is caught leads to where its answer leads or where its crash does. -/
theorem caught {p : Process σ α} (hp : Brings P Q C p) :
    Brings P (fun o s => match o with | .value a => Q a s | .crashed _ => C s) (fun _ => False) p.caught := by
  intro s hs
  have hrun := hp s hs
  rw [run_caught]
  revert hrun
  rcases p.run s with ⟨o, t⟩
  cases o <;> exact id

/-- What is caught leads on to where both of its ends lead. -/
theorem caught_either {p : Process σ α} {Q D : σ → Prop} (hp : Brings P (fun _ => Q) Q p) :
    Brings P (fun _ => Q) D p.caught :=
  hp.caught.mono (fun _ hs => hs) (fun o _ hs => by cases o <;> exact hs) fun _ => False.elim

/-- What runs on the way out runs behind an answer and behind a crash. -/
theorem onExit {p : Process σ α} {last : Process σ Unit} {D : σ → Prop} (hp : Brings P R D p)
    (hvalue : ∀ a, Brings (R a) (fun _ => Q a) C last) (hcrash : Brings D (fun _ => C) C last) :
    Brings P Q C (p.onExit last) := by
  intro s hs
  have hrun := hp s hs
  rw [run_onExit]
  revert hrun
  rcases p.run s with ⟨o, t⟩
  cases o with
  | value a =>
    intro ht
    have hlast := hvalue a t ht
    revert hlast
    dsimp only
    rcases last.run t with ⟨o', u⟩
    cases o' <;> exact id
  | crashed m =>
    intro ht
    have hlast := hcrash t ht
    revert hlast
    dsimp only
    rcases last.run t with ⟨o', u⟩
    cases o' <;> exact id

/-- What runs on a crash runs behind a crash only. -/
theorem onCrash {p : Process σ α} {last : Process σ Unit} {D : σ → Prop} (hp : Brings P Q D p)
    (hcrash : Brings D (fun _ => C) C last) : Brings P Q C (p.onCrash last) := by
  intro s hs
  have hrun := hp s hs
  rw [run_onCrash]
  revert hrun
  rcases p.run s with ⟨o, t⟩
  cases o with
  | value a => exact id
  | crashed m =>
    intro ht
    have hlast := hcrash t ht
    revert hlast
    dsimp only
    rcases last.run t with ⟨o', u⟩
    cases o' <;> exact id

/-- A condition of the start that speaks of no state is known throughout. -/
theorem knowing {p : Process σ α} {H : Prop} (h : H → Brings P Q C p) : Brings (fun s => H ∧ P s) Q C p :=
  fun s hs => h hs.1 s hs.2

/-- What is brought about from each of several starts is brought about from some one of them. -/
theorem given {p : Process σ α} {ι : Type} {P : ι → σ → Prop} (h : ∀ i, Brings (P i) Q C p) :
    Brings (fun s => ∃ i, P i s) Q C p :=
  fun s ⟨i, hs⟩ => h i s hs

/-- What every single step keeps is kept however a process ends. -/
theorem of_steps {p : Process σ α} {S : σ → σ → Prop} (hp : p.Steps S) (hS : ∀ s t, S s t → P s → P t) :
    Brings P (fun _ => P) P p := by
  intro s hs
  induction p generalizing s with
  | done a => exact hs
  | crash m => exact hs
  | step e k ih => exact ih s (hp.2 s) (e s) (hS _ _ (hp.1 s) hs)

end Brings

end Process

/-! ## Facts -/

/-- **What is seen at a moment.** -/
structure Glimpse where
  stats : Stats
  /-- Contexts that are open. -/
  opened : Nat
  /-- Phases whose body is running. -/
  inFlight : Nat
  /-- Phases whose body has crashed. -/
  panicked : Nat
  records : Nat
  /-- How many records more or less there are by what was not done through the provider. -/
  elsewhere : Int
  deriving DecidableEq, Repr

/-- **The counters add up**, if there were that many records to begin with. -/
structure Glimpse.AddsUp (base : Nat) (g : Glimpse) : Prop where
  contexts : g.stats.created = g.stats.closed + g.opened
  phases : g.stats.started = g.stats.executed + g.stats.replayed + g.stats.raced + g.stats.failed +
    g.inFlight + g.panicked
  records : (g.records : Int) = base + g.stats.executed + g.elsewhere

/-- **What is tallied beside the counters**, and what has been seen so far. -/
structure Tally where
  running : Nat := 0
  panicked : Nat := 0
  elsewhere : Int := 0
  seen : List Glimpse := []

/-- How a context stands: whether it is closed, and how many extensions have learnt of it. -/
structure Standing where
  closed : Bool := false
  notified : Nat := 0
  deriving DecidableEq

def ContextState.standing (s : ContextState) : Standing := ⟨s.closed, s.notified⟩

/-- **All that the counters are about.** -/
structure Facts where
  stats : Stats
  tally : Tally
  records : Nat
  contexts : List Standing

/-- **Parts that can be changed in any order.** -/
def Part.Commute (p : Part ε α) (q : Part ε β) : Prop := ∀ a b e, p.set a (q.set b e) = q.set b (p.set a e)

namespace Part.Commute

variable {p : Part ε α} {q : Part ε β} (h : p.Commute q)
include h

/-- A part does not see a change of one it commutes with. -/
theorem get_set (b : β) (e : ε) : p.get (q.set b e) = p.get e := by
  -- The one part is set to what it is already, before the other is set and not after it.
  have hset : q.set b e = p.set (p.get e) (q.set b e) := by rw [h, p.set_get]
  rw [hset, p.get_set]

theorem symm : q.Commute p := fun b a e => (h a b e).symm

end Part.Commute

/-- **Where things are kept**: the counters, the log of those who record, the tally, and the number of
    records.  Neither is touched by a change of another. -/
structure Books (ε : Type) where
  stats : Part ε Stats
  log : Part ε CallLog
  tally : Part ε Tally
  count : ε → Nat
  stats_tally : stats.Commute tally
  log_stats : log.Commute stats
  log_tally : log.Commute tally
  count_stats : ∀ s e, count (stats.set s e) = count e
  count_tally : ∀ t e, count (tally.set t e) = count e
  count_log : ∀ l e, count (log.set l e) = count e

/-- What may be seen of the facts at a moment. -/
def Facts.glimpse (f : Facts) : Glimpse where
  stats := f.stats
  opened := (f.contexts.filter fun s => !s.closed).length
  inFlight := f.tally.running
  panicked := f.tally.panicked
  records := f.records
  elsewhere := f.tally.elsewhere

namespace Books

variable (B : Books ε)

/-- The facts in a world. -/
def facts (w : World ε) : Facts where
  stats := B.stats.get w.env
  tally := B.tally.get w.env
  records := B.count w.env
  contexts := w.contexts.map (·.standing)

/-- Where the facts are such. -/
def At (X : Facts → Prop) (w : World ε) : Prop := X (B.facts w)

/-- The facts are left as they are. -/
def Same (w w' : World ε) : Prop := B.facts w' = B.facts w

theorem facts_stats (s : Stats) (w : World ε) :
    B.facts { w with env := B.stats.set s w.env } = { B.facts w with stats := s } := by
  simp only [facts, B.stats.get_set, B.stats_tally.symm.get_set, B.count_stats]

theorem facts_tally (t : Tally) (w : World ε) :
    B.facts { w with env := B.tally.set t w.env } = { B.facts w with tally := t } := by
  simp only [facts, B.tally.get_set, B.stats_tally.get_set, B.count_tally]

theorem same_log (l : CallLog) (w : World ε) : B.Same w { w with env := B.log.set l w.env } := by
  simp only [Same, facts, B.log_stats.symm.get_set, B.log_tally.symm.get_set, B.count_log]

/-- What changes of a context stands with the other facts. -/
theorem facts_modifyContext {f : ContextState → ContextState} {g : Standing → Standing}
    (hfg : ∀ s, (f s).standing = g s.standing) (id : Nat) (w : World ε) :
    B.facts (w.modifyContext id f) = { B.facts w with contexts := (B.facts w).contexts.modify id g } :=
  congrArg (fun contexts => { B.facts w with contexts }) (w.see_modifyContext ContextState.standing hfg id)

/-- A change of a context that does not matter here. -/
theorem same_modifyContext {f : ContextState → ContextState} {w : World ε} {id : Nat}
    (hf : (f (w.context id)).standing = (w.context id).standing) : B.Same w (w.modifyContext id f) :=
  congrArg (Facts.mk (B.stats.get w.env) (B.tally.get w.env) (B.count w.env))
    (World.see_modifyContext_same ContextState.standing hf)

/-- How a context stands. -/
theorem standing_context (w : World ε) (id : Nat) :
    (w.context id).standing = (B.facts w).contexts.getD id {} :=
  w.see_context ContextState.standing id

end Books

/-! ## Extensions at hand -/

/-- **An extension at hand**: the one that counts, or one that records. -/
inductive Fixture where
  | counting
  | recording (r : Recorder)

namespace Fixture

def interceptor (B : Books ε) : Fixture → Interceptor ε
  | counting => Stats.interceptor B.stats
  | recording r => r.interceptor B.log

/-- How much a context counts that is known to these extensions. -/
def weight : List Fixture → Nat
  | [] => 0
  | counting :: rest => weight rest + 1
  | recording _ :: rest => weight rest

@[simp] theorem weight_append (l m : List Fixture) : weight (l ++ m) = weight l + weight m := by
  induction l with
  | nil => simp [weight]
  | cons i l ih =>
    cases i with
    | counting =>
      simp only [List.cons_append, weight, ih]
      omega
    | recording r => simp [weight, ih]

@[simp] theorem weight_reverse (l : List Fixture) : weight l.reverse = weight l := by
  induction l with
  | nil => rfl
  | cons i l ih => cases i <;> simp [weight, ih]

theorem weight_recording (l : List Recorder) : weight (l.map recording) = 0 := by
  induction l with
  | nil => rfl
  | cons r l ih => exact ih

end Fixture

open Fixture

/-- How much a context counts that stands so. -/
def Standing.weight (fixtures : List Fixture) (s : Standing) : Nat :=
  if s.closed then 0 else Fixture.weight (fixtures.take s.notified)

/-- Whether a context is closed or known to all extensions. -/
def Standing.Known (fixtures : List Fixture) (s : Standing) : Prop :=
  s.closed = false → s.notified = fixtures.length

/-- How much all contexts count. -/
def told (fixtures : List Fixture) : List Standing → Nat
  | [] => 0
  | s :: rest => s.weight fixtures + told fixtures rest

section

variable {fixtures : List Fixture} {contexts : List Standing}

theorem told_append (l m : List Standing) : told fixtures (l ++ m) = told fixtures l + told fixtures m := by
  induction l with
  | nil => exact (Nat.zero_add _).symm
  | cons s rest ih => rw [List.cons_append, told, told, ih, Nat.add_assoc]

/-- **Closing a context** takes away what it counts. -/
theorem told_close {id : Nat} (hopen : (contexts.getD id {}).closed = false) :
    told fixtures contexts = told fixtures (contexts.modify id fun s => { s with closed := true }) +
      weight (fixtures.take (contexts.getD id {}).notified) := by
  induction contexts generalizing id with
  | nil => simp [told, weight]
  | cons s rest ih =>
    cases id with
    | zero =>
      have hs : s.closed = false := hopen
      simp [told, Standing.weight, hs, Nat.add_comm]
    | succ id =>
      have hrest := @ih id hopen
      simp only [told, List.modify_succ_cons, List.getD_cons_succ] at hrest ⊢
      omega

/-- Where all open contexts are known to all extensions, it is they who count. -/
theorem told_known (h : ∀ s ∈ contexts, s.Known fixtures) :
    told fixtures contexts = weight fixtures * (contexts.filter fun s => !s.closed).length := by
  induction contexts with
  | nil => rfl
  | cons s rest ih =>
    obtain ⟨hs, hrest⟩ := List.forall_mem_cons.1 h
    rw [told, ih hrest]
    cases hclosed : s.closed with
    | true => simp [Standing.weight, hclosed]
    | false => simp [Standing.weight, hclosed, hs hclosed, Nat.mul_add, Nat.add_comm]

end

/-- What is owed in the midst of an operation. -/
structure Debt where
  contexts : Nat := 0
  phases : Nat := 0
  records : Nat := 0

namespace Facts

variable (fixtures : List Fixture) (base running : Nat)

/-- **The counters account for the rest**, up to what is owed, with that many bodies running. -/
structure Even (debt : Debt) (f : Facts) : Prop where
  contexts : f.stats.created = f.stats.closed + told fixtures f.contexts + debt.contexts
  phases : f.stats.started = f.stats.executed + f.stats.replayed + f.stats.raced + f.stats.failed + running +
    f.tally.panicked + debt.phases
  records : (f.records : Int) = base + f.stats.executed + f.tally.elsewhere + debt.records
  running : f.tally.running = running
  seen : ∀ g ∈ f.tally.seen, g.AddsUp base

/-- **Settled**: all is even, and all open contexts are known to all extensions. -/
structure Settled (debt : Debt) (f : Facts) : Prop extends f.Even fixtures base running debt where
  known : ∀ s ∈ f.contexts, s.Known fixtures

/-- **Settled but for one context**: all is even, and all other open contexts are known to all extensions. -/
structure SettledBut (id : Nat) (f : Facts) : Prop extends f.Even fixtures base running {} where
  known : ∀ j s, f.contexts[j]? = some s → j = id ∨ s.Known fixtures

/-- **Settled but for the newest context**, which so many extensions have learnt of. -/
structure Starting (id notified : Nat) (debt : Debt) (f : Facts) : Prop
    extends f.Even fixtures base running debt where
  newest : ∃ others, f.contexts = others ++ [⟨false, notified⟩] ∧ others.length = id ∧
    ∀ s ∈ others, s.Known fixtures

/-- The facts when there is one more record. -/
def recorded (f : Facts) : Facts := { f with records := f.records + 1 }

/-- Where the facts are after an execution: recorded, or as they were. -/
def afterwards (D R : Facts → Prop) : Except Error PhaseOutput → Facts → Prop
  | .ok (.executed _) => R
  | _ => D

section

variable {fixtures base running} {f : Facts}

/-! ### Phases -/

/-- A phase that has reached the counters is owed its outcome. -/
theorem Settled.begun (h : f.Settled fixtures base running {}) :
    { f with stats := { f.stats with started := f.stats.started + 1 } }.Settled fixtures base running
      { phases := 1 } where
  contexts := h.contexts
  phases := congrArg (· + 1) h.phases
  records := h.records
  running := h.running
  seen := h.seen
  known := h.known

/-- A record that is made for a phase is owed together with the phase. -/
theorem Settled.recorded (h : f.Settled fixtures base running { phases := 1 }) :
    f.recorded.Settled fixtures base running { phases := 1, records := 1 } where
  contexts := h.contexts
  phases := h.phases
  records := by
    have hrecords := h.records
    simp only [Facts.recorded] at hrecords ⊢
    push_cast at hrecords ⊢
    omega
  running := h.running
  seen := h.seen
  known := h.known

/-- Counting the outcome of a phase settles what is owed for it. -/
theorem Settled.counted {answer : Except Error PhaseOutput}
    (h : afterwards (Settled fixtures base running { phases := 1 })
      (Settled fixtures base running { phases := 1, records := 1 }) answer f) :
    { f with stats := f.stats.count answer }.Settled fixtures base running {} := by
  cases answer with
  | error e =>
    have hphases := h.phases
    refine { h with phases := ?_ }
    simp only [Stats.count] at hphases ⊢
    omega
  | ok output =>
    cases output with
    | executed data =>
      have hphases := h.phases
      have hrecords := h.records
      refine { h with phases := ?_, records := ?_ }
      · simp only [Stats.count] at hphases ⊢
        omega
      · simp only [Stats.count] at hrecords ⊢
        push_cast at hrecords ⊢
        omega
    | stored data =>
      have hphases := h.phases
      refine { h with phases := ?_ }
      simp only [Stats.count] at hphases ⊢
      omega
    | concurrent data =>
      have hphases := h.phases
      refine { h with phases := ?_ }
      simp only [Stats.count] at hphases ⊢
      omega

/-! ### Contexts -/

theorem Settled.but (h : f.Settled fixtures base running {}) (id : Nat) :
    f.SettledBut fixtures base running id where
  toEven := h.toEven
  known _ s hs := .inr (h.known s (List.mem_of_getElem? hs))

/-- Once the one context is closed, all are as they should be. -/
theorem SettledBut.settled {id : Nat} (h : f.SettledBut fixtures base running id)
    (hclosed : (f.contexts.getD id {}).closed = true) : f.Settled fixtures base running {} where
  toEven := h.toEven
  known s hs := by
    obtain ⟨j, hj⟩ := List.mem_iff_getElem?.1 hs
    rcases h.known j s hj with rfl | hknown
    · rw [List.getD_eq_getElem?_getD, hj] at hclosed
      exact fun hopen => absurd hclosed (by simp [hopen])
    · exact hknown

/-- **A context that is being closed** is owed as far as it had been counted. -/
theorem SettledBut.closing {id : Nat} (h : f.SettledBut fixtures base running id)
    (hopen : (f.contexts.getD id {}).closed = false) :
    { f with contexts := f.contexts.modify id fun s => { s with closed := true } }.Settled fixtures base running
      { contexts := weight (fixtures.take (f.contexts.getD id {}).notified) } where
  contexts := by
    have hcontexts := h.contexts
    rw [told_close hopen] at hcontexts
    simp only at hcontexts ⊢
    omega
  phases := h.phases
  records := h.records
  running := h.running
  seen := h.seen
  known s hs := by
    obtain ⟨j, hj⟩ := List.mem_iff_getElem?.1 hs
    rw [List.getElem?_modify] at hj
    obtain ⟨t, ht, rfl⟩ := Option.map_eq_some_iff.1 hj
    by_cases hid : id = j
    · rw [if_pos hid]
      exact fun hfalse => absurd hfalse (by simp)
    · rw [if_neg hid]
      exact (h.known j t ht).resolve_left fun hj' => hid hj'.symm

/-- The closing of a context is counted. -/
theorem Settled.closed {n : Nat} (h : f.Settled fixtures base running { contexts := n + 1 }) :
    { f with stats := { f.stats with closed := f.stats.closed + 1 } }.Settled fixtures base running
      { contexts := n } where
  contexts := by
    have hcontexts := h.contexts
    simp only at hcontexts ⊢
    omega
  phases := h.phases
  records := h.records
  running := h.running
  seen := h.seen
  known := h.known

/-- **A context that has just been made.** -/
theorem Settled.starting (h : f.Settled fixtures base running {}) :
    { f with contexts := f.contexts ++ [(⟨false, 0⟩ : Standing)] }.Starting fixtures base running
      f.contexts.length 0 {} where
  contexts := by
    have hcontexts := h.contexts
    simpa [told_append, told, Standing.weight, weight] using hcontexts
  phases := h.phases
  records := h.records
  running := h.running
  seen := h.seen
  newest := ⟨f.contexts, rfl, rfl, h.known⟩

/-- A context that has been opened is counted. -/
theorem Starting.created {id n : Nat} (h : f.Starting fixtures base running id n {}) :
    { f with stats := { f.stats with created := f.stats.created + 1 } }.Starting fixtures base running id n
      { contexts := 1 } where
  contexts := congrArg (· + 1) h.contexts
  phases := h.phases
  records := h.records
  running := h.running
  seen := h.seen
  newest := h.newest

/-- One more extension knows of the context that is being opened. -/
theorem Starting.learnt {before rest : List Fixture} {i : Fixture} {id : Nat}
    (h : f.Starting (before ++ i :: rest) base running id before.length { contexts := weight [i] }) :
    { f with contexts := f.contexts.modify id fun s => { s with notified := s.notified + 1 } }.Starting
      (before ++ i :: rest) base running id (before ++ [i]).length {} := by
  obtain ⟨others, hcontexts, rfl, hknown⟩ := h.newest
  have hnext : f.contexts.modify others.length (fun s => { s with notified := s.notified + 1 }) =
      others ++ [⟨false, (before ++ [i]).length⟩] := by
    refine List.ext_getElem? fun j => ?_
    rw [hcontexts, List.getElem?_modify]
    rcases Nat.lt_trichotomy j others.length with hj | rfl | hj
    · simp [List.getElem?_append_left hj, Nat.ne_of_gt hj]
    · simp
    · have hout : ∀ s : Standing, (others ++ [s])[j]? = none := by
        intro s
        refine List.getElem?_eq_none ?_
        rw [List.length_append]
        exact hj
      rw [hout, hout]
      rfl
  have htake : (before ++ i :: rest).take (before ++ [i]).length = before ++ [i] := by
    rw [List.append_cons before i rest, List.take_left']
    rfl
  have heven := h.contexts
  refine { h with contexts := ?_, newest := ⟨others, hnext, rfl, hknown⟩ }
  simp only [hnext]
  simp only [hcontexts, told_append, told, Standing.weight, htake, List.take_left', weight_append] at heven ⊢
  simp at heven ⊢
  omega

theorem Starting.but {id n : Nat} (h : f.Starting fixtures base running id n {}) :
    f.SettledBut fixtures base running id where
  toEven := h.toEven
  known j s hs := by
    obtain ⟨others, hcontexts, rfl, hknown⟩ := h.newest
    rw [hcontexts] at hs
    rcases Nat.lt_trichotomy j others.length with hj | hj | hj
    · rw [List.getElem?_append_left hj] at hs
      exact .inr (hknown s (List.mem_of_getElem? hs))
    · exact .inl hj
    · rw [List.getElem?_eq_none (by simp; omega)] at hs
      cases hs

/-- **When all extensions know of a new context**, all is as it should be. -/
theorem Starting.settled {id : Nat} (h : f.Starting fixtures base running id fixtures.length {}) :
    f.Settled fixtures base running {} where
  toEven := h.toEven
  known s hs := by
    obtain ⟨others, hcontexts, -, hknown⟩ := h.newest
    rw [hcontexts] at hs
    rcases List.mem_append.1 hs with hold | hnew
    · exact hknown s hold
    · rw [List.mem_singleton.1 hnew]
      exact fun _ => rfl

end

end Facts

end Idempotence
