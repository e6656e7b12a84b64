/-
  Lockstep — processes that go in step.

  Two processes may come to the same end when each runs alone, and yet not be exchangeable in company, for
  others can tell when a step is made.  Processes IN STEP make their steps at the same time, and at each of
  them their states look alike.

  1. **In step** — `Process.InStep` says so by recursion on the process.  It is closed under everything that
     processes are built with, so two processes that are built alike from parts in step are in step.

  2. **Alone and in company** — processes in step come to the same end (`InStep.run`), and pools of them are
     in step under every schedule (`Pool.InStep.play`).
-/
import Idempotence.Proofs.Interleaving
import Idempotence.Proofs.RunEquivalence

namespace Idempotence

variable {σ τ α β : Type}

/-! ## In step -/

namespace Process

/-- How a process has ended, if it has. -/
def outcome? : Process σ α → Option (Outcome α)
  | done a => some (.value a)
  | crash m => some (.crashed m)
  | step _ _ => none

/-- **Processes in step**, as far as `V` shows: they end alike, or make a step each, after which they are in
    step again, from whatever states look alike. -/
def InStep (V : σ → τ) : Process σ α → Process σ α → Prop
  | done a, q => q = done a
  | crash m, q => q = crash m
  | step effect resume, q => ∃ effect' resume', q = step effect' resume' ∧
      ∀ s t, V s = V t → V (effect s) = V (effect' t) ∧ (resume s).InStep V (resume' t)

namespace InStep

variable {V : σ → τ}

theorem done (a : α) : InStep V (.done a : Process σ α) (.done a) := rfl

theorem crash (m : String) : InStep V (.crash m : Process σ α) (.crash m) := rfl

/-- A step on either side, and what comes after it. -/
theorem step {e e' : σ → σ} {k k' : σ → Process σ α}
    (h : ∀ s t, V s = V t → V (e s) = V (e' t) ∧ (k s).InStep V (k' t)) :
    InStep V (.step e k) (.step e' k') := ⟨e', k', rfl, h⟩

theorem look {f g : σ → α} (hfg : ∀ s t, V s = V t → f s = g t) :
    InStep V (Process.look f) (Process.look g) := by
  refine step fun s t h => ⟨h, ?_⟩
  rw [hfg s t h]
  exact done _

theorem change {f g : σ → σ} (hfg : ∀ s t, V s = V t → V (f s) = V (g t)) :
    InStep V (Process.change f) (Process.change g) := step fun s t h => ⟨hfg s t h, done ()⟩

theorem atomically {f g : σ → α × σ}
    (hfg : ∀ s t, V s = V t → (f s).1 = (g t).1 ∧ V (f s).2 = V (g t).2) :
    InStep V (Process.atomically f) (Process.atomically g) := by
  refine step fun s t h => ?_
  obtain ⟨hanswer, hview⟩ := hfg s t h
  refine ⟨hview, ?_⟩
  rw [hanswer]
  exact done _

/-- Going in step goes through sequencing. -/
theorem bind {p q : Process σ α} {f g : α → Process σ β} (hp : p.InStep V q)
    (hf : ∀ a, (f a).InStep V (g a)) : (p >>= f).InStep V (q >>= g) := by
  induction p generalizing q with
  | done a =>
    obtain rfl := hp
    exact hf a
  | crash m =>
    obtain rfl := hp
    exact crash m
  | step e k ih =>
    obtain ⟨e', k', rfl, hstep⟩ := hp
    refine step fun s t h => ?_
    obtain ⟨hview, hk⟩ := hstep s t h
    exact ⟨hview, ih s hk⟩

/-- A look may see what does not show, if what comes after it hides that again. -/
theorem look_bind {f : σ → α} {k k' : α → Process σ β}
    (h : ∀ s t, V s = V t → (k (f s)).InStep V (k' (f t))) :
    (Process.look f >>= k).InStep V (Process.look f >>= k') := step fun s t hst => ⟨hst, h s t hst⟩

/-- Going in step goes through what runs on the way out. -/
theorem onExit {p q : Process σ α} {last last' : Process σ Unit} (hp : p.InStep V q)
    (hlast : last.InStep V last') : (p.onExit last).InStep V (q.onExit last') := by
  induction p generalizing q with
  | done a =>
    obtain rfl := hp
    exact bind hlast fun _ => done a
  | crash m =>
    obtain rfl := hp
    exact bind hlast fun _ => crash m
  | step e k ih =>
    obtain ⟨e', k', rfl, hstep⟩ := hp
    refine step fun s t h => ?_
    obtain ⟨hview, hk⟩ := hstep s t h
    exact ⟨hview, ih s hk⟩

/-- Going in step goes through what runs on a crash. -/
theorem onCrash {p q : Process σ α} {last last' : Process σ Unit} (hp : p.InStep V q)
    (hlast : last.InStep V last') : (p.onCrash last).InStep V (q.onCrash last') := by
  induction p generalizing q with
  | done a =>
    obtain rfl := hp
    exact done a
  | crash m =>
    obtain rfl := hp
    exact bind hlast fun _ => crash m
  | step e k ih =>
    obtain ⟨e', k', rfl, hstep⟩ := hp
    refine step fun s t h => ?_
    obtain ⟨hview, hk⟩ := hstep s t h
    exact ⟨hview, ih s hk⟩

/-- Going in step goes through catching crashes. -/
theorem caught {p q : Process σ α} (hp : p.InStep V q) : p.caught.InStep V q.caught := by
  induction p generalizing q with
  | done a =>
    obtain rfl := hp
    exact done _
  | crash m =>
    obtain rfl := hp
    exact done _
  | step e k ih =>
    obtain ⟨e', k', rfl, hstep⟩ := hp
    refine step fun s t h => ?_
    obtain ⟨hview, hk⟩ := hstep s t h
    exact ⟨hview, ih s hk⟩

/-! ## Alone and in company -/

/-- **Alone**, two processes in step come to the same end. -/
theorem run {p q : Process σ α} (hp : p.InStep V q) {s t : σ} (h : V s = V t) :
    (p.run s).1 = (q.run t).1 ∧ V (p.run s).2 = V (q.run t).2 := by
  induction p generalizing q s t with
  | done a =>
    obtain rfl := hp
    exact ⟨rfl, h⟩
  | crash m =>
    obtain rfl := hp
    exact ⟨rfl, h⟩
  | step e k ih =>
    obtain ⟨e', k', rfl, hstep⟩ := hp
    obtain ⟨hview, hk⟩ := hstep s t h
    exact ih s hk hview

/-- Where one has ended, so has the other, and alike. -/
theorem outcome?_eq {p q : Process σ α} (hp : p.InStep V q) : p.outcome? = q.outcome? := by
  cases p with
  | done a =>
    obtain rfl := hp
    rfl
  | crash m =>
    obtain rfl := hp
    rfl
  | step e k =>
    obtain ⟨e', k', rfl, -⟩ := hp
    rfl

end InStep

end Process

/-- **Pools in step**: their states look alike, and so do their processes, each beside its like. -/
structure Pool.InStep (V : σ → τ) (pool pool' : Pool σ α) : Prop where
  state : V pool.state = V pool'.state
  threads : ∀ i : Nat, (pool.threads[i]? = none ∧ pool'.threads[i]? = none) ∨
    ∃ p q, pool.threads[i]? = some p ∧ pool'.threads[i]? = some q ∧ p.InStep V q

namespace Pool.InStep

variable {V : σ → τ} {pool pool' : Pool σ α}

/-- **One turn** leaves pools in step. -/
theorem advance (h : pool.InStep V pool') (i : Nat) : (pool.advance i).InStep V (pool'.advance i) := by
  rcases h.threads i with ⟨hnone, hnone'⟩ | ⟨p, q, hp, hq, hpq⟩
  · unfold Pool.advance
    rw [hnone, hnone']
    exact h
  · cases p with
    | done a =>
      obtain rfl := hpq
      unfold Pool.advance
      rw [hp, hq]
      exact h
    | crash m =>
      obtain rfl := hpq
      unfold Pool.advance
      rw [hp, hq]
      exact h
    | step e k =>
      obtain ⟨e', k', rfl, hstep⟩ := hpq
      obtain ⟨hview, hk⟩ := hstep _ _ h.state
      unfold Pool.advance
      rw [hp, hq]
      refine ⟨hview, fun j => ?_⟩
      by_cases hij : i = j
      · subst hij
        have hlt : i < pool.threads.length := (List.getElem?_eq_some_iff.1 hp).1
        have hlt' : i < pool'.threads.length := (List.getElem?_eq_some_iff.1 hq).1
        exact .inr ⟨_, _, List.getElem?_set_self hlt, List.getElem?_set_self hlt', hk⟩
      · simp only [List.getElem?_set_ne hij]
        exact h.threads j

/-- **In company**, under any schedule, pools stay in step. -/
theorem play (h : pool.InStep V pool') (schedule : List Nat) :
    (pool.play schedule).InStep V (pool'.play schedule) := by
  induction schedule generalizing pool pool' with
  | nil => exact h
  | cons i rest ih => exact ih (h.advance i)

/-- Each process has ended where its like has, and alike. -/
theorem outcomes_eq (h : pool.InStep V pool') :
    pool.threads.map (·.outcome?) = pool'.threads.map (·.outcome?) := by
  refine List.ext_getElem? fun i => ?_
  rw [List.getElem?_map, List.getElem?_map]
  rcases h.threads i with ⟨hnone, hnone'⟩ | ⟨p, q, hp, hq, hpq⟩
  · rw [hnone, hnone']
  · rw [hp, hq]
    exact congrArg some hpq.outcome?_eq

end Pool.InStep

end Idempotence
