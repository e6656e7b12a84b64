/-
  Interleaving — what can be said of a process while others run beside it.

  1. **Pools** — a pool is a list of processes over one state, and a SCHEDULE says whose turn it is.
     A turn is one atomic step, so between two steps of one process any steps of the others may
     come; a process that has ended lets its turns pass.  Every interleaving of the processes is
     `Pool.play` under some schedule, and every moment of it is a schedule cut short.

  2. **Treaties** — what the processes promise one another.  Process `i` RELIES on whatever the
     others may do between its steps and GUARANTEES something of each of its own.  What a treaty
     speaks of may be more than the state: `view` forgets the rest, which no process can read and
     which says whose doing the present state is.

  3. **The crux** (`Treaty.play`) — if every process keeps its side whatever the others do within
     the treaty, then all of them keep it together, under every schedule.  `Treaty.Meets` says the
     first by recursion on the process, one step at a time, and so needs no schedule.
-/
import Idempotence.Process

namespace Idempotence

variable {σ τ α β : Type}

/-! ## Pools -/

/-- **Processes side by side** over one state. -/
structure Pool (σ α : Type) where
  threads : List (Process σ α)
  state : σ

namespace Pool

/-- One turn of the `i`-th process. -/
def advance (pool : Pool σ α) (i : Nat) : Pool σ α :=
  match pool.threads[i]? with
  | some (.step effect resume) =>
    ⟨pool.threads.set i (resume pool.state), effect pool.state⟩
  | _ => pool

/-- **The pool after the turns of a schedule.** -/
def play (pool : Pool σ α) (schedule : List Nat) : Pool σ α := schedule.foldl advance pool

/-- A turn is a step of a process, or nothing. -/
theorem advance_cases (pool : Pool σ α) (i : Nat) :
    pool.advance i = pool ∨ ∃ e k, pool.threads[i]? = some (.step e k) ∧
      pool.advance i = ⟨pool.threads.set i (k pool.state), e pool.state⟩ := by
  unfold advance
  split
  · next e k h => exact .inr ⟨e, k, h, rfl⟩
  · exact .inl rfl

/-- A turn adds no process to a pool and takes none out. -/
@[simp] theorem length_advance (pool : Pool σ α) (i : Nat) :
    (pool.advance i).threads.length = pool.threads.length := by
  unfold advance
  split
  · exact List.length_set
  · rfl

end Pool

/-! ## Treaties -/

/-- **What processes promise one another.**  A process is meant by its place in the pool. -/
structure Treaty (σ τ : Type) where
  view : τ → σ
  /-- What holds between any two steps. -/
  inv : τ → Prop
  /-- What the others may do between two steps of a process. -/
  rely : Nat → τ → τ → Prop
  /-- What a process may do in one step. -/
  guar : Nat → τ → τ → Prop
  rely_refl : ∀ i t, rely i t t
  rely_trans : ∀ {i t u v}, rely i t u → rely i u v → rely i t v
  /-- Looking is always allowed. -/
  guar_refl : ∀ i t, guar i t t
  inv_guar : ∀ {i t u}, inv t → guar i t u → inv u
  /-- What one process does is what the others are prepared for. -/
  rely_guar : ∀ {i j t u}, i ≠ j → inv t → guar i t u → rely j t u

namespace Treaty

variable (T : Treaty σ τ) (i : Nat)

/-- **The process keeps its side of the treaty** from `t` on, does not crash, and answers as `post`
    says, whatever happens between its steps. -/
def Meets (post : α → τ → Prop) : Process σ α → τ → Prop
  | .done a, t => ∀ u, T.rely i t u → T.inv u → post a u
  | .crash _, t => ∀ u, T.rely i t u → ¬ T.inv u
  | .step effect resume, t => ∀ u, T.rely i t u → T.inv u →
      ∃ v, T.view v = effect (T.view u) ∧ T.guar i u v ∧ Meets post (resume (T.view u)) v

variable {T i}

/-- What others do meanwhile changes nothing. -/
theorem Meets.later {post : α → τ → Prop} {p : Process σ α} {t u : τ} (h : T.Meets i post p t)
    (htu : T.rely i t u) : T.Meets i post p u := by
  cases p with
  | done a => exact fun v huv => h v (T.rely_trans htu huv)
  | crash m => exact fun v huv => h v (T.rely_trans htu huv)
  | step e k => exact fun v huv => h v (T.rely_trans htu huv)

/-- The promise need only be given for what others can have made of the state. -/
theorem Meets.of_later {post : α → τ → Prop} {p : Process σ α} {t : τ}
    (h : ∀ u, T.rely i t u → T.inv u → T.Meets i post p u) : T.Meets i post p t := by
  cases p with
  | done a => exact fun u htu hu => h u htu hu u (T.rely_refl i u) hu
  | crash m => exact fun u htu hu => h u htu hu u (T.rely_refl i u) hu
  | step e k => exact fun u htu hu => h u htu hu u (T.rely_refl i u) hu

theorem Meets.weaken {post post' : α → τ → Prop} {p : Process σ α} {t : τ}
    (h : T.Meets i post p t) (himp : ∀ a u, post a u → post' a u) : T.Meets i post' p t := by
  induction p generalizing t with
  | done a => exact fun u htu hu => himp a u (h u htu hu)
  | crash m => exact h
  | step e k ih =>
    intro u htu hu
    obtain ⟨v, hv, hg, hk⟩ := h u htu hu
    exact ⟨v, hv, hg, ih _ hk⟩

/-- Meeting a treaty goes through sequencing. -/
theorem Meets.bind {post : β → τ → Prop} {p : Process σ α} {f : α → Process σ β} {t : τ}
    (h : T.Meets i (fun a u => T.Meets i post (f a) u) p t) : T.Meets i post (p >>= f) t := by
  induction p generalizing t with
  | done a => exact Meets.of_later h
  | crash m => exact h
  | step e k ih =>
    intro u htu hu
    obtain ⟨v, hv, hg, hk⟩ := h u htu hu
    exact ⟨v, hv, hg, ih _ hk⟩

/-! ## Single steps -/

/-- A look meets a treaty if what comes after it does. -/
theorem meets_look {post : β → τ → Prop} {f : σ → α} {k : α → Process σ β} {t : τ}
    (h : ∀ u, T.rely i t u → T.inv u → T.Meets i post (k (f (T.view u))) u) :
    T.Meets i post (Process.look f >>= k) t :=
  fun u htu hu => ⟨u, rfl, T.guar_refl i u, h u htu hu⟩

/-- A step that changes the state must be one the others are prepared for. -/
theorem meets_change {post : β → τ → Prop} {f : σ → σ} {k : Unit → Process σ β} {t : τ}
    (h : ∀ u, T.rely i t u → T.inv u → ∃ v, T.view v = f (T.view u) ∧ T.guar i u v ∧
      T.Meets i post (k ()) v) :
    T.Meets i post (Process.change f >>= k) t := h

/-! ## All together -/

/-- **The treaty holds of a pool**: it stands as `t` says, and every process keeps its side. -/
structure Together (T : Treaty σ τ) (post : Nat → α → τ → Prop) (pool : Pool σ α) (t : τ) : Prop where
  view : T.view t = pool.state
  inv : T.inv t
  meets : ∀ {i p}, pool.threads[i]? = some p → T.Meets i (post i) p t

/-- **One turn**: whoever has it moves as it may, and all keep the treaty. -/
theorem Together.turn {post : Nat → α → τ → Prop} {pool : Pool σ α} {t : τ}
    (h : T.Together post pool t) (j : Nat) :
    ∃ u, T.Together post (pool.advance j) u ∧ T.guar j t u ∧
      ∀ n, pool.threads.length ≤ n → T.rely n t u := by
  rcases pool.advance_cases j with hsame | ⟨e, k, hj, hstep⟩
  · rw [hsame]
    exact ⟨t, h, T.guar_refl j t, fun n _ => T.rely_refl n t⟩
  · have hlt : j < pool.threads.length := (List.getElem?_eq_some_iff.1 hj).1
    obtain ⟨u, hu, hguar, hk⟩ := h.meets hj t (T.rely_refl j t) h.inv
    rw [h.view] at hu hk
    rw [hstep]
    refine ⟨u, ⟨hu, T.inv_guar h.inv hguar, fun {i p} hp => ?_⟩, hguar,
      fun n hn => T.rely_guar (by omega) h.inv hguar⟩
    by_cases hij : j = i
    · subst hij
      rw [List.getElem?_set_self hlt, Option.some.injEq] at hp
      exact hp ▸ hk
    · rw [List.getElem?_set_ne hij] at hp
      exact (h.meets hp).later (T.rely_guar hij h.inv hguar)

/-- **All together, under any schedule**: the treaty holds at every moment, and whoever is not in the
    pool finds what it relied on. -/
theorem Together.play {post : Nat → α → τ → Prop} {pool : Pool σ α} {t : τ}
    (h : T.Together post pool t) (schedule : List Nat) :
    ∃ u, T.Together post (pool.play schedule) u ∧ ∀ n, pool.threads.length ≤ n → T.rely n t u := by
  induction schedule generalizing pool t with
  | nil => exact ⟨t, h, fun n _ => T.rely_refl n t⟩
  | cons j rest ih =>
    obtain ⟨u, hu, -, hout⟩ := h.turn j
    obtain ⟨v, hv, hout'⟩ := ih hu
    exact ⟨v, hv, fun n hn => T.rely_trans (hout n hn) (hout' n (by simpa using hn))⟩

/-- **Nobody who keeps its side crashes.** -/
theorem Together.not_crashed {post : Nat → α → τ → Prop} {pool : Pool σ α} {t : τ}
    (h : T.Together post pool t) (i : Nat) (m : String) : pool.threads[i]? ≠ some (.crash m) :=
  fun hi => h.meets hi t (T.rely_refl i t) h.inv

end Treaty

end Idempotence
