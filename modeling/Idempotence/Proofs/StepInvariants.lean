/-
  Invariants of steps — what every step of a process keeps to.

  `Process.Steps R` says that each step of a process, taken from whatever state, is an `R`-step.  It
  speaks of single steps, so it holds of a process alone and in company alike, and it is closed under
  everything that processes are built with.  For a preorder `R` it carries over to a whole run
  (`Steps.run`).  `Process.Safe` says that a process never crashes.

  Parts of an environment that do not see each other are `Apart`; a component that keeps to its own
  part takes no step on the other.
-/
import Idempotence.World

namespace Idempotence

variable {σ α β : Type}

namespace Process

/-- Running what is made of an answer. -/
@[simp] theorem run_map (f : α → β) (p : Process σ α) (s : σ) :
    (f <$> p).run s = match p.run s with
      | (.value a, t) => (.value (f a), t)
      | (.crashed m, t) => (.crashed m, t) :=
  run_bind' p (fun a => pure (f a)) s

/-- A sequence that answers has answered in both parts. -/
theorem run_bind_eq_value {p : Process σ α} {f : α → Process σ β} {s u : σ} {b : β}
    (h : (p >>= f).run s = (.value b, u)) :
    ∃ a t, p.run s = (.value a, t) ∧ (f a).run t = (.value b, u) := by
  rw [run_bind] at h
  cases hp : p.run s with
  | mk o t =>
    rw [hp] at h
    cases o with
    | value a => exact ⟨a, t, rfl, h⟩
    | crashed m => cases h

/-- What answers has not crashed. -/
theorem run_onCrash_eq_value {p : Process σ α} {last : Process σ Unit} {s t : σ} {a : α}
    (h : (p.onCrash last).run s = (.value a, t)) : p.run s = (.value a, t) := by
  rw [run_onCrash] at h
  cases hp : p.run s with
  | mk o u =>
    rw [hp] at h
    cases o with
    | value b => exact h
    | crashed m =>
      simp only at h
      split at h <;> cases h

/-- **Every step keeps to `R`.** -/
def Steps (R : σ → σ → Prop) : Process σ α → Prop
  | done _ => True
  | crash _ => True
  | step effect resume => (∀ s, R s (effect s)) ∧ ∀ s, (resume s).Steps R

/-- **No crash**, whatever the process sees. -/
def Safe : Process σ α → Prop
  | done _ => True
  | crash _ => False
  | step _ resume => ∀ s, (resume s).Safe

/-- **Upholding an invariant**: where it holds before a step, it holds behind it; and whatever the process
    answers with, having seen nothing but states where it holds, is a `Q`. -/
def Upholds (I : σ → Prop) (Q : α → Prop) : Process σ α → Prop
  | done a => Q a
  | crash _ => True
  | step effect resume => ∀ s, I s → I (effect s) ∧ (resume s).Upholds I Q

/-- **Whatever a process answers with** is a `Q`, whatever it sees. -/
abbrev Gives (Q : α → Prop) (p : Process σ α) : Prop := p.Upholds (fun _ => True) Q

/-! ## Steps -/

namespace Steps

variable {R : σ → σ → Prop}

theorem pure (a : α) : Steps R (pure a : Process σ α) := trivial

theorem look (hrefl : ∀ s, R s s) (f : σ → α) : Steps R (Process.look f) :=
  ⟨hrefl, fun _ => trivial⟩

theorem change {f : σ → σ} (h : ∀ s, R s (f s)) : Steps R (Process.change f) :=
  ⟨h, fun _ => trivial⟩

theorem atomically {f : σ → α × σ} (h : ∀ s, R s (f s).2) : Steps R (Process.atomically f) :=
  ⟨h, fun _ => trivial⟩

theorem bind {p : Process σ α} {f : α → Process σ β} (hp : p.Steps R) (hf : ∀ a, (f a).Steps R) :
    (p >>= f).Steps R := by
  induction p with
  | done a => exact hf a
  | crash m => trivial
  | step e k ih => exact ⟨hp.1, fun s => ih s (hp.2 s)⟩

theorem onExit {p : Process σ α} {last : Process σ Unit} (hp : p.Steps R) (hlast : last.Steps R) :
    (p.onExit last).Steps R := by
  induction p with
  | done a => exact bind hlast fun _ => trivial
  | crash m => exact bind hlast fun _ => trivial
  | step e k ih => exact ⟨hp.1, fun s => ih s (hp.2 s)⟩

theorem onCrash {p : Process σ α} {last : Process σ Unit} (hp : p.Steps R) (hlast : last.Steps R) :
    (p.onCrash last).Steps R := by
  induction p with
  | done a => trivial
  | crash m => exact bind hlast fun _ => trivial
  | step e k ih => exact ⟨hp.1, fun s => ih s (hp.2 s)⟩

theorem mono {R' : σ → σ → Prop} {p : Process σ α} (hp : p.Steps R) (h : ∀ s t, R s t → R' s t) :
    p.Steps R' := by
  induction p with
  | done a => trivial
  | crash m => trivial
  | step e k ih => exact ⟨fun s => h _ _ (hp.1 s), fun s => ih s (hp.2 s)⟩

theorem and {R' : σ → σ → Prop} {p : Process σ α} (hp : p.Steps R) (hp' : p.Steps R') :
    p.Steps fun s t => R s t ∧ R' s t := by
  induction p with
  | done a => trivial
  | crash m => trivial
  | step e k ih => exact ⟨fun s => ⟨hp.1 s, hp'.1 s⟩, fun s => ih s (hp.2 s) (hp'.2 s)⟩

/-- **A whole run** keeps to a preorder that its steps keep to. -/
theorem run {p : Process σ α} (hp : p.Steps R) (hrefl : ∀ s, R s s)
    (htrans : ∀ {s t u}, R s t → R t u → R s u) (s : σ) : R s (p.run s).2 := by
  induction p generalizing s with
  | done a => exact hrefl s
  | crash m => exact hrefl s
  | step e k ih => exact htrans (hp.1 s) (ih s (hp.2 s) (e s))

end Steps

/-! ## Safety -/

namespace Safe

theorem bind {p : Process σ α} {f : α → Process σ β} (hp : p.Safe) (hf : ∀ a, (f a).Safe) :
    (p >>= f).Safe := by
  induction p with
  | done a => exact hf a
  | crash m => exact hp.elim
  | step e k ih => exact fun s => ih s (hp s)

theorem onExit {p : Process σ α} {last : Process σ Unit} (hp : p.Safe) (hlast : last.Safe) :
    (p.onExit last).Safe := by
  induction p with
  | done a => exact bind hlast fun _ => trivial
  | crash m => exact hp.elim
  | step e k ih => exact fun s => ih s (hp s)

theorem onCrash {p : Process σ α} (hp : p.Safe) (last : Process σ Unit) : (p.onCrash last).Safe := by
  induction p with
  | done a => trivial
  | crash m => exact hp.elim
  | step e k ih => exact fun s => ih s (hp s)

/-- What cannot crash needs nothing on the way out. -/
theorem onExit_bind {p : Process σ α} (hp : p.Safe) (f : α → Process σ β) (last : Process σ Unit) :
    (p >>= f).onExit last = p >>= fun a => (f a).onExit last := by
  induction p with
  | done a => rfl
  | crash m => exact hp.elim
  | step e k ih => exact congrArg (step e) (funext fun s => ih s (hp s))

/-- What cannot crash needs nothing that runs on a crash. -/
theorem onCrash_bind {p : Process σ α} (hp : p.Safe) (f : α → Process σ β) (last : Process σ Unit) :
    (p >>= f).onCrash last = p >>= fun a => (f a).onCrash last := by
  induction p with
  | done a => rfl
  | crash m => exact hp.elim
  | step e k ih => exact congrArg (step e) (funext fun s => ih s (hp s))

/-- A safe process answers. -/
theorem run {p : Process σ α} (hp : p.Safe) (s : σ) : ∃ a t, p.run s = (.value a, t) := by
  induction p generalizing s with
  | done a => exact ⟨a, s, rfl⟩
  | crash m => exact hp.elim
  | step e k ih => exact ih s (hp s) (e s)

end Safe

/-! ## Invariants -/

namespace Upholds

variable {I : σ → Prop} {Q : α → Prop}

/-- What single steps keep is upheld. -/
theorem of_steps {R : σ → σ → Prop} {p : Process σ α} (hp : p.Steps R) (hR : ∀ s t, R s t → I s → I t) :
    p.Upholds I fun _ => True := by
  induction p with
  | done a => trivial
  | crash m => trivial
  | step e k ih => exact fun s hs => ⟨hR s (e s) (hp.1 s) hs, ih s (hp.2 s)⟩

/-- What keeps the invariant step by step upholds it. -/
theorem kept {p : Process σ α} (hp : p.Steps fun s t => I s → I t) : p.Upholds I fun _ => True :=
  of_steps hp fun _ _ h => h

theorem look (f : σ → α) : (Process.look f).Upholds I fun _ => True := fun _ hs => ⟨hs, trivial⟩

theorem atomically {f : σ → α × σ} (h : ∀ s, I s → I (f s).2 ∧ Q (f s).1) :
    (Process.atomically f).Upholds I Q := h

theorem bind {Q' : β → Prop} {p : Process σ α} {f : α → Process σ β} (hp : p.Upholds I Q)
    (hf : ∀ a, Q a → (f a).Upholds I Q') : (p >>= f).Upholds I Q' := by
  induction p with
  | done a => exact hf a hp
  | crash m => trivial
  | step e k ih => exact fun s hs => ⟨(hp s hs).1, ih s (hp s hs).2⟩

theorem onExit {p : Process σ α} {last : Process σ Unit} (hp : p.Upholds I Q)
    (hlast : last.Upholds I fun _ => True) : (p.onExit last).Upholds I Q := by
  induction p with
  | done a => exact bind hlast fun _ _ => hp
  | crash m => exact bind hlast fun _ _ => trivial
  | step e k ih => exact fun s hs => ⟨(hp s hs).1, ih s (hp s hs).2⟩

theorem onCrash {p : Process σ α} {last : Process σ Unit} (hp : p.Upholds I Q)
    (hlast : last.Upholds I fun _ => True) : (p.onCrash last).Upholds I Q := by
  induction p with
  | done a => exact hp
  | crash m => exact bind hlast fun _ _ => trivial
  | step e k ih => exact fun s hs => ⟨(hp s hs).1, ih s (hp s hs).2⟩

/-- **A whole run** from where the invariant holds ends where it holds, and with a `Q`. -/
theorem run {p : Process σ α} (hp : p.Upholds I Q) {s : σ} (hs : I s) :
    I (p.run s).2 ∧ ∀ a, (p.run s).1 = .value a → Q a := by
  induction p generalizing s with
  | done a =>
    refine ⟨hs, fun b hb => ?_⟩
    cases hb
    exact hp
  | crash m => exact ⟨hs, fun _ h => nomatch h⟩
  | step e k ih => exact ih s (hp s hs).2 (hp s hs).1

end Upholds

/-- Nothing is known of what a process answers with. -/
theorem gives_any (p : Process σ α) : p.Gives fun _ => True := by
  induction p with
  | done a => trivial
  | crash m => trivial
  | step e k ih => exact fun s _ => ⟨trivial, ih s⟩

/-! ## One after the other -/

/-- **Processes in turn**, each from where the one before it has left the state. -/
def inTurn (processes : List (Process σ α)) (s : σ) : σ :=
  processes.foldl (fun s p => (p.run s).2) s

theorem inTurn_append (first rest : List (Process σ α)) (s : σ) :
    inTurn (first ++ rest) s = inTurn rest (inTurn first s) := List.foldl_append ..

end Process

/-! ## Parts -/

/-- **Parts that do not see each other.** -/
structure Part.Apart {ε : Type} (p : Part ε α) (q : Part ε β) : Prop where
  get_set_left : ∀ b e, p.get (q.set b e) = p.get e
  get_set_right : ∀ a e, q.get (p.set a e) = q.get e

end Idempotence
