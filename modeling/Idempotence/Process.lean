/-
  Processes — computations that advance in atomic steps over a shared state.

  A process is a RESUMPTION: it has answered, or it has crashed, or it is about to make one atomic
  step, after which it resumes from what that step saw.  Two readings of the same value matter here:

    * alone      `run` makes all steps one after the other and yields the outcome and the last state;
    * in company a scheduler may make one step of one process, then one step of another, and so on;
                 whatever happens between two steps is visible to the next one.

  Everything that the engine does is such a process, so a statement about a race is a statement
  about the very definitions that run when nobody races.

  The laws: `run_bind` (sequencing), `run_onExit` and `run_onCrash` (what happens on the way out),
  and the monad laws.
-/

namespace Idempotence

/-- **How a process ended**: with an answer, or by a crash that nobody in it handled. -/
inductive Outcome (α : Type) where
  | value (a : α)
  | crashed (message : String)
  deriving DecidableEq, Repr, Inhabited

/-- **A process over the state `σ` that answers with an `α`.**  `step` changes the state by
    `effect` and resumes with what it saw *before* that change; both happen in one instant. -/
inductive Process (σ α : Type) where
  | done (a : α)
  | crash (message : String)
  | step (effect : σ → σ) (resume : σ → Process σ α)

namespace Process

variable {σ α β γ : Type}

instance [Inhabited α] : Inhabited (Process σ α) := ⟨done default⟩

/-- Sequencing: a crash ends the whole sequence. -/
def bind : Process σ α → (α → Process σ β) → Process σ β
  | done a, f => f a
  | crash m, _ => crash m
  | step e k, f => step e fun s => (k s).bind f

instance : Monad (Process σ) where
  pure := done
  bind := bind

/-- One atomic step that answers and changes the state. -/
def atomically (f : σ → α × σ) : Process σ α :=
  step (fun s => (f s).2) fun s => done (f s).1

/-- One atomic step that only looks. -/
def look (f : σ → α) : Process σ α :=
  step id fun s => done (f s)

/-- One atomic step that only changes. -/
def change (f : σ → σ) : Process σ Unit :=
  step f fun _ => done ()

/-- **On the way out**: `last` runs after an answer and after a crash alike. -/
def onExit : Process σ α → Process σ Unit → Process σ α
  | done a, last => last.bind fun _ => done a
  | crash m, last => last.bind fun _ => crash m
  | step e k, last => step e fun s => (k s).onExit last

/-- **On a crash only**: `last` runs, then the crash goes on. -/
def onCrash : Process σ α → Process σ Unit → Process σ α
  | done a, _ => done a
  | crash m, last => last.bind fun _ => crash m
  | step e k, last => step e fun s => (k s).onCrash last

/-- **The process alone**: all its steps in a row. -/
def run : Process σ α → σ → Outcome α × σ
  | done a, s => (.value a, s)
  | crash m, s => (.crashed m, s)
  | step e k, s => (k s).run (e s)

/-! ## Laws of running alone -/

@[simp] theorem run_done (a : α) (s : σ) : (done a).run s = (.value a, s) := rfl

@[simp] theorem run_pure (a : α) (s : σ) : (pure a : Process σ α).run s = (.value a, s) := rfl

@[simp] theorem run_crash (m : String) (s : σ) :
    (crash m : Process σ α).run s = (.crashed m, s) := rfl

@[simp] theorem run_step (e : σ → σ) (k : σ → Process σ α) (s : σ) :
    (step e k).run s = (k s).run (e s) := rfl

@[simp] theorem run_atomically (f : σ → α × σ) (s : σ) :
    (atomically f).run s = (.value (f s).1, (f s).2) := rfl

@[simp] theorem run_look (f : σ → α) (s : σ) : (look f).run s = (.value (f s), s) := rfl

@[simp] theorem run_change (f : σ → σ) (s : σ) : (change f).run s = (.value (), f s) := rfl

/-- Running a sequence is running its parts. -/
theorem run_bind' (p : Process σ α) (f : α → Process σ β) (s : σ) :
    (p.bind f).run s = match p.run s with
      | (.value a, t) => (f a).run t
      | (.crashed m, t) => (.crashed m, t) := by
  induction p generalizing s with
  | done a => rfl
  | crash m => rfl
  | step e k ih => exact ih s (e s)

@[simp] theorem run_bind (p : Process σ α) (f : α → Process σ β) (s : σ) :
    (p >>= f).run s = match p.run s with
      | (.value a, t) => (f a).run t
      | (.crashed m, t) => (.crashed m, t) := run_bind' p f s

/-- What runs on the way out runs in both cases, and its own crash wins. -/
@[simp] theorem run_onExit (p : Process σ α) (last : Process σ Unit) (s : σ) :
    (p.onExit last).run s = match last.run (p.run s).2 with
      | (.value _, t) => ((p.run s).1, t)
      | (.crashed m, t) => (.crashed m, t) := by
  induction p generalizing s with
  | done a =>
    simp only [onExit, run_bind', run_done]
    split <;> rename_i h <;> simp [h]
  | crash m =>
    simp only [onExit, run_bind', run_crash]
    split <;> rename_i h <;> simp [h]
  | step e k ih => exact ih s (e s)

/-- What runs on a crash leaves an answer alone. -/
@[simp] theorem run_onCrash (p : Process σ α) (last : Process σ Unit) (s : σ) :
    (p.onCrash last).run s = match p.run s with
      | (.value a, t) => (.value a, t)
      | (.crashed m, t) => match last.run t with
        | (.value _, u) => (.crashed m, u)
        | (.crashed m', u) => (.crashed m', u) := by
  induction p generalizing s with
  | done a => rfl
  | crash m =>
    simp only [onCrash, run_bind', run_crash]
    split <;> rename_i h <;> simp [h]
  | step e k ih => exact ih s (e s)

/-! ## Monad laws -/

theorem bind_done (p : Process σ α) : p.bind done = p := by
  induction p with
  | done a => rfl
  | crash m => rfl
  | step e k ih => simp only [bind]; congr 1; exact funext ih

theorem bind_assoc' (p : Process σ α) (f : α → Process σ β) (g : β → Process σ γ) :
    (p.bind f).bind g = p.bind fun a => (f a).bind g := by
  induction p with
  | done a => rfl
  | crash m => rfl
  | step e k ih => simp only [bind]; congr 1; exact funext ih

instance : LawfulMonad (Process σ) :=
  LawfulMonad.mk' (Process σ) (fun p => bind_done p) (fun _ _ => rfl) (fun p f g => bind_assoc' p f g)

end Process

end Idempotence
