/-
  Programs — whatever can be done with the engine, and what all of it upholds.

  1. **Programs** — a tree of what a program does: it starts processes, runs phases, closes and drops
     contexts, runs whole processes, and does things of its own.  The bodies of phases and processes are
     programs themselves, so attempts may nest in any way; and a program goes on from any outcome, be it
     an error or a crash.

  2. **Related programs** — a relation that goes through all that the engine does goes through programs, too:
     it holds of what two of them do, if it holds of their own actions (`Provider.Related.program`).

  3. **Upholding** — if the store, the locks, the clocks, the extensions and the bookkeeping of a provider
     uphold an invariant of the world, then so does every program whose own actions do
     (`Provider.Upholds.program`).

  4. **Pools** — so it holds at every moment of any number of programs side by side, under every schedule
     (`Pool.upheld`).
-/
import Idempotence.Proofs.BodyHosts
import Idempotence.Proofs.EngineRelations
import Idempotence.Proofs.Interleaving

namespace Idempotence

variable {σ ε α β γ κ : Type}

/-! ## Programs -/

/-- **A program that uses the engine.**  It goes on from the outcome of whatever it does. -/
inductive Program (ε : Type) : Type → Type 1 where
  | done {α : Type} (a : α) : Program ε α
  | crash {α : Type} (message : String) : Program ε α
  /-- Something of its own. -/
  | own {α β : Type} (action : Action ε β) (resume : Outcome β → Program ε α) : Program ε α
  | start {α : Type} (process key : String) (timeout : Duration) (settings : List Setting)
      (resume : Outcome (Except Error Context) → Program ε α) : Program ε α
  | call {α β γ : Type} [EngineFailure β] (c : Context) (phase : Phase) (codec : Codec γ)
      (body : Program ε (Except β γ)) (resume : Outcome (Except β γ) → Program ε α) : Program ε α
  | close {α : Type} (c : Context) (resume : Outcome (Except Error Unit) → Program ε α) : Program ε α
  | drop {α : Type} (c : Context) (resume : Outcome Unit → Program ε α) : Program ε α
  /-- A whole process. -/
  | attempt {α β ρ : Type} [EngineFailure β] (process key : String) (timeout : Duration)
      (settings : List Setting) (body : Context → Program ε (Except β ρ))
      (resume : Outcome (Except β ρ) → Program ε α) : Program ε α

namespace Program

/-- **What the program does** with a provider. -/
def act (p : Provider ε) {α : Type} : Program ε α → Action ε α
  | done a => .done a
  | crash m => .crash m
  | own action resume => action.caught.bind fun o => (resume o).act p
  | start process key timeout settings resume =>
    (p.start process key timeout settings).caught.bind fun o => (resume o).act p
  | call c phase codec body resume =>
    (p.runPhase c phase codec (body.act p)).caught.bind fun o => (resume o).act p
  | close c resume => (p.close c).caught.bind fun o => (resume o).act p
  | drop c resume => (p.drop c).caught.bind fun o => (resume o).act p
  | attempt process key timeout settings body resume =>
    (p.runProcess process key timeout settings fun c => (body c).act p).caught.bind fun o => (resume o).act p

/-- **A program whose own actions are of a kind.** -/
def Within (T : {β : Type} → Action ε β → Prop) {α : Type} : Program ε α → Prop
  | done _ => True
  | crash _ => True
  | own action resume => T action ∧ ∀ o, (resume o).Within T
  | start _ _ _ _ resume => ∀ o, (resume o).Within T
  | call _ _ _ body resume => body.Within T ∧ ∀ o, (resume o).Within T
  | close _ resume => ∀ o, (resume o).Within T
  | drop _ resume => ∀ o, (resume o).Within T
  | attempt _ _ _ _ body resume => (∀ c, (body c).Within T) ∧ ∀ o, (resume o).Within T

end Program

/-! ## Related programs -/

section

variable (R : {α : Type} → Action ε α → Action ε α → Prop)

/-- **Programs that are related** in what they do of their own, and in whose calls phases are `like` each
    other. -/
inductive Program.Related (like : Phase → Phase → Prop) : {α : Type} → Program ε α → Program ε α → Prop
  | done {α : Type} (a : α) : Related like (.done a) (.done a)
  | crash {α : Type} (message : String) : Related like (.crash message : Program ε α) (.crash message)
  | own {α β : Type} {action action' : Action ε β} {resume resume' : Outcome β → Program ε α}
      (haction : R action action') (hresume : ∀ o, Related like (resume o) (resume' o)) :
      Related like (.own action resume) (.own action' resume')
  | start {α : Type} (process key : String) (timeout : Duration) (settings : List Setting)
      {resume resume' : Outcome (Except Error Context) → Program ε α}
      (hresume : ∀ o, Related like (resume o) (resume' o)) :
      Related like (.start process key timeout settings resume) (.start process key timeout settings resume')
  | call {α β γ : Type} [EngineFailure β] (c : Context) {phase phase' : Phase} (hphase : like phase phase')
      (codec : Codec γ) {body body' : Program ε (Except β γ)}
      {resume resume' : Outcome (Except β γ) → Program ε α}
      (hbody : Related like body body') (hresume : ∀ o, Related like (resume o) (resume' o)) :
      Related like (.call c phase codec body resume) (.call c phase' codec body' resume')
  | close {α : Type} (c : Context) {resume resume' : Outcome (Except Error Unit) → Program ε α}
      (hresume : ∀ o, Related like (resume o) (resume' o)) :
      Related like (.close c resume) (.close c resume')
  | drop {α : Type} (c : Context) {resume resume' : Outcome Unit → Program ε α}
      (hresume : ∀ o, Related like (resume o) (resume' o)) : Related like (.drop c resume) (.drop c resume')
  | attempt {α β ρ : Type} [EngineFailure β] (process key : String) (timeout : Duration)
      (settings : List Setting) {body body' : Context → Program ε (Except β ρ)}
      {resume resume' : Outcome (Except β ρ) → Program ε α}
      (hbody : ∀ c, Related like (body c) (body' c)) (hresume : ∀ o, Related like (resume o) (resume' o)) :
      Related like (.attempt process key timeout settings body resume)
        (.attempt process key timeout settings body' resume')

/-- A program is related to itself if its own actions are. -/
theorem Program.Within.related {T : {β : Type} → Action ε β → Prop} {like : Phase → Phase → Prop}
    (hT : ∀ {β : Type} {a : Action ε β}, T a → R a a) (hlike : ∀ phase, like phase phase)
    {prog : Program ε α} (h : prog.Within T) : prog.Related R like prog := by
  induction prog with
  | done a => exact .done a
  | crash m => exact .crash m
  | own action resume ih => exact .own (hT h.1) fun o => ih o (h.2 o)
  | start process key timeout settings resume ih =>
    exact .start process key timeout settings fun o => ih o (h o)
  | call c phase codec body resume ihbody ih =>
    exact .call c (hlike phase) codec (ihbody h.1) fun o => ih o (h.2 o)
  | close c resume ih => exact .close c fun o => ih o (h o)
  | drop c resume ih => exact .drop c fun o => ih o (h o)
  | attempt process key timeout settings body resume ihbody ih =>
    exact .attempt process key timeout settings (fun c => ihbody c (h.1 c)) fun o => ih o (h.2 o)

variable {R} in
/-- **Programs** of related phases do related things. -/
theorem Provider.Related.program {like : Phase → Phase → Prop} {p p' : Provider ε}
    (h : Provider.Related R like p p') {prog prog' : Program ε α} (hprog : prog.Related R like prog') :
    R (prog.act p) (prog'.act p') := by
  -- Bodies are programs too, so there is a hypothesis for them beside that for what is done next.
  induction hprog with
  | done a => exact h.congruent.done a
  | crash message => exact h.congruent.crash message
  | own haction _ ih => exact h.congruent.bind (h.congruent.caught haction) ih
  | start process key timeout settings _ ih =>
    exact h.congruent.bind (h.congruent.caught (h.start process key timeout settings)) ih
  | call c hphase codec _ _ ihbody ih =>
    exact h.congruent.bind (h.congruent.caught (h.runPhase c hphase codec ihbody)) ih
  | close c _ ih => exact h.congruent.bind (h.congruent.caught (h.close c)) ih
  | drop c _ ih => exact h.congruent.bind (h.congruent.caught (h.drop c)) ih
  | attempt process key timeout settings _ _ ihbody ih =>
    exact h.congruent.bind (h.congruent.caught (h.runProcess process key timeout settings ihbody)) ih

end

/-! ## Upholding -/

namespace Process

variable {I : σ → Prop} {S : σ → σ → Prop}

theorem Upholds.caught {Q : α → Prop} {p : Process σ α} (hp : p.Upholds I Q) :
    p.caught.Upholds I fun _ => True := by
  induction p with
  | done a => trivial
  | crash m => trivial
  | step e k ih => exact fun s hs => ⟨(hp s hs).1, ih s (hp s hs).2⟩

/-- **A host** upholds what its own steps keep and its body upholds. -/
theorem Hosts.upholds {body : Process σ β} {p : Process σ α} (hp : Hosts S body p)
    (hS : ∀ s t, S s t → I s → I t) (hbody : body.Upholds I fun _ => True) :
    p.Upholds I fun _ => True := by
  induction hp with
  | never hsteps => exact .of_steps hsteps hS
  | step hbefore _ ih => exact fun s hs => ⟨hS _ _ (hbefore s) hs, ih s⟩
  | runs hafter => exact hbody.caught.bind fun o _ => .of_steps (hafter o) hS

end Process

section

variable (I : World ε → Prop)

/-- **An executor that upholds an invariant** if the bodies do. -/
structure Executor.Upholds (x : Executor ε) : Prop where
  execute : ∀ {κ : Type} (c : Context) (phase : Phase) {body : Body ε κ},
    (body.Upholds I fun _ => True) → (x.execute c phase body).Upholds I fun _ => True

/-- **An extension that upholds an invariant**: its hooks do, given an executor that does, and so does what
    it wraps. -/
structure Interceptor.Upholds (i : Interceptor ε) : Prop where
  created : ∀ {x : Executor ε}, x.Upholds I → ∀ c, (i.created x c).Upholds I fun _ => True
  closed : ∀ {x : Executor ε}, x.Upholds I → ∀ c, (i.closed x c).Upholds I fun _ => True
  wrap : ∀ {x : Executor ε}, x.Upholds I → (i.wrap x).Upholds I

/-- **An extension that stands by** upholds what its steps keep. -/
theorem Interceptor.StandsBy.upholds {S : World ε → World ε → Prop} {i : Interceptor ε} (hi : i.StandsBy S)
    (hS : ∀ w w', S w w' → I w → I w') : i.Upholds I where
  created _ c := .of_steps (hi.created _ c) hS
  closed _ c := .of_steps (hi.closed _ c) hS
  wrap hx := ⟨fun c phase body hbody => (hi.wrap _ c phase body).upholds hS (hx.execute c phase hbody)⟩

/-- **A provider that upholds an invariant**: none of its parts breaks it, and neither does the bookkeeping
    of the engine itself. -/
structure Provider.Upholds (p : Provider ε) : Prop where
  store : p.store.Keeps fun w w' => I w → I w'
  findFinal : ∀ process key, (p.store.findFinal process key).Steps fun w w' => I w → I w'
  clock : p.clock.Steps fun w w' => I w → I w'
  obtain : ∀ key timeout now, (p.locks.obtain key timeout now).Steps fun w w' => I w → I w'
  release : ∀ handle, (p.locks.release handle).Steps fun w w' => I w → I w'
  extensions : ∀ i ∈ p.interceptors, i.Upholds I
  trace : ∀ (w : World ε) t, I w → I { w with trace := t }
  created : ∀ (w : World ε) handle, I w → I { w with contexts := w.contexts ++ [{ lock := some handle }] }
  /-- The engine leaves the properties of contexts to the extensions. -/
  bookkeeping : ∀ (w : World ε) id (f : ContextState → ContextState),
    (f (w.context id)).properties = (w.context id).properties → I w → I (w.modifyContext id f)

end

/-- To uphold an invariant goes through all that processes are built with. -/
theorem Process.Upholds.congruent {I : σ → Prop} :
    Process.Congruent fun a _ : Process σ _ => a.Upholds I fun _ => True where
  done _ := trivial
  crash _ := trivial
  bind ha hf := ha.bind fun r _ => hf r
  caught ha := ha.caught
  onExit ha hlast := ha.onExit hlast
  onCrash ha hlast := ha.onCrash hlast

namespace Provider.Upholds

variable {I : World ε → Prop} {p : Provider ε} (hp : p.Upholds I)
include hp

theorem tell (e : Event) : (Action.tell e : Action ε Unit).Upholds I fun _ => True :=
  .kept (.change fun w => hp.trace w _)

/-- A step of bookkeeping. -/
theorem keeps {f : World ε → α} {g : ContextState → ContextState} (c : Context)
    (hg : ∀ s, (g s).properties = s.properties) :
    (Process.atomically fun w => (f w, w.modifyContext c.id g) : Action ε α).Upholds I fun _ => True :=
  .kept (.atomically fun w hw => hp.bookkeeping w c.id g (hg _) hw)

/-- The whole chain of executors. -/
theorem executor : p.executor.Upholds I := by
  refine Executor.compose_induction ⟨fun c phase body hbody => ?_⟩ fun i hi x hx => (hp.extensions i hi).wrap hx
  have htell : ∀ e, (Action.tell e : Action ε Unit).Steps fun w w' => I w → I w' :=
    fun e => .change fun w => hp.trace w _
  exact ((Executor.hosts_base hp.store htell c).execute phase body).upholds (fun _ _ h => h) hbody

theorem tends (c : Context) : p.Tends (fun a _ => a.Upholds I fun _ => True) c where
  sequential := Process.Upholds.congruent.toSequential
  tell := hp.tell
  closed i hi := (hp.extensions i hi).closed hp.executor c
  notified := .look _
  wasClosed := .look _
  mark := hp.keeps c fun _ => rfl
  take := hp.keeps c fun _ => rfl
  release handle := .kept (hp.release handle)

theorem related : Provider.Related (fun a _ => a.Upholds I fun _ => True) Eq p p where
  congruent := Process.Upholds.congruent
  like_id h := congrArg Phase.id h
  like_settings h := congrArg Phase.settings h
  like_auto := rfl
  tell := hp.tell
  wasFinal _ := .look _
  enter c phase _ _ := by
    refine .kept (.atomically fun w hw => ?_)
    split
    · exact hw
    · next s hs =>
      refine hp.bookkeeping w c.id _ ?_ hw
      rw [(ContextState.enter_eq_ok hs).2.2.2]
  leave c _ _ _ := .kept (.change fun w hw => hp.bookkeeping w c.id _ rfl hw)
  execute c phase _ _ _ _ hbody := hp.executor.execute c phase hbody
  newContext _ _ _ _ handle := .kept (.atomically fun w hw => hp.created w handle hw)
  created c := by
    have hcount : (c.change fun s => { s with notified := s.notified + 1 } : Action ε Unit).Upholds I
        fun _ => True := .kept (.change fun w hw => hp.bookkeeping w c.id _ rfl hw)
    exact Process.Upholds.congruent.runCreated hcount fun i hi => (hp.extensions i hi).created hp.executor c
  close c := (hp.tends c).close
  drop c := (hp.tends c).drop
  clock := .kept hp.clock
  findFinal process key := .kept (hp.findFinal process key)
  obtain key timeout now := .kept (hp.obtain key timeout now)
  release handle := .kept (hp.release handle)

/-- **Whatever a program does**, it upholds what its own actions do. -/
theorem program {T : {β : Type} → Action ε β → Prop}
    (hT : ∀ {β : Type} {a : Action ε β}, T a → a.Upholds I fun _ => True) {prog : Program ε α}
    (hprog : prog.Within T) : (prog.act p).Upholds I fun _ => True :=
  hp.related.program (hprog.related (fun a _ => a.Upholds I fun _ => True) hT fun _ => rfl)

end Provider.Upholds

/-! ## Pools -/

/-- **An invariant that all processes uphold** holds after any turns of theirs. -/
theorem Pool.upheld {I : σ → Prop} {pool : Pool σ α}
    (hthreads : ∀ t ∈ pool.threads, t.Upholds I fun _ => True) (hstate : I pool.state) (schedule : List Nat) :
    I (pool.play schedule).state := by
  -- By induction on the turns, from any pool: what a turn leaves of a process upholds the invariant as well.
  induction schedule generalizing pool with
  | nil => exact hstate
  | cons i rest ih =>
    show I ((pool.advance i).play rest).state
    rcases pool.advance_cases i with hsame | ⟨e, k, hi, hstep⟩
    · rw [hsame]
      exact ih hthreads hstate
    · have hturn : I (e pool.state) ∧ (k pool.state).Upholds I fun _ => True :=
        hthreads _ (List.mem_of_getElem? hi) pool.state hstate
      rw [hstep]
      refine ih (fun t ht => ?_) hturn.1
      rcases List.mem_or_eq_of_mem_set ht with hold | rfl
      · exact hthreads t hold
      · exact hturn.2

end Idempotence
