/-
  Uses of contexts — what anybody may do with a context, and a provider around it.

  1. **Gates** — the gate of a context is all that decides whether it may enter a phase, apart from the
     phase's id: whether a final phase has been left, and which phase is active.

  2. **Doings** — `Context.Does` is any use of a context, step by step: steps beside it that keep to `S`;
     calls of phases, whose bodies are uses themselves; and whole actions of a further kind `T`, such as
     publishing.  Unlike a client it may be made up of several parts, for it is closed under everything
     that actions are built with.

  3. **What a provider adds** — before an instance is looked up its lock is seized (`Provider.start_eq`);
     and if closing keeps to `S`, then a whole process does nothing with its context but what its body
     does (`Provider.Closes.conduct`).
-/
import Idempotence.Proofs.Attempts
import Idempotence.Proofs.BodyHosts

namespace Idempotence

variable {σ ε α β γ κ : Type}

/-! ## Gates -/

/-- **What decides whether a context may enter a phase**, apart from the phase's id. -/
structure Gate where
  wasFinal : Bool
  active : Option Phase
  deriving DecidableEq

namespace ContextState

/-- The gate of a context. -/
def gate (s : ContextState) : Gate := ⟨s.wasFinal, s.active.map (·.phase)⟩

/-- Entering a phase needs an open gate, and shuts it. -/
theorem gate_enter {s t : ContextState} {process : String} {phase : Phase}
    (h : s.enter process phase = .ok t) : s.gate = ⟨false, none⟩ ∧ t.gate = ⟨false, some phase⟩ := by
  obtain ⟨hfinal, -, hactive, rfl⟩ := enter_eq_ok h
  constructor
  · simp [gate, hfinal, hactive]
  · simp [gate, hfinal]

theorem gate_leave (s : ContextState) (phase : Phase) :
    (s.leave phase).gate = ⟨s.gate.wasFinal || phase.isFinal, none⟩ := rfl

end ContextState

/-! ## Doings -/

/-- **A use of a context**: steps that keep to `S`, actions of the kind `T`, and calls of phases whose
    bodies are uses, too.  It goes on from the outcome of an action or a call, whatever that is. -/
inductive Context.Does (x : Executor ε) (S : World ε → World ε → Prop)
    (T : Action ε (Except Error Unit) → Prop) (c : Context) : {α : Type} → Action ε α → Prop
  | done {α : Type} (a : α) : Does x S T c (.done a)
  | crash {α : Type} (m : String) : Does x S T c (.crash m : Action ε α)
  | step {α : Type} {effect : World ε → World ε} {resume : World ε → Action ε α}
      (beside : ∀ w, S w (effect w)) (rest : ∀ w, Does x S T c (resume w)) :
      Does x S T c (.step effect resume)
  | own {α : Type} {a : Action ε (Except Error Unit)} {resume : Outcome (Except Error Unit) → Action ε α}
      (kind : T a) (rest : ∀ o, Does x S T c (resume o)) : Does x S T c (a.caught.bind resume)
  | call {α β γ : Type} [EngineFailure β] {phase : Phase} {codec : Codec γ}
      {body : Action ε (Except β γ)} {resume : Outcome (Except β γ) → Action ε α}
      (inner : Does x S T c body) (rest : ∀ o, Does x S T c (resume o)) :
      Does x S T c ((c.run x phase codec body).caught.bind resume)

/-- **A use of a context** by steps and calls alone. -/
abbrev Context.Uses (x : Executor ε) (S : World ε → World ε → Prop) (c : Context) (a : Action ε α) : Prop :=
  c.Does x S (fun _ => False) a

namespace Context.Does

variable {x : Executor ε} {S : World ε → World ε → Prop} {T : Action ε (Except Error Unit) → Prop}
  {c : Context}

theorem of_steps {a : Action ε α} (h : a.Steps S) : c.Does x S T a := by
  induction a with
  | done a => exact .done a
  | crash m => exact .crash m
  | step e k ih => exact .step h.1 fun w => ih w (h.2 w)

theorem bind {a : Action ε α} {f : α → Action ε β} (ha : c.Does x S T a) (hf : ∀ r, c.Does x S T (f r)) :
    c.Does x S T (a >>= f) := by
  induction ha with
  | done r => exact hf r
  | crash m => exact .crash m
  | step beside _ ih => exact .step beside fun w => ih w hf
  | @own _ a resume kind _ ih =>
    have hassoc : a.caught.bind resume >>= f = a.caught.bind fun o => resume o >>= f :=
      Process.bind_assoc' ..
    rw [hassoc]
    exact .own kind fun o => ih o hf
  | @call _ _ _ _ phase codec body resume inner _ _ ih =>
    have hassoc : (c.run x phase codec body).caught.bind resume >>= f =
        (c.run x phase codec body).caught.bind fun o => resume o >>= f := Process.bind_assoc' ..
    rw [hassoc]
    exact .call inner fun o => ih o hf

/-- What has been caught may crash again. -/
theorem of_caught {a : Action ε α} (h : ∀ resume : Outcome α → Action ε α,
    (∀ o, c.Does x S T (resume o)) → c.Does x S T (a.caught.bind resume)) : c.Does x S T a := by
  rw [← Process.bind_done a]
  show c.Does x S T (a >>= Process.done)
  rw [Process.bind_eq_caught]
  refine h _ fun o => ?_
  cases o with
  | value r => exact .done r
  | crashed m => exact .crash m

/-- The context does an action of its own kind, also where nobody catches its crash. -/
theorem act {a : Action ε (Except Error Unit)} (h : T a) : c.Does x S T a :=
  of_caught fun _ hresume => .own h hresume

/-- The context does a call whose body it does, also where nobody catches its crash. -/
theorem run [EngineFailure β] {phase : Phase} {codec : Codec γ} {body : Action ε (Except β γ)}
    (h : c.Does x S T body) : c.Does x S T (c.run x phase codec body) :=
  of_caught fun _ hresume => .call h hresume

theorem onCrash {a : Action ε α} {last : Action ε Unit} (ha : c.Does x S T a) (hlast : last.Steps S) :
    c.Does x S T (a.onCrash last) := by
  induction ha with
  | done r => exact .done r
  | crash m => exact of_steps (.bind hlast fun _ => trivial)
  | step beside _ ih => exact .step beside ih
  | @own _ a resume kind _ ih =>
    have hcrash : (a.caught.bind resume).onCrash last = a.caught.bind fun o => (resume o).onCrash last :=
      (Process.safe_caught a).onCrash_bind resume last
    rw [hcrash]
    exact .own kind ih
  | @call _ _ _ _ phase codec body resume inner _ _ ih =>
    have hcrash : ((c.run x phase codec body).caught.bind resume).onCrash last =
        (c.run x phase codec body).caught.bind fun o => (resume o).onCrash last :=
      (Process.safe_caught _).onCrash_bind resume last
    rw [hcrash]
    exact .call inner ih

/-- **What steps, actions and calls keep, a use keeps.** -/
theorem preserves {I : World ε → Prop} {R : World ε → World ε → Prop} (hrefl : ∀ w, R w w)
    (htrans : ∀ w w' w'', R w w' → R w' w'' → R w w'') (hstep : ∀ w w', I w → S w w' → I w' ∧ R w w')
    (hown : ∀ a, T a → a.Preserves I R)
    (hcall : ∀ {β γ : Type} [EngineFailure β] (phase : Phase) (codec : Codec γ)
      {body : Action ε (Except β γ)}, c.Does x S T body → (c.run x phase codec body).Preserves I R)
    {a : Action ε α} (ha : c.Does x S T a) : a.Preserves I R := by
  induction ha with
  | done r => exact .pure hrefl r
  | crash m => exact fun w hw => ⟨hw, hrefl w⟩
  | step beside _ ih =>
    intro w hw
    obtain ⟨hw', hR⟩ := hstep _ _ hw (beside w)
    obtain ⟨hw'', hR'⟩ := ih w _ hw'
    exact ⟨hw'', htrans _ _ _ hR hR'⟩
  | own kind _ ih => exact .bind htrans (.caught (hown _ kind)) ih
  | call inner _ _ ih => exact .bind htrans (.caught (hcall _ _ inner)) ih

/-- **A client** that keeps to `S` beside its calls uses the context. -/
theorem client [EngineFailure β] {client : Client ε β α} (h : client.Within S) :
    c.Does x S T (client.act x c) := by
  induction client with
  | done a => exact .done a
  | crash m => exact .crash m
  | step e k ih => exact .step h.1 fun w => ih w (h.2 w)
  | call phase codec body k ihbody ih => exact .call (ihbody h.1) fun o => ih o (h.2 o)

/-- **What single steps keep to**, a use does, if its executor hosts bodies and phases are entered and left
    so. -/
theorem steps {R : World ε → World ε → Prop} (hx : x.Hosts R c) (hrefl : ∀ w, R w w)
    (henter : ∀ phase w s, (w.context c.id).enter c.process phase = .ok s →
      R w (w.modifyContext c.id fun _ => s))
    (hleave : ∀ (phase : Phase) w, R w (w.modifyContext c.id (·.leave phase)))
    (hown : ∀ a, T a → a.Steps R) (hstep : ∀ w w', S w w' → R w w') {a : Action ε α}
    (ha : c.Does x S T a) : a.Steps R := by
  induction ha with
  | done r => exact .pure r
  | crash m => trivial
  | step beside _ ih => exact ⟨fun w => hstep _ _ (beside w), ih⟩
  | own kind _ ih => exact .bind (Process.steps_caught (hown _ kind)) ih
  | @call _ _ _ _ phase codec _ _ _ _ ihinner ih =>
    exact .bind (Process.steps_caught (hx.steps_run hrefl (henter phase) (hleave phase) codec ihinner)) ih

/-- **A whole body** does nothing with its context but what it does itself, and a call of the empty final
    phase. -/
theorem runBody [EngineFailure β] {p : Provider ε} (hrefl : ∀ w, S w w)
    {body : Context → Action ε (Except β α)} (hbody : c.Does p.executor S T (body c)) :
    c.Does p.executor S T (p.runBody c body) := by
  have hcomplete : c.Does p.executor S T (p.complete c : Action ε (Except β Unit)) := by
    refine .bind (.of_steps (.look hrefl _)) fun wasFinal => ?_
    split
    · exact .done _
    · exact .run (.done _)
  refine .bind hbody fun answer => ?_
  cases answer with
  | error e => exact .done _
  | ok a =>
    refine .bind hcomplete fun completed => ?_
    cases completed <;> exact .done _

end Context.Does

/-! ## Starting and closing -/

/-- To keep to a relation in every step goes through sequencing. -/
theorem Process.Steps.sequential {S : σ → σ → Prop} :
    Process.Sequential fun a _ : Process σ _ => a.Steps S where
  done := .pure
  bind ha hf := ha.bind hf

namespace Provider

/-- All that starting does before it looks for a recorded final phase: it gets the lock. -/
def seize (p : Provider ε) (process key : String) (timeout : Duration) (settings : List Setting) :
    Action ε (Except Error LockHandle) :=
  match checkStart process key settings with
  | .error e => pure (.error e)
  | .ok () => do
    let now ← p.clock
    match ← p.locks.obtain (RecordKey.lock process key) timeout now with
    | .error e => return .error (.lock e)
    | .ok (.locked tryAt) =>
      Action.tell (.processLocked process key tryAt)
      return .error (.processLocked tryAt process key)
    | .ok (.obtained handle) => return .ok handle

theorem start_eq (p : Provider ε) (process key : String) (timeout : Duration) (settings : List Setting) :
    p.start process key timeout settings = (do
      match ← p.seize process key timeout settings with
      | .error e => return .error e
      | .ok handle => p.startLocked process key settings handle) := by
  unfold start seize
  cases checkStart process key settings with
  | error e => rfl
  | ok u =>
    simp only [bind_assoc]
    refine bind_congr fun now => bind_congr fun answer => ?_
    cases answer with
    | error e => rfl
    | ok obtained => cases obtained <;> rfl

/-- **In memory**, looking and creating the context are a step each. -/
theorem startLocked_adapter {p : Provider ε} {records : Part ε MemoryStore} {stamps : Action ε Instant}
    (hstore : p.store = MemoryStore.adapter records stamps) (process key : String)
    (settings : List Setting) (handle : LockHandle) :
    p.startLocked process key settings handle = (do
      let found ← Action.look records (·.findFinal process key)
      let c ← newContext process key settings found handle
      p.introduce c) := by
  unfold startLocked
  rw [hstore]
  rfl

/-- Telling extensions of a context keeps to what their hooks and the counting of them keep to. -/
theorem steps_runCreated {S : World ε → World ε → Prop} {x : Executor ε} {c : Context}
    (hcounted : ∀ (w : World ε) id n, S w (w.modifyContext id fun s => { s with notified := s.notified + n }))
    {extensions : List (Interceptor ε)} (h : ∀ i ∈ extensions, (i.created x c).Steps S) :
    (runCreated x c extensions).Steps S := by
  have hcount : (c.change fun s => { s with notified := s.notified + 1 } : Action ε Unit).Steps S :=
    .change fun w => hcounted w c.id 1
  exact Process.Steps.sequential.runCreated hcount h

/-- **A provider that keeps to `S`** while it takes locks and closes contexts. -/
structure Closes (p : Provider ε) (S : World ε → World ε → Prop) : Prop where
  refl : ∀ w, S w w
  tell : ∀ e, (Action.tell e : Action ε Unit).Steps S
  clock : p.clock.Steps S
  seized : ∀ k timeout now, (p.locks.obtain k timeout now).Steps S
  released : ∀ handle, (p.locks.release handle).Steps S
  closed : ∀ i ∈ p.interceptors, ∀ x c, (i.closed x c).Steps S
  /-- Closing a context and taking its lock out. -/
  marked : ∀ (w : World ε) id, S w (w.modifyContext id fun s => { s with closed := true })
  unlocked : ∀ (w : World ε) id, S w (w.modifyContext id fun s => { s with lock := none })

namespace Closes

variable {p : Provider ε} {S : World ε → World ε → Prop} (hp : p.Closes S)
include hp

theorem seize (process key : String) (timeout : Duration) (settings : List Setting) :
    (p.seize process key timeout settings).Steps S := by
  unfold Provider.seize
  split
  · exact .pure _
  · refine .bind hp.clock fun now => .bind (hp.seized ..) fun answer => ?_
    match answer with
    | .error e => exact .pure _
    | .ok (.locked tryAt) => exact .bind (hp.tell _) fun _ => .pure _
    | .ok (.obtained handle) => exact .pure _

theorem tends (c : Context) : p.Tends (fun a _ => a.Steps S) c where
  sequential := Process.Steps.sequential
  tell := hp.tell
  closed i hi := hp.closed i hi p.executor c
  notified := .look hp.refl _
  wasClosed := .look hp.refl _
  mark := .atomically fun w => hp.marked w _
  take := .atomically fun w => hp.unlocked w _
  release := hp.released

theorem close (c : Context) : (p.close c).Steps S := (hp.tends c).close

theorem drop (c : Context) : (p.drop c).Steps S := (hp.tends c).drop

/-- **A whole process** does nothing with its context but what its whole body does. -/
theorem conduct [EngineFailure β] {T : Action ε (Except Error Unit) → Prop} (process key : String)
    {c : Context} {body : Context → Action ε (Except β α)}
    (hbody : c.Does p.executor S T (body c)) :
    c.Does p.executor S T (p.conduct process key c body) := by
  refine .bind (.onCrash (.runBody hp.refl hbody) (hp.drop c)) fun result => ?_
  refine .bind (.of_steps (hp.close c)) fun closing => ?_
  match result, closing with
  | .ok a, .ok () => exact .done _
  | .ok a, .error e => exact .done _
  | .error e, .ok () => exact .done _
  | .error e, .error closing => exact .of_steps (.bind (hp.tell _) fun _ => .pure _)

end Closes

end Provider

end Idempotence
