/-
  Hosts of bodies — executors as the places where bodies run.

  1. **Runs, step by step** — `Process.moments` lists the states of a run.  `Process.Along R Q` says that
     every step of a run is an `R`-step and that the run ends in `Q`; it is closed under everything that
     processes are built with, and gives what holds between any two moments (`Along.moments`).

  2. **Hosting** — a process HOSTS a body if it runs it at most once, goes on from however it ended, and
     makes nothing but `S`-steps of its own before and after.  So whatever `S`-steps keep is kept up to
     the start of the body and from its end (`Hosts.along`), and if the body makes only `S`-steps, too,
     then so does the whole (`Hosts.steps`).

  3. **The chain** — the base executor over any store hosts its body, be it inside a transaction or
     outside (`Executor.hosts_base`), and the extensions of the library go on hosting, also where one
     adds something to the body (`Overlooks.hosts_wrap`, `Provider.hosts_executor`).  Calls through a
     chain that hosts keep to what their bodies keep to (`Executor.Hosts.steps_run`).
-/
import Idempotence.Monitoring
import Idempotence.Proofs.PhaseCalls
import Idempotence.Provider
import Idempotence.Publishing.Publisher
import Idempotence.Stats
import Idempotence.Testing.Recording

namespace Idempotence

variable {σ ε α β γ κ : Type}

namespace Process

/-! ## Runs, step by step -/

/-- **The states of a run**, from the first to the last. -/
def moments : Process σ α → σ → List σ
  | done _, s => [s]
  | crash _, s => [s]
  | step e k, s => s :: (k s).moments (e s)

/-- **Along a run** every step keeps to `R`, and it ends in `Q`. -/
def Along (R : σ → σ → Prop) (Q : Outcome α → σ → Prop) : Process σ α → σ → Prop
  | done a, s => Q (.value a) s
  | crash m, s => Q (.crashed m) s
  | step e k, s => R s (e s) ∧ (k s).Along R Q (e s)

variable {R S : σ → σ → Prop} {P : σ → Prop} {Q : Outcome α → σ → Prop} {s : σ}

namespace Along

theorem mono {p : Process σ α} {Q' : Outcome α → σ → Prop} (h : p.Along R Q s)
    (hQ : ∀ o t, Q o t → Q' o t) : p.Along R Q' s := by
  induction p generalizing s with
  | done a => exact hQ _ _ h
  | crash m => exact hQ _ _ h
  | step e k ih => exact ⟨h.1, ih s h.2⟩

theorem bind {p : Process σ α} {f : α → Process σ β} {Q' : Outcome β → σ → Prop} (hp : p.Along R Q s)
    (hf : ∀ a t, Q (.value a) t → (f a).Along R Q' t)
    (hcrash : ∀ m t, Q (.crashed m) t → Q' (.crashed m) t) : (p >>= f).Along R Q' s := by
  induction p generalizing s with
  | done a => exact hf a s hp
  | crash m => exact hcrash m s hp
  | step e k ih => exact ⟨hp.1, ih s hp.2⟩

theorem caught {p : Process σ α} (hp : p.Along R Q s) :
    p.caught.Along R (fun o t => ∃ o', o = .value o' ∧ Q o' t) s := by
  induction p generalizing s with
  | done a => exact ⟨_, rfl, hp⟩
  | crash m => exact ⟨_, rfl, hp⟩
  | step e k ih => exact ⟨hp.1, ih s hp.2⟩

/-- A step on the way out goes on from wherever the process has ended. -/
theorem onExit_change {p : Process σ α} {f : σ → σ} {Q' : Outcome α → σ → Prop} (hp : p.Along R Q s)
    (hf : ∀ o t, Q o t → R t (f t) ∧ Q' o (f t)) : (p.onExit (change f)).Along R Q' s := by
  induction p generalizing s with
  | done a => exact hf _ s hp
  | crash m => exact hf _ s hp
  | step e k ih => exact ⟨hp.1, ih s hp.2⟩

/-- **Any two moments** of a run are in a transitive relation that its steps keep to. -/
theorem moments {p : Process σ α} (hp : p.Along R Q s) (htrans : ∀ {s t u}, R s t → R t u → R s u) :
    (p.moments s).Pairwise R ∧ ∀ t ∈ p.moments s, t = s ∨ R s t := by
  induction p generalizing s with
  | done a => exact ⟨List.pairwise_singleton .., by simp [Process.moments]⟩
  | crash m => exact ⟨List.pairwise_singleton .., by simp [Process.moments]⟩
  | step e k ih =>
    obtain ⟨hpairs, hfirst⟩ := ih s hp.2
    have hlater : ∀ t ∈ (k s).moments (e s), R s t := by
      intro t ht
      rcases hfirst t ht with rfl | h
      · exact hp.1
      · exact htrans hp.1 h
    refine ⟨List.pairwise_cons.2 ⟨hlater, hpairs⟩, fun t ht => ?_⟩
    exact (List.mem_cons.1 ht).imp_right (hlater t)

/-- What holds of the beginning and goes on holding from step to step holds in the end. -/
theorem since {p : Process σ α} (hp : p.Along R Q s) (hP : ∀ t u, P t → R t u → P u) (hs : P s) :
    p.Along R (fun o t => Q o t ∧ P t) s := by
  induction p generalizing s with
  | done a => exact ⟨hp, hs⟩
  | crash m => exact ⟨hp, hs⟩
  | step e k ih => exact ⟨hp.1, ih s hp.2 (hP _ _ hs hp.1)⟩

/-- What a process promises along its run holds where the run ends. -/
theorem run {p : Process σ α} (hp : p.Along R Q s) : Q (p.run s).1 (p.run s).2 := by
  induction p generalizing s with
  | done a => exact hp
  | crash m => exact hp
  | step e k ih => exact ih s hp.2

end Along

/-- Steps that keep something keep it along a run. -/
theorem Steps.along {p : Process σ α} (hp : p.Steps S) (hP : ∀ s t, P s → S s t → R s t ∧ P t)
    (hs : P s) : p.Along R (fun _ => P) s := by
  induction p generalizing s with
  | done a => exact hs
  | crash m => exact hs
  | step e k ih =>
    obtain ⟨hR, hnext⟩ := hP s (e s) hs (hp.1 s)
    exact ⟨hR, ih s (hp.2 s) hnext⟩

/-! ## Hosting -/

/-- Going on from an answer is going on from an outcome. -/
theorem bind_eq_caught (p : Process σ α) (f : α → Process σ β) :
    p >>= f = p.caught.bind fun
      | .value a => f a
      | .crashed m => crash m := by
  induction p with
  | done a => rfl
  | crash m => rfl
  | step e k ih => exact congrArg (step e) (funext ih)

theorem steps_caught {p : Process σ α} (h : p.Steps S) : p.caught.Steps S := by
  induction p with
  | done a => trivial
  | crash m => trivial
  | step e k ih => exact ⟨h.1, fun s => ih s (h.2 s)⟩

/-- **Hosting a body**: the process runs it at most once, and makes only `S`-steps of its own. -/
inductive Hosts (S : σ → σ → Prop) (body : Process σ β) : Process σ α → Prop
  /-- The body does not run. -/
  | never {p : Process σ α} (steps : p.Steps S) : Hosts S body p
  /-- The body runs later. -/
  | step {effect : σ → σ} {resume : σ → Process σ α} (before : ∀ s, S s (effect s))
      (later : ∀ s, Hosts S body (resume s)) : Hosts S body (.step effect resume)
  /-- The body runs now. -/
  | runs {f : Outcome β → Process σ α} (after : ∀ o, (f o).Steps S) : Hosts S body (body.caught.bind f)

namespace Hosts

variable {body : Process σ β} {p : Process σ α}

/-- Running the body and going on from its answer. -/
theorem body_bind {f : β → Process σ α} (hf : ∀ b, (f b).Steps S) : Hosts S body (body >>= f) := by
  rw [bind_eq_caught]
  refine .runs fun o => ?_
  cases o with
  | value b => exact hf b
  | crashed m => trivial

/-- A body hosts itself. -/
theorem itself : Hosts S body body := by
  have hhosts : Hosts S body (body >>= Process.done) := body_bind fun _ => .pure _
  rwa [show body >>= Process.done = body from bind_done body] at hhosts

/-- A process that hosts the body may take `S`-steps before it. -/
theorem after_steps {q : Process σ γ} {f : γ → Process σ α} (hq : q.Steps S)
    (hf : ∀ c, Hosts S body (f c)) : Hosts S body (q >>= f) := by
  induction q with
  | done c => exact hf c
  | crash m => exact .never trivial
  | step e k ih => exact .step hq.1 fun s => ih s (hq.2 s)

/-- A process that hosts the body may take `S`-steps after it. -/
theorem bind {f : α → Process σ γ} (hp : Hosts S body p) (hf : ∀ a, (f a).Steps S) :
    Hosts S body (p >>= f) := by
  induction hp with
  | never hsteps => exact .never (hsteps.bind hf)
  | step hbefore _ ih => exact .step hbefore ih
  | @runs g hafter =>
    have hassoc : body.caught.bind g >>= f = body.caught.bind fun o => (g o).bind f := bind_assoc' ..
    rw [hassoc]
    exact .runs fun o => (hafter o).bind hf

/-- A process that hosts the body may take `S`-steps on the way out. -/
theorem onExit {last : Process σ Unit} (hp : Hosts S body p) (hlast : last.Steps S) :
    Hosts S body (p.onExit last) := by
  induction hp with
  | never hsteps => exact .never (hsteps.onExit hlast)
  | step hbefore _ ih => exact .step hbefore ih
  | @runs f hafter =>
    have hassoc : (body.caught.bind f).onExit last = body.caught.bind fun o => (f o).onExit last :=
      (safe_caught body).onExit_bind f last
    rw [hassoc]
    exact .runs fun o => (hafter o).onExit hlast

/-- A process that hosts the body hosts it with its crashes caught. -/
theorem caught (hp : Hosts S body p) : Hosts S body p.caught := by
  have hassoc : ∀ (q : Process σ β) (f : Outcome β → Process σ α),
      (q.caught.bind f).caught = q.caught.bind fun o => (f o).caught := by
    intro q f
    induction q with
    | done b => rfl
    | crash m => rfl
    | step e k ih => exact congrArg (Process.step e) (funext ih)
  induction hp with
  | never hsteps => exact .never (steps_caught hsteps)
  | step hbefore _ ih => exact .step hbefore ih
  | @runs f hafter =>
    rw [hassoc]
    exact .runs fun o => steps_caught (hafter o)

/-- **A host of a host** of the body hosts the body. -/
theorem trans {inner : Process σ γ} (hp : Hosts S inner p) (hinner : Hosts S body inner) :
    Hosts S body p := by
  induction hp with
  | never hsteps => exact .never hsteps
  | step hbefore _ ih => exact .step hbefore ih
  | runs hafter => exact hinner.caught.bind hafter

/-- A process whose body makes only `S`-steps makes only `S`-steps. -/
theorem steps (hp : Hosts S body p) (hbody : body.Steps S) : p.Steps S := by
  induction hp with
  | never hsteps => exact hsteps
  | step hbefore _ ih => exact ⟨hbefore, ih⟩
  | runs hafter => exact (steps_caught hbody).bind hafter

/-- **Along a run of a host**: what its own steps keep holds up to the body or to the end, and what they
    keep after the body holds from there on. -/
theorem along {P' : σ → Prop} (hp : Hosts S body p) (hbefore : ∀ s t, P s → S s t → R s t ∧ P t)
    (hafter : ∀ s t, P' s → S s t → R s t ∧ P' t) (hbody : ∀ s, P s → body.Along R (fun _ => P') s)
    (hs : P s) : p.Along R (fun _ t => P t ∨ P' t) s := by
  induction hp generalizing s with
  | never hsteps => exact (hsteps.along hbefore hs).mono fun _ _ => .inl
  | step hstep _ ih =>
    obtain ⟨hR, hnext⟩ := hbefore _ _ hs (hstep s)
    exact ⟨hR, ih s hnext⟩
  | runs hsteps =>
    refine (hbody s hs).caught.bind (fun o t ht => ?_) fun m t ht => ?_
    · obtain ⟨_, -, ht⟩ := ht
      exact ((hsteps o).along hafter ht).mono fun _ _ => .inr
    · obtain ⟨o', ho, -⟩ := ht
      cases ho

/-- **A run of a host**: the body does not run, or it runs once with `S`-steps before and after. -/
theorem run (hp : Hosts S body p) (hrefl : ∀ s, S s s) (htrans : ∀ {s t u}, S s t → S t u → S s u) (s : σ) :
    S s (p.run s).2 ∨ ∃ s₁ o s₂, S s s₁ ∧ body.run s₁ = (o, s₂) ∧ S s₂ (p.run s).2 := by
  induction hp generalizing s with
  | never hsteps => exact .inl (hsteps.run hrefl htrans s)
  | step hbefore _ ih =>
    rcases ih s _ with hrun | ⟨s₁, o, s₂, h₁, hbody, h₂⟩
    · exact .inl (htrans (hbefore s) hrun)
    · exact .inr ⟨s₁, o, s₂, htrans (hbefore s) h₁, hbody, h₂⟩
  | @runs f hafter =>
    refine .inr ⟨s, _, _, hrefl s, rfl, ?_⟩
    rw [run_bind', run_caught]
    exact (hafter _).run hrefl htrans _

end Hosts

end Process

/-! ## The base executor -/

/-- **An executor that hosts** the bodies of a context's phases. -/
structure Executor.Hosts (S : World ε → World ε → Prop) (c : Context) (x : Executor ε) : Prop where
  execute : ∀ {κ : Type} (phase : Phase) (body : Body ε κ),
    Process.Hosts S body (x.execute c phase body)

/-- **A store that keeps to `S`** in whatever it does. -/
structure StoreAdapter.Keeps (S : World ε → World ε → Prop) (store : StoreAdapter ε) : Prop where
  get : ∀ key, (store.get key).Steps S
  begin : store.begin.Steps S
  insert : ∀ key data isFinal txn, ((store.insert key data isFinal).run txn).Steps S
  conclude : ∀ txn answer, (store.conclude txn answer).Steps S

namespace Executor

variable {S : World ε → World ε → Prop} {store : StoreAdapter ε}

/-- Recording a body's text hosts the body. -/
theorem hosts_runAndRecord (hstore : store.Keeps S) (key : RecordKey) (phase : Phase) (body : Body ε κ) :
    Process.Hosts S body (runAndRecord store key phase body) := by
  cases hmode : phase.transactional with
  | true =>
    rw [runAndRecord_transactional store key body hmode]
    refine .after_steps hstore.begin fun begun => ?_
    split
    · exact .never trivial
    · exact .never trivial
    · next txn =>
      refine .body_bind fun answer => ?_
      obtain ⟨text, k⟩ := answer
      cases text with
      | error e =>
        refine .bind (hstore.conclude ..) fun result => ?_
        cases result <;> exact .pure _
      | ok data =>
        exact .bind (hstore.insert ..) fun _ => .bind (hstore.conclude ..) fun _ => .pure _
  | false =>
    rw [runAndRecord_plain store key body hmode]
    refine .body_bind fun answer => ?_
    obtain ⟨text, k⟩ := answer
    cases text with
    | error e => exact .pure _
    | ok data =>
      refine .bind hstore.begin fun begun => ?_
      split
      · exact .pure _
      · exact .pure _
      · exact .bind (hstore.insert ..) fun _ => .bind (hstore.conclude ..) fun _ => .pure _

/-- What becomes of an error of the recording is looking and telling. -/
theorem steps_resolve (hget : ∀ key, (store.get key).Steps S)
    (htell : ∀ e, (Action.tell e : Action ε Unit).Steps S) (key : RecordKey) (phase : Phase) (e : Error) :
    (resolve store key phase e).Steps S := by
  unfold resolve
  split
  · refine .bind (hget key) fun found => ?_
    split
    · exact .pure _
    · exact .pure _
    · exact .bind (htell _) fun _ => .pure _
  · exact .pure _

/-- **The base executor hosts its bodies**, over any store. -/
theorem hosts_base (hstore : store.Keeps S) (htell : ∀ e, (Action.tell e : Action ε Unit).Steps S)
    (c : Context) : (base store).Hosts S c := by
  refine ⟨fun phase body => ?_⟩
  refine .after_steps (hstore.get _) fun found => ?_
  split
  · exact .never (.pure _)
  · exact .never ((htell _).bind fun _ => .pure _)
  · split
    · exact .never (.pure _)
    · refine (hosts_runAndRecord hstore _ phase body).bind fun answer => ?_
      obtain ⟨text, k⟩ := answer
      cases text with
      | error e => exact (steps_resolve hstore.get htell _ phase e).bind fun _ => .pure _
      | ok data => exact .pure _

end Executor

/-- **A call keeps to `S`** if its body does and so do entering and leaving its phase. -/
theorem Executor.Hosts.steps_run [EngineFailure β] {S : World ε → World ε → Prop} {c : Context}
    {x : Executor ε} (hx : x.Hosts S c) (hrefl : ∀ w, S w w) {phase : Phase}
    (henter : ∀ w s, (w.context c.id).enter c.process phase = .ok s → S w (w.modifyContext c.id fun _ => s))
    (hleave : ∀ w, S w (w.modifyContext c.id (·.leave phase))) (codec : Codec γ)
    {body : Action ε (Except β γ)} (hbody : body.Steps S) : (c.run x phase codec body).Steps S := by
  have herase : (Context.erase phase codec body).Steps S := by
    refine .bind hbody fun answer => ?_
    cases answer with
    | error failure => exact .pure _
    | ok a =>
      dsimp only
      split <;> exact .pure _
  have hentering : (c.enter phase : Action ε (Except Error Unit)).Steps S := by
    refine .atomically fun w => ?_
    split
    · exact hrefl w
    · exact henter w _ ‹_›
  unfold Context.run
  split
  · exact .pure _
  · refine .bind hentering fun entered => ?_
    cases entered with
    | error e => exact .pure _
    | ok u =>
      exact .bind (.onExit ((hx.execute phase _).steps herase) (.change hleave)) fun _ => .pure _

/-- **A store in memory** keeps to whatever changes of its records and its clock keep to. -/
theorem MemoryStore.keeps_adapter {S : World ε → World ε → Prop} {records : Part ε MemoryStore}
    {stamps : Action ε Instant} (hrefl : ∀ w, S w w)
    (hrecords : ∀ (w : World ε) s, S w { w with env := records.set s w.env }) (hstamps : stamps.Steps S) :
    (MemoryStore.adapter records stamps).Keeps S where
  get key := .look hrefl _
  begin := .pure _
  insert key data isFinal pending := by
    refine .bind (.look hrefl _) fun taken => ?_
    split
    · exact .pure _
    · exact hstamps.bind fun _ => .pure _
  conclude pending answer := by
    cases answer with
    | error e => exact .pure _
    | ok u => exact .atomically fun w => hrecords w _

/-! ## The extensions of the library -/

/-- **An extension that stands by**: it lets executions run, and makes only `S`-steps of its own. -/
structure Interceptor.StandsBy (S : World ε → World ε → Prop) (i : Interceptor ε) : Prop where
  created : ∀ x c, (i.created x c).Steps S
  closed : ∀ x c, (i.closed x c).Steps S
  wrap : ∀ {κ : Type} (x : Executor ε) (c : Context) (phase : Phase) (body : Body ε κ),
    Process.Hosts S (x.execute c phase body) ((i.wrap x).execute c phase body)

/-- **The extension that logs** stands by if its log goes unnoticed. -/
theorem Interceptor.standsBy_recording {S : World ε → World ε → Prop} (r : Recorder) {log : Part ε CallLog}
    (hlog : ∀ f, (Action.change log f : Action ε Unit).Steps S) : (r.interceptor log).StandsBy S where
  created _ _ := .bind (hlog _) fun _ => .pure _
  closed _ _ := .bind (hlog _) fun _ => .pure _
  wrap _ _ _ _ := .after_steps (hlog _) fun _ => .itself

/-- **The extension that counts** stands by if its counters go unnoticed. -/
theorem Interceptor.standsBy_counting {S : World ε → World ε → Prop} {part : Part ε Stats}
    (hpart : ∀ f, (Action.change part f : Action ε Unit).Steps S) : (Stats.interceptor part).StandsBy S where
  created _ _ := .bind (hpart _) fun _ => .pure _
  closed _ _ := .bind (hpart _) fun _ => .pure _
  wrap _ _ _ _ := .after_steps (hpart _) fun _ => .body_bind fun _ => .bind (hpart _) fun _ => .pure _

namespace PropertyBag

variable {τ : Type} {Value : τ → Type} [DecidableEq τ] {t : τ}

/-- **Bags that agree** in all slots but that of one key. -/
def AgreesBut (key : PropertyKey t) (bag bag' : PropertyBag Value) : Prop :=
  ∀ name t', key.qualifiedName ≠ name ∨ t ≠ t' → find name t' bag'.slots = find name t' bag.slots

theorem agreesBut_set (key : PropertyKey t) (bag : PropertyBag Value) (v : Value t) :
    AgreesBut key bag (bag.set key v) := fun _ _ h => find_put_ne h v bag.slots

theorem find_drop_ne {name name' : String} {t t' : τ} (h : name ≠ name' ∨ t ≠ t')
    (slots : List (PropertySlot Value)) : find name' t' (drop name t slots) = find name' t' slots := by
  induction slots with
  | nil => rfl
  | cons s rest ih =>
    unfold drop at ih ⊢
    rw [List.filter_cons]
    by_cases hs : s.name = name ∧ s.type = t
    · have hskipped : find name' t' (s :: rest) = find name' t' rest := by
        by_cases hn : s.name = name'
        · have ht : s.type ≠ t' := fun ht => h.elim (· (hs.1.symm.trans hn)) (· (hs.2.symm.trans ht))
          rw [find, if_pos hn, dif_neg ht]
        · rw [find, if_neg hn]
      rw [if_neg (by simp [hs]), ih, hskipped]
    · rw [if_pos (by simpa only [Bool.not_eq_true', decide_eq_false_iff_not] using hs), find, find, ih]

/-- A slot that has been erased is empty. -/
theorem get?_erase_self (bag : PropertyBag Value) (key : PropertyKey t) : (bag.erase key).get? key = none := by
  obtain ⟨slots⟩ := bag
  show find key.qualifiedName t (drop key.qualifiedName t slots) = none
  induction slots with
  | nil => rfl
  | cons s rest ih =>
    unfold drop at ih ⊢
    rw [List.filter_cons]
    by_cases hs : s.name = key.qualifiedName ∧ s.type = t
    · rw [if_neg (by simp [hs]), ih]
    · rw [if_pos (by simpa only [Bool.not_eq_true', decide_eq_false_iff_not] using hs), find]
      split
      · rw [dif_neg fun ht => hs ⟨‹_›, ht⟩, ih]
      · exact ih

theorem agreesBut_erase (key : PropertyKey t) (bag : PropertyBag Value) : AgreesBut key bag (bag.erase key) :=
  fun _ _ h => find_drop_ne h bag.slots

end PropertyBag

/-- **Steps that take no notice** of the trace and of the spans that contexts keep. -/
structure OverlooksSpans (S : World ε → World ε → Prop) : Prop where
  trace : ∀ (w : World ε) t, S w { w with trace := t }
  spans : ∀ (w : World ε) id bag, PropertyBag.AgreesBut Monitoring.spanKey (w.context id).properties bag →
    S w (w.modifyContext id fun s => { s with properties := bag })

namespace OverlooksSpans

variable {S : World ε → World ε → Prop} (hS : OverlooksSpans S)
include hS

theorem tell (e : Event) : (Action.tell e : Action ε Unit).Steps S := .change fun w => hS.trace w _

/-- Going inside a span is a step that goes unnoticed. -/
theorem within (s : Span) {a : Action ε α} (ha : a.Steps S) : (Action.within s a).Steps S :=
  .bind (.change fun w => hS.trace w _) fun _ => ha.onExit (.change fun w => hS.trace w _)

/-- Bodies are hosted inside a span as they are outside. -/
theorem hosts_within {body : Action ε β} {a : Action ε α} (s : Span) (ha : Process.Hosts S body a) :
    Process.Hosts S body (Action.within s a) :=
  .after_steps (.change fun w => hS.trace w _) fun _ => ha.onExit (.change fun w => hS.trace w _)

/-- The span of a context is found or made. -/
theorem contextSpan (c : Context) : (Monitoring.contextSpan c : Action ε Span).Steps S := by
  have hlook : (c.withProperties do return (← get).get? Monitoring.spanKey :
      Action ε (Option Span)).Steps S := .atomically fun w => hS.spans w c.id _ fun _ _ _ => rfl
  refine .bind hlook fun found => ?_
  cases found with
  | some s => exact .pure s
  | none =>
    have hset : ∀ (fresh : Span) (bag : Properties), PropertyBag.AgreesBut Monitoring.spanKey bag
        ((PropertyBag.getOrInit Monitoring.spanKey (pure fresh) : StateM Properties Span).run bag).2 := by
      intro fresh bag
      rw [PropertyBag.getOrInit, PropertyBag.run_update]
      exact PropertyBag.agreesBut_set _ _ _
    exact .bind (.atomically fun w => hS.trace w _) fun fresh =>
      .atomically fun w => hS.spans w c.id _ (hset fresh _)

/-- **The extension that traces** stands by. -/
theorem standsBy_monitoring : (Monitoring.interceptor : Interceptor ε).StandsBy S where
  created _ c := .bind (hS.contextSpan c) fun s => .bind (hS.within s (hS.tell _)) fun _ => .pure _
  closed _ c := .bind (hS.contextSpan c) fun s => .bind (hS.within s (hS.tell _)) fun _ =>
    .bind (.atomically fun w => hS.spans w c.id _ (PropertyBag.agreesBut_erase _ _)) fun _ => .pure _
  wrap x c phase body := by
    refine .after_steps (hS.contextSpan c) fun parent => ?_
    refine .after_steps (.atomically fun w => hS.trace w _) fun span => hS.hosts_within span ?_
    refine .after_steps (hS.tell _) fun _ => ?_
    have hrest : Process.Hosts S (x.execute c phase body) (do
        let answer ← x.execute c phase body
        Action.tell (Monitoring.outcome answer.1)
        return answer) :=
      .body_bind fun answer => .bind (hS.tell _) fun _ => .pure _
    dsimp only
    split
    · exact .after_steps (hS.tell _) fun _ => hrest
    · exact hrest

end OverlooksSpans

/-- **Steps that take no notice** of the trace and the properties of contexts. -/
structure Overlooks (S : World ε → World ε → Prop) : Prop where
  trace : ∀ (w : World ε) t, S w { w with trace := t }
  properties : ∀ (w : World ε) id bag, S w (w.modifyContext id fun s => { s with properties := bag })

/-- **The extensions of the library**, as far as what they keep for themselves and their sinks go
    unnoticed as well. -/
inductive Interceptor.Stock (S : World ε → World ε → Prop) : Interceptor ε → Prop
  | recording (r : Recorder) (log : Part ε CallLog)
      (unnoticed : ∀ (w : World ε) l, S w { w with env := log.set l w.env }) : Stock S (r.interceptor log)
  | counting (part : Part ε Stats) (unnoticed : ∀ (w : World ε) l, S w { w with env := part.set l w.env }) :
      Stock S (Stats.interceptor part)
  | monitoring : Stock S Monitoring.interceptor
  | publishing (sink : Sink ε) (unnoticed : ∀ messages, (sink.sendAll messages).Steps S) :
      Stock S (Publisher.interceptor sink)

/-- **What follows a body that publishes**: the queue is taken, and sent if the body has succeeded. -/
def Publisher.sending (sink : Sink ε) (c : Context) (answer : Except Error String × κ) :
    Action ε (Except Error String × κ) := do
  let waiting ← takeQueue c
  match answer.1 with
  | .error e => return (.error e, answer.2)
  | .ok data =>
    if waiting.isEmpty then return (.ok data, answer.2)
    match ← sink.sendAll waiting with
    | .error e => return (.error (.publish e), answer.2)
    | .ok () => return (.ok data, answer.2)

theorem Publisher.flushing_eq (sink : Sink ε) (c : Context) (body : Action ε (Except Error String × κ)) :
    flushing sink c body = body >>= sending sink c := rfl

namespace Overlooks

variable {S : World ε → World ε → Prop} (hS : Overlooks S)
include hS

/-- What overlooks properties overlooks spans. -/
theorem spans : OverlooksSpans S where
  trace := hS.trace
  spans w id bag _ := hS.properties w id bag

theorem tell (e : Event) : (Action.tell e : Action ε Unit).Steps S := hS.spans.tell e

theorem withProperties (c : Context) (f : StateM Properties α) : (c.withProperties f : Action ε α).Steps S :=
  .atomically fun w => hS.properties w c.id _

theorem contextSpan (c : Context) : (Monitoring.contextSpan c : Action ε Span).Steps S :=
  hS.spans.contextSpan c

/-- Sending what waits. -/
theorem sending {sink : Sink ε} (hsink : ∀ messages, (sink.sendAll messages).Steps S) (c : Context)
    (answer : Except Error String × κ) : (Publisher.sending sink c answer).Steps S := by
  obtain ⟨text, k⟩ := answer
  refine .bind (hS.withProperties c _) fun waiting => ?_
  cases text with
  | error e => exact .pure _
  | ok data =>
    dsimp only
    split
    · exact .pure _
    · refine .bind (hsink waiting) fun sent => ?_
      cases sent <;> exact .pure _

/-- **The extensions of the library go on hosting.** -/
theorem hosts_wrap {i : Interceptor ε} (hi : i.Stock S) {c : Context} {x : Executor ε} (hx : x.Hosts S c) :
    (i.wrap x).Hosts S c := by
  refine ⟨fun phase body => ?_⟩
  cases hi with
  | recording r log unnoticed =>
    have hlog : ∀ f, (Action.change log f : Action ε Unit).Steps S := fun f => .change fun w => unnoticed w _
    exact ((Interceptor.standsBy_recording r hlog).wrap x c phase body).trans (hx.execute phase body)
  | counting part unnoticed =>
    have hpart : ∀ f, (Action.change part f : Action ε Unit).Steps S := fun f => .change fun w => unnoticed w _
    exact ((Interceptor.standsBy_counting hpart).wrap x c phase body).trans (hx.execute phase body)
  | monitoring => exact (hS.spans.standsBy_monitoring.wrap x c phase body).trans (hx.execute phase body)
  | publishing sink unnoticed =>
    refine .after_steps (hS.withProperties c _) fun strategy => ?_
    cases strategy with
    | none => exact hx.execute phase body
    | some s =>
      dsimp only
      split
      · rw [Publisher.flushing_eq]
        exact (hx.execute phase _).trans (.body_bind (hS.sending unnoticed c))
      · exact hx.execute phase body

end Overlooks

/-- **The chain of a provider with extensions of the library hosts its bodies**, over any store. -/
theorem Provider.hosts_executor {S : World ε → World ε → Prop} (hS : Overlooks S) {p : Provider ε}
    (hstore : p.store.Keeps S) (h : ∀ i ∈ p.interceptors, i.Stock S) (c : Context) :
    p.executor.Hosts S c := by
  refine Executor.compose_induction (Executor.hosts_base hstore hS.tell c) fun i hi x hx => ?_
  exact hS.hosts_wrap (h i hi) hx

end Idempotence
