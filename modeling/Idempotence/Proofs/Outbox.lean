/-
  The outbox — what stands between a message and the sink.

  A context that is bound to a strategy queues its messages and sends them in one delivery at the end of the
  body of a phase that the strategy names: the final phase, or the current one, whichever it is.  That is
  just before the output of that phase is recorded.

  1. **Mail** — what publishing goes by in a context.  Where messages wait at all, a publish either lets
     the message wait or changes nothing (`Context.publish_cases`).

  2. **Outboxes** — the records of an instance, what its sink has got, and a BOOK of the messages that
     were accepted, written by `Outbox.publish` and by nobody else.  A step is `Aloof` if it leaves all
     of these alone, and the mail of every context.  A sink is `Atomic` if it delivers all or nothing;
     the sink in memory is, and so is one that may be down.

  3. **One execution** — an executor over a store in memory does nothing of its own but aloof steps, and
     it records the text of a body at once or not at all (`Outbox.Conveyed`).  Extensions beside the one
     that publishes leave that as it is, and the one that publishes adds the sending to the bodies of the
     phases that are named (`Outbox.Serves.conveys`).
-/
import Idempotence.Proofs.ContextUse
import Idempotence.Publishing.Memory
import Idempotence.Testing.Faults

namespace Idempotence

variable {ε α κ : Type}

/-! ## What publishing goes by -/

/-- **What publishing goes by** in a context: its gate, its strategy, and the messages that wait. -/
structure Mail where
  gate : Gate
  strategy : Option PublishStrategy
  waiting : List Message

/-- The mail of a context. -/
def ContextState.mail (s : ContextState) : Mail where
  gate := s.gate
  strategy := s.properties.get? Publisher.binding
  waiting := (s.properties.get? Publisher.queue).getD []

/-- What still waits in a context. -/
def Context.waiting (c : Context) (w : World ε) : List Message := (w.context c.id).mail.waiting

namespace Publisher

/-- The world with other messages waiting in a context. -/
def requeue (c : Context) (waiting : List Message) (w : World ε) : World ε :=
  w.modifyContext c.id fun s => { s with properties := (w.context c.id).properties.set queue waiting }

/-- Looking for the strategy is a look, and nothing else. -/
theorem strategy?_eq (c : Context) :
    (strategy? c : Action ε (Option PublishStrategy)) =
      Process.look fun w => (w.context c.id).mail.strategy := by
  have hsame : ∀ w : World ε, w.modifyContext c.id (fun s => { s with
      properties := (w.context c.id).properties }) = w := fun w => World.modifyContext_eq_self rfl
  show Process.atomically (fun w : World ε => ((w.context c.id).mail.strategy, w.modifyContext c.id fun s =>
    { s with properties := (w.context c.id).properties })) = _
  simp only [hsame]
  rfl

/-- Putting a message behind those that wait is one step. -/
theorem enqueue_eq (c : Context) (m : Message) :
    (enqueue c m : Action ε Unit) =
      Process.atomically fun w => ((), requeue c (c.waiting w ++ [m]) w) := by
  unfold enqueue Context.withProperties
  congr 1
  funext w
  rw [PropertyBag.run_update]
  rfl

/-- Taking all messages that wait is one step. -/
theorem takeQueue_eq (c : Context) :
    (takeQueue c : Action ε (List Message)) =
      Process.atomically fun w => (c.waiting w, requeue c [] w) := by
  unfold takeQueue Context.withProperties
  congr 1
  funext w
  rw [PropertyBag.run_update]
  rfl

theorem run_strategy? (c : Context) (w : World ε) :
    (strategy? c : Action ε (Option PublishStrategy)).run w = (.value (w.context c.id).mail.strategy, w) := by
  rw [strategy?_eq, Process.run_look]

theorem run_enqueue (c : Context) (m : Message) (w : World ε) :
    (enqueue c m : Action ε Unit).run w =
      (.value (), requeue c ((w.context c.id).mail.waiting ++ [m]) w) := by
  rw [enqueue_eq, Process.run_atomically]
  rfl

theorem run_takeQueue (c : Context) (w : World ε) :
    (takeQueue c : Action ε (List Message)).run w =
      (.value (w.context c.id).mail.waiting, requeue c [] w) := by
  rw [takeQueue_eq, Process.run_atomically]
  rfl

/-- Putting messages in wait changes nothing else about the mail of a context. -/
theorem mail_requeue {c : Context} {w : World ε} (h : c.id < w.contexts.length) (waiting : List Message) :
    ((requeue c waiting w).context c.id).mail =
      ⟨(w.context c.id).mail.gate, (w.context c.id).mail.strategy, waiting⟩ := by
  have htype : PropertyType.queue ≠ PropertyType.strategy := nofun
  rw [requeue, World.context_modifyContext_self _ _ h]
  simp only [ContextState.mail, ContextState.gate, PropertyBag.get?_set_self, Option.getD_some,
    PropertyBag.get?_set_of_ne _ htype]

end Publisher

/-- **Publishing under a strategy that lets messages wait**: the message waits, if the strategy admits it
    now, or the publish is rejected and nothing changes. -/
theorem Context.publish_cases {c : Context} {w : World ε} {s : PublishStrategy} (sink : Sink ε) (m : Message)
    (hbound : (w.context c.id).mail.strategy = some s) (hs : s ≠ .inConsumer) :
    (∃ e, (c.publish sink m).run w = (.value (.error e), w)) ∨
      s.admits (w.context c.id).mail.gate.wasFinal (w.context c.id).mail.gate.active = .ok () ∧
        (c.publish sink m).run w =
          (.value (.ok ()), Publisher.requeue c ((w.context c.id).mail.waiting ++ [m]) w) := by
  unfold Context.publish
  simp only [Process.run_bind, Publisher.run_strategy?, hbound, Context.wasFinal, Context.currentPhase,
    Context.look, Process.run_look]
  cases hadmits : s.admits (w.context c.id).wasFinal ((w.context c.id).active.map (·.phase)) with
  | error misuse => exact .inl ⟨_, rfl⟩
  | ok u =>
    cases hdestination : m.checkDestination with
    | error e => exact .inl ⟨_, rfl⟩
    | ok u =>
      refine .inr ⟨hadmits, ?_⟩
      simp [Publisher.run_enqueue, hs]

/-- **The strategy for final phases** admits nothing once a final phase has been left. -/
theorem PublishStrategy.admits_inFinalPhase {wasFinal : Bool} {active : Option Phase}
    (h : inFinalPhase.admits wasFinal active = .ok ()) : wasFinal = false := by
  cases wasFinal with
  | false => rfl
  | true => cases h

/-- **The strategy for current phases** admits nothing outside of phases. -/
theorem PublishStrategy.admits_atEndOfCurrentPhase {wasFinal : Bool} :
    atEndOfCurrentPhase.admits wasFinal none ≠ .ok () := nofun

/-! ## Outboxes -/

/-- **The outbox of an instance**: its records, what its sink has got, and the book of the messages that
    have been accepted. -/
structure Outbox (ε : Type) where
  process : String
  key : String
  records : Part ε MemoryStore
  deliveries : Part ε Deliveries
  book : Part ε (List Message)
  sink : Sink ε
  records_deliveries : records.Apart deliveries
  records_book : records.Apart book
  deliveries_book : deliveries.Apart book

namespace Outbox

variable (o : Outbox ε)

/-- The records of the instance. -/
def ledger (w : World ε) : Ledger := o.records.ledger o.process o.key w

/-- What the sink has got so far. -/
def delivered (w : World ε) : Deliveries := o.deliveries.get w.env

/-- The messages that have been accepted so far. -/
def accepted (w : World ε) : List Message := o.book.get w.env

/-- **Publishes a message**, and enters it in the book if it is accepted. -/
def publish (c : Context) (m : Message) : Action ε (Except Error Unit) := do
  match ← c.publish o.sink m with
  | .error e => return .error e
  | .ok () =>
    Action.change o.book (· ++ [m])
    return .ok ()

/-- **A step that leaves all but the deliveries alone**: the records of the instance, the book, and what
    publishing goes by in the contexts there are. -/
structure Spares (w w' : World ε) : Prop where
  ledger : o.ledger w' = o.ledger w
  accepted : o.accepted w' = o.accepted w
  length : w.contexts.length ≤ w'.contexts.length
  mail : ∀ id < w.contexts.length, (w'.context id).mail = (w.context id).mail

/-- **An aloof step** leaves the deliveries alone as well. -/
structure Aloof (w w' : World ε) : Prop extends o.Spares w w' where
  delivered : o.delivered w' = o.delivered w

/-- **A sink that delivers all or nothing**: a transaction is in its deliveries exactly if it has
    answered so, and nothing else has changed that counts. -/
structure Atomic (sink : Sink ε) : Prop where
  spares : ∀ messages w, o.Spares w ((sink.sendAll messages).run w).2
  sent : ∀ messages w, ((sink.sendAll messages).run w).1 = .value (.ok ()) →
    o.delivered ((sink.sendAll messages).run w).2 = o.delivered w ++ [messages]
  refused : ∀ messages w, ((sink.sendAll messages).run w).1 ≠ .value (.ok ()) →
    o.delivered ((sink.sendAll messages).run w).2 = o.delivered w

variable {o}

theorem Spares.trans {w w' w'' : World ε} (h : o.Spares w w') (h' : o.Spares w' w'') : o.Spares w w'' where
  ledger := h'.ledger.trans h.ledger
  accepted := h'.accepted.trans h.accepted
  length := Nat.le_trans h.length h'.length
  mail id hid := (h'.mail id (Nat.lt_of_lt_of_le hid h.length)).trans (h.mail id hid)

theorem Aloof.refl (w : World ε) : o.Aloof w w := ⟨⟨rfl, rfl, Nat.le_refl _, fun _ _ => rfl⟩, rfl⟩

theorem Aloof.trans {w w' w'' : World ε} (h : o.Aloof w w') (h' : o.Aloof w' w'') : o.Aloof w w'' :=
  ⟨h.toSpares.trans h'.toSpares, h'.delivered.trans h.delivered⟩

/-- A change of a context that leaves its mail as it is. -/
theorem aloof_modifyContext (w : World ε) (id : Nat) {f : ContextState → ContextState}
    (hf : ∀ s, (f s).mail = s.mail) : o.Aloof w (w.modifyContext id f) := by
  refine ⟨⟨rfl, rfl, Nat.le_of_eq (w.length_modifyContext id f).symm, fun j _ => ?_⟩, rfl⟩
  rw [World.context_modifyContext]
  split
  · exact hf _
  · rfl

theorem aloof_tell (e : Event) : (Action.tell e : Action ε Unit).Steps o.Aloof :=
  .change fun _ => ⟨⟨rfl, rfl, Nat.le_refl _, fun _ _ => rfl⟩, rfl⟩

/-! ## Sinks -/

/-- **The sink in memory** delivers all or nothing. -/
theorem atomic_memory : o.Atomic (Sink.memory o.deliveries) where
  spares messages w := by
    refine ⟨?_, ?_, Nat.le_refl _, fun _ _ => rfl⟩
    · exact congrArg (MemoryStore.ledger · o.process o.key) (o.records_deliveries.get_set_left _ _)
    · exact o.deliveries_book.get_set_right _ _
  sent messages w _ := o.deliveries.get_set _ _
  refused messages w h := absurd rfl h

/-- A sink that delivers all or nothing does so even if it may be down. -/
theorem Atomic.onSink {sink : Sink ε} (h : o.Atomic sink) (faults : Part ε Faults) :
    o.Atomic (Faults.onSink faults sink) := by
  have hrun : ∀ messages w, ((Faults.onSink faults sink).sendAll messages).run w =
      if (faults.get w.env).sink then
        (.value (.error (.sink s!"sink down ({messages.length} messages)")), w)
      else (sink.sendAll messages).run w := by
    intro messages w
    simp only [Faults.onSink, Action.look, Process.run_bind, Process.run_look]
    split <;> rfl
  constructor
  · intro messages w
    rw [hrun]
    split
    · exact (Aloof.refl w).toSpares
    · exact h.spares messages w
  · intro messages w
    rw [hrun]
    split
    · rintro ⟨⟩
    · exact h.sent messages w
  · intro messages w
    rw [hrun]
    split
    · exact fun _ => rfl
    · exact h.refused messages w

/-! ## One execution -/

/-- The world with one more record of the instance. -/
def store (o : Outbox ε) (id : String) (r : StoredRecord) (w : World ε) : World ε :=
  o.records.store ⟨o.process, o.key, id⟩ r w

theorem ledger_store (id : String) (r : StoredRecord) (w : World ε) :
    o.ledger (o.store id r w) = (o.ledger w).put id r :=
  o.records.ledger_store ..

/-- A new record changes nothing about what has been accepted. -/
theorem accepted_store (id : String) (r : StoredRecord) (w : World ε) :
    o.accepted (o.store id r w) = o.accepted w := o.records_book.get_set_right ..

theorem delivered_store (id : String) (r : StoredRecord) (w : World ε) :
    o.delivered (o.store id r w) = o.delivered w := o.records_deliveries.get_set_right ..

/-- Aloof steps do not mind a record. -/
theorem Aloof.store {w w' : World ε} (h : o.Aloof w w') (id : String) (r : StoredRecord) :
    o.Aloof (o.store id r w) (o.store id r w') where
  ledger := by rw [ledger_store, ledger_store, h.ledger]
  accepted := by rw [accepted_store, accepted_store, h.accepted]
  delivered := by rw [delivered_store, delivered_store, h.delivered]
  length := h.length
  mail := h.mail

variable (o) in
/-- **A context bound to the outbox**: it belongs to the instance, and publishes by a strategy. -/
structure Binds (s : PublishStrategy) (c : Context) (w : World ε) : Prop where
  process_eq : c.process = o.process
  key_eq : c.key = o.key
  created : c.id < w.contexts.length
  strategy : (w.context c.id).mail.strategy = some s

variable {s : PublishStrategy}

theorem Binds.spared {c : Context} {w w' : World ε} (h : o.Binds s c w) (hw : o.Spares w w') :
    o.Binds s c w' where
  process_eq := h.process_eq
  key_eq := h.key_eq
  created := Nat.lt_of_lt_of_le h.created hw.length
  strategy := (congrArg Mail.strategy (hw.mail c.id h.created)).trans h.strategy

/-- The environment does not matter. -/
theorem Binds.modifyEnv {c : Context} {w : World ε} (h : o.Binds s c w) (f : ε → ε) :
    o.Binds s c (w.modifyEnv f) :=
  ⟨h.process_eq, h.key_eq, h.created, h.strategy⟩

variable (o) in
/-- **What an execution does with a body**: the body does not run; or it runs, since its key is free, and
    fails, or finds the key taken; or its text is recorded at once. -/
inductive Conveyed (c : Context) (phase : Phase) (body : Body ε κ) (w : World ε) : World ε → Prop
  | idle {w' : World ε} (aloof : o.Aloof w w') : Conveyed c phase body w w'
  | failed {w₁ w₂ w' : World ε} {ending : Outcome (Except Error String × κ)} (before : o.Aloof w w₁)
      (free : o.ledger w₁ phase.id = none) (run : body.run w₁ = (ending, w₂))
      (failure : ∀ data k, ending ≠ .value (.ok data, k)) (after : o.Aloof w₂ w') :
      Conveyed c phase body w w'
  | raced {w₁ w₂ w' : World ε} {ending : Outcome (Except Error String × κ)} (before : o.Aloof w w₁)
      (free : o.ledger w₁ phase.id = none) (run : body.run w₁ = (ending, w₂))
      (taken : o.ledger w₂ phase.id ≠ none) (after : o.Aloof w₂ w') : Conveyed c phase body w w'
  | recorded {w₁ w₂ w' : World ε} {data : String} {k : κ} {r : StoredRecord} (before : o.Aloof w w₁)
      (fresh : c.recordedFinal = none) (run : body.run w₁ = (.value (.ok data, k), w₂))
      (free : o.ledger w₂ phase.id = none) (final : r.isFinal = phase.isFinal)
      (after : o.Aloof (o.store phase.id r w₂) w') : Conveyed c phase body w w'

/-- An execution may have aloof steps around it. -/
theorem Conveyed.between {c : Context} {phase : Phase} {body : Body ε κ} {w w₁ w₂ w' : World ε}
    (hbefore : o.Aloof w w₁) (h : o.Conveyed c phase body w₁ w₂) (hafter : o.Aloof w₂ w') :
    o.Conveyed c phase body w w' := by
  cases h with
  | idle aloof => exact .idle ((hbefore.trans aloof).trans hafter)
  | failed before free run failure after =>
    exact .failed (hbefore.trans before) free run failure (after.trans hafter)
  | raced before free run taken after =>
    exact .raced (hbefore.trans before) free run taken (after.trans hafter)
  | recorded before fresh run free final after =>
    exact .recorded (hbefore.trans before) fresh run free final (after.trans hafter)

variable (o) in
/-- **An executor that conveys** the bodies of contexts under a strategy in the form that `f` gives them. -/
structure Conveys (s : PublishStrategy) (f : {κ : Type} → Context → Phase → Body ε κ → Body ε κ)
    (x : Executor ε) : Prop where
  execute : ∀ {κ : Type} {c : Context} {w : World ε} (phase : Phase) (body : Body ε κ), o.Binds s c w →
    o.Conveyed c phase (f c phase body) w ((x.execute c phase body).run w).2

/-- **The base executor** conveys bodies as they are. -/
theorem conveys_base {stamps : Action ε Instant} (hstamps : stamps.Steps o.Aloof) (hsafe : stamps.Safe) :
    o.Conveys s (fun _ _ body => body) (Executor.base (MemoryStore.adapter o.records stamps)) := by
  refine ⟨fun {κ c w} phase body hc => ?_⟩
  -- An error ends in `resolve`, whatever else is handed on.
  have hresolved : ∀ (e : Error) (k : κ) (w : World ε), o.Aloof w ((do
      return (← Executor.resolve (MemoryStore.adapter o.records stamps) ⟨o.process, o.key, phase.id⟩ phase e,
        some k) : Action ε (Answer κ)).run w).2 := by
    intro e k w
    have hsteps : (Executor.resolve (MemoryStore.adapter o.records stamps)
        ⟨o.process, o.key, phase.id⟩ phase e).Steps o.Aloof :=
      Executor.steps_resolve (fun _ => .look Aloof.refl _) aloof_tell _ phase e
    exact (hsteps.bind fun _ => .pure _).run Aloof.refl Aloof.trans w
  rw [MemoryStore.execute_adapter, hc.process_eq, hc.key_eq]
  simp only [Action.look, Process.run_bind, Process.run_look]
  cases hrecord : (o.records.get w.env).get? ⟨o.process, o.key, phase.id⟩ with
  | some r => exact .idle ((aloof_tell _).run Aloof.refl Aloof.trans w)
  | none =>
    cases hfresh : c.recordedFinal with
    | some final => exact .idle (Aloof.refl w)
    | none =>
      simp only [Process.run_bind]
      cases hbody : body.run w with
      | mk ending w₁ =>
        rcases ending with ⟨text, k⟩ | m
        · cases text with
          | error e => exact .failed (Aloof.refl w) hrecord hbody (by rintro _ _ ⟨⟩) (hresolved e k w₁)
          | ok data =>
            simp only
            rw [Process.run_bind]
            cases hrecord₁ : (o.records.get w₁.env).get? ⟨o.process, o.key, phase.id⟩ with
            | some r =>
              have htaken : o.ledger w₁ phase.id = some r := hrecord₁
              rw [MemoryStore.record_taken hrecord₁]
              exact .raced (Aloof.refl w) hrecord hbody (by simp [htaken]) (hresolved _ k w₁)
            | none =>
              obtain ⟨createdAt, w₂, hstamp⟩ := hsafe.run w₁
              have hw₂ := hstamps.run Aloof.refl Aloof.trans w₁
              rw [hstamp] at hw₂
              have hfree : (o.records.get w₂.env).get? ⟨o.process, o.key, phase.id⟩ = none :=
                (congrFun hw₂.ledger phase.id).trans hrecord₁
              rw [MemoryStore.run_record hrecord₁ hstamp hfree]
              exact .recorded (Aloof.refl w) hfresh hbody hrecord₁ rfl (hw₂.store _ _)
        · exact .failed (Aloof.refl w) hrecord hbody (by rintro _ _ ⟨⟩) (Aloof.refl w₁)

variable (o) in
/-- **An extension beside**: it lets executions run, and makes nothing but aloof steps of its own. -/
structure Bystander (i : Interceptor ε) : Prop where
  created : ∀ x c, (i.created x c).Steps o.Aloof
  closed : ∀ x c, (i.closed x c).Steps o.Aloof
  wrap : ∀ {κ : Type} (x : Executor ε) (c : Context) (phase : Phase) (body : Body ε κ),
    Process.Hosts o.Aloof (x.execute c phase body) ((i.wrap x).execute c phase body)

/-- **The extension that counts** is one, if its counters are somewhere else. -/
theorem bystander_counting {part : Part ε Stats}
    (hpart : ∀ f, (Action.change part f : Action ε Unit).Steps o.Aloof) :
    o.Bystander (Stats.interceptor part) where
  created := (Interceptor.standsBy_counting hpart).created
  closed := (Interceptor.standsBy_counting hpart).closed
  wrap := (Interceptor.standsBy_counting hpart).wrap

/-- An extension beside leaves it to the executor what is conveyed. -/
theorem Bystander.conveys {i : Interceptor ε} (hi : o.Bystander i)
    {f : {κ : Type} → Context → Phase → Body ε κ → Body ε κ} {x : Executor ε} (hx : o.Conveys s f x) :
    o.Conveys s f (i.wrap x) := by
  refine ⟨fun {κ c w} phase body hc => ?_⟩
  rcases (hi.wrap x c phase body).run Aloof.refl Aloof.trans w with haloof | ⟨w₁, answer, w₂, h₁, hrun, h₂⟩
  · exact .idle haloof
  · have hconveyed := hx.execute phase body (hc.spared h₁.toSpares)
    rw [hrun] at hconveyed
    exact hconveyed.between h₁ h₂

/-- **A body as the extension that publishes hands it on**: that of a phase that the strategy names sends
    what waits. -/
def ending (o : Outbox ε) (s : PublishStrategy) (c : Context) (phase : Phase) (body : Body ε κ) : Body ε κ :=
  if s.flushes phase then Publisher.flushing o.sink c body else body

theorem ending_inFinalPhase (c : Context) (phase : Phase) (body : Body ε κ) :
    o.ending .inFinalPhase c phase body =
      if phase.isFinal then Publisher.flushing o.sink c body else body := rfl

theorem ending_atEndOfCurrentPhase (c : Context) (phase : Phase) (body : Body ε κ) :
    o.ending .atEndOfCurrentPhase c phase body = Publisher.flushing o.sink c body := rfl

/-- **The extension that publishes** hands on such bodies. -/
theorem conveys_wrap {x : Executor ε} (hx : o.Conveys s (fun _ _ body => body) x) :
    o.Conveys s (o.ending s) (Publisher.wrap o.sink x) := by
  refine ⟨fun {κ c w} phase body hc => ?_⟩
  simp only [Publisher.wrap, Process.run_bind, Publisher.run_strategy?, hc.strategy]
  exact hx.execute phase _ hc

variable (o) in
/-- **A provider that publishes to the outbox**, over a store in memory; its other extensions, its clocks
    and its locks keep aloof, and reading the clock of the store does not fail. -/
structure Serves (p : Provider ε) (stamps : Action ε Instant) : Prop where
  store : p.store = MemoryStore.adapter o.records stamps
  stamped : stamps.Steps o.Aloof
  safe : stamps.Safe
  clock : p.clock.Steps o.Aloof
  seized : ∀ k timeout now, (p.locks.obtain k timeout now).Steps o.Aloof
  released : ∀ handle, (p.locks.release handle).Steps o.Aloof
  extensions : ∃ outer inner, p.interceptors = outer ++ Publisher.interceptor o.sink :: inner ∧
    (∀ i ∈ outer, o.Bystander i) ∧ ∀ i ∈ inner, o.Bystander i
  atomic : o.Atomic o.sink

namespace Serves

variable {p : Provider ε} {stamps : Action ε Instant} (hp : o.Serves p stamps)
include hp

/-- **The whole chain** of executors conveys bodies that send what waits at the end of the phases that the
    strategy names. -/
theorem conveys : o.Conveys s (o.ending s) p.executor := by
  obtain ⟨outer, inner, hextensions, houter, hinner⟩ := hp.extensions
  unfold Provider.executor
  rw [hp.store, hextensions]
  have hbase := conveys_base (s := s) hp.stamped hp.safe
  have hplain := Executor.compose_induction hbase fun i hi x hx => (hinner i hi).conveys hx
  have hchain := Executor.compose_induction (conveys_wrap hplain) fun i hi x hx => (houter i hi).conveys hx
  unfold Executor.compose at hchain ⊢
  rw [List.foldr_append]
  exact hchain

/-- Taking locks and closing contexts is aloof. -/
theorem closes : p.Closes o.Aloof where
  refl := Aloof.refl
  tell := aloof_tell
  clock := hp.clock
  seized := hp.seized
  released := hp.released
  closed := by
    obtain ⟨outer, inner, hextensions, houter, hinner⟩ := hp.extensions
    intro i hi
    rw [hextensions, List.mem_append, List.mem_cons] at hi
    rcases hi with hi | rfl | hi
    · exact (houter i hi).closed
    · exact fun _ _ => .pure _
    · exact (hinner i hi).closed
  marked w id := aloof_modifyContext w id fun _ => rfl
  unlocked w id := aloof_modifyContext w id fun _ => rfl

end Serves

end Outbox

end Idempotence
