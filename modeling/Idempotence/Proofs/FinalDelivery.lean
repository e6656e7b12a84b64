/-
  Delivery with the final phase — messages that leave an instance with its final phase, once.

  1. **The crux** — two stages of an attempt.  While its context is OPEN nothing has been delivered, and
     the book is longer by just the messages that wait.  A final phase takes these and SETTLES the context:
     either they have been delivered and a final record has been made, or neither has happened.  Since
     executors record the text of a body at once, nothing comes between the two.

  2. **Uses** — the body of a phase can do nothing but publish and keep aloof (`Outbox.Open.busy`); a call
     leads from an open context to an open or a settled one (`Outbox.Between.call`); and from a settled
     one nothing leads anywhere.

  3. **Attempts** — starting an instance binds its context to its strategy (`Outbox.Serves.start`), and that
     opens it.  So an attempt delivers if it completes the instance, and not otherwise
     (`Outbox.Serves.attempt`).

  4. **One after the other** (`Outbox.delivers_once`) — since an instance is completed once, there is one
     delivery over all attempts, whatever becomes of each of them.
-/
import Idempotence.Lock.Table
import Idempotence.Proofs.Outbox

namespace Idempotence

variable {σ ε α β γ κ : Type}

namespace Outbox

variable {o : Outbox ε}

/-! ## Stages of an attempt -/

/-- There is a final record. -/
def Final (o : Outbox ε) (w : World ε) : Prop := (o.ledger w).Final

/-- **Between two moments the instance has been completed.** -/
def Completed (o : Outbox ε) (w w' : World ε) : Prop := ¬ o.Final w ∧ o.Final w'

/-- What comes of messages that are sent together. -/
def batch : List Message → Deliveries
  | [] => []
  | messages => [messages]

/-- **Delivering with completion**: if the instance has been completed since, then what has been accepted
    since has been delivered, in one delivery and in order; and if it has not, then nothing has. -/
structure Delivers (o : Outbox ε) (w₀ w : World ε) : Prop where
  completing : o.Completed w₀ w → ∃ messages,
    o.accepted w = o.accepted w₀ ++ messages ∧ o.delivered w = o.delivered w₀ ++ batch messages
  otherwise : ¬ o.Completed w₀ w → o.delivered w = o.delivered w₀

/-- **A context that is open**: its queue has not been sent, and the phase that is active, if there is
    one, has not been left.  The attempt began in the world `w₀`. -/
structure Open (o : Outbox ε) (c : Context) (w₀ : World ε) (active : Option Phase) (w : World ε) : Prop
    extends o.Binds .inFinalPhase c w where
  gate : (w.context c.id).mail.gate = ⟨false, active⟩
  /-- Enrolled while there was no final record, unless the context knows of one. -/
  knows : c.recordedFinal = none → ¬ o.Final w₀
  accepted : o.accepted w = o.accepted w₀ ++ (w.context c.id).mail.waiting
  delivered : o.delivered w = o.delivered w₀
  final : o.Final w → o.Final w₀

/-- **A context that has run a final phase**, which may still be active. -/
structure Settled (o : Outbox ε) (c : Context) (w₀ : World ε) (g : Gate) (w : World ε) : Prop
    extends o.Binds .inFinalPhase c w where
  gate : (w.context c.id).mail.gate = g
  delivers : o.Delivers w₀ w

section Stages

variable {c : Context} {w₀ w w' : World ε} {active : Option Phase} {g : Gate}

theorem Aloof.final (h : o.Aloof w w') : o.Final w' ↔ o.Final w := by
  unfold Final
  rw [h.ledger]

/-- What is aloof delivers nothing and completes nothing. -/
theorem Delivers.aloof (h : o.Delivers w₀ w) (hw : o.Aloof w w') : o.Delivers w₀ w' where
  completing hcompleted := by
    rw [hw.accepted, hw.delivered]
    exact h.completing ⟨hcompleted.1, hw.final.1 hcompleted.2⟩
  otherwise hnot := by
    rw [hw.delivered]
    exact h.otherwise fun hcompleted => hnot ⟨hcompleted.1, hw.final.2 hcompleted.2⟩

theorem delivers_of_final (hdelivered : o.delivered w = o.delivered w₀) (hfinal : o.Final w → o.Final w₀) :
    o.Delivers w₀ w :=
  ⟨fun hcompleted => absurd (hfinal hcompleted.2) hcompleted.1, fun _ => hdelivered⟩

theorem Aloof.delivers (h : o.Aloof w w') : o.Delivers w w' := delivers_of_final h.delivered h.final.1

theorem Open.aloof (h : o.Open c w₀ active w) (hw : o.Aloof w w') : o.Open c w₀ active w' where
  toBinds := h.toBinds.spared hw.toSpares
  gate := (congrArg Mail.gate (hw.mail c.id h.created)).trans h.gate
  knows := h.knows
  accepted := by rw [hw.accepted, hw.mail c.id h.created, h.accepted]
  delivered := hw.delivered.trans h.delivered
  final hfinal := h.final (hw.final.1 hfinal)

theorem Settled.aloof (h : o.Settled c w₀ g w) (hw : o.Aloof w w') : o.Settled c w₀ g w' where
  toBinds := h.toBinds.spared hw.toSpares
  gate := (congrArg Mail.gate (hw.mail c.id h.created)).trans h.gate
  delivers := h.delivers.aloof hw

theorem Open.delivers (h : o.Open c w₀ active w) : o.Delivers w₀ w := delivers_of_final h.delivered h.final

/-- A change of a context that leaves its properties alone. -/
theorem mail_modifyContext (hcreated : c.id < w.contexts.length) {f : ContextState → ContextState}
    (hproperties : (f (w.context c.id)).properties = (w.context c.id).properties) :
    ((w.modifyContext c.id f).context c.id).mail =
      ⟨(f (w.context c.id)).gate, (w.context c.id).mail.strategy, (w.context c.id).mail.waiting⟩ := by
  rw [World.context_modifyContext_self w f hcreated]
  simp only [ContextState.mail, hproperties]

theorem Binds.turn {s : PublishStrategy} (h : o.Binds s c w) {f : ContextState → ContextState}
    (hproperties : (f (w.context c.id)).properties = (w.context c.id).properties) :
    o.Binds s c (w.modifyContext c.id f) where
  process_eq := h.process_eq
  key_eq := h.key_eq
  created := by
    rw [World.length_modifyContext]
    exact h.created
  strategy := by
    rw [mail_modifyContext h.created hproperties]
    exact h.strategy

/-- **Another gate**, and all else as it was: so a phase is entered. -/
theorem Open.turn (h : o.Open c w₀ active w) {f : ContextState → ContextState} {active' : Option Phase}
    (hproperties : (f (w.context c.id)).properties = (w.context c.id).properties)
    (hgate : (f (w.context c.id)).gate = ⟨false, active'⟩) :
    o.Open c w₀ active' (w.modifyContext c.id f) where
  toBinds := h.toBinds.turn hproperties
  gate := by
    rw [mail_modifyContext h.created hproperties]
    exact hgate
  knows := h.knows
  accepted := by
    rw [mail_modifyContext h.created hproperties]
    exact h.accepted
  delivered := h.delivered
  final := h.final

/-- A phase that is not final may be left. -/
theorem Open.leave {phase : Phase} (hfinal : phase.isFinal = false) (h : o.Open c w₀ (some phase) w) :
    o.Open c w₀ none (w.modifyContext c.id (·.leave phase)) := by
  refine h.turn rfl ?_
  have hgate : (w.context c.id).gate = ⟨false, some phase⟩ := h.gate
  rw [ContextState.gate_leave, hgate, hfinal, Bool.or_false]

/-- **Leaving a final phase** shuts the context. -/
theorem Settled.leave {phase : Phase} (hfinal : phase.isFinal = true)
    (h : o.Settled c w₀ ⟨false, some phase⟩ w) :
    o.Settled c w₀ ⟨true, none⟩ (w.modifyContext c.id (·.leave phase)) where
  toBinds := h.toBinds.turn rfl
  gate := by
    rw [mail_modifyContext h.created rfl]
    show ((w.context c.id).leave phase).gate = _
    rw [ContextState.gate_leave, hfinal, Bool.or_true]
  delivers := ⟨h.delivers.completing, h.delivers.otherwise⟩

/-! ## Publishing and sending -/

/-- The world with one more message in the book. -/
def enter (o : Outbox ε) (m : Message) (w : World ε) : World ε :=
  w.modifyEnv fun e => o.book.set (o.book.get e ++ [m]) e

theorem accepted_enter (m : Message) (w : World ε) : o.accepted (o.enter m w) = o.accepted w ++ [m] :=
  o.book.get_set ..

theorem ledger_enter (m : Message) (w : World ε) : o.ledger (o.enter m w) = o.ledger w :=
  congrArg (MemoryStore.ledger · o.process o.key) (o.records_book.get_set_left _ _)

theorem delivered_enter (m : Message) (w : World ε) : o.delivered (o.enter m w) = o.delivered w :=
  o.deliveries_book.get_set_left ..

variable (o) in
/-- **Publishing to the outbox** either changes nothing, or lets the message wait and enters it. -/
theorem publish_cases {s : PublishStrategy} (h : o.Binds s c w) (hs : s ≠ .inConsumer)
    (m : Message) :
    (∃ e, (o.publish c m).run w = (.value (.error e), w)) ∨
      s.admits (w.context c.id).mail.gate.wasFinal (w.context c.id).mail.gate.active = .ok () ∧
        (o.publish c m).run w =
          (.value (.ok ()), o.enter m (Publisher.requeue c ((w.context c.id).mail.waiting ++ [m]) w)) := by
  unfold publish
  rw [Process.run_bind]
  rcases Context.publish_cases o.sink m h.strategy hs with ⟨e, hrun⟩ | ⟨hadmits, hrun⟩
  · rw [hrun]
    exact .inl ⟨e, rfl⟩
  · rw [hrun]
    exact .inr ⟨hadmits, rfl⟩

theorem Binds.requeue {s : PublishStrategy} (h : o.Binds s c w) (waiting : List Message) :
    o.Binds s c (Publisher.requeue c waiting w) where
  process_eq := h.process_eq
  key_eq := h.key_eq
  created := by
    rw [Publisher.requeue, World.length_modifyContext]
    exact h.created
  strategy := by
    rw [Publisher.mail_requeue h.created]
    exact h.strategy

/-- **A message that is accepted** is the last to wait, and the last in the book. -/
theorem Open.publish (m : Message) :
    (o.publish c m).Preserves (o.Open c w₀ active) fun w w' => o.ledger w' = o.ledger w := by
  intro w h
  rcases o.publish_cases h.toBinds nofun m with ⟨e, hrun⟩ | ⟨-, hrun⟩
  · rw [hrun]
    exact ⟨h, rfl⟩
  · rw [hrun]
    have hbinds := h.toBinds.requeue ((w.context c.id).mail.waiting ++ [m])
    have hmail := Publisher.mail_requeue h.created ((w.context c.id).mail.waiting ++ [m])
    refine ⟨⟨hbinds.modifyEnv _, ?_, h.knows, ?_, ?_, ?_⟩, ledger_enter _ _⟩
    · exact (congrArg Mail.gate hmail).trans h.gate
    · show o.accepted (o.enter m (Publisher.requeue c _ w)) =
        o.accepted w₀ ++ ((Publisher.requeue c _ w).context c.id).mail.waiting
      rw [accepted_enter, hmail, ← List.append_assoc]
      exact congrArg (· ++ [m]) h.accepted
    · exact (delivered_enter _ _).trans h.delivered
    · unfold Final
      rw [ledger_enter]
      exact h.final

/-- **Once a final phase has been left** no message is accepted. -/
theorem Settled.publish (m : Message) (hg : g.wasFinal = true) (h : o.Settled c w₀ g w) :
    ((o.publish c m).run w).2 = w := by
  rcases o.publish_cases h.toBinds nofun m with ⟨e, hrun⟩ | ⟨hadmits, -⟩
  · rw [hrun]
  · have hopen := PublishStrategy.admits_inFinalPhase hadmits
    rw [h.gate, hg] at hopen
    cases hopen

/-- **The end of the body of a final phase**: what was accepted has been delivered, or nothing has. -/
structure Flushed (o : Outbox ε) (c : Context) (w₀ w : World ε) (phase : Phase)
    (ending : Outcome (Except Error String × κ)) (w' : World ε) : Prop
    extends o.Binds .inFinalPhase c w' where
  gate : (w'.context c.id).mail.gate = ⟨false, some phase⟩
  ledger : o.ledger w' = o.ledger w
  sent : ∀ data k, ending = .value (.ok data, k) → ∃ messages,
    o.accepted w' = o.accepted w₀ ++ messages ∧ o.delivered w' = o.delivered w₀ ++ batch messages
  unsent : (∀ data k, ending ≠ .value (.ok data, k)) → o.delivered w' = o.delivered w₀

/-- **Sending what waits.** -/
theorem Open.sending {phase : Phase} (hsink : o.Atomic o.sink) (answer : Except Error String × κ)
    (h : o.Open c w₀ (some phase) w) :
    o.Flushed c w₀ w phase ((Publisher.sending o.sink c answer).run w).1
      ((Publisher.sending o.sink c answer).run w).2 := by
  obtain ⟨text, k⟩ := answer
  have hbinds := h.toBinds.requeue []
  have hgate : ((Publisher.requeue c [] w).context c.id).mail.gate = ⟨false, some phase⟩ := by
    rw [Publisher.mail_requeue h.created]
    exact h.gate
  simp only [Publisher.sending, Process.run_bind, Publisher.run_takeQueue]
  cases text with
  | error e => exact ⟨hbinds, hgate, rfl, (fun _ _ h => nomatch h), fun _ => h.delivered⟩
  | ok data =>
    have hwaiting := h.accepted
    cases hw : (w.context c.id).mail.waiting with
    | nil =>
      rw [hw] at hwaiting
      exact ⟨hbinds, hgate, rfl, fun _ _ _ => ⟨[], hwaiting, h.delivered.trans (List.append_nil _).symm⟩,
        fun hnot => absurd rfl (hnot data k)⟩
    | cons m rest =>
      rw [hw] at hwaiting
      simp only [List.isEmpty_cons, Bool.false_eq_true, if_false, Process.run_bind]
      have hspares := hsink.spares (m :: rest) (Publisher.requeue c [] w)
      have hsent := hsink.sent (m :: rest) (Publisher.requeue c [] w)
      have hrefused := hsink.refused (m :: rest) (Publisher.requeue c [] w)
      -- The queue is empty by now, so what the sink answers is all that is left to look at.
      have hbinds' := hbinds.spared hspares
      have hgate' := (congrArg Mail.gate (hspares.mail c.id hbinds.created)).trans hgate
      cases hrun : (o.sink.sendAll (m :: rest)).run (Publisher.requeue c [] w) with
      | mk ending w₁ =>
        rw [hrun] at hspares hsent hrefused hbinds' hgate'
        rcases ending with answer | message
        · cases answer with
          | error e =>
            have hdelivered := (hrefused nofun).trans h.delivered
            exact ⟨hbinds', hgate', hspares.ledger, (fun _ _ h => nomatch h), fun _ => hdelivered⟩
          | ok u =>
            have haccepted := hspares.accepted.trans hwaiting
            have hdelivered := (hsent rfl).trans (congrArg (· ++ [m :: rest]) h.delivered)
            exact ⟨hbinds', hgate', hspares.ledger, fun _ _ _ => ⟨m :: rest, haccepted, hdelivered⟩,
              fun hnot => absurd rfl (hnot data k)⟩
        · have hdelivered := (hrefused nofun).trans h.delivered
          exact ⟨hbinds', hgate', hspares.ledger, (fun _ _ h => nomatch h), fun _ => hdelivered⟩

/-- **The body of a final phase**, with the sending at its end. -/
theorem Open.flushing {phase : Phase} (hsink : o.Atomic o.sink) {body : Body ε κ}
    (hbody : body.Preserves (o.Open c w₀ (some phase)) fun w w' => o.ledger w' = o.ledger w)
    (h : o.Open c w₀ (some phase) w) :
    o.Flushed c w₀ w phase ((Publisher.flushing o.sink c body).run w).1
      ((Publisher.flushing o.sink c body).run w).2 := by
  obtain ⟨h₁, hledger⟩ := hbody w h
  rw [Publisher.flushing_eq, Process.run_bind]
  cases hrun : body.run w with
  | mk ending w₁ =>
    rw [hrun] at h₁ hledger
    cases ending with
    | crashed m => exact ⟨h₁.toBinds, h₁.gate, hledger, (fun _ _ h => nomatch h), fun _ => h₁.delivered⟩
    | value answer =>
      have hsending := h₁.sending hsink answer
      exact ⟨hsending.toBinds, hsending.gate, hsending.ledger.trans hledger, hsending.sent, hsending.unsent⟩

/-! ## Phases -/

/-- A record of a free key is a step by which the ledger grows. -/
theorem grows_store {id : String} (hfree : o.ledger w id = none) (r : StoredRecord) :
    (o.ledger w).Grows (o.ledger (o.store id r w)) := by
  rw [ledger_store]
  exact Ledger.grows_put hfree r

/-- **Executing a phase that is not final** leaves the context open. -/
theorem Conveyed.not_final {phase : Phase} {body : Body ε κ} (hfinal : phase.isFinal = false)
    (hbody : body.Preserves (o.Open c w₀ (some phase)) fun w w' => o.ledger w' = o.ledger w)
    (h : o.Open c w₀ (some phase) w) (hconveyed : o.Conveyed c phase body w w') :
    o.Open c w₀ (some phase) w' ∧ (o.ledger w).Grows (o.ledger w') := by
  have hran : ∀ {w₁ w₂ ending}, o.Aloof w w₁ → body.run w₁ = (ending, w₂) →
      o.Open c w₀ (some phase) w₂ ∧ o.ledger w₂ = o.ledger w := by
    intro w₁ w₂ ending hbefore hrun
    obtain ⟨h₂, hledger⟩ := hbody w₁ (h.aloof hbefore)
    rw [hrun] at h₂ hledger
    exact ⟨h₂, hledger.trans hbefore.ledger⟩
  cases hconveyed with
  | idle aloof => exact ⟨h.aloof aloof, Ledger.grows_of_eq aloof.ledger⟩
  | failed before free run failure after =>
    obtain ⟨h₂, hledger⟩ := hran before run
    exact ⟨h₂.aloof after, Ledger.grows_of_eq (after.ledger.trans hledger)⟩
  | raced before free run taken after =>
    obtain ⟨h₂, hledger⟩ := hran before run
    exact ⟨h₂.aloof after, Ledger.grows_of_eq (after.ledger.trans hledger)⟩
  | @recorded _ w₂ _ data k r before fresh run free final after =>
    obtain ⟨h₂, hledger⟩ := hran before run
    have hstored : o.Open c w₀ (some phase) (o.store phase.id r w₂) := by
      refine ⟨h₂.toBinds.modifyEnv _, h₂.gate, h₂.knows, ?_, ?_, fun hf => ?_⟩
      · rw [accepted_store]
        exact h₂.accepted
      · rw [delivered_store]
        exact h₂.delivered
      · -- The new record is not final, so there was one before.
        unfold Final at hf
        rw [ledger_store] at hf
        exact h₂.final (Ledger.final_put (final.trans hfinal) hf)
    refine ⟨hstored.aloof after, ?_⟩
    rw [after.ledger, ← hledger]
    exact grows_store free r

/-- **Executing a final phase** settles things: delivered and recorded, or neither. -/
theorem Conveyed.final {phase : Phase} {body : Body ε κ} (hfinal : phase.isFinal = true)
    (hsink : o.Atomic o.sink)
    (hbody : body.Preserves (o.Open c w₀ (some phase)) fun w w' => o.ledger w' = o.ledger w)
    (h : o.Open c w₀ (some phase) w)
    (hconveyed : o.Conveyed c phase (Publisher.flushing o.sink c body) w w') :
    o.Settled c w₀ ⟨false, some phase⟩ w' ∧ (o.ledger w).Grows (o.ledger w') := by
  have hran : ∀ {w₁ w₂ ending}, o.Aloof w w₁ →
      (Publisher.flushing o.sink c body).run w₁ = (ending, w₂) → o.Flushed c w₀ w phase ending w₂ := by
    intro w₁ w₂ ending hbefore hrun
    have hflushed := (h.aloof hbefore).flushing hsink hbody
    rw [hrun] at hflushed
    exact ⟨hflushed.toBinds, hflushed.gate, hflushed.ledger.trans hbefore.ledger, hflushed.sent,
      hflushed.unsent⟩
  cases hconveyed with
  | idle aloof =>
    have h' := h.aloof aloof
    exact ⟨⟨h'.toBinds, h'.gate, h'.delivers⟩, Ledger.grows_of_eq aloof.ledger⟩
  | @failed _ w₂ _ _ before free run failure after =>
    have hflushed := hran before run
    have hnot : o.Final w₂ → o.Final w₀ := by
      unfold Final
      rw [hflushed.ledger]
      exact h.final
    have hsettled : o.Settled c w₀ ⟨false, some phase⟩ w₂ :=
      ⟨hflushed.toBinds, hflushed.gate, delivers_of_final (hflushed.unsent failure) hnot⟩
    exact ⟨hsettled.aloof after, Ledger.grows_of_eq (after.ledger.trans hflushed.ledger)⟩
  | raced before free run taken after =>
    -- Nobody takes the key meanwhile.
    rw [(hran before run).ledger, ← before.ledger] at taken
    exact absurd free taken
  | @recorded _ w₂ _ data k r before fresh run free final after =>
    have hflushed := hran before run
    obtain ⟨messages, haccepted, hdelivered⟩ := hflushed.sent data k rfl
    have hcompleted : o.Completed w₀ (o.store phase.id r w₂) := by
      refine ⟨h.knows fresh, phase.id, r, ?_, final.trans hfinal⟩
      rw [ledger_store]
      exact if_pos rfl
    have hstored : o.Settled c w₀ ⟨false, some phase⟩ (o.store phase.id r w₂) := by
      refine ⟨hflushed.toBinds.modifyEnv _, hflushed.gate,
        fun _ => ⟨messages, ?_, ?_⟩, fun hnot => absurd hcompleted hnot⟩
      · rw [accepted_store, haccepted]
      · rw [delivered_store, hdelivered]
    refine ⟨hstored.aloof after, ?_⟩
    rw [after.ledger, ← hflushed.ledger]
    exact grows_store free r

/-! ## Uses of the context -/

variable (o) in
/-- **Publishing to the outbox**, as what one may do with a context beside calls. -/
def Publishes (c : Context) (a : Action ε (Except Error Unit)) : Prop := ∃ m, a = o.publish c m

variable (o) in
/-- **Between two calls**: the context is open, or it has left a final phase. -/
def Between (c : Context) (w₀ w : World ε) : Prop := o.Open c w₀ none w ∨ o.Settled c w₀ ⟨true, none⟩ w

theorem Between.aloof (h : o.Between c w₀ w) (hw : o.Aloof w w') : o.Between c w₀ w' :=
  h.imp (·.aloof hw) (·.aloof hw)

theorem Between.delivers (h : o.Between c w₀ w) : o.Delivers w₀ w :=
  h.elim Open.delivers Settled.delivers

variable {x : Executor ε} [EngineFailure β]

/-- **While a phase is active** calls are refused, so that messages wait and nothing else happens. -/
theorem Open.busy {phase : Phase} {a : Action ε α} (ha : c.Does x o.Aloof (o.Publishes c) a) :
    a.Preserves (o.Open c w₀ (some phase)) fun w w' => o.ledger w' = o.ledger w := by
  refine ha.preserves (I := o.Open c w₀ (some phase)) (R := fun w w' => o.ledger w' = o.ledger w)
    (fun _ => rfl) (fun _ _ _ h h' => h'.trans h) (fun w w' h hw => ⟨h.aloof hw, hw.ledger⟩)
    (fun a ha => ?_) fun phase' codec body _ w h => ?_
  · obtain ⟨m, rfl⟩ := ha
    exact Open.publish m
  · have hactive : (w.context c.id).active ≠ none := by
      intro hnone
      have hphase : (w.context c.id).active.map (·.phase) = some phase := congrArg Gate.active h.gate
      rw [hnone] at hphase
      cases hphase
    obtain ⟨e, hpermit⟩ := Context.permit_busy phase' hactive
    rw [Context.run_refused x codec body hpermit]
    exact ⟨h, rfl⟩

/-- **A call between calls.** -/
theorem Between.call (hx : o.Conveys .inFinalPhase (o.ending .inFinalPhase) x)
    (hsink : o.Atomic o.sink) {phase : Phase} {codec : Codec γ} {body : Action ε (Except β γ)}
    (hbody : c.Does x o.Aloof (o.Publishes c) body) :
    (c.run x phase codec body).Preserves (o.Between c w₀) fun w w' => (o.ledger w).Grows (o.ledger w') := by
  intro w h
  cases hpermit : c.permit phase w with
  | error e =>
    rw [Context.run_refused x codec body hpermit]
    exact ⟨h, .refl _⟩
  | ok s =>
    obtain ⟨-, hnot, -, hnone, rfl⟩ := Context.permit_eq_ok hpermit
    rcases h with h | h
    · rw [Context.run_permitted x codec body hpermit]
      let entered : ContextState := { w.context c.id with
        visited := phase.id :: (w.context c.id).visited, active := some { phase } }
      have hopen : o.Open c w₀ (some phase) (w.modifyContext c.id fun _ => entered) :=
        h.turn rfl (by simp [ContextState.gate, entered, hnot])
      have herase : (Context.erase phase codec body).Preserves (o.Open c w₀ (some phase))
          fun w w' => o.ledger w' = o.ledger w := by
        intro w h
        rw [Context.run_erase]
        exact Open.busy hbody w h
      have hconveyed := hx.execute phase (Context.erase phase codec body) hopen.toBinds
      rw [ending_inFinalPhase] at hconveyed
      cases hfinal : phase.isFinal with
      | false =>
        rw [if_neg (by simp [hfinal])] at hconveyed
        obtain ⟨h', hgrows⟩ := hconveyed.not_final hfinal herase hopen
        exact ⟨.inl (h'.leave hfinal), hgrows⟩
      | true =>
        rw [if_pos hfinal] at hconveyed
        obtain ⟨h', hgrows⟩ := hconveyed.final hfinal hsink herase hopen
        exact ⟨.inr (h'.leave hfinal), hgrows⟩
    · -- A context that has left a final phase enters no other.
      have hgate : (w.context c.id).gate.wasFinal = true := congrArg Gate.wasFinal h.gate
      rw [ContextState.gate, hnot] at hgate
      cases hgate

omit [EngineFailure β] in
/-- **A whole use of the context** between calls. -/
theorem Between.uses (hx : o.Conveys .inFinalPhase (o.ending .inFinalPhase) x)
    (hsink : o.Atomic o.sink) {a : Action ε α}
    (ha : c.Does x o.Aloof (o.Publishes c) a) :
    a.Preserves (o.Between c w₀) fun w w' => (o.ledger w).Grows (o.ledger w') := by
  refine ha.preserves (I := o.Between c w₀) (R := fun w w' => (o.ledger w).Grows (o.ledger w'))
    (fun _ => .refl _) (fun _ _ _ h h' => h.trans h')
    (fun w w' h hw => ⟨h.aloof hw, Ledger.grows_of_eq hw.ledger⟩) (fun a ha => ?_)
    fun phase codec body hbody => Between.call hx hsink hbody
  obtain ⟨m, rfl⟩ := ha
  rintro w (h | h)
  · obtain ⟨h', hledger⟩ := Open.publish m w h
    exact ⟨.inl h', Ledger.grows_of_eq hledger⟩
  · rw [h.publish m rfl]
    exact ⟨.inr h, .refl _⟩

end Stages

/-! ## Starting -/

/-- **A context that is being introduced**: all that has been done so far is aloof, and nothing waits. -/
structure Entering (o : Outbox ε) (c : Context) (w₀ w : World ε) : Prop extends o.Aloof w₀ w where
  process_eq : c.process = o.process
  key_eq : c.key = o.key
  knows : c.recordedFinal = none → ¬ o.Final w₀
  fresh : w₀.contexts.length ≤ c.id
  created : c.id < w.contexts.length
  gate : (w.context c.id).mail.gate = ⟨false, none⟩
  waiting : (w.context c.id).mail.waiting = []

section Starting

variable {c : Context} {w₀ w w' : World ε} {p : Provider ε} {stamps : Action ε Instant}
  {s : PublishStrategy}

theorem Entering.aloof (h : o.Entering c w₀ w) (hw : o.Aloof w w') : o.Entering c w₀ w' where
  toAloof := h.toAloof.trans hw
  process_eq := h.process_eq
  key_eq := h.key_eq
  knows := h.knows
  fresh := h.fresh
  created := Nat.lt_of_lt_of_le h.created hw.length
  gate := (congrArg Mail.gate (hw.mail c.id h.created)).trans h.gate
  waiting := (congrArg Mail.waiting (hw.mail c.id h.created)).trans h.waiting

/-- **Once it is bound** to its strategy, the context is open. -/
theorem Entering.open (h : o.Entering c w₀ w)
    (hbound : (w.context c.id).mail.strategy = some .inFinalPhase) : o.Open c w₀ none w where
  process_eq := h.process_eq
  key_eq := h.key_eq
  created := h.created
  strategy := hbound
  gate := h.gate
  knows := h.knows
  accepted := by rw [h.accepted, h.waiting, List.append_nil]
  delivered := h.delivered
  final := h.toAloof.final.1

/-- The world with a context bound to a strategy. -/
def bound (c : Context) (s : PublishStrategy) (w : World ε) : World ε :=
  w.modifyContext c.id fun t =>
    { t with properties := (w.context c.id).properties.set Publisher.binding s }

/-- **The hook of the extension that publishes** binds the context. -/
theorem run_created {s : PublishStrategy} (hstrategy : PublishStrategy.ofSettings c.settings = .ok s)
    (x : Executor ε) (sink : Sink ε) (w : World ε) :
    ((Publisher.interceptor sink).created x c).run w = (.value (.ok ()), bound c s w) := by
  simp only [Publisher.interceptor, hstrategy]
  rfl

/-- A context that is new does not count, whatever it is bound to. -/
theorem Entering.bound (h : o.Entering c w₀ w) (s : PublishStrategy) :
    o.Entering c w₀ (bound c s w) ∧ ((bound c s w).context c.id).mail.strategy = some s := by
  have htype : PropertyType.strategy ≠ PropertyType.queue := nofun
  have hmail : ((Outbox.bound c s w).context c.id).mail =
      ⟨(w.context c.id).mail.gate, some s, (w.context c.id).mail.waiting⟩ := by
    rw [Outbox.bound, World.context_modifyContext_self _ _ h.created]
    simp only [ContextState.mail, ContextState.gate, PropertyBag.get?_set_self,
      PropertyBag.get?_set_of_ne _ htype]
  have hlength : (Outbox.bound c s w).contexts.length = w.contexts.length := World.length_modifyContext ..
  refine ⟨⟨⟨⟨h.ledger, h.accepted, by rw [hlength]; exact h.length, fun id hid => ?_⟩, h.delivered⟩,
    h.process_eq, h.key_eq, h.knows, h.fresh, by rw [hlength]; exact h.created, ?_, ?_⟩, ?_⟩
  · have hne : c.id ≠ id := by
      have := h.fresh
      omega
    rw [Outbox.bound, World.context_modifyContext, if_neg fun hand => hne hand.1]
    exact h.mail id hid
  · rw [hmail]
    exact h.gate
  · rw [hmail]
    exact h.waiting
  · rw [hmail]

/-- **A new context**, enrolled with the final record that there is. -/
theorem entering_new (h : o.Aloof w₀ w) (settings : List Setting) (handle : LockHandle) :
    o.Entering
      { id := w.contexts.length, process := o.process, key := o.key, settings,
        recordedFinal := (o.records.get w.env).findFinal o.process o.key } w₀
      { w with contexts := w.contexts ++ [{ lock := some handle }] } := by
  have hlength : (w.contexts ++ [({ lock := some handle } : ContextState)]).length = w.contexts.length + 1 :=
    List.length_append ..
  have hnew := World.context_append_self w { lock := some handle }
  have haloof : o.Aloof w { w with contexts := w.contexts ++ [{ lock := some handle }] } := by
    refine ⟨⟨rfl, rfl, by rw [hlength]; omega, fun id hid => ?_⟩, rfl⟩
    rw [World.context_append w _ hid]
  refine ⟨h.trans haloof, rfl, rfl, fun hnone hfinal => ?_, h.length, ?_, ?_, ?_⟩
  · have hsome := (MemoryStore.findFinal_isSome _ o.process o.key).2 (h.final.2 hfinal)
    exact Option.isSome_iff_ne_none.1 hsome hnone
  · show w.contexts.length < (w.contexts ++ [_]).length
    rw [hlength]
    omega
  · exact congrArg (·.mail.gate) hnew
  · exact congrArg (·.mail.waiting) hnew

namespace Serves

variable (hp : o.Serves p stamps)
include hp

/-- **Telling the extensions** of a context binds it, unless one of them objects. -/
theorem runCreated (hstrategy : PublishStrategy.ofSettings c.settings = .ok s)
    (h : o.Entering c w₀ w) {answer : Outcome (Except Error Unit)}
    (hrun : (Provider.runCreated p.executor c p.interceptors).run w = (answer, w')) :
    o.Entering c w₀ w' ∧ (answer = .value (.ok ()) → (w'.context c.id).mail.strategy = some s) := by
  obtain ⟨outer, inner, hextensions, houter, hinner⟩ := hp.extensions
  have hsteps : ∀ extensions : List (Interceptor ε), (∀ i ∈ extensions, o.Bystander i) →
      (Provider.runCreated p.executor c extensions).Steps o.Aloof := fun extensions hbystanders =>
    Provider.steps_runCreated (fun w _ _ => aloof_modifyContext w _ fun _ => rfl)
      fun i hi => (hbystanders i hi).created _ c
  have hfirst := (hsteps outer houter).run Aloof.refl Aloof.trans w
  rw [hextensions, Provider.runCreated_append, Process.run_bind] at hrun
  cases hrun₁ : (Provider.runCreated p.executor c outer).run w with
  | mk answer₁ w₁ =>
    rw [hrun₁] at hrun hfirst
    have h₁ := h.aloof hfirst
    rcases answer₁ with (e | u) | m
    · obtain ⟨rfl, rfl⟩ := Prod.mk.inj hrun
      exact ⟨h₁, by rintro ⟨⟩⟩
    · simp only [Provider.runCreated] at hrun
      rw [Process.run_bind, run_created hstrategy] at hrun
      obtain ⟨h₂, hbound⟩ := h₁.bound s
      have hrest : (do
          c.change fun s => { s with notified := s.notified + 1 }
          Provider.runCreated p.executor c inner : Action ε (Except Error Unit)).Steps o.Aloof :=
        .bind (.change fun w => aloof_modifyContext w c.id fun _ => rfl) fun _ => hsteps inner hinner
      replace hrest := hrest.run Aloof.refl Aloof.trans (Outbox.bound c s w₁)
      simp only at hrun
      rw [hrun] at hrest
      exact ⟨h₂.aloof hrest, fun _ => (congrArg Mail.strategy (hrest.mail c.id h₂.created)).trans hbound⟩
    · obtain ⟨rfl, rfl⟩ := Prod.mk.inj hrun
      exact ⟨h₁, by rintro ⟨⟩⟩

/-- **Introducing a context** binds it; or the start fails, and all has been aloof. -/
theorem introduce (hstrategy : PublishStrategy.ofSettings c.settings = .ok s)
    (h : o.Entering c w₀ w) {answer : Outcome (Except Error Context)}
    (hrun : (p.introduce c).run w = (answer, w')) :
    (answer = .value (.ok c) ∧ o.Entering c w₀ w' ∧ (w'.context c.id).mail.strategy = some s) ∨
      (∀ c', answer ≠ .value (.ok c')) ∧ o.Aloof w₀ w' := by
  have hdrop : ∀ w, o.Aloof w ((p.drop c).run w).2 := (hp.closes.drop c).run Aloof.refl Aloof.trans
  unfold Provider.introduce at hrun
  rw [Process.run_bind, Process.run_onCrash] at hrun
  cases hrun₁ : (Provider.runCreated p.executor c p.interceptors).run w with
  | mk told w₁ =>
    obtain ⟨h₁, hbound⟩ := hp.runCreated hstrategy h hrun₁
    rw [hrun₁] at hrun
    have hdropped := h₁.toAloof.trans (hdrop w₁)
    rcases told with (e | u) | m
    · simp only [Process.run_bind] at hrun
      cases hrun₂ : (p.drop c).run w₁ with
      | mk dropped w₂ =>
        rw [hrun₂] at hrun hdropped
        cases dropped <;> obtain ⟨rfl, rfl⟩ := Prod.mk.inj hrun <;> exact .inr ⟨nofun, hdropped⟩
    · obtain ⟨rfl, rfl⟩ := Prod.mk.inj hrun
      exact .inl ⟨rfl, h₁, hbound rfl⟩
    · simp only at hrun
      cases hrun₂ : (p.drop c).run w₁ with
      | mk dropped w₂ =>
        rw [hrun₂] at hrun hdropped
        cases dropped <;> obtain ⟨rfl, rfl⟩ := Prod.mk.inj hrun <;> exact .inr ⟨nofun, hdropped⟩

/-- **Starting an attempt** binds a new context; or it fails, and all has been aloof. -/
theorem start {settings : List Setting} (hstrategy : PublishStrategy.ofSettings settings = .ok s)
    (timeout : Duration) (w₀ : World ε) {answer : Outcome (Except Error Context)}
    (hrun : (p.start o.process o.key timeout settings).run w₀ = (answer, w')) :
    (∃ c, answer = .value (.ok c) ∧ o.Entering c w₀ w' ∧ (w'.context c.id).mail.strategy = some s) ∨
      (∀ c, answer ≠ .value (.ok c)) ∧ o.Aloof w₀ w' := by
  rw [Provider.start_eq, Process.run_bind] at hrun
  have hseized := (hp.closes.seize o.process o.key timeout settings).run Aloof.refl Aloof.trans w₀
  cases hrun₁ : (p.seize o.process o.key timeout settings).run w₀ with
  | mk seized w₁ =>
    rw [hrun₁] at hrun hseized
    rcases seized with (e | handle) | m
    · obtain ⟨rfl, rfl⟩ := Prod.mk.inj hrun
      exact .inr ⟨by rintro c ⟨⟩, hseized⟩
    · simp only [Provider.startLocked_adapter hp.store, Process.run_bind, Action.look, Process.run_look,
        Provider.newContext, Process.run_atomically] at hrun
      have hentering : o.Entering
          { id := w₁.contexts.length, process := o.process, key := o.key, settings,
            recordedFinal := (o.records.get w₁.env).findFinal o.process o.key } w₀
          { w₁ with contexts := w₁.contexts ++ [{ lock := some handle }] } :=
        entering_new hseized settings handle
      rcases hp.introduce hstrategy hentering hrun with ⟨rfl, hbound⟩ | hfailed
      · exact .inl ⟨_, rfl, hbound⟩
      · exact .inr hfailed
    · obtain ⟨rfl, rfl⟩ := Prod.mk.inj hrun
      exact .inr ⟨by rintro c ⟨⟩, hseized⟩

end Serves

end Starting

/-! ## Attempts -/

variable (o) in
/-- **Whoever may come while an instance is worked on**: an attempt under the strategy for final phases,
    from its start on, which publishes to the outbox; or somebody who keeps aloof. -/
inductive Attends (p : Provider ε) : {α : Type} → Action ε α → Prop
  | bystander {α : Type} {a : Action ε α} (aloof : a.Steps o.Aloof) : Attends p a
  | attempt {α : Type} {timeout : Duration} {settings : List Setting}
      {rest : Except Error Context → Action ε α}
      (strategy : PublishStrategy.ofSettings settings = .ok .inFinalPhase)
      (refused : ∀ e, (rest (.error e)).Steps o.Aloof)
      (used : ∀ c : Context, c.Does p.executor o.Aloof (o.Publishes c) (rest (.ok c))) :
      Attends p (p.start o.process o.key timeout settings >>= rest)

namespace Serves

variable {p : Provider ε} {stamps : Action ε Instant} (hp : o.Serves p stamps)
include hp

/-- **A whole process** is an attempt, if its body uses the context and publishes to the outbox. -/
theorem attends_runProcess [EngineFailure β] (timeout : Duration) {settings : List Setting}
    (hstrategy : PublishStrategy.ofSettings settings = .ok .inFinalPhase)
    {body : Context → Action ε (Except β α)}
    (hbody : ∀ c : Context, c.Does p.executor o.Aloof (o.Publishes c) (body c)) :
    o.Attends p (p.runProcess o.process o.key timeout settings body) :=
  .attempt hstrategy (fun _ => .pure _) fun c => hp.closes.conduct o.process o.key (hbody c)

/-- **One attempt** delivers with completion, and the ledger grows. -/
theorem attempt {a : Action ε α} (ha : o.Attends p a) (w : World ε) :
    o.Delivers w (a.run w).2 ∧ (o.ledger w).Grows (o.ledger (a.run w).2) := by
  cases ha with
  | bystander aloof =>
    have haloof := aloof.run Aloof.refl Aloof.trans w
    exact ⟨haloof.delivers, Ledger.grows_of_eq haloof.ledger⟩
  | @attempt timeout settings rest strategy refused used =>
    rw [Process.run_bind]
    cases hrun : (p.start o.process o.key timeout settings).run w with
    | mk answer w₁ =>
      rcases hp.start strategy timeout w hrun with ⟨c, rfl, hentering, hbound⟩ | ⟨hnot, haloof⟩
      · have hopen := hentering.open hbound
        obtain ⟨hbetween, hgrows⟩ := Between.uses hp.conveys hp.atomic (used c) w₁ (.inl hopen)
        exact ⟨hbetween.delivers, (Ledger.grows_of_eq hentering.ledger).trans hgrows⟩
      · rcases answer with (e | c) | m
        · have hrest := haloof.trans ((refused e).run Aloof.refl Aloof.trans w₁)
          exact ⟨hrest.delivers, Ledger.grows_of_eq hrest.ledger⟩
        · exact absurd rfl (hnot c)
        · exact ⟨haloof.delivers, Ledger.grows_of_eq haloof.ledger⟩

end Serves

end Outbox

/-! ## Attempts one after the other -/

namespace Outbox

open Process (inTurn inTurn_append)

variable {o : Outbox ε} {p : Provider ε} {stamps : Action ε Instant}

/-- **Once the instance is complete** nothing is delivered any more. -/
theorem Serves.delivered_of_final (hp : o.Serves p stamps) {attempts : List (Action ε α)}
    (h : ∀ a ∈ attempts, o.Attends p a) {w : World ε} (hfinal : o.Final w) :
    o.delivered (inTurn attempts w) = o.delivered w := by
  induction attempts generalizing w with
  | nil => rfl
  | cons a rest ih =>
    obtain ⟨ha, hrest⟩ := List.forall_mem_cons.1 h
    obtain ⟨hdelivers, hgrows⟩ := hp.attempt ha w
    exact (ih hrest (hgrows.final hfinal)).trans (hdelivers.otherwise fun hcompleted => hcompleted.1 hfinal)

/-- **One attempt completes the instance**, or none does and nothing is delivered. -/
theorem Serves.completed_cases (hp : o.Serves p stamps) {attempts : List (Action ε α)}
    (h : ∀ a ∈ attempts, o.Attends p a) (w : World ε) :
    o.delivered (inTurn attempts w) = o.delivered w ∨
      ∃ before a after, attempts = before ++ a :: after ∧
        o.Completed (inTurn before w) (inTurn (before ++ [a]) w) ∧
        o.delivered (inTurn before w) = o.delivered w ∧
        o.delivered (inTurn attempts w) = o.delivered (inTurn (before ++ [a]) w) := by
  induction attempts generalizing w with
  | nil => exact .inl rfl
  | cons a rest ih =>
    obtain ⟨ha, hrest⟩ := List.forall_mem_cons.1 h
    have hdelivers := (hp.attempt ha w).1
    -- Either this attempt is the one, and the others deliver nothing, or it is as if it had not been.
    by_cases hcompleted : o.Completed w (a.run w).2
    · exact .inr ⟨[], a, rest, rfl, hcompleted, rfl, hp.delivered_of_final hrest hcompleted.2⟩
    · have hsame := hdelivers.otherwise hcompleted
      rcases ih hrest (a.run w).2 with hnone | ⟨before, b, after, rfl, hb, hbefore, hafter⟩
      · exact .inl (hnone.trans hsame)
      · exact .inr ⟨a :: before, b, after, rfl, hb, hbefore.trans hsame, hafter⟩

/-- **Messages leave an instance once, with its final phase.**  Attempts come one after the other, each
    of which may publish whenever it likes, and fail or crash wherever it may.

    1. An attempt that completes the instance delivers just what it has accepted, in one delivery and in
       order; an attempt that does not complete it delivers nothing.
    2. Over all of them there is one delivery or none; if there is one, it is that of the attempt that
       has completed the instance.
    3. A publish that is rejected changes nothing at all. -/
theorem delivers_once (hp : o.Serves p stamps) {attempts : List (Action ε α)}
    (h : ∀ a ∈ attempts, o.Attends p a) (w : World ε) :
    (∀ before a after, attempts = before ++ a :: after →
      o.Delivers (inTurn before w) (inTurn (before ++ [a]) w)) ∧
    (o.delivered (inTurn attempts w) = o.delivered w ∨
      ∃ before a after messages, attempts = before ++ a :: after ∧ messages ≠ [] ∧
        o.Completed (inTurn before w) (inTurn (before ++ [a]) w) ∧
        o.accepted (inTurn (before ++ [a]) w) = o.accepted (inTurn before w) ++ messages ∧
        o.delivered (inTurn before w) = o.delivered w ∧
        o.delivered (inTurn attempts w) = o.delivered w ++ [messages]) ∧
    ∀ (c : Context) (m : Message) (e : Error) (v v' : World ε),
      (v.context c.id).mail.strategy = some .inFinalPhase →
        (c.publish o.sink m).run v = (.value (.error e), v') → v' = v := by
  have hone : ∀ before a after, attempts = before ++ a :: after →
      o.Delivers (inTurn before w) (inTurn (before ++ [a]) w) := by
    rintro before a after rfl
    rw [inTurn_append]
    exact (hp.attempt (h a (by simp)) _).1
  refine ⟨hone, ?_, fun c m e v v' hbound hrun => ?_⟩
  · rcases hp.completed_cases h w with hnone | ⟨before, a, after, hsplit, hcompleted, hbefore, hafter⟩
    · exact .inl hnone
    · obtain ⟨messages, haccepted, hdelivered⟩ := (hone before a after hsplit).completing hcompleted
      rw [hbefore] at hdelivered
      cases messages with
      | nil => exact .inl (hafter.trans (hdelivered.trans (List.append_nil _)))
      | cons m rest =>
        exact .inr ⟨before, a, after, m :: rest, hsplit, nofun, hcompleted, haccepted, hbefore,
          hafter.trans hdelivered⟩
  · rcases Context.publish_cases o.sink m hbound nofun with ⟨e', hrejected⟩ | ⟨-, haccepted⟩
    · rw [hrejected] at hrun
      exact (Prod.mk.inj hrun).2.symm
    · rw [haccepted] at hrun
      cases hrun

end Outbox

/-! ## A post office -/

/-- An environment of records, locks and deliveries, a book, faults, and counters. -/
structure PostOffice where
  records : MemoryStore := Table.empty
  locks : LockTable RecordKey := default
  deliveries : Deliveries := []
  book : List Message := []
  faults : Faults := {}
  stats : Stats := {}

namespace PostOffice

/-- The records. -/
def recordsPart : Part PostOffice MemoryStore where
  get := (·.records)
  set a d := { d with records := a }

/-- The locks. -/
def locksPart : Part PostOffice (LockTable RecordKey) where
  get := (·.locks)
  set a d := { d with locks := a }

/-- The deliveries. -/
def deliveriesPart : Part PostOffice Deliveries where
  get := (·.deliveries)
  set a d := { d with deliveries := a }

/-- The book. -/
def bookPart : Part PostOffice (List Message) where
  get := (·.book)
  set a d := { d with book := a }

/-- The faults. -/
def faultsPart : Part PostOffice Faults where
  get := (·.faults)
  set a d := { d with faults := a }

/-- The counters. -/
def statsPart : Part PostOffice Stats where
  get := (·.stats)
  set a d := { d with stats := a }

/-- The outbox of one instance, with a sink that may be down. -/
def outbox : Outbox PostOffice where
  process := "p"
  key := "k"
  records := recordsPart
  deliveries := deliveriesPart
  book := bookPart
  sink := Faults.onSink faultsPart (Sink.memory deliveriesPart)
  records_deliveries := ⟨fun _ _ => rfl, fun _ _ => rfl⟩
  records_book := ⟨fun _ _ => rfl, fun _ _ => rfl⟩
  deliveries_book := ⟨fun _ _ => rfl, fun _ _ => rfl⟩

/-- A provider whose phases are counted, inside of the publishing. -/
def provider : Provider PostOffice where
  locks := LockTable.adapter locksPart
  store := MemoryStore.adapter recordsPart (pure .epoch)
  interceptors := [Publisher.interceptor outbox.sink, Stats.interceptor statsPart]
  clock := pure .epoch

/-- A change of locks, faults or counters is aloof. -/
theorem aloof_env (w : World PostOffice) {e : PostOffice} (hrecords : e.records = w.env.records)
    (hdeliveries : e.deliveries = w.env.deliveries) (hbook : e.book = w.env.book) :
    outbox.Aloof w { w with env := e } :=
  ⟨⟨congrArg (MemoryStore.ledger · "p" "k") hrecords, hbook, Nat.le_refl _, fun _ _ => rfl⟩, hdeliveries⟩

theorem serves : outbox.Serves provider (pure .epoch) where
  store := rfl
  stamped := trivial
  safe := trivial
  clock := trivial
  seized _ _ _ := .atomically fun w => aloof_env w rfl rfl rfl
  released _ := .atomically fun w => aloof_env w rfl rfl rfl
  extensions := by
    refine ⟨[], [Stats.interceptor statsPart], rfl, (fun _ hi => nomatch hi), fun i hi => ?_⟩
    obtain rfl := List.mem_singleton.1 hi
    exact Outbox.bystander_counting fun f => .change fun w => aloof_env w rfl rfl rfl
  atomic := Outbox.atomic_memory.onSink faultsPart

/-- A message under a key. -/
def letter (key : String) : Message := { topic := "orders", key, payload := some .null }

/-- An attempt with the sink down or not: it publishes a message, then runs a phase that tries to publish
    another one where that is forbidden, and leaves it to the engine to complete the instance. -/
def attempt (down : Bool) (key : String) : Action PostOffice (Except Error Unit) :=
  provider.runProcess "p" "k" ⟨5 * nanosPerSecond⟩ [.publishing .inFinalPhase] fun c => do
    Action.change faultsPart fun f => { f with sink := down }
    let _ ← outbox.publish c (letter key)
    provider.runPhase c { id := "step" } .unit do
      let _ ← outbox.publish c (letter "forbidden")
      return (.ok () : Except Error Unit)

/-- An attempt that cannot deliver, one that can, and one that comes too late. -/
def attempts : List (Action PostOffice (Except Error Unit)) :=
  [attempt true "first", attempt false "second", attempt false "third"]

theorem attends_attempts : ∀ a ∈ attempts, outbox.Attends provider a := by
  have hattempt : ∀ down key, outbox.Attends provider (attempt down key) := by
    intro down key
    refine serves.attends_runProcess _ rfl fun c => ?_
    refine .bind (.of_steps (.change fun w => aloof_env w rfl rfl rfl)) fun _ => ?_
    refine .bind (.act ⟨_, rfl⟩) fun _ => .run ?_
    exact .bind (.act ⟨_, rfl⟩) fun _ => .done _
  intro a ha
  simp only [attempts, List.mem_cons, List.not_mem_nil, or_false] at ha
  rcases ha with rfl | rfl | rfl <;> exact hattempt _ _

/-- Nothing has happened yet. -/
def fresh : World PostOffice := { env := {} }

/-- A context that has left a final phase. -/
def late : Context := { id := 0, process := "p", key := "k", settings := [], recordedFinal := none }

/-- A world whose context has left a final phase. -/
def afterwards : World PostOffice where
  contexts := [{ wasFinal := true, properties := (default : Properties).set Publisher.binding .inFinalPhase }]
  env := {}

/-- **Three attempts, one delivery**; and a publish that comes too late leaves no trace. -/
theorem delivers_once_attempts :
    (∀ a ∈ attempts, outbox.Attends provider a) ∧
    (∃ before a after messages, attempts = before ++ a :: after ∧ messages.map (·.key) = ["second"] ∧
      outbox.Completed (Process.inTurn before fresh) (Process.inTurn (before ++ [a]) fresh) ∧
      outbox.delivered (Process.inTurn attempts fresh) = [messages]) ∧
    (late.publish outbox.sink (letter "fourth")).run afterwards =
      (.value (.error (.assertion .publishingAfterFinalPhase)), afterwards) := by
  obtain ⟨-, hdelivered, hrejected⟩ := Outbox.delivers_once serves attends_attempts fresh
  refine ⟨attends_attempts, ?_, ?_⟩
  · have hkeys : (outbox.delivered (Process.inTurn attempts fresh)).map (·.map (·.key)) = [["second"]] := by
      decide +kernel
    rcases hdelivered with hnone | ⟨before, a, after, messages, hsplit, -, hcompleted, -, -, hdelivered⟩
    · rw [hnone] at hkeys
      cases hkeys
    · rw [hdelivered] at hkeys
      exact ⟨before, a, after, messages, hsplit, (List.cons.inj hkeys).1, hcompleted, hdelivered⟩
  · have hanswer : ((late.publish outbox.sink (letter "fourth")).run afterwards).1 =
        .value (.error (.assertion .publishingAfterFinalPhase)) := rfl
    have hsame := hrejected late (letter "fourth") _ afterwards _ rfl (Prod.ext hanswer rfl)
    exact Prod.ext hanswer hsame

end PostOffice

end Idempotence
