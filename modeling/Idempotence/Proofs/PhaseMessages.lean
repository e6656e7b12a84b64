/-
  Messages of phases — messages that leave with a phase, whichever it is.

  Under the strategy for current phases the body of every phase ends by sending what waits.  The messages
  wait in the CONTEXT, though, not in the phase, and they are taken out once the body has returned.  So a
  body that crashes leaves its messages behind, for the next phase that sends any.

  1. **Turns** — a phase in its turn has one of four fates, and these say what it sends, and what it leaves
     to the next (`Turn.sent`, `Turn.left`).  A whole sequence of turns makes `Turn.deliveries`.

  2. **One call** — while a phase is active its body does nothing but let messages wait; sending them, or
     not, is the last thing the body does (`Outbox.Working.flushing`).  Since executors record the text of
     a body at once or not at all, a call is a turn (`Outbox.Idle.call`).

  3. **All calls** — by induction on the use of the context, whatever an attempt does makes turns, and the
     deliveries are just those of the turns (`Outbox.deliveries_of_turns`).  If no body crashes, each phase
     sends its own messages and no others (`Turn.deliveries_of_safe`).

  4. **The crash** — that is the exception: two phases are enough for a delivery with the messages of a
     phase that has crashed (`PostOffice.crashed_messages_are_sent`).
-/
import Idempotence.Proofs.FinalDelivery

namespace Idempotence

variable {ε α β γ κ : Type}

/-! ## Turns -/

/-- **How a phase may go**: its body does not run; or it crashes; or it returns, but the phase fails; or its
    text is recorded. -/
inductive Fate where
  | skipped
  | crashed
  | failed
  | recorded
  deriving DecidableEq, Repr

/-- **A phase in its turn**, and the messages that its body has had accepted. -/
structure Turn where
  phase : Phase
  fate : Fate
  accepted : List Message

namespace Turn

/-- **What still waits** after a turn.  A crash takes nothing out of the queue. -/
def left (t : Turn) (waiting : List Message) : List Message :=
  match t.fate with
  | .skipped => waiting
  | .crashed => waiting ++ t.accepted
  | .failed | .recorded => []

/-- **What is sent** in a turn: everything that waits by the end of the body, if the phase is recorded. -/
def sent (t : Turn) (waiting : List Message) : Deliveries :=
  match t.fate with
  | .recorded => Outbox.batch (waiting ++ t.accepted)
  | .skipped | .crashed | .failed => []

/-- **The deliveries of a sequence of turns**, the first of which finds messages waiting. -/
def deliveries : List Message → List Turn → Deliveries
  | _, [] => []
  | waiting, t :: rest => t.sent waiting ++ deliveries (t.left waiting) rest

theorem left_of_safe {t : Turn} (h : t.fate ≠ .crashed) : t.left [] = [] := by
  cases hfate : t.fate with
  | crashed => exact absurd hfate h
  | skipped => simp [left, hfate]
  | failed => simp [left, hfate]
  | recorded => simp [left, hfate]

theorem sent_nil (t : Turn) : t.sent [] = if t.fate = .recorded then Outbox.batch t.accepted else [] := by
  cases hfate : t.fate <;> simp [sent, hfate]

/-- **Where nothing crashes**, each phase that is recorded sends its own messages, and no other sends any. -/
theorem deliveries_of_safe {turns : List Turn} (h : ∀ t ∈ turns, t.fate ≠ .crashed) :
    deliveries [] turns =
      turns.flatMap fun t => if t.fate = .recorded then Outbox.batch t.accepted else [] := by
  induction turns with
  | nil => rfl
  | cons t rest ih =>
    obtain ⟨ht, hrest⟩ := List.forall_mem_cons.1 h
    rw [deliveries, left_of_safe ht, sent_nil, ih hrest, List.flatMap_cons]

end Turn

namespace Outbox

variable {o : Outbox ε} {c : Context} {w w' w'' : World ε} {t : Turn} {phase : Phase}

/-! ## Working -/

variable (o) in
/-- **A phase is active** in a context under the strategy for current phases. -/
structure Working (c : Context) (phase : Phase) (w : World ε) : Prop
    extends o.Binds .atEndOfCurrentPhase c w where
  active : (w.context c.id).mail.gate.active = some phase

variable (o) in
/-- **No phase is active.** -/
structure Idle (c : Context) (w : World ε) : Prop extends o.Binds .atEndOfCurrentPhase c w where
  active : (w.context c.id).mail.gate.active = none

variable (o) in
/-- **Messages have been accepted**, in this order, and wait; and nothing else has happened. -/
structure Queued (c : Context) (messages : List Message) (w w' : World ε) : Prop where
  accepted : o.accepted w' = o.accepted w ++ messages
  waiting : c.waiting w' = c.waiting w ++ messages
  delivered : o.delivered w' = o.delivered w
  ledger : o.ledger w' = o.ledger w

theorem Aloof.waiting (hc : c.id < w.contexts.length) (h : o.Aloof w w') : c.waiting w' = c.waiting w :=
  congrArg Mail.waiting (h.mail c.id hc)

theorem Queued.refl (w : World ε) : o.Queued c [] w w :=
  ⟨(List.append_nil _).symm, (List.append_nil _).symm, rfl, rfl⟩

theorem Aloof.queued (hc : c.id < w.contexts.length) (h : o.Aloof w w') : o.Queued c [] w w' where
  accepted := by rw [List.append_nil, h.accepted]
  waiting := by rw [List.append_nil, h.waiting hc]
  delivered := h.delivered
  ledger := h.ledger

theorem Queued.trans {messages messages' : List Message} (h : o.Queued c messages w w')
    (h' : o.Queued c messages' w' w'') : o.Queued c (messages ++ messages') w w'' where
  accepted := by rw [h'.accepted, h.accepted, List.append_assoc]
  waiting := by rw [h'.waiting, h.waiting, List.append_assoc]
  delivered := h'.delivered.trans h.delivered
  ledger := h'.ledger.trans h.ledger

theorem Working.aloof (h : o.Working c phase w) (hw : o.Aloof w w') : o.Working c phase w' where
  toBinds := h.toBinds.spared hw.toSpares
  active := (congrArg (·.gate.active) (hw.mail c.id h.created)).trans h.active

theorem Idle.aloof (h : o.Idle c w) (hw : o.Aloof w w') : o.Idle c w' where
  toBinds := h.toBinds.spared hw.toSpares
  active := (congrArg (·.gate.active) (hw.mail c.id h.created)).trans h.active

/-- **While a phase is active** a publish lets its message wait, or changes nothing. -/
theorem Working.publish (m : Message) :
    (o.publish c m).Preserves (o.Working c phase) fun w w' => ∃ messages, o.Queued c messages w w' := by
  intro w h
  rcases o.publish_cases h.toBinds nofun m with ⟨e, hrun⟩ | ⟨-, hrun⟩
  · rw [hrun]
    exact ⟨h, [], .refl w⟩
  · rw [hrun]
    have hmail := Publisher.mail_requeue h.created ((w.context c.id).mail.waiting ++ [m])
    refine ⟨⟨(h.toBinds.requeue _).modifyEnv _, ?_⟩, [m], ?_, ?_, delivered_enter _ _, ledger_enter _ _⟩
    · exact (congrArg (·.gate.active) hmail).trans h.active
    · exact accepted_enter _ _
    · exact congrArg Mail.waiting hmail

/-- **While no phase is active** it changes nothing. -/
theorem Idle.publish (m : Message) (h : o.Idle c w) : ((o.publish c m).run w).2 = w := by
  rcases o.publish_cases h.toBinds nofun m with ⟨e, hrun⟩ | ⟨hadmits, -⟩
  · rw [hrun]
  · rw [h.active] at hadmits
    exact absurd hadmits PublishStrategy.admits_atEndOfCurrentPhase

variable {x : Executor ε}

/-- **A body** does nothing but let messages wait: calls are refused while a phase is active. -/
theorem Working.busy {a : Action ε α} (ha : c.Does x o.Aloof (o.Publishes c) a) :
    a.Preserves (o.Working c phase) fun w w' => ∃ messages, o.Queued c messages w w' := by
  refine ha.preserves (I := o.Working c phase) (R := fun w w' => ∃ messages, o.Queued c messages w w')
    (fun w => ⟨[], .refl w⟩) (fun _ _ _ ⟨_, h⟩ ⟨_, h'⟩ => ⟨_, h.trans h'⟩)
    (fun w w' h hw => ⟨h.aloof hw, [], hw.queued h.created⟩) (fun a ha => ?_)
    fun phase' codec body _ w h => ?_
  · obtain ⟨m, rfl⟩ := ha
    exact Working.publish m
  · have hactive : (w.context c.id).active ≠ none := by
      intro hnone
      have hphase : (w.context c.id).active.map (·.phase) = some phase := h.active
      rw [hnone] at hphase
      cases hphase
    obtain ⟨e, hpermit⟩ := Context.permit_busy phase' hactive
    rw [Context.run_refused x codec body hpermit]
    exact ⟨h, [], .refl w⟩

/-! ## One call -/

variable (o) in
/-- **What a body has come to** by the end of a turn, where `queued` waits at its end. -/
inductive Came (codec : Codec γ) (body : Action ε (Except β γ)) (queued : List Message) : Fate → Prop
  | skipped : Came codec body queued .skipped
  | crashed {v v' : World ε} {m : String} (run : body.run v = (.crashed m, v')) :
      Came codec body queued .crashed
  | declined {v v' : World ε} {failure : β} (run : body.run v = (.value (.error failure), v')) :
      Came codec body queued .failed
  | unwritable {v v' : World ε} {a : γ} {detail : String} (run : body.run v = (.value (.ok a), v'))
      (unwritten : codec.encode a = .error detail) : Came codec body queued .failed
  | unsent {v v' u : World ε} {a : γ} (run : body.run v = (.value (.ok a), v')) (some : queued ≠ [])
      (refused : ((o.sink.sendAll queued).run u).1 ≠ .value (.ok ())) : Came codec body queued .failed
  | recorded {v v' : World ε} {a : γ} {data : String} (run : body.run v = (.value (.ok a), v'))
      (written : codec.encode a = .ok data) : Came codec body queued .recorded

variable (o) in
/-- **The messages in a turn**: which have been accepted, which still wait, and which have been sent. -/
structure Posts (c : Context) (t : Turn) (w w' : World ε) : Prop where
  accepted : o.accepted w' = o.accepted w ++ t.accepted
  waiting : c.waiting w' = t.left (c.waiting w)
  delivered : o.delivered w' = o.delivered w ++ t.sent (c.waiting w)

variable (o) in
/-- **A call as a turn**: what becomes of its messages, and of its record. -/
structure Takes (c : Context) (codec : Codec γ) (body : Action ε (Except β γ)) (t : Turn) (w w' : World ε) :
    Prop extends o.Posts c t w w' where
  created : c.id < w'.contexts.length
  came : o.Came codec body (c.waiting w ++ t.accepted) t.fate
  skipped : t.fate = .skipped → t.accepted = []
  /-- A body runs only where there is no record. -/
  free : t.fate ≠ .skipped → o.ledger w t.phase.id = none
  unchanged : t.fate ≠ .recorded → o.ledger w' = o.ledger w
  recorded : t.fate = .recorded → ∃ r, o.ledger w' = (o.ledger w).put t.phase.id r

theorem Queued.posts {messages : List Message} (h : o.Queued c messages w w') :
    o.Posts c ⟨phase, .crashed, messages⟩ w w' where
  accepted := h.accepted
  waiting := h.waiting
  delivered := h.delivered.trans (List.append_nil _).symm

/-- Where the body does not run, nothing happens at all. -/
theorem Aloof.takes_skipped {codec : Codec γ} {body : Action ε (Except β γ)} (hc : c.id < w.contexts.length)
    (hc' : c.id < w'.contexts.length) (h : o.Aloof w w') :
    o.Takes c codec body ⟨phase, .skipped, []⟩ w w' where
  accepted := h.accepted.trans (List.append_nil _).symm
  waiting := h.waiting hc
  delivered := h.delivered.trans (List.append_nil _).symm
  created := hc'
  came := .skipped
  skipped _ := rfl
  free hran := absurd rfl hran
  unchanged _ := h.ledger
  recorded := nofun

/-- Messages do not mind what is aloof. -/
theorem Posts.between {w₁ w₂ : World ε} (hc : c.id < w.contexts.length) (hbefore : o.Aloof w w₁)
    (h : o.Posts c t w₁ w₂) (hc₂ : c.id < w₂.contexts.length) (hafter : o.Aloof w₂ w') :
    o.Posts c t w w' where
  accepted := by rw [hafter.accepted, h.accepted, hbefore.accepted]
  waiting := by rw [hafter.waiting hc₂, h.waiting, hbefore.waiting hc]
  delivered := by rw [hafter.delivered, h.delivered, hbefore.delivered, hbefore.waiting hc]

variable (o) in
/-- **The end of a body** that sends what waits. -/
structure Flushes (c : Context) (codec : Codec γ) (body : Action ε (Except β γ)) (t : Turn) (w : World ε)
    (ending : Outcome (Except Error String × κ)) (w' : World ε) : Prop extends o.Posts c t w w' where
  binds : o.Binds .atEndOfCurrentPhase c w'
  came : o.Came codec body (c.waiting w ++ t.accepted) t.fate
  ran : t.fate ≠ .skipped
  ledger : o.ledger w' = o.ledger w
  recorded_iff : t.fate = .recorded ↔ ∃ data k, ending = .value (.ok data, k)

/-- **Once the queue has been taken**, it is empty, and what the sink does is all that follows. -/
theorem Queued.flushes {codec : Codec γ} {body : Action ε (Except β γ)} {messages : List Message}
    {fate : Fate} {ending : Outcome (Except Error String × κ)} {w₁ w₂ : World ε}
    (h : o.Queued c messages w w₁) (hbinds : o.Binds .atEndOfCurrentPhase c w₁)
    (hspares : o.Spares (Publisher.requeue c [] w₁) w₂)
    (hcame : o.Came codec body (c.waiting w ++ messages) fate) (hfate : fate = .failed ∨ fate = .recorded)
    (hdelivered : o.delivered w₂ = o.delivered w ++ Turn.sent ⟨phase, fate, messages⟩ (c.waiting w))
    (hrecorded : fate = .recorded ↔ ∃ data k, ending = .value (.ok data, k)) :
    o.Flushes c codec body ⟨phase, fate, messages⟩ w ending w₂ where
  accepted := hspares.accepted.trans h.accepted
  waiting := by
    have hnone : c.waiting w₂ = [] := by
      rw [Context.waiting, hspares.mail c.id (hbinds.requeue []).created,
        Publisher.mail_requeue hbinds.created]
    rw [hnone]
    rcases hfate with rfl | rfl <;> rfl
  delivered := hdelivered
  binds := (hbinds.requeue []).spared hspares
  came := hcame
  ran := by rcases hfate with rfl | rfl <;> exact nofun
  ledger := hspares.ledger.trans h.ledger
  recorded_iff := hrecorded

/-- **Sending what waits**, once a body has returned a value that can be written. -/
theorem Queued.sending {codec : Codec γ} {body : Action ε (Except β γ)} {messages : List Message}
    {w₁ v v' : World ε} {a : γ} {data : String} (hsink : o.Atomic o.sink) (h : o.Queued c messages w w₁)
    (hbinds : o.Binds .atEndOfCurrentPhase c w₁) (hrun : body.run v = (.value (.ok a), v'))
    (hwritten : codec.encode a = .ok data) (k : κ) :
    ∃ fate, o.Flushes c codec body ⟨phase, fate, messages⟩ w
      ((Publisher.sending o.sink c (.ok data, k)).run w₁).1
      ((Publisher.sending o.sink c (.ok data, k)).run w₁).2 := by
  have hwaiting : (w₁.context c.id).mail.waiting = c.waiting w ++ messages := h.waiting
  simp only [Publisher.sending, Process.run_bind, Publisher.run_takeQueue, hwaiting]
  have hcame : o.Came codec body (c.waiting w ++ messages) .recorded := .recorded hrun hwritten
  cases hqueue : c.waiting w ++ messages with
  | nil =>
    refine ⟨.recorded, h.flushes hbinds (Aloof.refl _).toSpares hcame (.inr rfl) ?_ (by simp)⟩
    show o.delivered w₁ = _
    rw [h.delivered, Turn.sent, hqueue]
    exact (List.append_nil _).symm
  | cons first rest =>
    simp only [List.isEmpty_cons, Bool.false_eq_true, if_false, Process.run_bind]
    have hspares := hsink.spares (first :: rest) (Publisher.requeue c [] w₁)
    have hsent := hsink.sent (first :: rest) (Publisher.requeue c [] w₁)
    have hrefused := hsink.refused (first :: rest) (Publisher.requeue c [] w₁)
    have hnot : ((o.sink.sendAll (first :: rest)).run (Publisher.requeue c [] w₁)).1 ≠ .value (.ok ()) →
        o.Came codec body (c.waiting w ++ messages) .failed := fun hanswer =>
      .unsent hrun (by simp [hqueue]) (by rwa [hqueue])
    cases hanswer : (o.sink.sendAll (first :: rest)).run (Publisher.requeue c [] w₁) with
    | mk answer w₂ =>
      rw [hanswer] at hspares hsent hrefused hnot
      rcases answer with (e | u) | m
      · refine ⟨.failed, h.flushes hbinds hspares (hnot (by simp)) (.inl rfl) ?_ (by simp)⟩
        exact ((hrefused (by simp)).trans h.delivered).trans (List.append_nil _).symm
      · refine ⟨.recorded, h.flushes hbinds hspares hcame (.inr rfl) ?_ (by simp)⟩
        rw [Turn.sent, hqueue]
        exact (hsent rfl).trans (congrArg (· ++ [first :: rest]) h.delivered)
      · refine ⟨.failed, h.flushes hbinds hspares (hnot (by simp)) (.inl rfl) ?_ (by simp)⟩
        exact ((hrefused (by simp)).trans h.delivered).trans (List.append_nil _).symm

/-- **The body of a phase**, with the sending at its end. -/
theorem Working.flushing {codec : Codec γ} {body : Action ε (Except β γ)} (hsink : o.Atomic o.sink)
    (hbody : body.Preserves (o.Working c phase) fun w w' => ∃ messages, o.Queued c messages w w')
    (h : o.Working c phase w) :
    ∃ fate messages, o.Flushes c codec body ⟨phase, fate, messages⟩ w
      ((Publisher.flushing o.sink c (Context.erase phase codec body)).run w).1
      ((Publisher.flushing o.sink c (Context.erase phase codec body)).run w).2 := by
  obtain ⟨h₁, messages, hqueued⟩ := hbody w h
  rw [Publisher.flushing_eq, Process.run_bind, Context.run_erase]
  cases hrun : body.run w with
  | mk ending w₁ =>
    rw [hrun] at h₁ hqueued
    rcases ending with (failure | a) | m
    · refine ⟨.failed, messages, ?_⟩
      simp only [Context.erased, Publisher.sending, Process.run_bind, Publisher.run_takeQueue]
      refine hqueued.flushes h₁.toBinds (Aloof.refl _).toSpares (.declined hrun) (.inl rfl) ?_ (by simp)
      exact hqueued.delivered.trans (List.append_nil _).symm
    · cases hencode : codec.encode a with
      | error detail =>
        refine ⟨.failed, messages, ?_⟩
        simp only [Context.erased, hencode, Publisher.sending, Process.run_bind, Publisher.run_takeQueue]
        refine hqueued.flushes h₁.toBinds (Aloof.refl _).toSpares (.unwritable hrun hencode) (.inl rfl) ?_
          (by simp)
        exact hqueued.delivered.trans (List.append_nil _).symm
      | ok data =>
        simp only [Context.erased, hencode]
        obtain ⟨fate, hflushes⟩ := hqueued.sending hsink h₁.toBinds hrun hencode
          (some (.ok a : Except β γ))
        exact ⟨fate, messages, hflushes⟩
    · -- The queue is not taken, so all that has been accepted goes on waiting.
      exact ⟨.crashed, messages, hqueued.posts, h₁.toBinds, .crashed hrun, by simp, hqueued.ledger,
        by simp [Context.erased]⟩

/-- A record changes nothing about messages. -/
theorem Posts.store (h : o.Posts c t w w') (id : String) (r : StoredRecord) :
    o.Posts c t w (o.store id r w') where
  accepted := (accepted_store ..).trans h.accepted
  waiting := h.waiting
  delivered := (delivered_store ..).trans h.delivered

/-- **Executing a phase** is its turn. -/
theorem Conveyed.takes {codec : Codec γ} {body : Action ε (Except β γ)} (hsink : o.Atomic o.sink)
    (hbody : body.Preserves (o.Working c phase) fun w w' => ∃ messages, o.Queued c messages w w')
    (h : o.Working c phase w)
    (hconveyed : o.Conveyed c phase (Publisher.flushing o.sink c (Context.erase phase codec body)) w w') :
    o.Binds .atEndOfCurrentPhase c w' ∧
      ∃ fate messages, o.Takes c codec body ⟨phase, fate, messages⟩ w w' := by
  have hran : ∀ {w₁ w₂ ending}, o.Aloof w w₁ →
      (Publisher.flushing o.sink c (Context.erase phase codec body)).run w₁ = (ending, w₂) →
      ∃ fate messages, o.Flushes c codec body ⟨phase, fate, messages⟩ w ending w₂ := by
    intro w₁ w₂ ending hbefore hrun
    obtain ⟨fate, messages, hflushes⟩ := (h.aloof hbefore).flushing hsink hbody
    rw [hrun] at hflushes
    have hposts := hflushes.toPosts.between h.created hbefore hflushes.binds.created (.refl w₂)
    refine ⟨fate, messages, hposts, hflushes.binds, ?_, hflushes.ran, ?_, hflushes.recorded_iff⟩
    · rw [← hbefore.waiting h.created]
      exact hflushes.came
    · exact hflushes.ledger.trans hbefore.ledger
  cases hconveyed with
  | idle aloof =>
    have hbinds := h.toBinds.spared aloof.toSpares
    exact ⟨hbinds, .skipped, [], aloof.takes_skipped h.created hbinds.created⟩
  | @failed _ w₂ _ _ before free run failure after =>
    obtain ⟨fate, messages, hflushes⟩ := hran before run
    have hbinds := hflushes.binds.spared after.toSpares
    refine ⟨hbinds, fate, messages, ?_⟩
    exact
      { toPosts := hflushes.toPosts.between h.created (.refl w) hflushes.binds.created after
        created := hbinds.created
        came := hflushes.came
        skipped := fun hskipped => absurd hskipped hflushes.ran
        free := fun _ => (congrFun before.ledger phase.id).symm.trans free
        unchanged := fun _ => after.ledger.trans hflushes.ledger
        recorded := fun hrecorded => by
          obtain ⟨data, k, hending⟩ := hflushes.recorded_iff.1 hrecorded
          exact absurd hending (failure data k) }
  | raced before free run taken after =>
    -- Nobody takes the key meanwhile.
    obtain ⟨_, _, hflushes⟩ := hran before run
    rw [hflushes.ledger, ← before.ledger] at taken
    exact absurd free taken
  | @recorded _ w₂ _ data k r before fresh run free final after =>
    obtain ⟨fate, messages, hflushes⟩ := hran before run
    have hstored : o.Binds .atEndOfCurrentPhase c (o.store phase.id r w₂) := hflushes.binds.modifyEnv _
    have hbinds := hstored.spared after.toSpares
    refine ⟨hbinds, fate, messages, ?_⟩
    exact
      { toPosts := (hflushes.toPosts.store phase.id r).between h.created (.refl w) hstored.created after
        created := hbinds.created
        came := hflushes.came
        skipped := fun hskipped => absurd hskipped hflushes.ran
        free := fun _ => (congrFun hflushes.ledger phase.id).symm.trans free
        unchanged := fun hnot => absurd (hflushes.recorded_iff.2 ⟨data, k, rfl⟩) hnot
        recorded := fun _ => ⟨r, by rw [after.ledger, ledger_store, hflushes.ledger]⟩ }

theorem waiting_modifyContext (hc : c.id < w.contexts.length) {f : ContextState → ContextState}
    (hf : (f (w.context c.id)).properties = (w.context c.id).properties) :
    c.waiting (w.modifyContext c.id f) = c.waiting w := by
  rw [Context.waiting, mail_modifyContext hc hf]
  rfl

/-- **Entering and leaving** leave the properties of the context alone, and with them its messages. -/
theorem Takes.around {codec : Codec γ} {body : Action ε (Except β γ)} {f g : ContextState → ContextState}
    (hc : c.id < w.contexts.length) (hc' : c.id < w'.contexts.length)
    (hf : (f (w.context c.id)).properties = (w.context c.id).properties)
    (hg : (g (w'.context c.id)).properties = (w'.context c.id).properties)
    (h : o.Takes c codec body t (w.modifyContext c.id f) w') :
    o.Takes c codec body t w (w'.modifyContext c.id g) := by
  have hwaiting := waiting_modifyContext hc hf
  refine ⟨⟨h.accepted, ?_, ?_⟩, ?_, ?_, h.skipped, h.free, h.unchanged, h.recorded⟩
  · rw [waiting_modifyContext hc' hg, h.waiting, hwaiting]
  · rw [← hwaiting]
    exact h.delivered
  · rw [World.length_modifyContext]
    exact hc'
  · rw [← hwaiting]
    exact h.came

/-- **A call between calls** is a turn. -/
theorem Idle.call [EngineFailure β] (hx : o.Conveys .atEndOfCurrentPhase (o.ending .atEndOfCurrentPhase) x)
    (hsink : o.Atomic o.sink) {codec : Codec γ} {body : Action ε (Except β γ)}
    (hbody : c.Does x o.Aloof (o.Publishes c) body) (h : o.Idle c w) :
    o.Idle c ((c.run x phase codec body).run w).2 ∧ ∃ fate messages,
      o.Takes c codec body ⟨phase, fate, messages⟩ w ((c.run x phase codec body).run w).2 := by
  cases hpermit : c.permit phase w with
  | error e =>
    rw [Context.run_refused x codec body hpermit]
    exact ⟨h, .skipped, [], (Aloof.refl w).takes_skipped h.created h.created⟩
  | ok s =>
    obtain ⟨-, -, -, -, rfl⟩ := Context.permit_eq_ok hpermit
    rw [Context.run_permitted x codec body hpermit]
    let entered : ContextState := { w.context c.id with
      visited := phase.id :: (w.context c.id).visited, active := some { phase } }
    have hworking : o.Working c phase (w.modifyContext c.id fun _ => entered) :=
      ⟨h.toBinds.turn rfl, by rw [mail_modifyContext h.created rfl]; rfl⟩
    have hconveyed := hx.execute phase (Context.erase phase codec body) hworking.toBinds
    rw [ending_atEndOfCurrentPhase] at hconveyed
    obtain ⟨hbinds, fate, messages, htakes⟩ := hconveyed.takes hsink (Working.busy hbody) hworking
    refine ⟨⟨hbinds.turn rfl, ?_⟩, fate, messages, htakes.around h.created hbinds.created rfl rfl⟩
    rw [mail_modifyContext hbinds.created rfl]
    rfl

/-! ## All calls -/

variable (o) in
/-- **The turns of a run**: the calls of phases between its first and its last world, with nothing but
    aloof steps in between. -/
inductive Turns (c : Context) (x : Executor ε) : List Turn → World ε → World ε → Prop
  | done {w w' : World ε} (aloof : o.Aloof w w') : Turns c x [] w w'
  | call {β γ : Type} [EngineFailure β] {w w₁ w' : World ε} {phase : Phase} {codec : Codec γ}
      {body : Action ε (Except β γ)} {fate : Fate} {messages : List Message} {rest : List Turn}
      (before : o.Aloof w w₁)
      (takes : o.Takes c codec body ⟨phase, fate, messages⟩ w₁ ((c.run x phase codec body).run w₁).2)
      (others : Turns c x rest ((c.run x phase codec body).run w₁).2 w') :
      Turns c x (⟨phase, fate, messages⟩ :: rest) w w'

theorem Turns.after {turns : List Turn} (hw : o.Aloof w w') (h : o.Turns c x turns w' w'') :
    o.Turns c x turns w w'' := by
  cases h with
  | done aloof => exact .done (hw.trans aloof)
  | call before takes others => exact .call (hw.trans before) takes others

/-- **Any use of a context** makes turns. -/
theorem Idle.turns (hx : o.Conveys .atEndOfCurrentPhase (o.ending .atEndOfCurrentPhase) x)
    (hsink : o.Atomic o.sink) {a : Action ε α} (ha : c.Does x o.Aloof (o.Publishes c) a) (h : o.Idle c w) :
    ∃ turns, o.Turns c x turns w (a.run w).2 ∧ o.Idle c (a.run w).2 := by
  induction ha generalizing w with
  | done r => exact ⟨[], .done (.refl w), h⟩
  | crash m => exact ⟨[], .done (.refl w), h⟩
  | step beside _ ih =>
    obtain ⟨turns, hturns, h'⟩ := ih w (h.aloof (beside w))
    exact ⟨turns, hturns.after (beside w), h'⟩
  | own kind _ ih =>
    obtain ⟨m, rfl⟩ := kind
    rw [Process.run_bind', Process.run_caught]
    have hsame := h.publish m
    simp only [hsame]
    exact ih _ h
  | call inner _ _ ih =>
    rw [Process.run_bind', Process.run_caught]
    obtain ⟨h₁, fate, messages, htakes⟩ := h.call hx hsink inner
    obtain ⟨turns, hturns, h'⟩ := ih _ h₁
    exact ⟨_, .call (.refl w) htakes hturns, h'⟩

/-- **The deliveries of a run** are those of its turns. -/
theorem Turns.deliveries {turns : List Turn} (hc : c.id < w.contexts.length) (h : o.Turns c x turns w w') :
    o.accepted w' = o.accepted w ++ turns.flatMap (·.accepted) ∧
      o.delivered w' = o.delivered w ++ Turn.deliveries (c.waiting w) turns := by
  induction h with
  | done aloof =>
    rw [aloof.accepted, aloof.delivered]
    simp [Turn.deliveries]
  | call before takes _ ih =>
    obtain ⟨haccepted, hdelivered⟩ := ih takes.created
    constructor
    · rw [haccepted, takes.accepted, before.accepted, List.flatMap_cons, List.append_assoc]
    · rw [hdelivered, takes.delivered, takes.waiting, before.delivered, before.waiting hc, Turn.deliveries,
        List.append_assoc]

/-- **Messages leave with the phase that they were published in.**  A context has been started under the
    strategy for current phases, and is used in any way: its phases may publish as they like, and return,
    fail or crash; whoever runs them may go on after a crash; and the sink may refuse at any time.

    1. What is delivered over the whole run is what its turns send, one after the other.  A phase that is
       recorded sends all that waits by the end of its body, in one delivery and in order.  A phase that
       fails, or whose body does not run since there is a record, sends nothing, now or later.
    2. A phase whose body crashes sends nothing either, but leaves its messages to the next one.  If no body
       crashes, then each delivery is just what has been accepted in the body of one recorded phase. -/
theorem deliveries_of_turns {p : Provider ε} {stamps : Action ε Instant} (hp : o.Serves p stamps)
    {timeout : Duration} {settings : List Setting} {w₀ : World ε}
    (hstrategy : PublishStrategy.ofSettings settings = .ok .atEndOfCurrentPhase)
    (hstart : (p.start o.process o.key timeout settings).run w₀ = (.value (.ok c), w)) {a : Action ε α}
    (ha : c.Does p.executor o.Aloof (o.Publishes c) a) :
    ∃ turns, o.Turns c p.executor turns w (a.run w).2 ∧
      o.accepted (a.run w).2 = o.accepted w₀ ++ turns.flatMap (·.accepted) ∧
      o.delivered (a.run w).2 = o.delivered w₀ ++ Turn.deliveries [] turns ∧
      ((∀ t ∈ turns, t.fate ≠ .crashed) →
        o.delivered (a.run w).2 = o.delivered w₀ ++ turns.flatMap fun t =>
          if t.fate = .recorded then batch t.accepted else []) := by
  rcases hp.start hstrategy timeout w₀ hstart with ⟨c', hc', hentering, hbound⟩ | ⟨hnot, -⟩
  · obtain rfl : c = c' := by
      cases hc'
      rfl
    have hidle : o.Idle c w := by
      refine ⟨⟨hentering.process_eq, hentering.key_eq, hentering.created, hbound⟩, ?_⟩
      rw [hentering.gate]
    have hnone : c.waiting w = [] := hentering.waiting
    obtain ⟨turns, hturns, -⟩ := hidle.turns hp.conveys hp.atomic ha
    obtain ⟨haccepted, hdelivered⟩ := hturns.deliveries hidle.created
    rw [hnone, hentering.delivered] at hdelivered
    rw [hentering.accepted] at haccepted
    refine ⟨turns, hturns, haccepted, hdelivered, fun hsafe => ?_⟩
    rw [hdelivered, Turn.deliveries_of_safe hsafe]
  · exact absurd rfl (hnot c)

end Outbox

/-! ## The crash -/

namespace PostOffice

/-- A phase that publishes a message and goes on. -/
def phase (c : Context) (id key : String) (rest : Action PostOffice (Except Error Unit)) :
    Action PostOffice (Except Error Unit) :=
  provider.runPhase c { id } .unit do
    let _ ← outbox.publish c (letter key)
    rest

/-- An attempt under the strategy for current phases has started. -/
def started : World PostOffice :=
  ((provider.start "p" "k" ⟨5 * nanosPerSecond⟩ [.publishing .atEndOfCurrentPhase]).run fresh).2

/-- The context of the attempt that publishes. -/
def handle : Context where
  id := 0
  process := "p"
  key := "k"
  settings := [.publishing .atEndOfCurrentPhase]
  recordedFinal := none

theorem run_start :
    (provider.start "p" "k" ⟨5 * nanosPerSecond⟩ [.publishing .atEndOfCurrentPhase]).run fresh =
      (.value (.ok handle), started) := rfl

/-- The first phase has crashed with a message waiting. -/
def afterCrash : World PostOffice := ((phase handle "one" "first" (.crash "boom")).run started).2

/-- The second phase has gone on from the crash of the first one. -/
def afterNext : World PostOffice := ((phase handle "two" "second" (pure (.ok ()))).run afterCrash).2

/-- **The messages of a phase that has crashed** are sent with those of the next one, so that this delivery
    is not what has been accepted in one phase. -/
theorem crashed_messages_are_sent :
    ((phase handle "one" "first" (.crash "boom")).run started).1 = .crashed "boom" ∧
      ((phase handle "two" "second" (pure (.ok ()))).run afterCrash).1 = .value (.ok ()) ∧
      (outbox.delivered afterNext).map (·.map (·.key)) = [["first", "second"]] ∧
      ¬ ∃ messages, outbox.accepted afterNext = outbox.accepted afterCrash ++ messages ∧
        outbox.delivered afterNext = outbox.delivered afterCrash ++ Outbox.batch messages := by
  have hsent : (outbox.delivered afterNext).map (·.map (·.key)) = [["first", "second"]] := by decide +kernel
  refine ⟨rfl, rfl, hsent, ?_⟩
  rintro ⟨messages, haccepted, hdelivered⟩
  have hbefore : (outbox.accepted afterCrash).map (·.key) = ["first"] := by decide +kernel
  have hafter : (outbox.accepted afterNext).map (·.key) = ["first", "second"] := by decide +kernel
  have hnone : outbox.delivered afterCrash = [] := rfl
  rw [haccepted, List.map_append, hbefore] at hafter
  have hkeys : messages.map (·.key) = ["second"] := (List.cons.inj hafter).2
  rw [hdelivered, hnone] at hsent
  cases messages with
  | nil => cases hkeys
  | cons m rest =>
    simp only [Outbox.batch, List.nil_append, List.map_cons, List.map_nil] at hsent hkeys
    rw [hkeys] at hsent
    exact absurd hsent (by decide)

/-- An attempt that publishes outside of phases, and runs phases of all kinds: one that is recorded, one that
    cannot send its message, one that fails, and one that crashes and is followed by another. -/
def errands : Action PostOffice (Except Error Unit) := do
  let _ ← outbox.publish handle (letter "outside")
  let _ ← phase handle "one" "sent" (pure (.ok ()))
  Action.change faultsPart fun f => { f with sink := true }
  let _ ← phase handle "two" "unsent" (pure (.ok ()))
  Action.change faultsPart fun f => { f with sink := false }
  let _ ← phase handle "three" "given up" (pure (.error (.assertion (.other "three"))))
  let _ ← (phase handle "four" "left" (.crash "boom")).caught
  phase handle "five" "last" (pure (.ok ()))

/-- **Two deliveries**, and the second one is the only one with a message of another phase. -/
theorem deliveries_of_turns_errands : ∃ turns,
    outbox.Turns handle provider.executor turns started (errands.run started).2 ∧
    outbox.delivered (errands.run started).2 = Turn.deliveries [] turns ∧
    (Turn.deliveries [] turns).map (·.map (·.key)) = [["sent"], ["left", "last"]] := by
  have huses : handle.Does provider.executor outbox.Aloof (outbox.Publishes handle) errands := by
    have hpublish : ∀ key, handle.Does provider.executor outbox.Aloof (outbox.Publishes handle)
        (outbox.publish handle (letter key)) := fun _ => .act ⟨_, rfl⟩
    have hphase : ∀ (id key : String) (answer : Except Error Unit),
        handle.Does provider.executor outbox.Aloof (outbox.Publishes handle)
          (phase handle id key (pure answer)) := fun _ key _ =>
      .run (.bind (hpublish key) fun _ => .of_steps (.pure _))
    have hswitch : ∀ down, handle.Does provider.executor outbox.Aloof (outbox.Publishes handle)
        (Action.change faultsPart fun f => { f with sink := down } : Action PostOffice Unit) := fun down =>
      .of_steps (.change fun w => aloof_env w rfl rfl rfl)
    refine .bind (hpublish "outside") fun _ => .bind (hphase ..) fun _ => .bind (hswitch true) fun _ => ?_
    refine .bind (hphase ..) fun _ => .bind (hswitch false) fun _ => .bind (hphase ..) fun _ => ?_
    have hlast := hphase "five" "last" (.ok ())
    unfold phase Provider.runPhase at hlast ⊢
    exact .call (.bind (hpublish "left") fun _ => .crash "boom") fun _ => hlast
  obtain ⟨turns, hturns, -, hdelivered, -⟩ := Outbox.deliveries_of_turns serves rfl run_start huses
  have hfresh : outbox.delivered (errands.run started).2 = Turn.deliveries [] turns := hdelivered
  refine ⟨turns, hturns, hfresh, ?_⟩
  rw [← hfresh]
  decide +kernel

end PostOffice

end Idempotence
