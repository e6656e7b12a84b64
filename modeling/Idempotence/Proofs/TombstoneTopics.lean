/-
  Tombstone topics — no tombstone leaves for a topic that keeps no snapshot.

  1. **Topics** — whether a topic takes tombstones is read off what stands behind its last dot; that is so
     of `snapshot` and of whatever ends in `.snapshot` (`Message.isSnapshotTopic_iff`).

  2. **Two ways out** — a message is handed to a sink at once, or waits in a context until the extension
     that publishes hands over all that waits.  Hence the invariant speaks of both, what has been
     delivered and what waits (`Tidy`).  It is checked where a message comes in, and carried by the queue
     from there (`Publisher.upholds_interceptor`).

  3. **At every moment** — any programs side by side, started over any provider whose other parts neither
     deliver nor queue anything, uphold it under every schedule (`delivered_placed`).
-/
import Idempotence.Proofs.FinalDelivery
import Idempotence.Proofs.Programs

namespace Idempotence

variable {ε α : Type}

/-! ## Topics -/

namespace Message

/-- **What stands behind the last dot** of a topic, or all of it. -/
theorem lastSegment_eq_iff {topic : String} {segment : List Char} (hdot : '.' ∉ segment) :
    lastSegment topic = segment ↔
      topic.toList = segment ∨ ∃ front, topic.toList = front ++ '.' :: segment := by
  have hkept : ∀ rest : List Char, (segment.reverse ++ rest).takeWhile (· != '.') =
      segment.reverse ++ rest.takeWhile (· != '.') := by
    refine fun rest => List.takeWhile_append_of_pos fun a ha => ?_
    have hne : a ≠ '.' := fun h => hdot (h ▸ List.mem_reverse.1 ha)
    simpa using hne
  constructor
  · intro h
    have hsplit := List.takeWhile_append_dropWhile (p := (· != '.')) (l := topic.toList.reverse)
    have hback : topic.toList.reverse.takeWhile (· != '.') = segment.reverse := by
      rw [← h, lastSegment, List.reverse_reverse]
    rw [hback] at hsplit
    cases hrest : topic.toList.reverse.dropWhile (· != '.') with
    | nil =>
      rw [hrest, List.append_nil] at hsplit
      exact .inl (List.reverse_inj.1 hsplit.symm)
    | cons c rest =>
      have hfirst := List.head?_dropWhile_not (· != '.') topic.toList.reverse
      rw [hrest] at hfirst
      have hc : c = '.' := by simpa using hfirst
      rw [hrest, hc] at hsplit
      refine .inr ⟨rest.reverse, List.reverse_inj.1 ?_⟩
      rw [← hsplit]
      simp
  · rintro (h | ⟨front, h⟩)
    · have hall := hkept []
      rw [List.takeWhile_nil, List.append_nil] at hall
      rw [lastSegment, h, hall, List.reverse_reverse]
    · have hstop : ('.' :: front.reverse).takeWhile (· != '.') = [] := rfl
      rw [lastSegment, h, List.reverse_append, List.reverse_cons, List.append_assoc, List.singleton_append,
        hkept, hstop, List.append_nil, List.reverse_reverse]

/-- **The topics that take tombstones.** -/
theorem isSnapshotTopic_iff {topic : String} :
    isSnapshotTopic topic = true ↔ topic = "snapshot" ∨ ∃ front, topic = front ++ ".snapshot" := by
  have hdot : '.' ∉ "snapshot".toList := by decide
  rw [isSnapshotTopic, beq_iff_eq, lastSegment_eq_iff hdot, String.toList_inj]
  refine or_congr_right ⟨fun ⟨front, h⟩ => ⟨String.ofList front, ?_⟩, fun ⟨front, h⟩ => ⟨front.toList, ?_⟩⟩
  · have hfront : (String.ofList front).toList = front := String.toList_ofList
    rw [← String.toList_inj, h, String.toList_append, hfront]
    rfl
  · rw [h, String.toList_append]
    rfl

/-- **A message that may go to its topic**: it has a payload, or the topic keeps snapshots. -/
def Placed (m : Message) : Prop :=
  m.payload ≠ none ∨ m.topic = "snapshot" ∨ ∃ front, m.topic = front ++ ".snapshot"

theorem placed_iff {m : Message} : m.Placed ↔ (m.isTombstone && !isSnapshotTopic m.topic) = false := by
  unfold Placed isTombstone
  rw [← isSnapshotTopic_iff]
  cases m.payload <;> simp

/-- **The check of a message** lets through what may go to its topic. -/
theorem checkDestination_placed {m : Message} (h : m.Placed) : m.checkDestination = .ok () := by
  rw [checkDestination, placed_iff.1 h]
  rfl

/-- The check of a message refuses what may not go to its topic. -/
theorem checkDestination_misplaced {m : Message} (h : ¬ m.Placed) :
    m.checkDestination = .error (.misplacedTombstone m.topic) := by
  rw [placed_iff, Bool.not_eq_false] at h
  rw [checkDestination, h]
  rfl

end Message

/-! ## What is delivered, and what waits -/

/-- What waits in the contexts. -/
def World.queues (w : World ε) : List (List Message) := w.contexts.map (·.mail.waiting)

/-- A change of a context changes one queue at most. -/
theorem World.queues_modifyContext {w : World ε} {id : Nat} {f : ContextState → ContextState}
    {waiting : List Message} (h : waiting ∈ (w.modifyContext id f).queues) :
    waiting = (f (w.context id)).mail.waiting ∨ waiting ∈ w.queues := by
  obtain ⟨s, hs, rfl⟩ := List.mem_map.1 h
  obtain ⟨j, hj⟩ := List.mem_iff_getElem?.1 hs
  rw [World.modifyContext, List.getElem?_modify] at hj
  cases hold : w.contexts[j]? with
  | none =>
    rw [hold] at hj
    cases hj
  | some t =>
    rw [hold] at hj
    have hthere : t.mail.waiting ∈ w.queues := List.mem_map_of_mem (List.mem_of_getElem? hold)
    by_cases hid : id = j
    · subst hid
      have hs : f t = s := by simpa using hj
      have ht : w.context id = t := by rw [World.context, List.getD_eq_getElem?_getD, hold, Option.getD_some]
      exact .inl (by rw [← hs, ht])
    · have hs : t = s := by simpa [hid] using hj
      exact .inr (hs ▸ hthere)

/-- What waits in a context is a queue, or there is no such context and nothing waits. -/
theorem Context.waiting_mem (c : Context) (w : World ε) : c.waiting w = [] ∨ c.waiting w ∈ w.queues := by
  cases hthere : w.contexts[c.id]? with
  | none =>
    refine .inl ?_
    rw [Context.waiting, World.context, List.getD_eq_getElem?_getD, hthere]
    rfl
  | some s =>
    refine .inr ?_
    rw [Context.waiting, World.context, List.getD_eq_getElem?_getD, hthere]
    exact List.mem_map_of_mem (List.mem_of_getElem? hthere)

/-- **Nothing misplaced** has been delivered or waits. -/
structure Tidy (deliveries : Part ε Deliveries) (w : World ε) : Prop where
  delivered : ∀ delivery ∈ deliveries.get w.env, ∀ m ∈ delivery, m.Placed
  waiting : ∀ queue ∈ w.queues, ∀ m ∈ queue, m.Placed

/-- **A step that delivers** nothing but some of these messages, and queues none. -/
structure Delivers (deliveries : Part ε Deliveries) (messages : List Message) (w w' : World ε) : Prop where
  delivered : ∀ delivery ∈ deliveries.get w'.env,
    delivery ∈ deliveries.get w.env ∨ ∀ m ∈ delivery, m ∈ messages
  waiting : ∀ queue ∈ w'.queues, queue = [] ∨ queue ∈ w.queues

section

variable {deliveries : Part ε Deliveries} {messages : List Message} {w w' : World ε}

/-- A new world is tidy. -/
theorem tidy_new (hdelivered : deliveries.get w.env = []) (hcontexts : w.contexts = []) :
    Tidy deliveries w := by
  constructor
  · intro delivery hdelivery
    rw [hdelivered] at hdelivery
    cases hdelivery
  · intro queue hqueue
    rw [World.queues, hcontexts] at hqueue
    cases hqueue

/-- Placed messages may be delivered. -/
theorem Delivers.tidy (h : Delivers deliveries messages w w') (hplaced : ∀ m ∈ messages, m.Placed)
    (hw : Tidy deliveries w) : Tidy deliveries w' := by
  constructor
  · intro delivery hdelivery m hm
    rcases h.delivered delivery hdelivery with hold | hnew
    · exact hw.delivered delivery hold m hm
    · exact hplaced m (hnew m hm)
  · intro queue hqueue m hm
    rcases h.waiting queue hqueue with rfl | hold
    · cases hm
    · exact hw.waiting queue hold m hm

/-- What delivers nothing leaves a world tidy. -/
theorem Delivers.tidy_nothing (h : Delivers deliveries [] w w') (hw : Tidy deliveries w) :
    Tidy deliveries w' := h.tidy (fun _ hm => nomatch hm) hw

/-- Where only the environment changes, what counts is what is delivered. -/
theorem delivers_env {e : ε} (h : ∀ delivery ∈ deliveries.get e,
      delivery ∈ deliveries.get w.env ∨ ∀ m ∈ delivery, m ∈ messages) :
    Delivers deliveries messages w { w with env := e } := ⟨h, fun _ => .inr⟩

theorem Delivers.refl (w : World ε) : Delivers deliveries messages w w := ⟨fun _ => .inl, fun _ => .inr⟩

/-- A change of a context that queues nothing. -/
theorem delivers_modifyContext {id : Nat} {f : ContextState → ContextState}
    (h : (f (w.context id)).mail.waiting = [] ∨
      (f (w.context id)).mail.waiting = (w.context id).mail.waiting) :
    Delivers deliveries messages w (w.modifyContext id f) := by
  refine ⟨fun _ => .inl, fun queue hqueue => ?_⟩
  rcases World.queues_modifyContext hqueue with rfl | hold
  · rcases h with hnone | hsame
    · exact .inl hnone
    · rw [hsame]
      exact Context.waiting_mem ⟨id, "", "", [], none⟩ w
  · exact .inr hold

/-- Spans are no messages. -/
theorem overlooksSpans_delivers : OverlooksSpans (Delivers deliveries messages) where
  trace _ _ := ⟨fun _ => .inl, fun _ => .inr⟩
  spans w id bag h := by
    refine delivers_modifyContext (.inr ?_)
    have hother : PropertyType.span ≠ PropertyType.queue := nofun
    exact congrArg (·.getD []) (h Publisher.queue.qualifiedName .queue (.inr hother))

/-! ## Sinks -/

/-- **An honest sink** delivers nothing but what it has been handed. -/
structure Sink.Honest (deliveries : Part ε Deliveries) (sink : Sink ε) : Prop where
  send : ∀ m, (sink.send m).Steps (Delivers deliveries [m])
  sendAll : ∀ messages, (sink.sendAll messages).Steps (Delivers deliveries messages)

/-- **The sink in memory** is honest. -/
theorem Sink.honest_memory : (Sink.memory deliveries).Honest deliveries := by
  have happend : ∀ messages, (Action.change deliveries (· ++ [messages]) : Action ε Unit).Steps
      (Delivers deliveries messages) := by
    intro messages
    refine .change fun w => delivers_env fun delivery hdelivery => ?_
    rw [deliveries.get_set] at hdelivery
    rcases List.mem_append.1 hdelivery with hold | hnew
    · exact .inl hold
    · exact .inr fun m hm => List.mem_singleton.1 hnew ▸ hm
  exact ⟨fun m => .bind (happend [m]) fun _ => .pure _, fun messages => .bind (happend messages) fun _ => .pure _⟩

/-- An honest sink that may be down is honest. -/
theorem Sink.Honest.onSink {sink : Sink ε} (h : sink.Honest deliveries) (faults : Part ε Faults) :
    (Faults.onSink faults sink).Honest deliveries := by
  constructor
  · intro m
    refine .bind (.look .refl _) fun down => ?_
    split
    · exact .pure _
    · exact h.send m
  · intro messages
    refine .bind (.look .refl _) fun down => ?_
    split
    · exact .pure _
    · exact h.sendAll messages

/-! ## Publishing -/

/-- A message behind those that wait. -/
theorem Tidy.requeue {c : Context} {m : Message} (hw : Tidy deliveries w) (hm : m.Placed) :
    Tidy deliveries (Publisher.requeue c (c.waiting w ++ [m]) w) := by
  refine ⟨hw.delivered, fun queue hqueue => ?_⟩
  rcases World.queues_modifyContext hqueue with rfl | hold
  · intro n hn
    simp only [ContextState.mail, PropertyBag.get?_set_self, Option.getD_some] at hn
    rcases List.mem_append.1 hn with hbefore | hlast
    · rcases c.waiting_mem w with hnone | hthere
      · rw [hnone] at hbefore
        cases hbefore
      · exact hw.waiting _ hthere n hbefore
    · exact List.mem_singleton.1 hlast ▸ hm
  · exact hw.waiting queue hold

/-- **Publishing keeps things tidy**: what is misplaced is refused before it is sent or queued. -/
theorem Context.upholds_publish {sink : Sink ε} (hsink : sink.Honest deliveries) (c : Context) (m : Message) :
    (c.publish sink m).Upholds (Tidy deliveries) fun _ => True := by
  unfold Context.publish
  rw [Publisher.strategy?_eq]
  refine (Process.Upholds.look _).bind fun bound _ => ?_
  cases bound with
  | none => trivial
  | some s =>
    refine (Process.Upholds.look _).bind fun wasFinal _ => (Process.Upholds.look _).bind fun current _ => ?_
    cases s.admits wasFinal current with
    | error misuse => trivial
    | ok u =>
      by_cases hm : m.Placed
      · rw [Message.checkDestination_placed hm]
        have hsend : (sink.send m).Upholds (Tidy deliveries) fun _ => True :=
          .of_steps (hsink.send m) fun w w' hstep =>
            hstep.tidy fun n hn => List.mem_singleton.1 hn ▸ hm
        have hqueue : (Publisher.enqueue c m : Action ε Unit).Upholds (Tidy deliveries) fun _ => True := by
          rw [Publisher.enqueue_eq]
          exact .atomically fun w hw => ⟨hw.requeue hm, trivial⟩
        dsimp only
        split
        · exact hsend.bind fun _ _ => trivial
        · exact hqueue.bind fun _ _ => trivial
      · rw [Message.checkDestination_misplaced hm]
        trivial

/-- **Publishing what is misplaced** does nothing but look, and is refused. -/
theorem Context.publish_misplaced {m : Message} (hm : ¬ m.Placed) (c : Context) (sink : Sink ε) :
    (c.publish sink m).Steps (fun w w' => w' = w) ∧
      (c.publish sink m).Gives fun answer => ∃ e, answer = .error e := by
  have hanswer : ∀ e : Error, (pure (.error e) : Action ε (Except Error Unit)).Gives
      fun answer => ∃ e, answer = .error e := fun e => ⟨e, rfl⟩
  unfold Context.publish
  rw [Publisher.strategy?_eq]
  constructor
  · have hlook : ∀ {β : Type} (f : World ε → β), (Process.look f : Action ε β).Steps fun w w' => w' = w :=
      fun f => .look (fun _ => rfl) f
    refine .bind (hlook _) fun bound => ?_
    cases bound with
    | none => exact .pure _
    | some s =>
      refine .bind (hlook _) fun wasFinal => .bind (hlook _) fun current => ?_
      rw [Message.checkDestination_misplaced hm]
      cases s.admits wasFinal current <;> exact .pure _
  · refine (Process.Upholds.look _).bind fun bound _ => ?_
    cases bound with
    | none => exact hanswer _
    | some s =>
      refine (Process.Upholds.look _).bind fun wasFinal _ => (Process.Upholds.look _).bind fun current _ => ?_
      rw [Message.checkDestination_misplaced hm]
      cases s.admits wasFinal current <;> exact hanswer _

/-- Where the strategy admits messages, it says why. -/
theorem Context.run_publish_misplaced {m : Message} (hm : ¬ m.Placed) {c : Context} {s : PublishStrategy}
    (hbound : (w.context c.id).mail.strategy = some s)
    (hadmits : s.admits (w.context c.id).wasFinal ((w.context c.id).active.map (·.phase)) = .ok ())
    (sink : Sink ε) :
    (c.publish sink m).run w = (.value (.error (.publish (.misplacedTombstone m.topic))), w) := by
  unfold Context.publish
  simp only [Process.run_bind, Publisher.run_strategy?, hbound, Context.wasFinal, Context.currentPhase,
    Context.look, Process.run_look, hadmits, Message.checkDestination_misplaced hm, Process.run_pure]

/-! ## The extension that publishes -/

/-- All that waits is sent, and all of it is placed. -/
theorem Publisher.upholds_sending {κ : Type} {sink : Sink ε} (hsink : sink.Honest deliveries) (c : Context)
    (answer : Except Error String × κ) :
    (sending sink c answer).Upholds (Tidy deliveries) fun _ => True := by
  have htake : (takeQueue c : Action ε (List Message)).Upholds (Tidy deliveries)
      fun waiting => ∀ m ∈ waiting, m.Placed := by
    rw [takeQueue_eq]
    refine .atomically fun w hw => ⟨?_, fun m hm => ?_⟩
    · refine Delivers.tidy_nothing (delivers_modifyContext (.inl ?_)) hw
      simp only [ContextState.mail, PropertyBag.get?_set_self, Option.getD_some]
    · rcases c.waiting_mem w with hnone | hthere
      · rw [hnone] at hm
        cases hm
      · exact hw.waiting _ hthere m hm
  obtain ⟨text, k⟩ := answer
  refine htake.bind fun waiting hplaced => ?_
  cases text with
  | error e => trivial
  | ok data =>
    dsimp only
    split
    · trivial
    · have hsend : (sink.sendAll waiting).Upholds (Tidy deliveries) fun _ => True :=
        .of_steps (hsink.sendAll waiting) fun w w' hstep => hstep.tidy hplaced
      refine hsend.bind fun sent _ => ?_
      cases sent <;> trivial

/-- **The extension that publishes** keeps things tidy, under every strategy. -/
theorem Publisher.upholds_interceptor {sink : Sink ε} (hsink : sink.Honest deliveries) :
    (interceptor sink).Upholds (Tidy deliveries) where
  created _ c := by
    dsimp only [interceptor]
    split
    · trivial
    · have hbind : ∀ s, (c.withProperties (modify (·.set binding s)) : Action ε Unit).Upholds
          (Tidy deliveries) fun _ => True := by
        intro s
        refine .atomically fun w hw => ⟨Delivers.tidy_nothing (delivers_modifyContext (.inr ?_)) hw, trivial⟩
        have hother : PropertyType.strategy ≠ PropertyType.queue := nofun
        have hqueue := PropertyBag.get?_set_of_ne (w.context c.id).properties hother binding queue s
        exact congrArg (fun waiting : Option (List Message) => waiting.getD []) hqueue
      exact (hbind _).bind fun _ _ => trivial
  closed _ _ := trivial
  wrap hx := by
    refine ⟨fun c phase body hbody => ?_⟩
    unfold interceptor wrap
    dsimp only
    rw [strategy?_eq]
    refine (Process.Upholds.look _).bind fun bound _ => ?_
    cases bound with
    | none => exact hx.execute c phase hbody
    | some s =>
      refine hx.execute c phase ?_
      split
      · rw [flushing_eq]
        exact hbody.bind fun answer _ => upholds_sending hsink c answer
      · exact hbody

end

/-! ## At every moment -/

/-- **A provider whose extensions publish** to honest sinks, or stand by; and nothing else that belongs to
    it delivers or queues messages. -/
structure Provider.Posts (deliveries : Part ε Deliveries) (p : Provider ε) : Prop where
  store : p.store.Keeps (Delivers deliveries [])
  findFinal : ∀ process key, (p.store.findFinal process key).Steps (Delivers deliveries [])
  clock : p.clock.Steps (Delivers deliveries [])
  obtain : ∀ key timeout now, (p.locks.obtain key timeout now).Steps (Delivers deliveries [])
  release : ∀ handle, (p.locks.release handle).Steps (Delivers deliveries [])
  extensions : ∀ i ∈ p.interceptors, i.StandsBy (Delivers deliveries []) ∨
    ∃ sink : Sink ε, sink.Honest deliveries ∧ i = Publisher.interceptor sink

/-- **What a program does on its own** where messages are published: it publishes one, or does something
    that delivers and queues nothing. -/
inductive Posting (deliveries : Part ε Deliveries) : ∀ {β : Type}, Action ε β → Prop
  | publish {sink : Sink ε} (honest : sink.Honest deliveries) (c : Context) (m : Message) :
      Posting deliveries (c.publish sink m)
  | other {β : Type} {a : Action ε β} (steps : a.Steps (Delivers deliveries [])) : Posting deliveries a

/-- A provider that posts keeps things tidy. -/
theorem Provider.Posts.upholds {deliveries : Part ε Deliveries} {p : Provider ε} (hp : p.Posts deliveries) :
    p.Upholds (Tidy deliveries) := by
  have hnothing : ∀ w w', Delivers deliveries [] w w' → Tidy deliveries w → Tidy deliveries w' :=
    fun _ _ => Delivers.tidy_nothing
  constructor
  case store =>
    exact ⟨fun key => (hp.store.get key).mono hnothing, hp.store.begin.mono hnothing,
      fun key data isFinal txn => (hp.store.insert key data isFinal txn).mono hnothing,
      fun txn answer => (hp.store.conclude txn answer).mono hnothing⟩
  case findFinal => exact fun process key => (hp.findFinal process key).mono hnothing
  case clock => exact hp.clock.mono hnothing
  case obtain => exact fun key timeout now => (hp.obtain key timeout now).mono hnothing
  case release => exact fun handle => (hp.release handle).mono hnothing
  case extensions =>
    intro i hi
    rcases hp.extensions i hi with hstands | ⟨sink, hsink, rfl⟩
    · exact hstands.upholds _ hnothing
    · exact Publisher.upholds_interceptor hsink
  case trace => exact fun w t => hnothing w _ (overlooksSpans_delivers.trace w t)
  case created =>
    intro w handle hw
    refine hnothing w _ ⟨fun _ => .inl, fun queue hqueue => ?_⟩ hw
    rw [World.queues, List.map_append] at hqueue
    rcases List.mem_append.1 hqueue with hold | hnew
    · exact .inr hold
    · exact .inl (List.mem_singleton.1 hnew)
  case bookkeeping =>
    intro w id f hf
    refine hnothing w _ (delivers_modifyContext (.inr ?_))
    rw [ContextState.mail, ContextState.mail, hf]

/-- **No misplaced tombstone ever leaves.**  Any programs run side by side, whatever they publish, in and
    outside of phases, under whatever strategies, and however their phases end.  At every moment each
    message that has been delivered, or waits, has a payload or goes to a topic that is `snapshot` or
    ends in `.snapshot`.  And publishing any other message changes nothing and is refused; for that
    reason, where the context is bound to a strategy that admits messages. -/
theorem delivered_placed {deliveries : Part ε Deliveries} {p : Provider ε} (hp : p.Posts deliveries)
    {programs : List (Program ε α)} (hprograms : ∀ prog ∈ programs, prog.Within (Posting deliveries))
    {start : World ε} (hstart : Tidy deliveries start) (schedule : List Nat) {w : World ε}
    (hw : (Pool.play ⟨programs.map (·.act p), start⟩ schedule).state = w) :
    (∀ delivery ∈ deliveries.get w.env, ∀ m ∈ delivery,
      m.payload ≠ none ∨ m.topic = "snapshot" ∨ ∃ front, m.topic = front ++ ".snapshot") ∧
    (∀ queue ∈ w.queues, ∀ m ∈ queue, m.Placed) ∧
    ∀ (m : Message), ¬ m.Placed → ∀ (c : Context) (sink : Sink ε),
      ((c.publish sink m).Steps fun v v' => v' = v) ∧
      ((c.publish sink m).Gives fun answer => ∃ e, answer = .error e) ∧
      ∀ s, (w.context c.id).mail.strategy = some s →
        s.admits (w.context c.id).wasFinal ((w.context c.id).active.map (·.phase)) = .ok () →
        (c.publish sink m).run w = (.value (.error (.publish (.misplacedTombstone m.topic))), w) := by
  have hposting : ∀ {β : Type} {a : Action ε β}, Posting deliveries a →
      a.Upholds (Tidy deliveries) fun _ => True := by
    intro β a ha
    cases ha with
    | publish honest c m => exact c.upholds_publish honest m
    | other steps => exact .of_steps steps fun _ _ => Delivers.tidy_nothing
  have hthreads : ∀ t ∈ programs.map (·.act p), t.Upholds (Tidy deliveries) fun _ => True := by
    intro t ht
    obtain ⟨prog, hprog, rfl⟩ := List.mem_map.1 ht
    exact hp.upholds.program hposting (hprograms prog hprog)
  have htidy : Tidy deliveries w := hw ▸ Pool.upheld hthreads hstart schedule
  refine ⟨htidy.delivered, htidy.waiting, fun m hm c sink => ?_⟩
  obtain ⟨hsteps, hgives⟩ := Context.publish_misplaced hm c sink
  exact ⟨hsteps, hgives, fun s hbound hadmits => Context.run_publish_misplaced hm hbound hadmits sink⟩

/-! ## At the post office -/

namespace PostOffice

theorem posts_provider : provider.Posts deliveriesPart where
  store := MemoryStore.keeps_adapter Delivers.refl (fun _ _ => delivers_env fun _ => .inl) trivial
  findFinal _ _ := .look Delivers.refl _
  clock := trivial
  obtain _ _ _ := .atomically fun _ => delivers_env fun _ => .inl
  release _ := .atomically fun _ => delivers_env fun _ => .inl
  extensions := by
    intro i hi
    simp only [provider, List.mem_cons, List.not_mem_nil, or_false] at hi
    rcases hi with rfl | rfl
    · exact .inr ⟨outbox.sink, Sink.honest_memory.onSink faultsPart, rfl⟩
    · exact .inl (Interceptor.standsBy_counting fun _ => .change fun _ => delivers_env fun _ => .inl)

/-- A process that publishes tombstones, outside of its phase and in it, and a message with a payload. -/
def notices (strategy : PublishStrategy) (key : String) : Program PostOffice Unit :=
  .attempt "p" key ⟨5 * nanosPerSecond⟩ [.publishing strategy]
    (fun c =>
      .own (c.publish outbox.sink (.tombstone "orders" key)) fun _ =>
      .own (c.publish outbox.sink (.tombstone "snapshot" key)) fun _ =>
      .call c { id := "step" } .unit
        (.own (c.publish outbox.sink (.tombstone "orders" key)) fun _ =>
          .own (c.publish outbox.sink (.tombstone "orders.snapshot" key)) fun _ =>
          .own (c.publish outbox.sink (letter key)) fun _ => .done (.ok () : Except Error Unit))
        fun _ => .done (.ok () : Except Error Unit))
    fun _ => .done ()

theorem within_notices (strategy : PublishStrategy) (key : String) :
    (notices strategy key).Within (Posting deliveriesPart) := by
  have hpublish : ∀ (c : Context) (m : Message), Posting deliveriesPart (c.publish outbox.sink m) :=
    .publish (Sink.honest_memory.onSink faultsPart)
  refine ⟨fun c => ?_, fun _ => trivial⟩
  refine ⟨hpublish c _, fun _ => ⟨hpublish c _, fun _ => ⟨?_, fun _ => trivial⟩⟩⟩
  exact ⟨hpublish c _, fun _ => ⟨hpublish c _, fun _ => ⟨hpublish c _, fun _ => trivial⟩⟩⟩

/-- One process sends its messages at the end of the phase, the other at once, outside of phases. -/
def desks : Pool (World PostOffice) Unit where
  threads := [notices .atEndOfCurrentPhase "k", notices .inConsumer "l"].map (·.act provider)
  state := fresh

/-- The two processes take turns. -/
def turns : List Nat := (List.replicate 60 [0, 1]).flatten

/-- **Two processes publish ten messages** in company.  The three that may leave have left. -/
theorem delivered_placed_desks :
    (deliveriesPart.get (desks.play turns).state.env).map (·.map (·.topic)) =
      [["snapshot"], ["orders.snapshot", "orders"]] ∧
    ∀ delivery ∈ deliveriesPart.get (desks.play turns).state.env, ∀ m ∈ delivery,
      m.payload ≠ none ∨ m.topic = "snapshot" ∨ ∃ front, m.topic = front ++ ".snapshot" := by
  have hprograms : ∀ prog ∈ [notices .atEndOfCurrentPhase "k", notices .inConsumer "l"],
      prog.Within (Posting deliveriesPart) := by
    intro prog hprog
    simp only [List.mem_cons, List.not_mem_nil, or_false] at hprog
    rcases hprog with rfl | rfl <;> exact within_notices _ _
  have hstart : Tidy deliveriesPart fresh := tidy_new rfl rfl
  have hpool : desks = ⟨[notices .atEndOfCurrentPhase "k", notices .inConsumer "l"].map (·.act provider),
    fresh⟩ := rfl
  obtain ⟨hdelivered, -⟩ := delivered_placed posts_provider hprograms hstart turns rfl
  rw [← hpool] at hdelivered
  exact ⟨by decide +kernel, hdelivered⟩

end PostOffice

end Idempotence
