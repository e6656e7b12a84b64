/-
  Races for a final phase — executions of one final phase at once, each with messages of its own.

  A lock that has expired, or has been granted twice, lets several contexts execute the final phase of one
  instance.  The record goes to one of them.  The messages do not: a body ends by sending what waits in its
  context, and that is before anybody finds out whose record it will be.

  1. **The contest** — contenders execute the phase in contexts of their own, through the extension that
     publishes and the base executor.  Their bodies may do anything but touch the record, the deliveries,
     and the messages of others (`Contest.Writes`); so they may publish (`Contest.writes_publish`).

  2. **The treaty** — beside the world it keeps a TALLY: who has made the record, and who has sent what.
     Everybody relies on the record to stay, and on nobody else to send in its name or to touch its queue.

  3. **What each of them sends** (`Contest.deliveries_of_contenders`) — its own queue, in one delivery, if
     its body has succeeded and the sink has taken it, and nothing otherwise.  So the one that is executed
     has been delivered.  A contender that meets another's record may have been delivered as well, and
     there are schedules under which it has (`Contest.loser_delivers`).
-/
import Idempotence.Proofs.FinalDelivery
import Idempotence.Proofs.Interleaving

namespace Idempotence

variable {ε α β κ : Type}

/-! ## The contest -/

/-- **Where a contest is held**: the records, the deliveries and the sink, the clock of the store, the key
    of the final phase, and the contexts of the contenders. -/
structure Contest (ε : Type) where
  records : Part ε MemoryStore
  deliveries : Part ε Deliveries
  sink : Sink ε
  clock : Action ε Instant
  key : RecordKey
  context : Nat → Context
  apart : records.Apart deliveries
  distinct : ∀ {i j}, (context i).id = (context j).id → i = j

namespace Contest

variable (contest : Contest ε)

/-- The record that everybody is after. -/
def record (w : World ε) : Option StoredRecord := (contest.records.get w.env).get? contest.key

/-- What the sink has got so far. -/
def delivered (w : World ε) : Deliveries := contest.deliveries.get w.env

/-- The strategy that the `i`-th contender is bound to. -/
def strategy (i : Nat) (w : World ε) : Option PublishStrategy :=
  (w.context (contest.context i).id).mail.strategy

/-- What waits in the context of a contender. -/
def queue (i : Nat) (w : World ε) : List Message := (contest.context i).waiting w

/-- The executor at work: the base executor, within the extension that publishes. -/
def executor : Executor ε :=
  Publisher.wrap contest.sink (.base (MemoryStore.adapter contest.records contest.clock))

/-- **A step aside** of the `i`-th contender: of all that counts it changes nothing but its own queue. -/
structure Aside (i : Nat) (w w' : World ε) : Prop where
  record : contest.record w' = contest.record w
  delivered : contest.delivered w' = contest.delivered w
  strategy : ∀ j, contest.strategy j w' = contest.strategy j w
  queue : ∀ j, j ≠ i → contest.queue j w' = contest.queue j w

/-- A step that is aside for every contender. -/
def Quiet (w w' : World ε) : Prop := ∀ i, contest.Aside i w w'

/-- **A body** of the `i`-th contender does nothing but steps aside, if its context is bound to the strategy
    for final phases; and it does not crash. -/
inductive Writes (i : Nat) : {α : Type} → Action ε α → Prop
  | done {α : Type} (a : α) : Writes i (.done a)
  | step {α : Type} {effect : World ε → World ε} {resume : World ε → Action ε α}
      (aside : ∀ w, contest.strategy i w = some .inFinalPhase → contest.Aside i w (effect w))
      (rest : ∀ w, contest.strategy i w = some .inFinalPhase → Writes i (resume w)) :
      Writes i (.step effect resume)

/-- **Sending all or nothing, in one step**, beside which nothing happens. -/
inductive Sends (messages : List Message) : Action ε (Except PublishError Unit) → Prop
  | refused (e : PublishError) : Sends messages (.done (.error e))
  | quiet {effect : World ε → World ε} {resume : World ε → Action ε (Except PublishError Unit)}
      (quiet : ∀ w, contest.Quiet w (effect w)) (rest : ∀ w, Sends messages (resume w)) :
      Sends messages (.step effect resume)
  | sent {effect : World ε → World ε}
      (record : ∀ w, contest.record (effect w) = contest.record w)
      (delivered : ∀ w, contest.delivered (effect w) = contest.delivered w ++ [messages])
      (strategy : ∀ w j, contest.strategy j (effect w) = contest.strategy j w)
      (queue : ∀ w j, contest.queue j (effect w) = contest.queue j w) :
      Sends messages (.step effect fun _ => .done (.ok ()))

/-- **What is asked of the clock and the sink.** -/
structure Sound : Prop where
  clock : contest.clock.Steps contest.Quiet
  safe : contest.clock.Safe
  sink : ∀ messages, contest.Sends messages (contest.sink.sendAll messages)

end Contest

/-- **What a body shows** beside its text: what it has come to, and what waits in its context then. -/
abbrev Shown (κ : Type) := Except Error String × List Message × κ

/-- The body of a final phase with what it shows. -/
def Body.posted (c : Context) (body : Body ε κ) : Action ε (Except Error String × Shown κ) := do
  let (text, k) ← body
  let queued ← Process.look fun w => c.waiting w
  return (text, text, queued, k)

/-- **A contender**: a context, the phase that it executes, and the body. -/
structure Contender (ε κ : Type) where
  context : Context
  phase : Phase
  body : Body ε κ

namespace Contest

variable (contest : Contest ε)

/-- **A contender in its place**, which is after the record. -/
structure Admits (i : Nat) (x : Contender ε κ) : Prop where
  context : x.context = contest.context i
  key : ⟨x.context.process, x.context.key, x.phase.id⟩ = contest.key
  final : x.phase.isFinal = true
  writes : contest.Writes i x.body

/-- The execution of a contender. -/
def execution (x : Contender ε κ) : Action ε (Answer (Shown κ)) :=
  contest.executor.execute x.context x.phase (x.body.posted x.context)

/-- **What an execution sends**, to judge by its answer: what had waited by the end of its body, if that
    succeeded and there is an output. -/
def sends : Answer (Shown κ) → Deliveries
  | (.ok _, some (.ok _, queued, _)) => Outbox.batch queued
  | _ => []

/-! ## The treaty -/

/-- **The tally**: who has made the record, and who has sent what. -/
structure Tally where
  maker : Option Nat := none
  log : List (Nat × List Message) := []

/-- What the `i`-th contender has sent. -/
def Tally.sent (t : Tally) (i : Nat) : Deliveries := (t.log.filter (·.1 == i)).map (·.2)

/-- The world, and the tally. -/
abbrev Standing (ε : Type) := World ε × Tally

/-- **What holds at every moment**, if `base` had been delivered at the beginning. -/
structure Fair (base : Deliveries) (t : Standing ε) : Prop where
  delivered : contest.delivered t.1 = base ++ t.2.log.map (·.2)
  once : (t.2.log.map (·.1)).Nodup
  made : ∀ i, t.2.maker = some i → contest.record t.1 ≠ none

/-- **What the `i`-th contender may do in one step.** -/
inductive Move (i : Nat) : Standing ε → Standing ε → Prop
  | aside {w w' : World ε} {g : Tally} (aside : contest.Aside i w w') : Move i (w, g) (w', g)
  | make {w w' : World ε} {g : Tally} {r : StoredRecord} (free : contest.record w = none)
      (made : contest.record w' = some r) (delivered : contest.delivered w' = contest.delivered w)
      (strategy : ∀ j, contest.strategy j w' = contest.strategy j w)
      (queue : ∀ j, contest.queue j w' = contest.queue j w) : Move i (w, g) (w', { g with maker := some i })
  | send {w w' : World ε} {g : Tally} {messages : List Message} (unsent : g.sent i = [])
      (record : contest.record w' = contest.record w)
      (delivered : contest.delivered w' = contest.delivered w ++ [messages])
      (strategy : ∀ j, contest.strategy j w' = contest.strategy j w)
      (queue : ∀ j, contest.queue j w' = contest.queue j w) :
      Move i (w, g) (w', { g with log := g.log ++ [(i, messages)] })

/-- **What the `i`-th contender relies on.** -/
structure Kept (i : Nat) (t u : Standing ε) : Prop where
  record : ∀ r, contest.record t.1 = some r → contest.record u.1 = some r
  maker : t.2.maker = some i → u.2.maker = some i
  sent : u.2.sent i = t.2.sent i
  strategy : contest.strategy i u.1 = contest.strategy i t.1
  queue : contest.queue i u.1 = contest.queue i t.1

variable {contest} {i j : Nat} {t u v : Standing ε} {base : Deliveries}

theorem Aside.refl (w : World ε) : contest.Aside i w w := ⟨rfl, rfl, fun _ => rfl, fun _ _ => rfl⟩

theorem Kept.refl (t : Standing ε) : contest.Kept i t t := ⟨fun _ h => h, id, rfl, rfl, rfl⟩

theorem Kept.trans (h : contest.Kept i t u) (h' : contest.Kept i u v) : contest.Kept i t v where
  record r hr := h'.record r (h.record r hr)
  maker hm := h'.maker (h.maker hm)
  sent := h'.sent.trans h.sent
  strategy := h'.strategy.trans h.strategy
  queue := h'.queue.trans h.queue

theorem Tally.sent_append (g : Tally) (i j : Nat) (messages : List Message) :
    ({ g with log := g.log ++ [(i, messages)] } : Tally).sent j =
      g.sent j ++ if i = j then [messages] else [] := by
  by_cases h : i = j <;> simp [sent, h]

/-- **What holds goes on holding.** -/
theorem Move.fair (ht : contest.Fair base t) (h : contest.Move i t u) : contest.Fair base u := by
  cases h with
  | aside aside =>
    exact ⟨aside.delivered.trans ht.delivered, ht.once, fun j hj => aside.record ▸ ht.made j hj⟩
  | make free made delivered strategy queue =>
    exact ⟨delivered.trans ht.delivered, ht.once, fun _ _ => by simp [made]⟩
  | @send w w' g messages unsent record delivered strategy queue =>
    refine ⟨?_, ?_, fun j hj => record ▸ ht.made j hj⟩
    · rw [delivered, ht.delivered, List.map_append, List.append_assoc]
      rfl
    · -- It has not sent anything before.
      have hnew : i ∉ g.log.map (·.1) := by
        intro hmem
        obtain ⟨entry, hentry, rfl⟩ := List.mem_map.1 hmem
        have hsent : entry.2 ∈ g.sent entry.1 := by
          refine List.mem_map_of_mem (List.mem_filter.2 ⟨hentry, by simp⟩)
        rw [unsent] at hsent
        cases hsent
      rw [List.map_append]
      exact List.nodup_append.2 ⟨ht.once, by simp, by
        intro a ha b hb
        obtain rfl := List.mem_singleton.1 hb
        rintro rfl
        exact hnew ha⟩

/-- **What one does is what the others rely on.** -/
theorem Move.kept (hij : i ≠ j) (ht : contest.Fair base t) (h : contest.Move i t u) : contest.Kept j t u := by
  cases h with
  | aside aside =>
    exact ⟨fun r hr => aside.record.trans hr, id, rfl, aside.strategy j, aside.queue j (Ne.symm hij)⟩
  | make free made delivered strategy queue =>
    refine ⟨fun r hr => ?_, fun hm => absurd free (ht.made j hm), rfl, strategy j, queue j⟩
    rw [free] at hr
    cases hr
  | send unsent record delivered strategy queue =>
    refine ⟨fun r hr => record.trans hr, id, ?_, strategy j, queue j⟩
    rw [Tally.sent_append, if_neg hij, List.append_nil]

variable (contest) in
/-- **The treaty of the contest.** -/
def treaty (base : Deliveries) : Treaty (World ε) (Standing ε) where
  view := Prod.fst
  inv := contest.Fair base
  rely := contest.Kept
  guar := contest.Move
  rely_refl _ := Kept.refl
  rely_trans := Kept.trans
  guar_refl _ _ := .aside (.refl _)
  inv_guar ht h := h.fair ht
  rely_guar := Move.kept

/-! ## Keeping the treaty -/

/-- A quiet step of one's own is kept like those of others. -/
theorem Quiet.kept {w w' : World ε} (h : contest.Quiet w w') (g : Tally) : contest.Kept i (w, g) (w', g) :=
  ⟨fun r hr => (h i).record.trans hr, id, rfl, (h i).strategy i, (h (i + 1)).queue i (by omega)⟩

/-- A process of quiet steps keeps the treaty. -/
theorem meets_quiet {post : α → Standing ε → Prop} {p : Action ε α} (hp : p.Steps contest.Quiet) (hs : p.Safe)
    (hpost : ∀ a u, contest.Kept i t u → post a u) : (contest.treaty base).Meets i post p t := by
  induction p generalizing t with
  | done a => exact fun u htu _ => hpost a u htu
  | crash m => exact hs.elim
  | step e k ih =>
    intro u htu _
    refine ⟨(e u.1, u.2), rfl, .aside (hp.1 u.1 i), ih u.1 (hp.2 u.1) (hs u.1) fun a v huv => ?_⟩
    exact hpost a v ((htu.trans ((hp.1 u.1).kept u.2)).trans huv)

/-- A look at the records meets the treaty if what comes after it does. -/
theorem meets_look {post : β → Standing ε → Prop} {f : MemoryStore → α} {k : α → Action ε β}
    (h : ∀ u, contest.Kept i t u →
      (contest.treaty base).Meets i post (k (f (contest.records.get u.1.env))) u) :
    (contest.treaty base).Meets i post (Action.look contest.records f >>= k) t :=
  Treaty.meets_look fun u htu _ => h u htu

/-- Telling an event meets the treaty. -/
theorem meets_tell {post : α → Standing ε → Prop} {e : Event} {a : α}
    (h : ∀ u, contest.Kept i t u → post a u) :
    (contest.treaty base).Meets i post (do Action.tell e; return a) t := by
  refine Treaty.meets_change fun u htu _ => ?_
  have hquiet : contest.Quiet u.1 { u.1 with trace := u.1.trace.tell e } :=
    fun j => ⟨rfl, rfl, fun _ => rfl, fun _ _ => rfl⟩
  exact ⟨(_, u.2), rfl, .aside (hquiet i), fun v huv _ => h v ((htu.trans (hquiet.kept u.2)).trans huv)⟩

/-- A step on the records meets the treaty if it is a move of the contest. -/
theorem meets_on {post : α → Standing ε → Prop} {f : MemoryStore → α × MemoryStore}
    (h : ∀ u, contest.Kept i t u → ∃ v,
      v.1 = u.1.modifyEnv (fun e => contest.records.set (f (contest.records.get e)).2 e) ∧
        contest.Move i u v ∧ ∀ x, contest.Kept i v x → post (f (contest.records.get u.1.env)).1 x) :
    (contest.treaty base).Meets i post (Action.on contest.records f) t := by
  intro u htu _
  obtain ⟨v, hv, hmove, hpost⟩ := h u htu
  exact ⟨v, hv, hmove, fun x hvx _ => hpost x hvx⟩

/-- **The end of a transaction**: the record is this contender's, or somebody has made one before. -/
theorem meets_commit {post : Except Error Unit → Standing ε → Prop} {r : StoredRecord}
    (hmade : ∀ u, contest.Kept i t u → contest.record u.1 = some r → u.2.maker = some i → post (.ok ()) u)
    (htaken : ∀ u r', contest.Kept i t u → contest.record u.1 = some r' →
      post (.error (.store (.duplicateRecord contest.key))) u) :
    (contest.treaty base).Meets i post
      (Action.on contest.records (MemoryStore.commit [(contest.key, r)])) t := by
  refine meets_on fun u htu => ?_
  cases hrecord : contest.record u.1 with
  | some r' =>
    rw [MemoryStore.commit_taken hrecord]
    refine ⟨u, ?_, .aside (.refl _), fun v huv => htaken v r' (htu.trans huv) (huv.record r' hrecord)⟩
    simp only [World.modifyEnv]
    rw [MemoryStore.commit_taken hrecord, Part.set_get]
  | none =>
    rw [MemoryStore.commit_free hrecord]
    let w : World ε := u.1.modifyEnv fun e =>
      contest.records.set ((contest.records.get e).insert contest.key r) e
    have hw : contest.record w = some r := by
      simp only [record, w, World.modifyEnv, Part.get_set, Table.get?_insert, if_true]
    have hdelivered : contest.delivered w = contest.delivered u.1 := contest.apart.get_set_right ..
    have hown : contest.Kept i u (w, { u.2 with maker := some i }) := by
      refine ⟨fun r' hr' => ?_, fun _ => rfl, rfl, rfl, rfl⟩
      rw [hrecord] at hr'
      cases hr'
    refine ⟨(w, { u.2 with maker := some i }), ?_, .make hrecord hw hdelivered (fun _ => rfl) fun _ => rfl,
      fun v huv => hmade v ((htu.trans hown).trans huv) (huv.record r hw) (huv.maker rfl)⟩
    simp only [World.modifyEnv, w]
    rw [MemoryStore.commit_free hrecord]

/-- **Recording**: either the record is now this contender's, or somebody has made one. -/
theorem meets_record (hsound : contest.Sound) {post : Except Error Unit → Standing ε → Prop} {isFinal : Bool}
    {data : String}
    (hmade : ∀ u r, contest.Kept i t u → contest.record u.1 = some r → r.data = data →
      u.2.maker = some i → post (.ok ()) u)
    (htaken : ∀ u r, contest.Kept i t u → contest.record u.1 = some r →
      post (.error (.store (.duplicateRecord contest.key))) u) :
    (contest.treaty base).Meets i post
      (MemoryStore.record contest.records contest.clock contest.key isFinal data) t := by
  refine meets_look fun u htu => ?_
  cases hu : (contest.records.get u.1.env).contains contest.key with
  | true =>
    obtain ⟨r, hr⟩ := Option.isSome_iff_exists.1 hu
    exact fun v huv _ => htaken v r (htu.trans huv) (huv.record r hr)
  | false =>
    -- The end of the transaction looks once more, since others may have come first.
    refine Treaty.Meets.bind (meets_quiet hsound.clock hsound.safe fun createdAt v huv => ?_)
    exact meets_commit (fun x hvx hr => hmade x _ ((htu.trans huv).trans hvx) hr rfl)
      fun x r hvx => htaken x r ((htu.trans huv).trans hvx)

/-- **An error** comes back as it is, or another's output comes instead of it; a duplicate comes back only
    where the record was not there. -/
theorem meets_resolve {post : Except Error PhaseOutput → Standing ε → Prop} {phase : Phase} {e : Error}
    (hback : (e.isDuplicate = true → contest.record t.1 = none) → ∀ u, contest.Kept i t u → post (.error e) u)
    (hother : ∀ u r, contest.Kept i t u → contest.record u.1 = some r → e.isDuplicate = true →
      post (.ok (.concurrent r.data)) u) :
    (contest.treaty base).Meets i post
      (Executor.resolve (MemoryStore.adapter contest.records contest.clock) contest.key phase e) t := by
  rw [MemoryStore.resolve_adapter]
  by_cases hdup : e.isDuplicate = true
  · rw [if_pos hdup]
    refine meets_look fun u htu => ?_
    cases hu : (contest.records.get u.1.env).get? contest.key with
    | some r => exact meets_tell fun v huv => hother v r (htu.trans huv) (huv.record r hu) hdup
    | none =>
      refine fun v huv _ => hback (fun _ => ?_) v (htu.trans huv)
      cases ht : contest.record t.1 with
      | none => rfl
      | some r => exact absurd (htu.record r ht) (by simp [record, hu])
  · rw [if_neg hdup]
    exact fun u htu _ => hback (fun h => absurd h hdup) u htu

/-- **A body** keeps the treaty, and sends nothing. -/
theorem Writes.meets {p : Action ε α} (hp : contest.Writes i p)
    (hbound : contest.strategy i t.1 = some .inFinalPhase) :
    (contest.treaty base).Meets i (fun _ u => u.2.sent i = t.2.sent i) p t := by
  induction hp generalizing t with
  | done a => exact fun u htu _ => htu.sent
  | step aside _ ih =>
    intro u htu _
    have hbound' : contest.strategy i u.1 = some .inFinalPhase := htu.strategy.trans hbound
    have haside := aside u.1 hbound'
    refine ⟨(_, u.2), rfl, .aside haside, ?_⟩
    refine (ih u.1 hbound' (t := (_, u.2)) ((haside.strategy i).trans hbound')).weaken fun _ v hv => ?_
    exact hv.trans htu.sent

/-! ## Sending -/

/-- Changing one's own queue is a step aside. -/
theorem aside_requeue (i : Nat) (waiting : List Message) (w : World ε) :
    contest.Aside i w (Publisher.requeue (contest.context i) waiting w) := by
  have htype : PropertyType.queue ≠ PropertyType.strategy := nofun
  refine ⟨rfl, rfl, fun j => ?_, fun j hj => ?_⟩
  · simp only [strategy, Publisher.requeue, World.context_modifyContext]
    split
    · rename_i hand
      simp only [ContextState.mail, hand.1, PropertyBag.get?_set_of_ne _ htype]
    · rfl
  · have hne : (contest.context i).id ≠ (contest.context j).id := fun h => hj (contest.distinct h).symm
    simp only [queue, Context.waiting, Publisher.requeue, World.context_modifyContext]
    rw [if_neg fun hand => hne hand.1]

theorem writes_look {f : World ε → α} {k : α → Action ε β}
    (h : ∀ w, contest.strategy i w = some .inFinalPhase → contest.Writes i (k (f w))) :
    contest.Writes i (Process.look f >>= k) := .step (fun w _ => .refl w) h

/-- **Publishing** is something that a body may do. -/
theorem writes_publish (i : Nat) (sink : Sink ε) (m : Message) :
    contest.Writes i ((contest.context i).publish sink m) := by
  unfold Context.publish
  rw [Publisher.strategy?_eq]
  refine writes_look fun w hbound => ?_
  have hstrategy : (w.context (contest.context i).id).mail.strategy = some .inFinalPhase := hbound
  simp only [hstrategy]
  refine writes_look fun w₁ _ => writes_look fun w₂ _ => ?_
  split
  · exact .done _
  · split
    · exact .done _
    · rw [if_neg nofun, Publisher.enqueue_eq]
      exact .step (fun w _ => aside_requeue i _ w) fun w _ => .done _

/-- A body may go on after a part of it. -/
theorem Writes.bind {p : Action ε α} {f : α → Action ε β} (hp : contest.Writes i p)
    (hf : ∀ a, contest.Writes i (f a)) : contest.Writes i (p >>= f) := by
  induction hp with
  | done a => exact hf a
  | step aside _ ih => exact .step aside fun w hw => ih w hw

/-- **Sending** enters the tally, or leaves it as it is. -/
theorem Sends.meets {messages : List Message} {p : Action ε (Except PublishError Unit)}
    (hp : contest.Sends messages p) (hunsent : t.2.sent i = []) :
    (contest.treaty base).Meets i
      (fun answer u => u.2.sent i = match answer with | .ok () => [messages] | .error _ => []) p t := by
  induction hp generalizing t with
  | refused e => exact fun u htu _ => htu.sent.trans hunsent
  | quiet quiet _ ih =>
    intro u htu _
    exact ⟨(_, u.2), rfl, .aside (quiet u.1 i), ih u.1 (t := (_, u.2)) (htu.sent.trans hunsent)⟩
  | sent record delivered strategy queue =>
    intro u htu _
    have hunsent' := htu.sent.trans hunsent
    refine ⟨(_, { u.2 with log := u.2.log ++ [(i, messages)] }), rfl,
      .send hunsent' (record u.1) (delivered u.1) (strategy u.1) (queue u.1), fun v huv _ => ?_⟩
    refine huv.sent.trans ?_
    rw [Tally.sent_append, if_pos rfl, hunsent']
    rfl

/-- **The end of a body** that has put aside what it had come to, and what had waited. -/
inductive Flushed (i : Nat) : Except Error String × Shown κ → Standing ε → Prop
  | sent {data : String} {queued : List Message} {k : κ} {u : Standing ε}
      (sent : u.2.sent i = Outbox.batch queued) : Flushed i (.ok data, .ok data, queued, k) u
  | failed {e : Error} {queued : List Message} {k : κ} {u : Standing ε} (unsent : u.2.sent i = []) :
      Flushed i (.error e, .error e, queued, k) u
  | refused {e : PublishError} {data : String} {queued : List Message} {k : κ} {u : Standing ε}
      (some : queued ≠ []) (unsent : u.2.sent i = []) :
      Flushed i (.error (.publish e), .ok data, queued, k) u

/-- **A body that ends by sending what waits.** -/
theorem meets_flushing (hsound : contest.Sound) {body : Body ε κ} (hbody : contest.Writes i body)
    (hbound : contest.strategy i t.1 = some .inFinalPhase) (hunsent : t.2.sent i = []) :
    (contest.treaty base).Meets i (Flushed i)
      (Publisher.flushing contest.sink (contest.context i) (body.posted (contest.context i))) t := by
  rw [Publisher.flushing_eq]
  -- Between the look at the queue and the taking of it nobody else touches it.
  have hposted : (contest.treaty base).Meets i
      (fun a u => u.2.sent i = [] ∧ a.2.1 = a.1 ∧ a.2.2.1 = contest.queue i u.1)
      (body.posted (contest.context i)) t := by
    refine Treaty.Meets.bind ((hbody.meets hbound).weaken fun answer u hu => ?_)
    refine Treaty.meets_look fun v huv _ x hvx _ => ⟨?_, rfl, hvx.queue.symm⟩
    exact ((hvx.sent.trans huv.sent).trans hu).trans hunsent
  refine Treaty.Meets.bind (hposted.weaken ?_)
  rintro ⟨text, text', queued, k⟩ u ⟨hu, htext, hqueued⟩
  obtain rfl : text' = text := htext
  unfold Publisher.sending
  rw [Publisher.takeQueue_eq]
  intro v huv _
  have hwaiting : (contest.context i).waiting ((contest.treaty base).view v) = queued :=
    huv.queue.trans hqueued.symm
  let taken : Standing ε := (Publisher.requeue (contest.context i) [] v.1, v.2)
  have hnone : taken.2.sent i = [] := huv.sent.trans hu
  refine ⟨taken, rfl, .aside (aside_requeue i [] v.1), ?_⟩
  cases text' with
  | error e => exact fun x hx _ => .failed (hx.sent.trans hnone)
  | ok data =>
    simp only [hwaiting, Process.bind]
    cases queued with
    | nil => exact fun x hx _ => .sent (hx.sent.trans hnone)
    | cons m rest =>
      refine Treaty.Meets.bind (((hsound.sink (m :: rest)).meets hnone).weaken fun answer x hx => ?_)
      cases answer with
      | error e => exact fun y hy _ => .refused (List.cons_ne_nil m rest) (hy.sent.trans hx)
      | ok u => exact fun y hy _ => .sent (hy.sent.trans hx)

/-! ## Executions -/

variable (contest) in
/-- **What has become of an execution** by its answer, the last component of which is what the body put
    aside, if it ran. -/
structure Settled (i : Nat) (a : Answer (Shown κ)) (t : Standing ε) : Prop where
  sent : t.2.sent i = sends a
  recorded : ∀ output, a.1 = .ok output → ∃ r, contest.record t.1 = some r ∧ r.data = output.data
  executed : ∀ data, a.1 = .ok (.executed data) →
    t.2.maker = some i ∧ ∃ queued k, a.2 = some (.ok data, queued, k)
  stored : ∀ data, a.1 = .ok (.stored data) → a.2 = none
  failed : ∀ e, a.1 = .error e → a.2 = none ∨ (∃ queued k, a.2 = some (.error e, queued, k)) ∨
    ∃ data queued k refusal, a.2 = some (.ok data, queued, k) ∧ queued ≠ [] ∧ e = .publish refusal

/-- An output that is another's. -/
theorem settled_other {output : PhaseOutput} {r : StoredRecord} {aside : Option (Shown κ)}
    (hrecord : contest.record t.1 = some r) (hdata : r.data = output.data)
    (hsent : t.2.sent i = sends (.ok output, aside)) (hexecuted : output.wasExecuted = false)
    (hstored : ∀ data, output = .stored data → aside = none) : contest.Settled i (.ok output, aside) t where
  sent := hsent
  recorded _ h := by
    cases h
    exact ⟨r, hrecord, hdata⟩
  executed _ h := by
    cases h
    cases hexecuted
  stored data h := by
    cases h
    exact hstored data rfl
  failed _ h := nomatch h

/-- An output of one's own. -/
theorem settled_executed {data : String} {queued : List Message} {k : κ}
    (hrecord : ∃ r, contest.record t.1 = some r ∧ r.data = data) (hmaker : t.2.maker = some i)
    (hsent : t.2.sent i = Outbox.batch queued) :
    contest.Settled i (.ok (.executed data), some (.ok data, queued, k)) t where
  sent := hsent
  recorded _ h := by
    cases h
    exact hrecord
  executed _ h := by
    cases h
    exact ⟨hmaker, queued, k, rfl⟩
  stored _ h := by cases h
  failed _ h := by cases h

/-- An error, and nothing has been sent. -/
theorem settled_failed {e : Error} {aside : Option (Shown κ)} (hsent : t.2.sent i = [])
    (haside : aside = none ∨ (∃ queued k, aside = some (.error e, queued, k)) ∨
      ∃ data queued k refusal, aside = some (.ok data, queued, k) ∧ queued ≠ [] ∧ e = .publish refusal) :
    contest.Settled i (.error e, aside) t where
  sent := hsent
  recorded _ h := by cases h
  executed _ h := by cases h
  stored _ h := by cases h
  failed _ h := by
    cases h
    exact haside

/-- **The base executor keeps the treaty** with a body that ends by sending what waits. -/
theorem meets_execute (hsound : contest.Sound) {c : Context} {phase : Phase}
    (hkey : ⟨c.process, c.key, phase.id⟩ = contest.key) {body : Body ε (Shown κ)}
    (hbody : ∀ u, contest.Kept i t u → (contest.treaty base).Meets i (Flushed i) body u)
    (hunsent : t.2.sent i = []) :
    (contest.treaty base).Meets i (contest.Settled i)
      ((Executor.base (MemoryStore.adapter contest.records contest.clock)).execute c phase body) t := by
  rw [MemoryStore.execute_adapter]
  simp only [hkey]
  refine meets_look fun u htu => ?_
  have hu : u.2.sent i = [] := htu.sent.trans hunsent
  cases hrecord : (contest.records.get u.1.env).get? contest.key with
  | some r =>
    exact meets_tell fun v huv =>
      settled_other (huv.record r hrecord) rfl (huv.sent.trans hu) rfl fun _ _ => rfl
  | none =>
    cases hfresh : c.recordedFinal with
    | some final =>
      exact fun v huv _ => settled_failed (huv.sent.trans hu) (.inl rfl)
    | none =>
      refine Treaty.Meets.bind ((hbody u htu).weaken fun answer v hflushed => ?_)
      cases hflushed with
      | @failed e queued k _ unsent =>
        refine Treaty.Meets.bind (meets_resolve (fun _ w hw x hx _ => ?_) fun w r hw hr _ x hx _ => ?_)
        · exact settled_failed ((hx.sent.trans hw.sent).trans unsent) (.inr (.inl ⟨queued, k, rfl⟩))
        · exact settled_other (hx.record r hr) rfl ((hx.sent.trans hw.sent).trans unsent) rfl (by simp)
      | @refused e data queued k _ some unsent =>
        refine Treaty.Meets.bind (meets_resolve (fun _ w hw x hx _ => ?_) fun w r hw hr hdup => ?_)
        · exact settled_failed ((hx.sent.trans hw.sent).trans unsent)
            (.inr (.inr ⟨data, queued, k, e, rfl, some, rfl⟩))
        · cases hdup
      | @sent data queued k _ sent =>
        refine Treaty.Meets.bind
          (meets_record hsound (fun w r hw hr hdata hmaker x hx _ => ?_) fun w r hw hr => ?_)
        · exact settled_executed ⟨r, hx.record r hr, hdata⟩ (hx.maker hmaker)
            ((hx.sent.trans hw.sent).trans sent)
        · -- A duplicate: the record is there, so its output comes instead.
          refine Treaty.Meets.bind (meets_resolve (fun habsent => ?_) fun w' r' hw' hr' _ x hx _ => ?_)
          · rw [habsent rfl] at hr
            cases hr
          · exact settled_other (hx.record r' hr') rfl
              (((hx.sent.trans hw'.sent).trans hw.sent).trans sent) rfl (by simp)

/-- **An execution keeps the treaty**, and what it answers is so. -/
theorem meets_execution (hsound : contest.Sound) {x : Contender ε κ} (hx : contest.Admits i x)
    (hbound : contest.strategy i t.1 = some .inFinalPhase) (hunsent : t.2.sent i = []) :
    (contest.treaty base).Meets i (contest.Settled i) (contest.execution x) t := by
  obtain ⟨c, phase, body⟩ := x
  obtain ⟨rfl, hkey, hfinal, hwrites⟩ := hx
  unfold execution executor Publisher.wrap
  simp only [Publisher.strategy?_eq]
  refine Treaty.meets_look fun u htu _ => ?_
  have hbound' : contest.strategy i u.1 = some .inFinalPhase := htu.strategy.trans hbound
  have hu : u.2.sent i = [] := htu.sent.trans hunsent
  have hstrategy : (World.context ((contest.treaty base).view u) (contest.context i).id).mail.strategy =
      some .inFinalPhase := hbound'
  rw [hstrategy]
  have hflushes : PublishStrategy.inFinalPhase.flushes phase = true := hfinal
  simp only [hflushes, if_true]
  exact meets_execute hsound hkey
    (fun v huv => meets_flushing hsound hwrites (huv.strategy.trans hbound') (huv.sent.trans hu)) hu

/-- **What contenders send, under any schedule.**  `last` is any moment of any interleaving of their
    executions; one that gets no more turns may as well have crashed.  There is a log of who has sent what:

    1. All that the sink has got since is in the log, in order, and everybody is in it once at most.
    2. A contender that has answered has sent what had waited by the end of its body, if the body has
       succeeded and the answer is an output, and nothing otherwise (`Settled.sent`).  So one that finds the
       record there has sent nothing, and neither has one that answers with an error, which is that of its
       body or that of the sink.
    3. At most one answers that it was executed.  Its text is the record's, and it has sent its messages. -/
theorem deliveries_of_contenders (hsound : contest.Sound) {contenders : List (Contender ε κ)} {w : World ε}
    (hadmits : ∀ i x, contenders[i]? = some x →
      contest.Admits i x ∧ contest.strategy i w = some .inFinalPhase) (schedule : List Nat) :
    let last := (Pool.mk (contenders.map contest.execution) w).play schedule
    ∃ tally : Tally,
      contest.delivered last.state = contest.delivered w ++ tally.log.map (·.2) ∧
      (tally.log.map (·.1)).Nodup ∧
      (∀ i, contenders.length ≤ i → tally.sent i = []) ∧
      (∀ i a, last.threads[i]? = some (.done a) → contest.Settled i a (last.state, tally)) ∧
      (∀ i a data, last.threads[i]? = some (.done a) → a.1 = .ok (.executed data) →
        (∃ r, contest.record last.state = some r ∧ r.data = data) ∧
        (∃ queued k, a.2 = some (.ok data, queued, k) ∧ tally.sent i = Outbox.batch queued) ∧
        ∀ j b data', last.threads[j]? = some (.done b) → b.1 = .ok (.executed data') → i = j) ∧
      ∀ (i : Nat) m, last.threads[i]? ≠ some (.crash m) := by
  intro last
  have hstart : (contest.treaty (contest.delivered w)).Together contest.Settled
      (Pool.mk (contenders.map contest.execution) w) (w, {}) := by
    refine ⟨rfl, ⟨(List.append_nil _).symm, .nil, nofun⟩, fun {i p} hp => ?_⟩
    rw [List.getElem?_map, Option.map_eq_some_iff] at hp
    obtain ⟨x, hx, rfl⟩ := hp
    obtain ⟨hplace, hbound⟩ := hadmits i x hx
    exact meets_execution hsound hplace hbound rfl
  obtain ⟨t, hlast, hout⟩ := hstart.play schedule
  obtain ⟨w', tally⟩ := t
  obtain rfl : w' = last.state := hlast.view
  have hsettled : ∀ i a, last.threads[i]? = some (.done a) → contest.Settled i a (last.state, tally) :=
    fun i a ha => hlast.meets ha _ (Kept.refl _) hlast.inv
  refine ⟨tally, hlast.inv.delivered, hlast.inv.once, fun i hi => ?_, hsettled, fun i a data ha hdata => ?_,
    hlast.not_crashed⟩
  · exact (hout i (by simpa using hi)).sent
  · have hi := hsettled i a ha
    obtain ⟨hmaker, queued, k, haside⟩ := hi.executed data hdata
    refine ⟨hi.recorded _ hdata, ⟨queued, k, haside, ?_⟩, fun j b data' hb hdata' => ?_⟩
    · have hsent := hi.sent
      obtain ⟨answer, aside⟩ := a
      obtain rfl : answer = .ok (.executed data) := hdata
      obtain rfl : aside = some (.ok data, queued, k) := haside
      exact hsent
    · have hmaker' := ((hsettled j b hb).executed data' hdata').1
      exact Option.some.inj (hmaker.symm.trans hmaker')

/-! ## A loser that delivers -/

/-- Records and deliveries and nothing else. -/
def ring : Contest (MemoryStore × Deliveries) where
  records := { get := Prod.fst, set := fun s e => (s, e.2) }
  deliveries := { get := Prod.snd, set := fun d e => (e.1, d) }
  sink := Sink.memory { get := Prod.snd, set := fun d e => (e.1, d) }
  clock := pure .epoch
  key := ⟨"transfer", "req-42", "confirm"⟩
  context i :=
    { id := i, process := "transfer", key := "req-42", settings := [.publishing .inFinalPhase],
      recordedFinal := none }
  apart := ⟨fun _ _ => rfl, fun _ _ => rfl⟩
  distinct h := h

theorem sound_ring : ring.Sound where
  clock := trivial
  safe := trivial
  sink _ := .sent (fun _ => rfl) (fun _ => rfl) (fun _ _ => rfl) fun _ _ => rfl

/-- A note about somebody. -/
def note (name : String) : Message := { topic := "transfers", key := name, payload := some .null }

/-- Somebody in the ring, who publishes a note in the final phase. -/
def fighter (i : Nat) (name : String) : Contender (MemoryStore × Deliveries) Unit where
  context := ring.context i
  phase := { id := "confirm", isFinal := true }
  body := (do
    let _ ← (ring.context i).publish ring.sink (note name)
    return (.ok name, ()) : Action (MemoryStore × Deliveries) (Except Error String × Unit))

theorem admits_fighter (i : Nat) (name : String) : ring.Admits i (fighter i name) :=
  ⟨rfl, rfl, rfl, (writes_publish i _ _).bind fun _ => .done _⟩

/-- Two contenders, both bound to the strategy for final phases. -/
def bell : Pool (World (MemoryStore × Deliveries)) (Answer (Shown Unit)) where
  threads := [fighter 0 "loser", fighter 1 "winner"].map ring.execution
  state :=
    let bound : ContextState :=
      { properties := (default : Properties).set Publisher.binding .inFinalPhase }
    { contexts := [bound, bound], env := (Table.empty, []) }

/-- The first contender looks for the record, the other one runs to its end, and then the first one goes on. -/
def rounds : List Nat := [0, 0, 1, 1, 1, 1, 1, 1, 1, 1, 1, 1, 1, 0, 0, 0, 0, 0, 0, 0, 0, 0, 0]

/-- How the two contenders end. -/
def verdict : Pool (World (MemoryStore × Deliveries)) (Answer (Shown Unit)) :=
  bell.play rounds

/-- **The loser delivers, too**: the messages of both contenders are delivered, though one of them has met the other's
    record. -/
theorem loser_delivers :
    verdict.threads[0]? =
      some (.done (.ok (.concurrent "winner"), some (.ok "loser", [note "loser"], ()))) ∧
    verdict.threads[1]? =
      some (.done (.ok (.executed "winner"), some (.ok "winner", [note "winner"], ()))) ∧
    ring.delivered verdict.state = [[note "winner"], [note "loser"]] := ⟨rfl, rfl, rfl⟩

/-- Two contenders deliver one note each. -/
theorem deliveries_of_contenders_both : ∃ tally : Tally,
    ring.delivered verdict.state = tally.log.map (·.2) ∧ (tally.log.map (·.1)).Nodup ∧
    tally.sent 0 = [[note "loser"]] ∧ tally.sent 1 = [[note "winner"]] ∧
    ∃ r, ring.record verdict.state = some r ∧ r.data = "winner" := by
  have hadmits : ∀ i x, [fighter 0 "loser", fighter 1 "winner"][i]? = some x →
      ring.Admits i x ∧ ring.strategy i bell.state = some .inFinalPhase := by
    intro i x hx
    match i, hx with
    | 0, hx =>
      cases hx
      exact ⟨admits_fighter 0 "loser", rfl⟩
    | 1, hx =>
      cases hx
      exact ⟨admits_fighter 1 "winner", rfl⟩
  obtain ⟨tally, hdelivered, honce, -, hsettled, hexecuted, -⟩ :=
    deliveries_of_contenders sound_ring hadmits rounds
  obtain ⟨hrecord, -, -⟩ := hexecuted 1 _ "winner" rfl rfl
  exact ⟨tally, hdelivered, honce, (hsettled 0 _ rfl).sent, (hsettled 1 _ rfl).sent, hrecord⟩

end Contest

end Idempotence
