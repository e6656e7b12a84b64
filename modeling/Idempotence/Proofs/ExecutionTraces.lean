/-
  Traces of executions — executions and calls are accounted for, whatever other extensions there are.

  1. **Calm actions** — a calm action answers, and all that it does is off stage.  Some properties hold of
     whatever is built from calm actions, and of whatever is built from that (`Process.Pervades`).

  2. **Other extensions** — the chain of executors that an extension wraps may carry such a property from the
     bodies of phases to executions (`Executor.Carries`).  A modest extension leaves it at that, in what it
     wraps and in its hooks; a mute one does nothing in its hooks that could be told of.  Those that record,
     count and publish are mute.

  3. **Going on** — `Tells` says of an action that what it does is accounted for, while contexts go on standing
     as a predicate has it.  That is such a property.

  4. **Executions** — the extension that traces carries it, too, where the context has a span.  So the whole
     chain of a provider does (`Provider.Traced.carries`), and calls of phases are accounted for if their
     bodies are.
-/
import Idempotence.Proofs.CounterFacts
import Idempotence.Proofs.PropertyNames
import Idempotence.Proofs.TraceBrackets

namespace Idempotence

variable {ε α β γ : Type}

/-! ## Calm actions -/

/-- **A calm action** answers, and all that it does is off stage. -/
structure Process.Calm (a : Action ε α) : Prop where
  steps : a.Steps Offstage
  safe : a.Safe

/-- **A property that pervades actions**: calm ones have it, and it goes through all that they are built with. -/
structure Process.Pervades (G : {α : Type} → Action ε α → Prop) : Prop where
  calm : ∀ {α : Type} {a : Action ε α}, a.Calm → G a
  bind : ∀ {α β : Type} {a : Action ε α} {f : α → Action ε β}, G a → (∀ r, G (f r)) → G (a >>= f)
  caught : ∀ {α : Type} {a : Action ε α}, G a → G a.caught
  onExit : ∀ {α : Type} {a : Action ε α} {last : Action ε Unit}, G a → G last → G (a.onExit last)
  onCrash : ∀ {α : Type} {a : Action ε α} {last : Action ε Unit}, G a → G last → G (a.onCrash last)

theorem Process.Pervades.hereditary {G : {α : Type} → Action ε α → Prop} (hG : Process.Pervades G) :
    Process.Hereditary fun a _ : Action ε _ => G a where
  done _ := hG.calm ⟨trivial, trivial⟩
  bind := hG.bind
  caught := hG.caught
  onExit := hG.onExit
  onCrash := hG.onCrash

namespace Process.Calm

/-- Calm passes from the parts of an action to the whole. -/
theorem pervades : Process.Pervades fun a : Action ε _ => a.Calm where
  bind hp hf := ⟨hp.steps.bind fun a => (hf a).steps, hp.safe.bind fun a => (hf a).safe⟩
  caught hp := ⟨steps_caught hp.steps, safe_caught _⟩
  onExit hp hlast := ⟨hp.steps.onExit hlast.steps, hp.safe.onExit hlast.safe⟩
  onCrash hp hlast := ⟨hp.steps.onCrash hlast.steps, hp.safe.onCrash _⟩
  calm h := h

theorem pure (a : α) : (Pure.pure a : Action ε α).Calm := ⟨trivial, trivial⟩

theorem bind {a : Action ε α} {f : α → Action ε β} (ha : a.Calm) (hf : ∀ r, (f r).Calm) : (a >>= f).Calm :=
  pervades.bind ha hf

theorem look (f : World ε → α) : (Process.look f : Action ε α).Calm := ⟨.look .refl f, fun _ => trivial⟩

theorem change {f : World ε → World ε} (h : ∀ w, Offstage w (f w)) : (Process.change f : Action ε Unit).Calm :=
  ⟨.change h, fun _ => trivial⟩

theorem atomically {f : World ε → α × World ε} (h : ∀ w, Offstage w (f w).2) :
    (Process.atomically f : Action ε α).Calm := ⟨.atomically h, fun _ => trivial⟩

/-- Telling an event that monitoring does not tell is calm. -/
theorem tell {e : Event} (h : e.ofMonitoring = false) : (Action.tell e : Action ε Unit).Calm := by
  refine change fun w => ⟨rfl, ?_, rfl, Nat.le_refl _⟩
  simp [World.told, Trace.tell, List.filter_append, h]

/-- Using a part of the environment. -/
theorem on (part : Part ε β) (f : β → α × β) : (Action.on part f : Action ε α).Calm :=
  atomically fun _ => ⟨rfl, rfl, rfl, Nat.le_refl _⟩

theorem changePart (part : Part ε β) (f : β → β) : (Action.change part f : Action ε Unit).Calm :=
  change fun _ => ⟨rfl, rfl, rfl, Nat.le_refl _⟩

end Process.Calm

/-- What changes of a context without changing how it stands. -/
theorem World.offstage_modifyContext {w : World ε} {id : Nat} {f : ContextState → ContextState}
    (hf : (f (w.context id)).footing = (w.context id).footing) : Offstage w (w.modifyContext id f) :=
  ⟨World.see_modifyContext_same _ hf, rfl, rfl, Nat.le_refl _⟩

namespace Context

/-- A use of the properties of a context that spares its span. -/
theorem calm_withProperties (c : Context) {use : StateM Properties α}
    (h : ∀ bag, (use.run bag).2.get? Monitoring.spanKey = bag.get? Monitoring.spanKey) :
    (c.withProperties use : Action ε α).Calm :=
  .atomically fun w => World.offstage_modifyContext
    (congrArg (Footing.mk (w.context c.id).closed (w.context c.id).notified) (h _))

theorem calm_enter (c : Context) (phase : Phase) : (c.enter phase : Action ε _).Calm := by
  refine .atomically fun w => ?_
  split
  · exact .refl w
  · next s hs =>
    refine World.offstage_modifyContext ?_
    rw [(ContextState.enter_eq_ok hs).2.2.2]
    rfl

theorem calm_leave (c : Context) (phase : Phase) : (c.leave phase : Action ε Unit).Calm :=
  .change fun _ => World.offstage_modifyContext rfl

end Context

/-! ## Other extensions -/

/-- **A chain of executors that carries a property** from the bodies of a context's phases to executions. -/
structure Executor.Carries (G : {α : Type} → Action ε α → Prop) (c : Context) (x : Executor ε) : Prop where
  execute : ∀ {κ : Type} (phase : Phase) {body : Body ε κ}, G body → G (x.execute c phase body)

/-- **A modest extension** tells nothing of its own of contexts and phases.  In its hooks it may run phases
    of the context. -/
structure Interceptor.Modest (i : Interceptor ε) : Prop where
  wrap : ∀ {G : {α : Type} → Action ε α → Prop}, Process.Pervades G → ∀ {c : Context} {x : Executor ε},
    x.Carries G c → (i.wrap x).Carries G c
  created : ∀ {G : {α : Type} → Action ε α → Prop}, Process.Pervades G → ∀ {c : Context} {x : Executor ε},
    x.Carries G c → G (i.created x c)
  closed : ∀ {G : {α : Type} → Action ε α → Prop}, Process.Pervades G → ∀ {c : Context} {x : Executor ε},
    x.Carries G c → G (i.closed x c)

/-- **A mute extension** has calm hooks, too. -/
structure Interceptor.Mute (i : Interceptor ε) : Prop where
  wrap : ∀ {G : {α : Type} → Action ε α → Prop}, Process.Pervades G → ∀ {c : Context} {x : Executor ε},
    x.Carries G c → (i.wrap x).Carries G c
  created : ∀ x c, (i.created x c).Calm
  closed : ∀ x c, (i.closed x c).Calm

/-- Executions by the base executor. -/
theorem Executor.carries_base {G : {α : Type} → Action ε α → Prop} (hG : Process.Pervades G)
    {store : StoreAdapter ε} (hstore : store.Related fun a _ => a.Calm) (c : Context) :
    (base store).Carries G c := by
  refine ⟨fun phase body hbody => ?_⟩
  have hrelated : store.Related fun a _ => G a :=
    ⟨fun key => hG.calm (hstore.get key), hG.calm hstore.begin,
      fun key data isFinal txn => hG.calm (hstore.insert key data isFinal txn),
      fun txn answer => hG.calm (hstore.conclude txn answer)⟩
  exact @Process.Sequential.base _ _ _ hG.hereditary.toSequential _ hrelated (fun _ => hG.calm (.tell rfl))
    (fun _ => hG.calm (.tell rfl)) c phase body body hbody

/-- **Whatever calls of phases are made of.** -/
theorem Executor.Carries.run {G : {α : Type} → Action ε α → Prop} (hG : Process.Pervades G) {c : Context}
    {x : Executor ε} (hx : x.Carries G c) [EngineFailure β] (phase : Phase) (codec : Codec γ)
    {body : Action ε (Except β γ)} (hbody : G body) : G (c.run x phase codec body) :=
  @Process.Hereditary.run _ _ _ _ hG.hereditary _ x x c phase phase rfl rfl (hG.calm (c.calm_enter phase))
    (hG.calm (c.calm_leave phase)) (hx.execute phase) codec body body hbody

/-- **The extension that logs** is mute. -/
theorem Recorder.mute (r : Recorder) (log : Part ε CallLog) : (r.interceptor log).Mute where
  wrap hG _ _ hx := ⟨fun _ _ hbody => hG.bind (hG.calm (.changePart log _)) fun _ => hx.execute _ hbody⟩
  created _ _ := .bind (.changePart log _) fun _ => .pure _
  closed _ _ := .bind (.changePart log _) fun _ => .pure _

/-- **The extension that counts** is mute. -/
theorem Stats.mute (part : Part ε Stats) : (Stats.interceptor part).Mute where
  wrap hG _ _ hx := ⟨fun _ _ hbody =>
    hG.bind (hG.calm (.changePart part _)) fun _ => hG.bind (hx.execute _ hbody) fun answer =>
      hG.bind (hG.calm (.changePart part (·.count answer.1))) fun _ => hG.calm (.pure _)⟩
  created _ _ := .bind (.changePart part _) fun _ => .pure _
  closed _ _ := .bind (.changePart part _) fun _ => .pure _

/-- **The extension that publishes** is mute, over a calm sink. -/
theorem Publisher.mute {sink : Sink ε} (hsink : ∀ messages, (sink.sendAll messages).Calm) :
    (Publisher.interceptor sink).Mute where
  wrap {G} hG c x hx := by
    refine ⟨fun phase body hbody => ?_⟩
    have htake : (takeQueue c : Action ε (List Message)).Calm := by
      refine c.calm_withProperties fun bag => PropertyBag.get?_update_of_apart ?_ _ rfl
      exact .inl (by decide)
    have hflushing : G (flushing sink c body) := by
      refine hG.bind hbody fun answer => hG.bind (hG.calm htake) fun waiting => ?_
      obtain ⟨text, k⟩ := answer
      cases text with
      | error e => exact hG.calm (.pure _)
      | ok data =>
        dsimp only
        split
        · exact hG.calm (.pure _)
        · refine hG.bind (hG.calm (hsink _)) fun sent => ?_
          cases sent <;> exact hG.calm (.pure _)
    refine hG.bind (hG.calm (c.calm_withProperties fun _ => rfl)) fun strategy => ?_
    cases strategy with
    | none => exact hx.execute phase hbody
    | some s =>
      dsimp only
      split
      · exact hx.execute phase hflushing
      · exact hx.execute phase hbody
  created x c := by
    simp only [interceptor]
    split
    · exact .pure _
    · refine .bind (c.calm_withProperties fun bag => PropertyBag.get?_set_of_apart ?_ bag _) fun _ => .pure _
      exact .inl (by decide)
  closed _ _ := .pure _

/-- Records in memory are calm if their stamps are. -/
theorem MemoryStore.calm_adapter (records : Part ε MemoryStore) {stamps : Action ε Instant} (hstamps : stamps.Calm) :
    (MemoryStore.adapter records stamps).Related fun a _ => a.Calm where
  get _ := .look _
  begin := .pure _
  insert key data isFinal pending := by
    refine .bind (.look _) fun taken => ?_
    split
    · exact .pure _
    · exact .bind hstamps fun _ => .pure _
  conclude pending answer := by
    cases answer with
    | error e => exact .pure _
    | ok u => exact .on records _

/-- Obtaining locks in a table is calm. -/
theorem LockTable.calm_obtain (locks : Part ε (LockTable RecordKey)) (key : RecordKey) (timeout : Duration)
    (now : Instant) : ((LockTable.adapter locks).obtain key timeout now).Calm := by
  simp only [LockTable.adapter]
  exact .on locks _

theorem LockTable.calm_release (locks : Part ε (LockTable RecordKey)) (handle : LockHandle) :
    ((LockTable.adapter locks).release handle).Calm := by
  simp only [LockTable.adapter]
  exact .on locks _

/-! ## Going on -/

section

variable (place : Nat) (inner : Executor ε)

/-- **What has happened since a world is accounted for**, and contexts stand so. -/
def Recounted (since : World ε) (P : List Footing → Prop) (w : World ε) : Prop :=
  P w.footings ∧ ∃ tellings, Account place inner since tellings w

/-- **What an action does is accounted for**, whenever it begins, and contexts stand so before and after.  It
    may crash if `C` allows it. -/
def Process.Tells (C : Prop) (P : List Footing → Prop) (a : Action ε α) : Prop :=
  ∀ since, a.Brings (Recounted place inner since P) (fun _ => Recounted place inner since P)
    fun w => C ∧ Recounted place inner since P w

end

variable {place : Nat} {inner : Executor ε} {since w v : World ε} {P : List Footing → Prop} {C : Prop}

/-- Nothing has happened yet. -/
theorem Recounted.begin (hP : P w.footings) : Recounted place inner w P w :=
  ⟨hP, [], .passing (Offstage.refl w).passing⟩

/-- What is accounted for goes on. -/
theorem Recounted.append {tellings : List Telling} (h : Recounted place inner since P w)
    (hmore : Account place inner w tellings v) {Q : List Footing → Prop} (hQ : Q v.footings) :
    Recounted place inner since Q v := by
  obtain ⟨-, before, hbefore⟩ := h
  exact ⟨hQ, _, hbefore.append hmore⟩

theorem Recounted.offstage (h : Recounted place inner since P w) (hv : Offstage w v) :
    Recounted place inner since P v :=
  h.append (.passing hv.passing) (hv.footings ▸ h.1)

theorem Recounted.mono {Q : List Footing → Prop} (h : Recounted place inner since P w)
    (hPQ : P w.footings → Q w.footings) : Recounted place inner since Q w := ⟨hPQ h.1, h.2⟩

/-- What is calm happens anywhere. -/
theorem Process.Calm.brings {a : Action ε α} (ha : a.Calm) {D : World ε → Prop} :
    a.Brings (Recounted place inner since P) (fun _ => Recounted place inner since P) D := by
  intro w hw
  obtain ⟨r, w', hrun⟩ := ha.safe.run w
  have hoffstage := ha.steps.run .refl Offstage.trans w
  rw [hrun] at hoffstage ⊢
  exact hw.offstage hoffstage

/-- **To be accounted for** pervades actions. -/
theorem Process.Tells.pervades : Process.Pervades fun a : Action ε _ => a.Tells place inner C P where
  calm ha _ := ha.brings
  bind hp hf since := (hp since).bind fun a => hf a since
  caught hp since := ((hp since).mono (fun _ hw => hw) (fun _ _ hw => hw) fun _ hw => hw.2).caught_either
  onExit hp hlast since := (hp since).onExit (fun _ => hlast since)
    (.knowing fun hC => (hlast since).mono (fun _ hw => hw) (fun _ _ hw => ⟨hC, hw⟩) fun _ hw => hw)
  onCrash hp hlast since := (hp since).onCrash
    (.knowing fun hC => (hlast since).mono (fun _ hw => hw) (fun _ _ hw => ⟨hC, hw⟩) fun _ hw => hw)

/-- What is accounted for and may not crash. -/
theorem Process.Tells.brings {a : Action ε α} (ha : a.Tells place inner False P) {D : World ε → Prop} :
    a.Brings (Recounted place inner since P) (fun _ => Recounted place inner since P) D :=
  Process.Brings.mono (ha since) (fun _ hw => hw) (fun _ _ hw => hw) fun _ hw => hw.1.elim

/-- A whole run, whatever end it comes to. -/
theorem Process.Tells.run {a : Action ε α} (ha : a.Tells place inner C P) (hw : Recounted place inner since P w) :
    Recounted place inner since P (a.run w).2 := by
  have hrun := ha since w hw
  revert hrun
  rcases a.run w with ⟨o, v⟩
  cases o with
  | value r => exact id
  | crashed m => exact And.right

/-! ## Executions -/

/-- **The extension that traces** accounts for executions, where the context has a span. -/
theorem Monitoring.carries_wrap {c : Context} (hlive : ∃ s, ∀ l, P l → (l.getD c.id {}).span = some s)
    (hinner : inner.Carries (fun a => a.Tells place inner C P) c) :
    (wrap inner).Carries (fun a => a.Tells place inner C P) c := by
  refine ⟨fun phase body hbody since w hw => ?_⟩
  obtain ⟨s, hspan⟩ := hlive
  have hlive : (w.context c.id).footing.span = some s := by
    rw [World.footing_context]
    exact hspan _ hw.1
  obtain ⟨w₁, hopening, -, hfootings₁⟩ := run_opening phase hlive
  have hinside := hinner.execute phase hbody w₁ w₁ (.begin (hfootings₁ ▸ hw.1))
  -- Whether what happens inside answers or crashes, it is accounted for.
  obtain ⟨o, w₂, hexecution, hcrash, hP, tellings, haccount⟩ : ∃ o w₂,
      (inner.execute c phase body).run w₁ = (o, w₂) ∧ (∀ m, o = .crashed m → C) ∧
        Recounted place inner w₁ P w₂ := by
    refine ⟨_, _, rfl, ?_⟩
    revert hinside
    rcases (inner.execute c phase body).run w₁ with ⟨o, w₂⟩
    cases o with
    | value answer => exact fun h => ⟨nofun, h⟩
    | crashed m => exact fun h => ⟨fun _ _ => h.1, h.2⟩
  have hstill : (w₂.context c.id).footing.span = some s := by
    rw [World.footing_context]
    exact hspan _ hP
  obtain ⟨events, hparting⟩ := exists_parting o
  obtain ⟨v, hwhole, -, hfootings⟩ := run_wrap hopening hexecution hparting
  have hphase : Recounted place inner since P v :=
    hw.append (.phase hlive hopening hexecution haccount hstill hparting hwhole) (hfootings.symm ▸ hP)
  rw [hwhole]
  cases o with
  | value answer => exact hphase
  | crashed m => exact ⟨hcrash m rfl, hphase⟩

/-- **A provider whose contexts and phases are told of**, with the extensions that come before the one that
    traces and those that come after it.  Nothing else in it tells of them or crashes. -/
structure Provider.Traced (p : Provider ε) (before after : List (Interceptor ε)) : Prop where
  interceptors : p.interceptors = before ++ Monitoring.interceptor :: after
  before : ∀ i ∈ before, i.Mute
  after : ∀ i ∈ after, i.Modest
  store : p.store.Related fun a _ => a.Calm
  findFinal : ∀ process key, (p.store.findFinal process key).Calm
  clock : p.clock.Calm
  obtain : ∀ key timeout now, (p.locks.obtain key timeout now).Calm
  release : ∀ handle, (p.locks.release handle).Calm

/-- The chain below the given extensions. -/
def Provider.below (p : Provider ε) (after : List (Interceptor ε)) : Executor ε :=
  (Executor.base p.store).compose after

/-- **The chain of a provider** accounts for executions, where the context has a span. -/
theorem Provider.Traced.carries {p : Provider ε} {before after : List (Interceptor ε)}
    (hp : p.Traced before after) {c : Context} (hlive : ∃ s, ∀ l, P l → (l.getD c.id {}).span = some s) :
    p.executor.Carries (fun a => a.Tells before.length (p.below after) C P) c := by
  have hG : Process.Pervades fun a : Action ε _ => a.Tells before.length (p.below after) C P :=
    Process.Tells.pervades
  have hbelow : (p.below after).Carries (fun a => a.Tells before.length (p.below after) C P) c :=
    Executor.compose_induction (Executor.carries_base hG hp.store c) fun i hi _ hx => (hp.after i hi).wrap hG hx
  have hchain : p.executor = (Monitoring.wrap (p.below after)).compose before := by
    rw [Provider.executor, hp.interceptors, Executor.compose, List.foldr_append]
    rfl
  rw [hchain]
  exact Executor.compose_induction (Monitoring.carries_wrap hlive hbelow) fun i hi _ hx =>
    (hp.before i hi).wrap hG hx

end Idempotence
