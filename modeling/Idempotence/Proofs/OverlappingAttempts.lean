/-
  Overlapping attempts — attempts of one instance while others are still running.

  A lock is temporal, so an attempt may start while an earlier one goes on.  What is left then of the
  promise that an instance is completed once?

  1. **Calm steps** — what an attempt does beside its calls shows neither in the records of the instance
     nor in the GATE of any context: whether it has left a final phase, and which phase is active.
     Clocks, locks, extensions and closings are calm, and so is the mere passing of time.

  2. **Attempts in company** — `Provider.Attends` is a whole attempt, from `Provider.start` on,
     or a bystander that takes calm steps only.  A pool of these is every way in which attempts may
     overlap, locks or no locks.

  3. **The crux** — a treaty with three ghosts: which context an attempt has got, which attempts looked
     for a recorded final phase while there was none (the EARLY ones), and which have made a final
     record (the AUTHORS).  Only an early attempt that is no author yet may make one, and by the time it
     could make a second, the gate of its context is shut.

  4. **Overlapping completions** (`Provider.completions_overlap`) — an attempt that has not looked when a
     final record is there never completes the instance; and of two final records each comes from an
     attempt of its own, the later of which had looked before the earlier record was made.  So a second
     completion takes an overlap; `Depot.final_twice` shows that an overlap is enough: both attempts
     have obtained the lock, the second after it had expired.
-/
import Idempotence.Proofs.ContextUse
import Idempotence.Proofs.CreationIndex
import Idempotence.Proofs.Interleaving

namespace Idempotence

variable {σ ε α β γ κ : Type}

/-! ## Pools in which processes crash -/

namespace Pool

/-- The pool with all crashes caught. -/
def caught (pool : Pool σ α) : Pool σ (Outcome α) := ⟨pool.threads.map Process.caught, pool.state⟩

theorem caught_advance (pool : Pool σ α) (i : Nat) : (pool.advance i).caught = pool.caught.advance i := by
  unfold advance caught
  rw [List.getElem?_map]
  cases pool.threads[i]? with
  | none => rfl
  | some a =>
    cases a with
    | done r => rfl
    | crash m => rfl
    | step e k =>
      show Pool.mk ((pool.threads.set i (k pool.state)).map Process.caught) _ = _
      rw [List.map_set]
      rfl

theorem play_append (pool : Pool σ α) (before after : List Nat) :
    pool.play (before ++ after) = (pool.play before).play after :=
  List.foldl_append ..

@[simp] theorem length_play (pool : Pool σ α) (schedule : List Nat) :
    (pool.play schedule).threads.length = pool.threads.length := by
  induction schedule generalizing pool with
  | nil => rfl
  | cons i rest ih => exact (ih (pool.advance i)).trans (pool.length_advance i)

/-- Whoever has ended, or is not there, lets its turn pass. -/
theorem advance_eq_self {pool : Pool σ α} {i : Nat}
    (h : ∀ effect resume, pool.threads[i]? ≠ some (.step effect resume)) : pool.advance i = pool := by
  unfold advance
  split
  · exact absurd ‹_› (h _ _)
  · rfl

/-- A turn of one process leaves the others where they are. -/
theorem threads_advance_ne (pool : Pool σ α) {i j : Nat} (hij : i ≠ j) :
    (pool.advance i).threads[j]? = pool.threads[j]? := by
  unfold advance
  split
  · exact List.getElem?_set_ne hij
  · rfl

end Pool

/-! ## Calm steps -/

/-- **A calm step**: it shows neither in the records of the instance nor in the gate of any context. -/
structure Calm (records : Part ε MemoryStore) (process key : String) (w w' : World ε) : Prop where
  ledger : records.ledger process key w' = records.ledger process key w
  length : w.contexts.length ≤ w'.contexts.length
  gates : ∀ id < w.contexts.length, (w'.context id).gate = (w.context id).gate

section Calm

variable {records : Part ε MemoryStore} {process key : String}

theorem Calm.refl (w : World ε) : Calm records process key w w := ⟨rfl, Nat.le_refl _, fun _ _ => rfl⟩

/-- A change of a context that leaves the gate as it is. -/
theorem calm_modifyContext (w : World ε) (id : Nat) {f : ContextState → ContextState}
    (hf : ∀ s, (f s).gate = s.gate) : Calm records process key w (w.modifyContext id f) := by
  refine ⟨rfl, Nat.le_of_eq (w.length_modifyContext id f).symm, fun j _ => ?_⟩
  rw [World.context_modifyContext]
  split
  · exact hf _
  · rfl

/-- A new context is calm. -/
theorem calm_append (w : World ε) (s : ContextState) :
    Calm records process key w { w with contexts := w.contexts ++ [s] } := by
  refine ⟨rfl, ?_, fun id hid => by rw [World.context_append w s hid]⟩
  show w.contexts.length ≤ (w.contexts ++ [s]).length
  rw [List.length_append]
  omega

variable (records process key) in
/-- Traces and properties go unnoticed. -/
theorem overlooks_calm : Overlooks (Calm records process key) where
  trace _ _ := ⟨rfl, Nat.le_refl _, fun _ _ => rfl⟩
  properties w id _ := calm_modifyContext w id fun _ => rfl

end Calm

namespace Overlooks

variable {S : World ε → World ε → Prop} (hS : Overlooks S)
include hS

/-- **The hooks of the library's extensions at a beginning** keep to what goes unnoticed. -/
theorem created {i : Interceptor ε} (hi : i.Stock S) (x : Executor ε) (c : Context) :
    (i.created x c).Steps S := by
  cases hi with
  | recording r log unnoticed => exact (Interceptor.standsBy_recording r fun _ => .change fun w => unnoticed w _).created x c
  | counting part unnoticed => exact (Interceptor.standsBy_counting fun _ => .change fun w => unnoticed w _).created x c
  | monitoring => exact hS.spans.standsBy_monitoring.created x c
  | publishing sink unnoticed =>
    dsimp only [Publisher.interceptor]
    split
    · exact .pure _
    · exact .bind (hS.withProperties c _) fun _ => .pure _

/-- **The hooks of the library's extensions at an end** keep to what goes unnoticed. -/
theorem closed {i : Interceptor ε} (hi : i.Stock S) (x : Executor ε) (c : Context) :
    (i.closed x c).Steps S := by
  cases hi with
  | recording r log unnoticed => exact (Interceptor.standsBy_recording r fun _ => .change fun w => unnoticed w _).closed x c
  | counting part unnoticed => exact (Interceptor.standsBy_counting fun _ => .change fun w => unnoticed w _).closed x c
  | monitoring => exact hS.spans.standsBy_monitoring.closed x c
  | publishing sink unnoticed => exact .pure _

end Overlooks

/-! ## The calm parts of an attempt -/

/-- **A provider over a store in memory with the extensions of the library**, whose parts are all calm. -/
structure Provider.KeepsCalm (p : Provider ε) (records : Part ε MemoryStore) (stamps : Action ε Instant)
    (process key : String) : Prop where
  store : p.store = MemoryStore.adapter records stamps
  stamps : stamps.Steps (Calm records process key)
  clock : p.clock.Steps (Calm records process key)
  seized : ∀ k timeout now, (p.locks.obtain k timeout now).Steps (Calm records process key)
  released : ∀ handle, (p.locks.release handle).Steps (Calm records process key)
  stock : ∀ i ∈ p.interceptors, i.Stock (Calm records process key)

namespace Provider.KeepsCalm

variable {p : Provider ε} {records : Part ε MemoryStore} {stamps : Action ε Instant}
  {process key : String} (hp : p.KeepsCalm records stamps process key)
include hp

/-- Taking locks and closing contexts is calm. -/
theorem closes : p.Closes (Calm records process key) where
  refl := Calm.refl
  tell := (overlooks_calm records process key).tell
  clock := hp.clock
  seized := hp.seized
  released := hp.released
  closed i hi := (overlooks_calm records process key).closed (hp.stock i hi)
  marked w id := calm_modifyContext w id fun _ => rfl
  unlocked w id := calm_modifyContext w id fun _ => rfl

/-- Telling the extensions of a new context is calm. -/
theorem runCreated (c : Context) :
    (Provider.runCreated p.executor c p.interceptors).Steps (Calm records process key) :=
  Provider.steps_runCreated (fun w _ _ => calm_modifyContext w _ fun _ => rfl) fun i hi =>
    (overlooks_calm records process key).created (hp.stock i hi) _ c

end Provider.KeepsCalm

/-! ## Attempts -/

namespace Provider

/-- **Whoever may be there while attempts of an instance go on**: an attempt from its start on, or
    somebody who keeps to calm steps. -/
inductive Attends (p : Provider ε) (records : Part ε MemoryStore) (process key : String) :
    {α : Type} → Action ε α → Prop
  | bystander {α : Type} {a : Action ε α} (calm : a.Steps (Calm records process key)) :
      Attends p records process key a
  | attempt {α : Type} {timeout : Duration} {settings : List Setting}
      {rest : Except Error Context → Action ε α}
      (refused : ∀ e, (rest (.error e)).Steps (Calm records process key))
      (used : ∀ c : Context, c.Uses p.executor (Calm records process key) (rest (.ok c))) :
      Attends p records process key (p.start process key timeout settings >>= rest)

/-- **The next step is the look** for a recorded final phase. -/
def Looks (p : Provider ε) (process key : String) (a : Action ε α) : Prop :=
  ∃ settings handle, ∃ rest : Except Error Context → Action ε α,
    a = p.startLocked process key settings handle >>= rest

/-- **A whole process** is an attempt, if its body uses the context. -/
theorem KeepsCalm.attends_runProcess {p : Provider ε} {records : Part ε MemoryStore}
    {stamps : Action ε Instant} {process key : String} (hp : p.KeepsCalm records stamps process key)
    [EngineFailure β] (timeout : Duration) (settings : List Setting)
    {body : Context → Action ε (Except β α)}
    (hbody : ∀ c : Context, c.Uses p.executor (Calm records process key) (body c)) :
    p.Attends records process key (p.runProcess process key timeout settings body) :=
  .attempt (fun _ => .pure _) fun c =>
    hp.closes.conduct process key (hbody c)

end Provider

/-! ## The treaty -/

namespace Overlap

/-- **How things stand**: the world; which context each attempt has got; which attempts looked while
    there was no final record; and which have made one. -/
structure Standing (ε : Type) where
  world : World ε
  place : Nat → Option Nat := fun _ => none
  early : List Nat := []
  authors : List Nat := []

variable (records : Part ε MemoryStore) (process key : String)

/-- The records of the instance. -/
def Standing.ledger (t : Standing ε) : Ledger := records.ledger process key t.world

/-- The gate of a context. -/
def Standing.gate (t : Standing ε) (id : Nat) : Gate := (t.world.context id).gate

/-- **What holds at every moment**: contexts have been created, and no two attempts share one. -/
structure Fair (t : Standing ε) : Prop where
  created : ∀ {i id}, t.place i = some id → id < t.world.contexts.length
  apart : ∀ {i j id}, t.place i = some id → t.place j = some id → i = j

/-- **What attempt `i` may do in one step.** -/
inductive Move (i : Nat) : Standing ε → Standing ε → Prop
  /-- The attempt changes no gate but its own, and makes no final record. -/
  | own {t : Standing ε} {w : World ε} (grows : (t.ledger records process key).Grows (records.ledger process key w))
      (old : ∀ id r, records.ledger process key w id = some r → r.isFinal = true →
        t.ledger records process key id = some r)
      (length : t.world.contexts.length ≤ w.contexts.length)
      (gates : ∀ id < t.world.contexts.length, t.place i ≠ some id → (w.context id).gate = t.gate id) :
      Move i t { t with world := w }
  /-- The attempt looks, and there is no final record. -/
  | look {t : Standing ε} (none : ¬ (t.ledger records process key).Final) :
      Move i t { t with early := i :: t.early }
  /-- The attempt gets a new context. -/
  | enrol {t : Standing ε} {w : World ε} (calm : Calm records process key t.world w)
      (unplaced : t.place i = none) (created : t.world.contexts.length < w.contexts.length) :
      Move i t { t with
        world := w, place := fun j => if j = i then some t.world.contexts.length else t.place j }
  /-- The attempt makes a final record. -/
  | complete {t : Standing ε} {w : World ε} {id : String} {r : StoredRecord}
      (free : t.ledger records process key id = none)
      (made : records.ledger process key w = (t.ledger records process key).put id r)
      (same : w.contexts = t.world.contexts) (early : i ∈ t.early) (first : i ∉ t.authors) :
      Move i t { t with world := w, authors := i :: t.authors }

/-- **What attempt `i` relies on**: nobody else enrols it, shuts its gate or speaks for it. -/
structure Kept (i : Nat) (t u : Standing ε) : Prop where
  place : u.place i = t.place i
  early : i ∈ u.early ↔ i ∈ t.early
  author : i ∈ u.authors ↔ i ∈ t.authors
  gate : ∀ id, t.place i = some id → u.gate id = t.gate id

variable {records process key} {i j : Nat} {t u v : Standing ε}

theorem Kept.refl (i : Nat) (t : Standing ε) : Kept i t t := ⟨rfl, Iff.rfl, Iff.rfl, fun _ _ => rfl⟩

theorem Kept.trans (h : Kept i t u) (h' : Kept i u v) : Kept i t v :=
  ⟨h'.place.trans h.place, h'.early.trans h.early, h'.author.trans h.author,
    fun id hid => (h'.gate id (h.place.trans hid)).trans (h.gate id hid)⟩

/-- A calm step is a move of anybody. -/
theorem Move.calm {w : World ε} (h : Calm records process key t.world w) :
    Move records process key i t { t with world := w } := by
  refine .own ?_ (fun id r hr _ => ?_) h.length fun id hid _ => h.gates id hid
  · rw [h.ledger]
    exact .refl _
  · rw [h.ledger] at hr
    exact hr

/-- **Every move leaves things fair.** -/
theorem Move.fair (h : Move records process key i t u) (ht : Fair t) : Fair u := by
  cases h with
  | own grows old length gates =>
    exact ⟨fun hj => Nat.lt_of_lt_of_le (ht.created hj) length, ht.apart⟩
  | look none => exact ⟨ht.created, ht.apart⟩
  | @enrol w calm unplaced created =>
    constructor
    · intro j id hj
      show id < w.contexts.length
      by_cases hji : j = i
      · simp only [hji, if_true, Option.some.injEq] at hj
        omega
      · simp only [hji, if_false] at hj
        have := ht.created hj
        omega
    · -- The new context is nobody else's, since it was not there.
      intro j k id hj hk
      by_cases hji : j = i <;> by_cases hki : k = i
      · rw [hji, hki]
      · simp only [hji, if_true, Option.some.injEq] at hj
        simp only [hki, if_false] at hk
        have := ht.created hk
        omega
      · simp only [hki, if_true, Option.some.injEq] at hk
        simp only [hji, if_false] at hj
        have := ht.created hj
        omega
      · simp only [hji, hki, if_false] at hj hk
        exact ht.apart hj hk
  | @complete w id r free made same early first =>
    refine ⟨fun {j id} hj => ?_, ht.apart⟩
    show id < w.contexts.length
    rw [same]
    exact ht.created hj

/-- **What one does is what the others rely on.** -/
theorem Move.kept (hij : i ≠ j) (ht : Fair t) (h : Move records process key i t u) : Kept j t u := by
  have hother : ∀ {id}, t.place j = some id → t.place i ≠ some id := fun hj hi => hij (ht.apart hi hj)
  cases h with
  | own grows old length gates =>
    exact ⟨rfl, Iff.rfl, Iff.rfl, fun id hid => gates id (ht.created hid) (hother hid)⟩
  | look none => exact ⟨rfl, by simp [hij.symm], Iff.rfl, fun _ _ => rfl⟩
  | enrol calm unplaced created =>
    exact ⟨if_neg hij.symm, Iff.rfl, Iff.rfl, fun id hid => calm.gates id (ht.created hid)⟩
  | @complete w id r free made same early first =>
    refine ⟨rfl, Iff.rfl, by simp [hij.symm], fun id hid => ?_⟩
    show (w.context id).gate = (t.world.context id).gate
    unfold World.context
    rw [same]

variable (records process key)

/-- **The treaty of the attempts.** -/
def treaty : Treaty (World ε) (Standing ε) where
  view := Standing.world
  inv := Fair
  rely := Kept
  guar := Move records process key
  rely_refl := Kept.refl
  rely_trans := Kept.trans
  guar_refl _ t := .calm (.refl t.world)
  inv_guar ht h := h.fair ht
  rely_guar := Move.kept

/-! ## Keeping to it, however one ends -/

/-- **The process keeps its side** and ends, if it ends, where `A` holds, be it by an answer or by a
    crash. -/
def Leads (i : Nat) (A : Standing ε → Prop) (a : Action ε α) (t : Standing ε) : Prop :=
  (treaty records process key).Meets i (fun _ => A) a.caught t

/-- **What others and calm steps of one's own leave alone.** -/
structure Firm (i : Nat) (A : Standing ε → Prop) : Prop where
  kept : ∀ {t u}, Kept i t u → A t → A u
  calm : ∀ {t w}, Fair t → Calm records process key t.world w → A t → A { t with world := w }

variable {records process key} {A B : Standing ε → Prop}

namespace Leads

theorem done (hA : Firm records process key i A) (h : A t) (a : α) :
    Leads records process key i A (.done a) t :=
  fun _ htu _ => hA.kept htu h

theorem steps (hA : Firm records process key i A) {a : Action ε α}
    (ha : a.Steps (Calm records process key)) (h : A t) : Leads records process key i A a t := by
  induction a generalizing t with
  | done a => exact fun _ htu _ => hA.kept htu h
  | crash m => exact fun _ htu _ => hA.kept htu h
  | step e k ih =>
    intro u htu hu
    exact ⟨{ u with world := e u.world }, rfl, .calm (ha.1 u.world),
      ih u.world (ha.2 u.world) (hA.calm hu (ha.1 u.world) (hA.kept htu h))⟩

/-- A process leads on by its first step, and by what follows. -/
theorem step {effect : World ε → World ε} {resume : World ε → Action ε α}
    (h : ∀ u, Kept i t u → Fair u → ∃ v : Standing ε, v.world = effect u.world ∧
      Move records process key i u v ∧ Leads records process key i A (resume u.world) v) :
    Leads records process key i A (.step effect resume) t := h

theorem bind (hAB : ∀ u, A u → B u) {a : Action ε α}
    {f : α → Action ε β} (ha : Leads records process key i A a t)
    (hf : ∀ r u, A u → Leads records process key i B (f r) u) :
    Leads records process key i B (a >>= f) t := by
  induction a generalizing t with
  | done r => exact Treaty.Meets.of_later fun u htu hu => hf r u (ha u htu hu)
  | crash m => exact fun u htu hu => hAB u (ha u htu hu)
  | step e k ih =>
    intro u htu hu
    obtain ⟨v, hv, hmove, hk⟩ := ha u htu hu
    exact ⟨v, hv, hmove, ih _ hk⟩

theorem weaken {a : Action ε α} (ha : Leads records process key i A a t) (hAB : ∀ u, A u → B u) :
    Leads records process key i B a t :=
  Treaty.Meets.weaken ha fun _ u => hAB u

theorem caught {a : Action ε α} (ha : Leads records process key i A a t) :
    Leads records process key i A a.caught t := by
  induction a generalizing t with
  | done r => exact ha
  | crash m => exact ha
  | step e k ih =>
    intro u htu hu
    obtain ⟨v, hv, hmove, hk⟩ := ha u htu hu
    exact ⟨v, hv, hmove, ih _ hk⟩

/-- A step on the way out leads on from wherever the process has ended. -/
theorem onExit_change (hB : Firm records process key i B) {a : Action ε α} {f : World ε → World ε}
    (ha : Leads records process key i A a t)
    (hf : ∀ u, A u → Fair u → ∃ v : Standing ε, v.world = f u.world ∧ Move records process key i u v ∧ B v) :
    Leads records process key i B (a.onExit (Process.change f)) t := by
  induction a generalizing t with
  | done r =>
    intro u htu hu
    obtain ⟨v, hv, hmove, hB'⟩ := hf u (ha u htu hu) hu
    exact ⟨v, hv, hmove, fun _ hvw _ => hB.kept hvw hB'⟩
  | crash m =>
    intro u htu hu
    obtain ⟨v, hv, hmove, hB'⟩ := hf u (ha u htu hu) hu
    exact ⟨v, hv, hmove, fun _ hvw _ => hB.kept hvw hB'⟩
  | step e k ih =>
    intro u htu hu
    obtain ⟨v, hv, hmove, hk⟩ := ha u htu hu
    exact ⟨v, hv, hmove, ih _ hk⟩

/-- A look at the records leads on if what comes after it does. -/
theorem look (hA : Firm records process key i A) {B : Standing ε → Prop} {f : MemoryStore → α}
    {k : α → Action ε β} (h : A t)
    (hk : ∀ u, A u → Fair u → Leads records process key i B (k (f (records.get u.world.env))) u) :
    Leads records process key i B (Action.look records f >>= k) t :=
  fun u htu hu => ⟨u, rfl, (treaty records process key).guar_refl i u, hk u (hA.kept htu h) hu⟩

end Leads

/-! ## Where an attempt stands -/

variable (process key) in
/-- **Attempt `i` has got the context**: its gate is `g`, it is an author or not, as `d` says, and if the
    context knows of no recorded final phase then the attempt is an early one. -/
structure At (i : Nat) (c : Context) (g : Gate) (d : Bool) (t : Standing ε) : Prop where
  process_eq : c.process = process
  key_eq : c.key = key
  place : t.place i = some c.id
  gate : t.gate c.id = g
  author : i ∈ t.authors ↔ d = true
  knows : c.recordedFinal = none → i ∈ t.early

variable (process key) in
/-- **Between two calls**: no phase is active, and the gate of an author is shut. -/
def Idle (i : Nat) (c : Context) (t : Standing ε) : Prop :=
  ∃ f d, At process key i c ⟨f, none⟩ d t ∧ (d = true → f = true)

variable (process key) in
/-- **When a phase has been executed**: it is still active, and only a final one has made an author. -/
def Executed (i : Nat) (c : Context) (phase : Phase) (t : Standing ε) : Prop :=
  ∃ d, At process key i c ⟨false, some phase⟩ d t ∧ (d = true → phase.isFinal = true)

variable {c : Context} {phase : Phase} {g : Gate} {d : Bool}

theorem At.kept (hk : Kept i t u) (h : At process key i c g d t) : At process key i c g d u where
  process_eq := h.process_eq
  key_eq := h.key_eq
  place := hk.place.trans h.place
  gate := (hk.gate c.id h.place).trans h.gate
  author := hk.author.trans h.author
  knows hnone := hk.early.2 (h.knows hnone)

theorem Idle.kept (hk : Kept i t u) : Idle process key i c t → Idle process key i c u :=
  fun ⟨f, d, h, hshut⟩ => ⟨f, d, h.kept hk, hshut⟩

theorem firm_at : Firm records process key i (At process key i c g d) where
  kept := At.kept
  calm hfair hcalm h := ⟨h.process_eq, h.key_eq, h.place,
    (hcalm.gates c.id (hfair.created h.place)).trans h.gate, h.author, h.knows⟩

theorem firm_idle : Firm records process key i (Idle process key i c) where
  kept := Idle.kept
  calm hfair hcalm := fun ⟨f, d, h, hshut⟩ => ⟨f, d, firm_at.calm hfair hcalm h, hshut⟩

theorem firm_executed : Firm records process key i (Executed process key i c phase) where
  kept hk := fun ⟨d, h, hfinal⟩ => ⟨d, h.kept hk, hfinal⟩
  calm hfair hcalm := fun ⟨d, h, hfinal⟩ => ⟨d, firm_at.calm hfair hcalm h, hfinal⟩

/-- Whoever is no author has executed a phase of whatever kind. -/
theorem At.executed (h : At process key i c ⟨false, some phase⟩ false t) :
    Executed process key i c phase t :=
  ⟨false, h, fun h => nomatch h⟩

variable (records) in
/-- **A move within one's own context**: it changes the gate of the context and nothing else. -/
theorem At.turn (h : At process key i c g d t) (hfair : Fair t) (f : ContextState → ContextState) :
    let v : Standing ε := { t with world := t.world.modifyContext c.id f }
    Move records process key i t v ∧
      At process key i c (f (t.world.context c.id)).gate d v := by
  have hself := World.context_modifyContext_self t.world f (hfair.created h.place)
  refine ⟨.own (.refl _) (fun _ _ hr _ => hr) (Nat.le_of_eq (World.length_modifyContext ..).symm)
    fun id _ hid => ?_, h.process_eq, h.key_eq, h.place, congrArg ContextState.gate hself, h.author,
    h.knows⟩
  have hne : c.id ≠ id := fun heq => hid (heq ▸ h.place)
  rw [World.context_modifyContext, if_neg fun hand => hne hand.1]
  rfl

/-! ## Executors -/

variable (records process key) in
/-- **An executor to be trusted**: it makes an author of nobody but an early attempt in a final phase. -/
structure Trusty (x : Executor ε) : Prop where
  execute : ∀ {κ : Type} {i : Nat} {c : Context} {phase : Phase} {body : Body ε κ} {t : Standing ε},
    At process key i c ⟨false, some phase⟩ false t →
    (∀ u, At process key i c ⟨false, some phase⟩ false u →
      Leads records process key i (At process key i c ⟨false, some phase⟩ false) body u) →
    Leads records process key i (Executed process key i c phase) (x.execute c phase body) t

section Base

variable {stamps : Action ε Instant}

/-- **The end of a transaction** makes a record, if the key is free. -/
theorem leads_commit (hfresh : c.recordedFinal = none) {r : StoredRecord} (hr : r.isFinal = phase.isFinal)
    (h : At process key i c ⟨false, some phase⟩ false t) :
    Leads records process key i (Executed process key i c phase)
      (Action.on records (MemoryStore.commit [(⟨c.process, c.key, phase.id⟩, r)])) t := by
  refine Leads.step fun u htu _ => ?_
  replace h := h.kept htu
  obtain rfl := h.process_eq
  obtain rfl := h.key_eq
  cases hrec : (records.get u.world.env).get? ⟨c.process, c.key, phase.id⟩ with
  | some r' =>
    -- Somebody has been faster.
    simp only [MemoryStore.commit_taken hrec, Part.set_get]
    exact ⟨u, rfl, .calm (.refl u.world), .done firm_executed h.executed _⟩
  | none =>
    simp only [MemoryStore.commit_free hrec]
    let w : World ε := records.store ⟨c.process, c.key, phase.id⟩ r u.world
    have hfree : u.ledger records c.process c.key phase.id = none := hrec
    have hput : records.ledger c.process c.key w = (u.ledger records c.process c.key).put phase.id r :=
      Part.ledger_store ..
    cases hfinal : phase.isFinal with
    | true =>
      have hfirst : i ∉ u.authors := fun hi => Bool.false_ne_true (h.author.1 hi)
      refine ⟨{ u with world := w, authors := i :: u.authors }, rfl,
        .complete hfree hput rfl (h.knows hfresh) hfirst, .done firm_executed ⟨true, ?_, fun _ => hfinal⟩ _⟩
      exact ⟨rfl, rfl, h.place, h.gate, by simp, h.knows⟩
    | false =>
      rw [hfinal] at hr
      have hat : At c.process c.key i c ⟨false, some phase⟩ false { u with world := w } :=
        ⟨rfl, rfl, h.place, h.gate, h.author, h.knows⟩
      refine ⟨{ u with world := w }, rfl, .own ?_ (fun id s hs hsf => ?_) (Nat.le_refl _) fun _ _ _ => rfl,
        .done firm_executed hat.executed _⟩
      · rw [hput]
        exact Ledger.grows_put hfree r
      · -- The record that is new is not final.
        rw [hput] at hs
        unfold Ledger.put at hs
        split at hs
        · cases hs
          rw [hr] at hsf
          cases hsf
        · exact hs

/-- **Recording** a text. -/
theorem leads_record (hstamps : stamps.Steps (Calm records process key)) (hfresh : c.recordedFinal = none)
    (data : String) (h : At process key i c ⟨false, some phase⟩ false t) :
    Leads records process key i (Executed process key i c phase)
      (MemoryStore.record records stamps ⟨c.process, c.key, phase.id⟩ phase.isFinal data) t := by
  refine Leads.look firm_at h fun u hu _ => ?_
  cases (records.get u.world.env).contains ⟨c.process, c.key, phase.id⟩ with
  | true => exact .done firm_executed hu.executed _
  | false =>
    exact Leads.bind (fun _ => At.executed) (Leads.steps firm_at hstamps hu)
      fun createdAt v hv => leads_commit hfresh rfl hv

/-- What becomes of an error of the recording is calm. -/
theorem calm_resolve (rk : RecordKey) (e : Error) :
    (Executor.resolve (MemoryStore.adapter records stamps) rk phase e).Steps (Calm records process key) :=
  Executor.steps_resolve (fun _ => .look Calm.refl _) (overlooks_calm records process key).tell rk phase e

/-- **The base executor over a store in memory is to be trusted.** -/
theorem trusty_base (hstamps : stamps.Steps (Calm records process key)) :
    Trusty records process key (Executor.base (MemoryStore.adapter records stamps)) := by
  refine ⟨fun {κ i c phase body t} h hbody => ?_⟩
  rw [MemoryStore.execute_adapter]
  refine Leads.look firm_at h fun u hu _ => ?_
  cases (records.get u.world.env).get? ⟨c.process, c.key, phase.id⟩ with
  | some r =>
    exact Leads.steps firm_executed (.bind ((overlooks_calm records process key).tell _) fun _ => .pure _)
      hu.executed
  | none =>
    cases hfresh : c.recordedFinal with
    | some final => exact .done firm_executed hu.executed _
    | none =>
      refine Leads.bind (fun _ => At.executed) (hbody u hu) fun answer v hv => ?_
      obtain ⟨text, k⟩ := answer
      cases text with
      | error e => exact Leads.steps firm_executed (.bind (calm_resolve _ e) fun _ => .pure _) hv.executed
      | ok data =>
        refine Leads.bind (fun _ h => h) (leads_record hstamps hfresh data hv) fun result w hw => ?_
        cases result with
        | error e => exact Leads.steps firm_executed (.bind (calm_resolve _ e) fun _ => .pure _) hw
        | ok u => exact .done firm_executed hw _

end Base

/-- **The extensions of the library** leave an executor to be trusted. -/
theorem trusty_wrap {x : Executor ε} (hx : Trusty records process key x) {e : Interceptor ε}
    (he : e.Stock (Calm records process key)) : Trusty records process key (e.wrap x) := by
  refine ⟨fun {κ i c phase body t} h hbody => ?_⟩
  have hS := overlooks_calm records process key
  cases he with
  | recording r log unnoticed =>
    exact Leads.bind (fun _ => At.executed) (Leads.steps firm_at (.change fun w => unnoticed w _) h)
      fun _ u hu => hx.execute hu hbody
  | counting part unnoticed =>
    refine Leads.bind (fun _ => At.executed) (Leads.steps firm_at (.change fun w => unnoticed w _) h)
      fun _ u hu => Leads.bind (fun _ h => h) (hx.execute hu hbody) fun answer v hv => ?_
    exact Leads.steps firm_executed (.bind (.change fun w => unnoticed w _) fun _ => .pure _) hv
  | monitoring =>
    refine Leads.bind (fun _ => At.executed) (Leads.steps firm_at (hS.contextSpan c) h) fun parent u hu => ?_
    refine Leads.bind (fun _ => At.executed)
      (Leads.steps firm_at (.atomically fun w => hS.trace w _) hu) fun span v hv => ?_
    have hrest : ∀ u, At process key i c ⟨false, some phase⟩ false u →
        Leads records process key i (Executed process key i c phase) (do
          let answer ← x.execute c phase body
          Action.tell (Monitoring.outcome answer.1)
          return answer) u := by
      intro u hu
      exact Leads.bind (fun _ h => h) (hx.execute hu hbody) fun answer v hv =>
        Leads.steps firm_executed (.bind (hS.tell _) fun _ => .pure _) hv
    -- The span is entered, and left however the execution ends.
    refine Leads.bind (fun _ => At.executed)
      (Leads.steps firm_at (.change fun w => hS.trace w _) hv) fun _ w hw => ?_
    refine Leads.onExit_change firm_executed (A := Executed process key i c phase) ?_ fun u hu hfair =>
      ⟨{ u with world := _ }, rfl, .calm (hS.trace u.world _), firm_executed.calm hfair (hS.trace u.world _) hu⟩
    refine Leads.bind (fun _ => At.executed) (Leads.steps firm_at (hS.tell _) hw) fun _ u hu => ?_
    dsimp only
    split
    · exact Leads.bind (fun _ => At.executed) (Leads.steps firm_at (hS.tell _) hu) fun _ => hrest
    · exact hrest u hu
  | publishing sink unnoticed =>
    refine Leads.bind (fun _ => At.executed) (Leads.steps firm_at (hS.withProperties c _) h)
      fun strategy u hu => ?_
    cases strategy with
    | none => exact hx.execute hu hbody
    | some s =>
      refine hx.execute hu ?_
      split
      · intro v hv
        rw [Publisher.flushing_eq]
        exact Leads.bind (fun _ h => h) (hbody v hv) fun answer w hw =>
          Leads.steps firm_at (hS.sending unnoticed c answer) hw
      · exact hbody

/-- **The chain of a provider is to be trusted.** -/
theorem trusty_executor {p : Provider ε} {stamps : Action ε Instant}
    (hp : p.KeepsCalm records stamps process key) : Trusty records process key p.executor := by
  have hbase : Trusty records process key (Executor.base p.store) := hp.store ▸ trusty_base hp.stamps
  exact Executor.compose_induction hbase fun e he x hx => trusty_wrap hx (hp.stock e he)

/-! ## Calls and uses -/

section Calls

variable [EngineFailure β] {x : Executor ε} {codec : Codec γ} {body : Action ε (Except β γ)}

/-- **Entering a phase** goes by the gate and the phases visited before. -/
theorem leads_enter {k : Except Error Unit → Action ε α}
    (hrefused : ∀ u e, Kept i t u → Fair u → Leads records process key i A (k (.error e)) u)
    (hentered : ∀ u s, Kept i t u → Fair u → (u.world.context c.id).enter c.process phase = .ok s →
      ∃ v : Standing ε, v.world = u.world.modifyContext c.id (fun _ => s) ∧
        Move records process key i u v ∧ Leads records process key i A (k (.ok ())) v) :
    Leads records process key i A (c.enter phase >>= k) t := by
  refine Leads.step fun u htu hu => ?_
  cases henter : (u.world.context c.id).enter c.process phase with
  | error e =>
    simp only [henter]
    exact ⟨u, rfl, .calm (.refl u.world), hrefused u e htu hu⟩
  | ok s =>
    simp only [henter]
    exact hentered u s htu hu henter

/-- **A call while a phase is active** is refused. -/
theorem leads_call_busy {active : Phase} (h : At process key i c ⟨false, some active⟩ d t) :
    Leads records process key i (At process key i c ⟨false, some active⟩ d) (c.run x phase codec body) t := by
  unfold Context.run
  split
  · exact .done firm_at h _
  · refine leads_enter (fun u e htu _ => ?_) fun u s htu _ henter => ?_
    · exact .done firm_at (h.kept htu) _
    · have hgate := (h.kept htu).gate
      cases hgate.symm.trans (ContextState.gate_enter henter).1

/-- **A call between calls**: the phase is entered, executed and left, or refused. -/
theorem leads_call (hx : Trusty records process key x) (h : Idle process key i c t)
    (hbody : ∀ u, At process key i c ⟨false, some phase⟩ false u →
      Leads records process key i (At process key i c ⟨false, some phase⟩ false) body u) :
    Leads records process key i (Idle process key i c) (c.run x phase codec body) t := by
  unfold Context.run
  split
  · exact .done firm_idle h _
  · refine leads_enter (fun u e htu _ => ?_) fun u s htu hu henter => ?_
    · exact .done firm_idle (h.kept htu) _
    · obtain ⟨f, d, hat, hshut⟩ := h.kept htu
      obtain ⟨hopen, hentered⟩ := ContextState.gate_enter henter
      -- The gate was open, so the attempt is no author.
      obtain rfl : f = false := congrArg Gate.wasFinal (hat.gate.symm.trans hopen)
      obtain rfl : d = false := by
        cases d with
        | false => rfl
        | true => cases hshut rfl
      obtain ⟨hmove, hat'⟩ := hat.turn records hu fun _ => s
      rw [hentered] at hat'
      refine ⟨_, rfl, hmove, ?_⟩
      have herase : ∀ v, At process key i c ⟨false, some phase⟩ false v →
          Leads records process key i (At process key i c ⟨false, some phase⟩ false)
            (Context.erase phase codec body) v := by
        intro v hv
        refine Leads.bind (fun _ h => h) (hbody v hv) fun answer w hw => ?_
        cases answer with
        | error failure => exact .done firm_at hw _
        | ok a =>
          dsimp only
          split <;> exact .done firm_at hw _
      refine Leads.bind (fun _ h => h) (Leads.onExit_change firm_idle (hx.execute hat' herase) ?_)
        fun answer v hv => .done firm_idle hv _
      -- Leaving a final phase shuts the gate.
      rintro v ⟨d, hv, hfinal⟩ hfair
      obtain ⟨hmove, hleft⟩ := hv.turn records hfair (·.leave phase)
      rw [ContextState.gate_leave] at hleft
      refine ⟨_, rfl, hmove, _, d, hleft, fun hd => ?_⟩
      rw [hfinal hd, Bool.or_true]

end Calls

variable {x : Executor ε}

/-- **Uses while a phase is active** leave things as they are. -/
theorem leads_uses_busy {active : Phase} {a : Action ε α} (ha : c.Uses x (Calm records process key) a)
    (h : At process key i c ⟨false, some active⟩ d t) :
    Leads records process key i (At process key i c ⟨false, some active⟩ d) a t := by
  induction ha generalizing t with
  | done a => exact .done firm_at h a
  | crash m => exact Leads.steps firm_at trivial h
  | step beside _ ih =>
    exact Leads.step fun u htu hu => ⟨{ u with world := _ }, rfl, .calm (beside u.world),
      ih u.world (firm_at.calm hu (beside u.world) (h.kept htu))⟩
  | own kind _ _ => exact kind.elim
  | call _ _ _ ih => exact Leads.bind (fun _ h => h) (Leads.caught (leads_call_busy h)) fun o u hu => ih o hu

/-- **Uses between calls** lead to where one is between calls. -/
theorem leads_uses (hx : Trusty records process key x) {a : Action ε α}
    (ha : c.Uses x (Calm records process key) a) (h : Idle process key i c t) :
    Leads records process key i (Idle process key i c) a t := by
  induction ha generalizing t with
  | done a => exact .done firm_idle h a
  | crash m => exact Leads.steps firm_idle trivial h
  | step beside _ ih =>
    exact Leads.step fun u htu hu => ⟨{ u with world := _ }, rfl, .calm (beside u.world),
      ih u.world (firm_idle.calm hu (beside u.world) (h.kept htu))⟩
  | own kind _ _ => exact kind.elim
  | call inner _ _ ih =>
    exact Leads.bind (fun _ h => h) (Leads.caught (leads_call hx h fun u hu => leads_uses_busy inner hu))
      fun o u hu => ih o hu

/-! ## Starting in company -/

section Starts

variable {p : Provider ε} {stamps : Action ε Instant}

variable (p records process key) in
/-- **An attempt that has not looked yet**, be it that it never will. -/
inductive Waits : Action ε α → Prop
  | ended {a : Action ε α} (calm : a.Steps (Calm records process key)) : Waits a
  | leading {lead : Action ε (Except Error LockHandle)} {settings : List Setting}
      {rest : Except Error Context → Action ε α} (calm : lead.Steps (Calm records process key))
      (refused : ∀ e, (rest (.error e)).Steps (Calm records process key))
      (used : ∀ c : Context, c.Uses p.executor (Calm records process key) (rest (.ok c))) :
      Waits (lead >>= fun
        | .error e => rest (.error e)
        | .ok handle => p.startLocked process key settings handle >>= rest)

/-- Whoever attends has not looked yet. -/
theorem waits_attends (hp : p.KeepsCalm records stamps process key) {a : Action ε α}
    (ha : p.Attends records process key a) : Waits records process key p a := by
  cases ha with
  | bystander calm => exact .ended calm
  | @attempt timeout settings rest refused used =>
    have hlead : p.start process key timeout settings >>= rest =
        p.seize process key timeout settings >>= fun
          | .error e => rest (.error e)
          | .ok handle => p.startLocked process key settings handle >>= rest := by
      rw [Provider.start_eq, bind_assoc]
      refine bind_congr fun answer => ?_
      cases answer <;> rfl
    rw [hlead]
    exact .leading (hp.closes.seize process key timeout settings) refused used

/-- **After a step** it has still not looked, or the step was the look. -/
theorem Waits.resume {effect : World ε → World ε} {k : World ε → Action ε α}
    (h : Waits records process key p (.step effect k)) :
    p.Looks process key (.step effect k) ∨ ∀ w, Waits records process key p (k w) := by
  generalize ha : Process.step effect k = a at h
  cases h with
  | ended calm =>
    subst ha
    exact .inr fun w => .ended (calm.2 w)
  | @leading lead settings rest calm refused used =>
    cases lead with
    | step e k' =>
      cases ha
      exact .inr fun w => .leading (calm.2 w) refused used
    | crash m => cases ha
    | done answer =>
      cases answer with
      | error e =>
        have hcalm := refused e
        replace ha : Process.step effect k = rest (.error e) := ha
        rw [← ha] at hcalm
        exact .inr fun w => .ended (hcalm.2 w)
      | ok handle => exact .inl ⟨settings, handle, rest, rfl⟩

/-- Nothing is known of the attempt. -/
structure New (i : Nat) (t : Standing ε) : Prop where
  place : t.place i = none
  author : i ∉ t.authors

theorem New.kept (hk : Kept i t u) (h : New i t) : New i u :=
  ⟨hk.place.trans h.place, fun hi => h.author (hk.author.1 hi)⟩

theorem firm_new : Firm records process key i (New i) where
  kept := New.kept
  calm _ _ h := ⟨h.place, h.author⟩

/-- Nothing is asked of an attempt in the end. -/
theorem firm_true : Firm records process key i (fun _ : Standing ε => True) where
  kept _ _ := trivial
  calm _ _ _ := trivial

/-- Introducing a context and going on from there is a use of it. -/
theorem uses_introduce (hp : p.KeepsCalm records stamps process key) {c : Context}
    {rest : Except Error Context → Action ε α}
    (refused : ∀ e, (rest (.error e)).Steps (Calm records process key))
    (used : c.Uses p.executor (Calm records process key) (rest (.ok c))) :
    c.Uses p.executor (Calm records process key) (p.introduce c >>= rest) := by
  unfold Provider.introduce
  rw [bind_assoc]
  refine .bind (.of_steps (.onCrash (hp.runCreated c) (hp.closes.drop c))) fun answer => ?_
  cases answer with
  | ok u => exact used
  | error e =>
    show c.Uses p.executor (Calm records process key) ((p.drop c >>= fun _ => pure (.error e)) >>= rest)
    rw [bind_assoc]
    exact .bind (.of_steps (hp.closes.drop c)) fun _ => .of_steps (refused e)

/-- **Enrolling**: from here on the context is used and nothing else. -/
theorem leads_enrol (hp : p.KeepsCalm records stamps process key) (settings : List Setting)
    (handle : LockHandle) {known : Option String} {rest : Except Error Context → Action ε α}
    (refused : ∀ e, (rest (.error e)).Steps (Calm records process key))
    (used : ∀ c : Context, c.Uses p.executor (Calm records process key) (rest (.ok c)))
    (h : New i t) (hearly : known = none → i ∈ t.early) :
    Leads records process key i (fun _ => True)
      (Provider.newContext process key settings known handle >>= fun c => p.introduce c >>= rest) t := by
  refine Leads.step fun u htu _ => ?_
  have hnew := h.kept htu
  let w : World ε := { u.world with contexts := u.world.contexts ++ [{ lock := some handle }] }
  let c : Context := { id := u.world.contexts.length, process, key, settings, recordedFinal := known }
  have hlength : w.contexts.length = u.world.contexts.length + 1 := List.length_append ..
  let v : Standing ε := { u with
    world := w, place := fun j => if j = i then some u.world.contexts.length else u.place j }
  have hgate : v.gate c.id = ⟨false, none⟩ := congrArg ContextState.gate (World.context_append_self ..)
  have hat : At process key i c ⟨false, none⟩ false v :=
    ⟨rfl, rfl, if_pos rfl, hgate, by simp [v, hnew.author], fun hnone => htu.early.2 (hearly hnone)⟩
  refine ⟨v, rfl, .enrol (calm_append ..) hnew.place (by omega), ?_⟩
  exact (leads_uses (trusty_executor hp) (uses_introduce hp refused (used c))
    ⟨false, false, hat, fun h => h⟩).weaken fun _ _ => trivial

/-- **Looking**: a context that knows of no final record makes an early attempt. -/
theorem leads_startLocked (hp : p.KeepsCalm records stamps process key) (settings : List Setting)
    (handle : LockHandle) {rest : Except Error Context → Action ε α}
    (refused : ∀ e, (rest (.error e)).Steps (Calm records process key))
    (used : ∀ c : Context, c.Uses p.executor (Calm records process key) (rest (.ok c)))
    (h : New i t) :
    Leads records process key i (fun _ => True)
      (p.startLocked process key settings handle >>= rest) t := by
  rw [Provider.startLocked_adapter hp.store, bind_assoc]
  refine Leads.step fun u htu hu => ?_
  replace h := h.kept htu
  by_cases hfinal : (u.ledger records process key).Final
  · refine ⟨u, rfl, .calm (.refl u.world), leads_enrol hp settings handle refused used h fun hnone => ?_⟩
    have hsome := (MemoryStore.findFinal_isSome (records.get u.world.env) process key).2 hfinal
    exact absurd hnone (Option.isSome_iff_ne_none.1 hsome)
  · exact ⟨{ u with early := i :: u.early }, rfl, .look hfinal,
      leads_enrol hp settings handle refused used ⟨h.place, h.author⟩ fun _ => List.mem_cons_self ..⟩

/-- **An attempt that has not looked yet** keeps the treaty. -/
theorem leads_waits (hp : p.KeepsCalm records stamps process key) {a : Action ε α}
    (ha : Waits records process key p a) (h : New i t) :
    Leads records process key i (fun _ => True) a t := by
  cases ha with
  | ended calm => exact Leads.steps firm_true calm trivial
  | @leading lead settings rest calm refused used =>
    refine Leads.bind (fun _ _ => trivial) (Leads.steps firm_new calm h) fun answer u hu => ?_
    cases answer with
    | error e => exact Leads.steps firm_true (refused e) trivial
    | ok handle => exact leads_startLocked hp settings handle refused used hu

end Starts

/-! ## Runs -/

section Runs

variable {p : Provider ε} {stamps : Action ε Instant} {pool : Pool (World ε) α} {id id' : String}

variable (records process key) in
/-- **All keep the treaty**, as things stand. -/
def Holds (pool : Pool (World ε) α) (t : Standing ε) : Prop :=
  (treaty records process key).Together (fun _ _ _ => True) pool.caught t

/-- In the beginning, nothing is known of anybody. -/
theorem holds_attends (hp : p.KeepsCalm records stamps process key) {threads : List (Action ε α)}
    (hthreads : ∀ a ∈ threads, p.Attends records process key a) (w : World ε) :
    Holds records process key ⟨threads, w⟩ { world := w } := by
  refine ⟨rfl, ⟨fun h => (nomatch h), fun h => (nomatch h)⟩, fun {i b} hb => ?_⟩
  obtain ⟨a, ha, rfl⟩ := List.mem_map.1 (List.mem_of_getElem? hb)
  exact leads_waits hp (waits_attends hp (hthreads a ha)) ⟨rfl, List.not_mem_nil⟩

/-- The records are those of the pool. -/
theorem Holds.ledger (h : Holds records process key pool t) :
    t.ledger records process key = records.ledger process key pool.state :=
  congrArg (records.ledger process key) (h.view : t.world = pool.caught.state)

/-- **One turn** is a move. -/
theorem Holds.turn (h : Holds records process key pool t) (i : Nat) :
    ∃ u, Holds records process key (pool.advance i) u ∧ Move records process key i t u := by
  obtain ⟨u, hu, hmove, -⟩ := Treaty.Together.turn h i
  rw [← Pool.caught_advance] at hu
  exact ⟨u, hu, hmove⟩

variable (records process key) in
/-- **What lasts**: records, authorship and, once there is a final record, who was early. -/
structure Since (t u : Standing ε) : Prop where
  grows : (t.ledger records process key).Grows (u.ledger records process key)
  authors : ∀ i ∈ t.authors, i ∈ u.authors
  early : (t.ledger records process key).Final → u.early = t.early

theorem Since.trans (h : Since records process key t u) (h' : Since records process key u v) :
    Since records process key t v :=
  ⟨h.grows.trans h'.grows, fun i hi => h'.authors i (h.authors i hi),
    fun hfinal => (h'.early (h.grows.final hfinal)).trans (h.early hfinal)⟩

/-- Every move leaves behind what lasts. -/
theorem Move.since (h : Move records process key i t u) : Since records process key t u := by
  cases h with
  | own grows old length gates => exact ⟨grows, fun _ h => h, fun _ => rfl⟩
  | look none => exact ⟨.refl _, fun _ h => h, fun hfinal => absurd hfinal none⟩
  | enrol calm unplaced created =>
    refine ⟨?_, fun _ h => h, fun _ => rfl⟩
    show (t.ledger records process key).Grows (records.ledger process key _)
    rw [calm.ledger]
    exact .refl _
  | complete free made same early first =>
    refine ⟨?_, fun j hj => List.mem_cons_of_mem _ hj, fun _ => rfl⟩
    show (t.ledger records process key).Grows (records.ledger process key _)
    rw [made]
    exact Ledger.grows_put free _

/-- **The turns of a schedule.** -/
theorem Holds.play (h : Holds records process key pool t) (schedule : List Nat) :
    ∃ u, Holds records process key (pool.play schedule) u ∧ Since records process key t u := by
  induction schedule generalizing pool t with
  | nil => exact ⟨t, h, .refl _, fun _ h => h, fun _ => rfl⟩
  | cons i rest ih =>
    obtain ⟨u, hu, hmove⟩ := h.turn i
    obtain ⟨v, hv, hsince⟩ := ih hu
    exact ⟨v, hv, hmove.since.trans hsince⟩

end Runs

end Overlap

/-! ## Completions -/

/-- **A final record under an id.** -/
def Ledger.FinalAt (l : Ledger) (id : String) : Prop := ∃ r, l id = some r ∧ r.isFinal = true

instance (l : Ledger) (id : String) : Decidable (l.FinalAt id) :=
  decidable_of_iff ((l id).any (·.isFinal) = true) (by
    rw [Option.any_eq_true]
    rfl)

/-- **A completion**: after the turns of the schedule there is no final record under the id, and one more
    turn of process `i` makes it. -/
def Pool.Completes (pool : Pool (World ε) α) (records : Part ε MemoryStore) (process key : String)
    (schedule : List Nat) (i : Nat) (id : String) : Prop :=
  ¬ (records.ledger process key (pool.play schedule).state).FinalAt id ∧
    (records.ledger process key (pool.play (schedule ++ [i])).state).FinalAt id

namespace Overlap

variable {records : Part ε MemoryStore} {process key : String} {i j : Nat} {t u : Standing ε}
  {p : Provider ε} {stamps : Action ε Instant} {pool : Pool (World ε) α} {id id' : String}

/-- **A move that completes** is one of an early attempt that becomes an author, and makes no other
    final record. -/
theorem Move.completes (h : Move records process key i t u)
    (hbefore : ¬ (t.ledger records process key).FinalAt id)
    (hafter : (u.ledger records process key).FinalAt id) :
    i ∈ t.early ∧ i ∉ t.authors ∧ i ∈ u.authors ∧
      ∀ id', (u.ledger records process key).FinalAt id' →
        id' = id ∨ (t.ledger records process key).FinalAt id' := by
  cases h with
  | own grows old length gates =>
    obtain ⟨r, hr, hfinal⟩ := hafter
    exact absurd ⟨r, old id r hr hfinal, hfinal⟩ hbefore
  | look none => exact absurd hafter hbefore
  | @enrol w calm unplaced created =>
    replace hafter : (records.ledger process key w).FinalAt id := hafter
    rw [calm.ledger] at hafter
    exact absurd hafter hbefore
  | @complete w made_id r free made same early first =>
    have honly : ∀ id', (records.ledger process key w).FinalAt id' →
        id' = made_id ∨ (t.ledger records process key).FinalAt id' := by
      rintro id' ⟨s, hs, hfinal⟩
      rw [made] at hs
      by_cases hid : id' = made_id
      · exact .inl hid
      · simp only [Ledger.put, if_neg hid] at hs
        exact .inr ⟨s, hs, hfinal⟩
    obtain rfl : id = made_id := (honly id hafter).resolve_right hbefore
    exact ⟨early, first, List.mem_cons_self .., honly⟩

/-- What a completion says of how things stand. -/
theorem Holds.completes (h : Holds records process key pool t) {schedule : List Nat}
    (hc : pool.Completes records process key schedule i id) :
    ∃ u v, Holds records process key (pool.play schedule) u ∧ Since records process key t u ∧
      Holds records process key (pool.play (schedule ++ [i])) v ∧ i ∈ u.early ∧ i ∉ u.authors ∧
      i ∈ v.authors ∧ ∀ id', (v.ledger records process key).FinalAt id' →
        id' = id ∨ (u.ledger records process key).FinalAt id' := by
  obtain ⟨u, hu, hsince⟩ := h.play schedule
  obtain ⟨v, hv, hmove⟩ := hu.turn i
  have hnext : pool.play (schedule ++ [i]) = (pool.play schedule).advance i := pool.play_append ..
  obtain ⟨hbefore, hafter⟩ := hc
  rw [hnext] at hafter ⊢
  rw [← hu.ledger] at hbefore
  rw [← hv.ledger] at hafter
  exact ⟨u, v, hu, hsince, hv, hmove.completes hbefore hafter⟩

/-- **Nobody completes twice.** -/
theorem Holds.once (h : Holds records process key pool t) {before after : List Nat}
    (hc : pool.Completes records process key before i id) :
    ¬ pool.Completes records process key (before ++ i :: after) i id' := by
  intro hc'
  obtain ⟨u, v, hu, -, hv, -, -, hauthor, -⟩ := h.completes hc
  have hlater : (pool.play (before ++ [i])).Completes records process key after i id' := by
    unfold Pool.Completes at hc' ⊢
    rw [← Pool.play_append, ← Pool.play_append]
    simpa using hc'
  obtain ⟨v', -, -, hsince, -, -, hfirst, -⟩ := hv.completes hlater
  exact hfirst (hsince.authors i hauthor)

/-! ## Attempts that are late -/

/-- How things stand, without what is known of one attempt. -/
def Standing.forget (t : Standing ε) (j : Nat) : Standing ε where
  world := t.world
  place i := if i = j then none else t.place i
  early := t.early.filter (· ≠ j)
  authors := t.authors.filter (· ≠ j)

/-- **Of an attempt that has not looked yet** nothing need be known. -/
theorem Holds.forget (hp : p.KeepsCalm records stamps process key)
    (h : Holds records process key pool t) {a : Action ε α} (ha : pool.threads[j]? = some a)
    (hwaits : Waits records process key p a) : Holds records process key pool (t.forget j) := by
  have hplace : ∀ {i id}, (t.forget j).place i = some id → i ≠ j ∧ t.place i = some id := by
    intro i id hi
    simp only [Standing.forget] at hi
    split at hi
    · cases hi
    · exact ⟨‹_›, hi⟩
  refine ⟨h.view, ⟨fun hi => h.inv.created (hplace hi).2,
    fun hi hk => h.inv.apart (hplace hi).2 (hplace hk).2⟩, fun {i b} hb => ?_⟩
  by_cases hij : i = j
  · subst hij
    have hb' : pool.caught.threads[i]? = some a.caught := by
      show (pool.threads.map Process.caught)[i]? = _
      rw [List.getElem?_map, ha]
      rfl
    rw [hb', Option.some.injEq] at hb
    subst hb
    exact leads_waits hp hwaits ⟨if_pos rfl, by simp [Standing.forget]⟩
  · refine Treaty.Meets.later (h.meets hb) (⟨if_neg hij, ?_, ?_, fun _ _ => rfl⟩ : Kept i t (t.forget j))
    · simp [Standing.forget, hij]
    · simp [Standing.forget, hij]

/-- **An attempt that has not looked when a final record is there never completes.** -/
theorem Holds.never (hp : p.KeepsCalm records stamps process key) (h : Holds records process key pool t)
    {a : Action ε α} (ha : pool.threads[j]? = some a) (hwaits : Waits records process key p a)
    (hfinal : (records.ledger process key pool.state).Final) (schedule : List Nat) :
    ¬ pool.Completes records process key schedule j id := by
  intro hc
  obtain ⟨u, -, -, hsince, -, hearly, -⟩ := (h.forget hp ha hwaits).completes hc
  rw [← h.ledger] at hfinal
  rw [hsince.early hfinal] at hearly
  simp [Standing.forget] at hearly

/-- **An attempt that has not looked yet** does not complete in its next turn. -/
theorem Holds.not_now (hp : p.KeepsCalm records stamps process key) (h : Holds records process key pool t)
    {a : Action ε α} (ha : pool.threads[j]? = some a) (hwaits : Waits records process key p a) :
    ¬ pool.Completes records process key [] j id := by
  rintro ⟨hbefore, hafter⟩
  have hforget := h.forget hp ha hwaits
  obtain ⟨u, hu, hmove⟩ := hforget.turn j
  replace hbefore : ¬ (records.ledger process key pool.state).FinalAt id := hbefore
  replace hafter : (records.ledger process key (pool.advance j).state).FinalAt id := hafter
  rw [← hforget.ledger] at hbefore
  rw [← hu.ledger] at hafter
  have hearly := (hmove.completes hbefore hafter).1
  simp [Standing.forget] at hearly

/-- **An attempt has not looked yet, or there was a turn in which it did.** -/
theorem waits_or_looked {a : Action ε α} (ha : pool.threads[j]? = some a)
    (hwaits : Waits records process key p a) (schedule : List Nat) :
    (∃ b, (pool.play schedule).threads[j]? = some b ∧ Waits records process key p b) ∨
      ∃ before after b, schedule = before ++ j :: after ∧ (pool.play before).threads[j]? = some b ∧
        Waits records process key p b ∧ p.Looks process key b := by
  induction schedule generalizing pool a with
  | nil => exact .inl ⟨a, ha, hwaits⟩
  | cons i rest ih =>
    have later : ∀ {b}, (pool.advance i).threads[j]? = some b → Waits records process key p b →
        (∃ b, (pool.play (i :: rest)).threads[j]? = some b ∧ Waits records process key p b) ∨
          ∃ before after b, i :: rest = before ++ j :: after ∧ (pool.play before).threads[j]? = some b ∧
            Waits records process key p b ∧ p.Looks process key b := by
      intro b hb hwaits
      rcases ih hb hwaits with h | ⟨before, after, b, rfl, hb, hlooks⟩
      · exact .inl h
      · exact .inr ⟨i :: before, after, b, rfl, hb, hlooks⟩
    by_cases hij : i = j
    · subst hij
      cases a with
      | done r => exact later (by rw [Pool.advance_eq_self (by simp [ha]), ha]) hwaits
      | crash m => exact later (by rw [Pool.advance_eq_self (by simp [ha]), ha]) hwaits
      | step e k =>
        rcases hwaits.resume with hlooks | hresume
        · exact .inr ⟨[], rest, _, rfl, ha, hwaits, hlooks⟩
        · refine later ?_ (hresume pool.state)
          have hlt : i < pool.threads.length := (List.getElem?_eq_some_iff.1 ha).1
          simp only [Pool.advance, ha]
          exact List.getElem?_set_self hlt
    · exact later ((pool.threads_advance_ne hij).trans ha) hwaits

end Overlap

/-- What is completed in the end has been completed in some turn. -/
theorem Pool.exists_completes {records : Part ε MemoryStore} {process key : String} {id : String}
    {pool : Pool (World ε) α} {schedule : List Nat}
    (hbefore : ¬ (records.ledger process key pool.state).FinalAt id)
    (hafter : (records.ledger process key (pool.play schedule).state).FinalAt id) :
    ∃ before i after, schedule = before ++ i :: after ∧
      pool.Completes records process key before i id := by
  induction schedule generalizing pool with
  | nil => exact absurd hafter hbefore
  | cons i rest ih =>
    by_cases hnow : (records.ledger process key (pool.advance i).state).FinalAt id
    · exact ⟨[], i, rest, rfl, hbefore, hnow⟩
    · obtain ⟨before, j, after, rfl, hc⟩ := ih hnow hafter
      exact ⟨i :: before, j, after, rfl, hc⟩

/-- **The look** of attempt `j` comes next after the schedule. -/
def Provider.LooksAt (p : Provider ε) (process key : String) (pool : Pool (World ε) α)
    (schedule : List Nat) (j : Nat) : Prop :=
  ∃ a, (pool.play schedule).threads[j]? = some a ∧ p.Looks process key a

section Overlapping

variable {p : Provider ε} {records : Part ε MemoryStore} {stamps : Action ε Instant}
  {process key : String} {threads : List (Action ε α)} {w : World ε}

/-- **Whoever completes has looked** while there was no final record. -/
theorem Provider.KeepsCalm.looked_before (hp : p.KeepsCalm records stamps process key)
    (hthreads : ∀ a ∈ threads, p.Attends records process key a) {schedule : List Nat} {j : Nat} {id : String}
    (hc : (Pool.mk threads w).Completes records process key schedule j id) :
    ∃ before after, schedule = before ++ j :: after ∧
      p.LooksAt process key ⟨threads, w⟩ before j ∧
      ¬ (records.ledger process key ((Pool.mk threads w).play before).state).Final := by
  have hstart := Overlap.holds_attends hp hthreads w
  obtain ⟨t, ht, -⟩ := hstart.play schedule
  have hnext : ((Pool.mk threads w).play schedule).Completes records process key [] j id := by
    unfold Pool.Completes at hc ⊢
    rwa [Pool.play_append] at hc
  cases hj : threads[j]? with
  | none =>
    -- Nobody is there to complete.
    have hgone : ((Pool.mk threads w).play schedule).threads[j]? = none := by
      rw [List.getElem?_eq_none_iff, Pool.length_play]
      exact List.getElem?_eq_none_iff.1 hj
    obtain ⟨hbefore, hafter⟩ := hnext
    replace hafter : (records.ledger process key
        (((Pool.mk threads w).play schedule).advance j).state).FinalAt id := hafter
    rw [Pool.advance_eq_self (by simp [hgone])] at hafter
    exact absurd hafter hbefore
  | some a =>
    have hwaits := Overlap.waits_attends hp (hthreads a (List.mem_of_getElem? hj))
    replace hj : (Pool.mk threads w).threads[j]? = some a := hj
    rcases Overlap.waits_or_looked hj hwaits schedule with
      ⟨b, hb, hwaiting⟩ | ⟨before, after, b, rfl, hb, hwaiting, hlooks⟩
    · exact absurd hnext (ht.not_now hp hb hwaiting)
    · refine ⟨before, after, rfl, ⟨b, hb, hlooks⟩, fun hfinal => ?_⟩
      obtain ⟨u, hu, -⟩ := hstart.play before
      have hlater : ((Pool.mk threads w).play before).Completes records process key (j :: after) j id := by
        unfold Pool.Completes at hc ⊢
        rwa [← Pool.play_append, ← Pool.play_append, ← List.append_assoc]
      exact hu.never hp hb hwaiting hfinal (j :: after) hlater

/-- One turn completes under one id. -/
theorem Provider.KeepsCalm.completes_one (hp : p.KeepsCalm records stamps process key)
    (hthreads : ∀ a ∈ threads, p.Attends records process key a) {before : List Nat} {i : Nat}
    {id id' : String} (h : (Pool.mk threads w).Completes records process key before i id)
    (h' : (Pool.mk threads w).Completes records process key before i id') : id = id' := by
  obtain ⟨u, v, hu, -, hv, -, -, -, honly⟩ := (Overlap.holds_attends hp hthreads w).completes h
  rw [hu.ledger, hv.ledger] at honly
  rcases honly id' h'.2 with heq | hthere
  · exact heq.symm
  · exact absurd hthere h'.1

/-- Two completions in their order: they are of different attempts, and the later one had looked before
    the earlier record was made. -/
theorem Provider.KeepsCalm.completions_in_order (hp : p.KeepsCalm records stamps process key)
    (hthreads : ∀ a ∈ threads, p.Attends records process key a) {before after : List Nat} {i j : Nat}
    {id id' : String} (hi : (Pool.mk threads w).Completes records process key before i id)
    (hj : (Pool.mk threads w).Completes records process key (before ++ i :: after) j id') :
    i ≠ j ∧ ∃ earlier between, before = earlier ++ j :: between ∧
      p.LooksAt process key ⟨threads, w⟩ earlier j := by
  have hstart := Overlap.holds_attends hp hthreads w
  have hij : i ≠ j := by
    rintro rfl
    exact hstart.once hi hj
  refine ⟨hij, ?_⟩
  obtain ⟨earlier, between, hsplit, hlooks, hnone⟩ := hp.looked_before hthreads hj
  rcases List.append_eq_append_iff.1 hsplit with ⟨rest, rfl, hrest⟩ | ⟨rest, rfl, hrest⟩
  · cases rest with
    | nil => exact absurd (List.cons.inj hrest).1 hij
    | cons k rest =>
      -- The look would come after the first record, which stays.
      obtain ⟨rfl, -⟩ := List.cons.inj hrest
      obtain ⟨t, ht, -⟩ := hstart.play (before ++ [i])
      obtain ⟨u, hu, hsince⟩ := ht.play rest
      rw [← Pool.play_append, List.append_assoc] at hu
      obtain ⟨r, hr, hfinal⟩ := hi.2
      refine absurd (hsince.grows.final ?_) (hu.ledger ▸ hnone)
      exact ⟨id, r, by rw [ht.ledger]; exact hr, hfinal⟩
  · cases rest with
    | nil => exact absurd (List.cons.inj hrest).1.symm hij
    | cons k rest =>
      obtain ⟨rfl, -⟩ := List.cons.inj hrest
      exact ⟨earlier, rest, rfl, hlooks⟩

/-- **Overlapping completions.**  Attempts of one instance, any number of them, go on side by side under
    any schedule, whoever holds the lock at any time.

    Whoever makes a final record has looked for one, in its start, at a moment when there was none: an
    attempt that starts when a final record is there never adds another.  And where there are two final
    records in the end and were none in the beginning, they have been made by two attempts, the later
    of which had looked before the earlier one made its record. -/
theorem Provider.completions_overlap (hp : p.KeepsCalm records stamps process key)
    (hthreads : ∀ a ∈ threads, p.Attends records process key a) (schedule : List Nat) :
    let pool := Pool.mk threads w
    (∀ before i id, pool.Completes records process key before i id →
      ∃ earlier between, before = earlier ++ i :: between ∧ p.LooksAt process key pool earlier i ∧
        ¬ (records.ledger process key (pool.play earlier).state).Final) ∧
    (∀ id id', id ≠ id' → ¬ (records.ledger process key w).Final →
      (records.ledger process key (pool.play schedule).state).FinalAt id →
      (records.ledger process key (pool.play schedule).state).FinalAt id' →
      ∃ before i between j after, schedule = before ++ i :: (between ++ j :: after) ∧ i ≠ j ∧
        (pool.Completes records process key before i id ∧
            pool.Completes records process key (before ++ i :: between) j id' ∨
          pool.Completes records process key before i id' ∧
            pool.Completes records process key (before ++ i :: between) j id) ∧
        ∃ earlier since, before = earlier ++ j :: since ∧ p.LooksAt process key pool earlier j) := by
  intro pool
  refine ⟨fun before i id hc => hp.looked_before hthreads hc, fun id id' hid hnone h h' => ?_⟩
  have hnone : ∀ id, ¬ (records.ledger process key w).FinalAt id := fun id hat => hnone ⟨id, hat⟩
  obtain ⟨before, i, after, hi, hci⟩ := Pool.exists_completes (hnone id) h
  obtain ⟨before', j, after', hj, hcj⟩ := Pool.exists_completes (hnone id') h'
  rcases List.append_eq_append_iff.1 (hi.symm.trans hj) with ⟨rest, rfl, hrest⟩ | ⟨rest, rfl, hrest⟩
  · cases rest with
    | nil =>
      -- One turn does not make two records.
      obtain ⟨rfl, -⟩ := List.cons.inj hrest
      rw [List.append_nil] at hcj
      exact absurd (hp.completes_one hthreads hci hcj) hid
    | cons k rest =>
      obtain ⟨rfl, rfl⟩ := List.cons.inj hrest
      obtain ⟨hij, hlooked⟩ := hp.completions_in_order hthreads hci hcj
      exact ⟨before, i, rest, j, after', hi, hij, .inl ⟨hci, hcj⟩, hlooked⟩
  · cases rest with
    | nil =>
      obtain ⟨rfl, -⟩ := List.cons.inj hrest
      rw [List.append_nil] at hci
      exact absurd (hp.completes_one hthreads hci hcj) hid
    | cons k rest =>
      obtain ⟨rfl, rfl⟩ := List.cons.inj hrest
      obtain ⟨hij, hlooked⟩ := hp.completions_in_order hthreads hcj hci
      exact ⟨before', j, rest, i, after, hj, hij, .inr ⟨hcj, hci⟩, hlooked⟩

end Overlapping

/-! ## Two attempts, one after the other's lock has expired -/

namespace Depot

/-- A provider over records and locks in memory, with a clock that reads off the given moments. -/
def overlapped : Provider (Depot MemoryStore (LockTable RecordKey)) where
  locks := LockTable.adapter locksPart
  store := MemoryStore.adapter recordsPart (pure .epoch)
  clock := clock

theorem keepsCalm_overlapped : overlapped.KeepsCalm recordsPart (pure .epoch) "p" "k" where
  store := rfl
  stamps := trivial
  clock := by
    refine .bind (.atomically fun w => ⟨rfl, Nat.le_refl _, fun _ _ => rfl⟩) fun t => ?_
    cases t <;> trivial
  seized _ _ _ := .atomically fun _ => ⟨rfl, Nat.le_refl _, fun _ _ => rfl⟩
  released _ := .atomically fun _ => ⟨rfl, Nat.le_refl _, fun _ _ => rfl⟩
  stock _ hi := nomatch hi

/-- An attempt that holds its lock for five seconds and completes the instance under an id. -/
def completing (id : String) : Action (Depot MemoryStore (LockTable RecordKey)) (Except Error Unit) :=
  overlapped.runProcess "p" "k" ⟨5 * nanosPerSecond⟩ [] fun c =>
    overlapped.runPhase c { id, isFinal := true } .unit (pure (.ok ()))

/-- Two attempts, the second of which starts ten seconds after the first one. -/
def rivals : Pool (World (Depot MemoryStore (LockTable RecordKey))) (Except Error Unit) where
  threads := [completing "a", completing "b"]
  state := { env :=
    { records := Table.empty, locks := default
      moments := [.epoch, Instant.epoch.deadline ⟨10 * nanosPerSecond⟩] } }

theorem attends_rivals : ∀ a ∈ rivals.threads, overlapped.Attends recordsPart "p" "k" a := by
  have hcompleting : ∀ id, overlapped.Attends recordsPart "p" "k" (completing id) :=
    fun id => keepsCalm_overlapped.attends_runProcess _ _ fun c => .run (.done _)
  intro a ha
  simp only [rivals, List.mem_cons, List.not_mem_nil, or_false] at ha
  rcases ha with rfl | rfl <;> exact hcompleting _

/-- Both rivals start, the second by taking over the lock of the first. -/
def takeover : List Nat := [0, 0, 0, 0, 1, 1, 1, 1]

/-- Both rivals start, and then each goes on to its end. -/
def toTheEnd : List Nat := takeover ++ List.replicate 12 0 ++ List.replicate 12 1

/-- **An overlap is enough**: each attempt has obtained the lock, and each makes a final record. -/
theorem final_twice :
    ((rivals.play takeover).state.context 0).lock = some ⟨RecordKey.lock "p" "k", 0⟩ ∧
      ((rivals.play takeover).state.context 1).lock = some ⟨RecordKey.lock "p" "k", 1⟩ ∧
      (recordsPart.ledger "p" "k" (rivals.play toTheEnd).state).FinalAt "a" ∧
      (recordsPart.ledger "p" "k" (rivals.play toTheEnd).state).FinalAt "b" := by
  decide +kernel

/-- **Two final records take an overlap**: whichever of the two rivals was the later one had looked in good time. -/
theorem completions_overlap_takeover :
    (∀ a ∈ rivals.threads, overlapped.Attends recordsPart "p" "k" a) ∧
      ∃ before i between j after, toTheEnd = before ++ i :: (between ++ j :: after) ∧ i ≠ j ∧
        (rivals.Completes recordsPart "p" "k" before i "a" ∧
            rivals.Completes recordsPart "p" "k" (before ++ i :: between) j "b" ∨
          rivals.Completes recordsPart "p" "k" before i "b" ∧
            rivals.Completes recordsPart "p" "k" (before ++ i :: between) j "a") ∧
        ∃ earlier since, before = earlier ++ j :: since ∧ overlapped.LooksAt "p" "k" rivals earlier j := by
  have hnone : ¬ (recordsPart.ledger "p" "k" rivals.state).Final := by
    rintro ⟨id, r, hr, -⟩
    cases hr
  have h := Provider.completions_overlap keepsCalm_overlapped attends_rivals (w := rivals.state) toTheEnd
  exact ⟨attends_rivals, h.2 "a" "b" (by decide) hnone (by decide +kernel) (by decide +kernel)⟩

end Depot

end Idempotence
