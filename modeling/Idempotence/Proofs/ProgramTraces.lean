/-
  Traces of programs — whatever a program does with contexts of its own is accounted for in the trace.

  1. **Owners** — who owns a context uses it while it is open, and does not close it while it is lent.  As
     contexts pass through any values, a program that is `careful` looks before it uses one; for a program that
     `Owns` its contexts that makes no difference, as for one that calls and closes what it has started
     (`Program.owns_start`, `Program.owns_call`, `Program.owns_close`).

  2. **Whatever it does** — by induction on the program, all of it is accounted for
     (`Provider.Traced.tells_program`).

  3. **The trace of a program** — so from where nothing has been, the trace is an account in which every life
     takes its course (`Provider.Traced.trace_accounts`).  Not so where an extension that comes before the one
     that traces runs phases in its hooks (`Desk.unaccounted_salute`).
-/
import Idempotence.Proofs.ContextTraces
import Idempotence.Proofs.Programs

namespace Idempotence

variable {ε α β γ : Type} {place total : Nat} {inner : Executor ε} {since w v : World ε}
  {lent : List (Nat × Footing)}

/-! ## Owners -/

/-- What keeps off stage on the whole, whatever ends it comes to. -/
def Process.KeepsOff (a : Action ε α) : Prop := ∀ w, Offstage w (a.run w).2

/-- What keeps off stage is not told of. -/
theorem Process.KeepsOff.tells {a : Action ε α} (ha : a.KeepsOff) :
    a.Tells place inner True (AllRest total lent) := by
  intro since w hw
  have hoff := ha w
  revert hoff
  rcases a.run w with ⟨o, v⟩
  cases o with
  | value a => exact fun hoff => hw.offstage hoff
  | crashed m => exact fun hoff => ⟨trivial, hw.offstage hoff⟩

namespace Program

/-- Going on where that is allowed. -/
def provided (allowed : World ε → Bool) (refusal : String) (next : Program ε α) : Program ε α :=
  own (Process.look allowed) fun
    | .value true => next
    | _ => crash refusal

/-- **A program that is careful with its contexts**, of which those with the given ids are lent: before it
    uses one it looks whether there is one and it is open, and before it closes one, whether it is lent. -/
def careful (lent : List Nat) {α : Type} : Program ε α → Program ε α
  | done a => done a
  | crash m => crash m
  | own action resume => own action fun o => (resume o).careful lent
  | start process key timeout settings resume =>
    start process key timeout settings fun o => (resume o).careful lent
  | call c phase codec body resume =>
    provided (fun w => decide (c.id < w.contexts.length ∧ (w.context c.id).closed = false)) "the context is not open"
      (call c phase codec (body.careful (c.id :: lent)) fun o => (resume o).careful lent)
  | close c resume =>
    provided (fun w => decide (c.id < w.contexts.length ∧ c.id ∉ lent)) "the context is in use"
      (close c fun o => (resume o).careful lent)
  | drop c resume =>
    provided (fun w => decide (c.id < w.contexts.length ∧ c.id ∉ lent)) "the context is in use"
      (drop c fun o => (resume o).careful lent)
  | attempt process key timeout settings body resume =>
    attempt process key timeout settings (fun c => (body c).careful (c.id :: lent))
      fun o => (resume o).careful lent

/-- **A program that owns its contexts**: it need not be careful, as it makes no difference. -/
def Owns (p : Provider ε) (prog : Program ε α) (w : World ε) : Prop :=
  ((prog.careful []).act p).run w = (prog.act p).run w

variable {p : Provider ε}

/-- Going on where that is allowed, and being refused where it is not. -/
theorem run_provided {allowed : World ε → Prop} [DecidablePred allowed] {refusal : String} {next : Program ε α} :
    ((provided (fun w => decide (allowed w)) refusal next).act p).run w =
      ((if allowed w then next else crash refusal : Program ε α).act p).run w := by
  have hrun : ((provided (fun w => decide (allowed w)) refusal next).act p).run w =
      ((match Outcome.value (decide (allowed w)) with
        | .value true => next
        | _ => crash refusal : Program ε α).act p).run w := rfl
  rw [hrun]
  by_cases hallowed : allowed w <;> simp [hallowed]

/-- What is provided for is known. -/
theorem brings_provided {allowed : World ε → Prop} [DecidablePred allowed] {refusal : String}
    {next : Program ε α} {P : World ε → Prop} {Q : α → World ε → Prop} {D : World ε → Prop}
    (hnext : (next.act p).Brings (fun w => allowed w ∧ P w) Q D) (hrefused : ∀ w, P w → D w) :
    ((provided (fun w => decide (allowed w)) refusal next).act p).Brings P Q D := by
  intro w hw
  rw [run_provided]
  by_cases hallowed : allowed w
  · rw [if_pos hallowed]
    exact hnext w ⟨hallowed, hw⟩
  · rw [if_neg hallowed]
    exact hrefused w hw

/-- A program that does nothing more owns its contexts. -/
theorem owns_done (a : α) : (done a).Owns p w := rfl

/-- A program owns its contexts that starts a process, and owns them from there on. -/
theorem owns_start {process key : String} {timeout : Duration} {settings : List Setting}
    {resume : Outcome (Except Error Context) → Program ε α} {o : Outcome (Except Error Context)}
    (hrun : (p.start process key timeout settings).run w = (o, v)) (h : (resume o).Owns p v) :
    (start process key timeout settings resume).Owns p w := by
  rw [Owns, careful, act, act, Process.run_bind', Process.run_bind', Process.run_caught, hrun]
  exact h

/-- A program owns its contexts that calls one that is open with a body that does not use contexts, and owns them
    from there on. -/
theorem owns_call [EngineFailure β] {c : Context} {phase : Phase} {codec : Codec γ} {body : Program ε (Except β γ)}
    {resume : Outcome (Except β γ) → Program ε α}
    (hopen : c.id < w.contexts.length ∧ (w.context c.id).closed = false) (hbody : body.careful [c.id] = body)
    (h : let r := (p.runPhase c phase codec (body.act p)).run w
      (resume r.1).Owns p r.2) : (call c phase codec body resume).Owns p w := by
  rw [Owns, careful, run_provided, if_pos hopen, hbody]
  simp only [act, Process.run_bind', Process.run_caught]
  exact h

/-- A program owns its contexts that closes one that is there, and owns them from there on. -/
theorem owns_close {c : Context} {resume : Outcome (Except Error Unit) → Program ε α}
    (hthere : c.id < w.contexts.length)
    (h : let r := (p.close c).run w
      (resume r.1).Owns p r.2) : (close c resume).Owns p w := by
  rw [Owns, careful, run_provided, if_pos ⟨hthere, List.not_mem_nil⟩]
  simp only [act, Process.run_bind', Process.run_caught]
  exact h

end Program

namespace Provider.Traced

variable {p : Provider ε} {before after : List (Interceptor ε)} (hp : p.Traced before after)
include hp

/-- **A start**, of a context that is not lent then. -/
theorem tells_start (process key : String) (timeout : Duration) (settings : List Setting) :
    (p.start process key timeout settings).Tells before.length (p.below after) True
      (AllRest p.interceptors.length lent) := by
  refine fun since => (hp.brings_start process key timeout settings).mono (fun _ hw => hw)
    (fun answer w hw => hw.mono fun hl => ?_) fun _ hw => hw
  cases answer with
  | error e => exact hl
  | ok c =>
    obtain ⟨f, -, hl⟩ := hl
    exact hl.return.1

/-- **A call** of a context that is open. -/
theorem brings_call [EngineFailure β] {c : Context} (phase : Phase) (codec : Codec γ) {body : Action ε (Except β γ)}
    (hbody : ∀ f, body.Tells before.length (p.below after) True
      (AllRest p.interceptors.length ((c.id, f) :: lent))) :
    (p.runPhase c phase codec body).Brings
      (fun w => (c.id < w.contexts.length ∧ (w.context c.id).closed = false) ∧
        hp.Stands since (AllRest p.interceptors.length lent) w)
      (fun _ => hp.Stands since (AllRest p.interceptors.length lent))
      fun w => hp.Stands since (AllRest p.interceptors.length lent) w := by
  rintro w ⟨⟨hthere, hopen⟩, hw⟩
  have hone := World.getElem?_footings hthere
  have hcall := hp.tells_runPhase (f := (w.context c.id).footing) hopen (List.mem_cons_self ..) phase codec
    (hbody _) since
  exact hcall.mono (fun _ h => h) (fun _ _ h => h.mono fun hl => hl.return.1)
    (fun _ h => h.2.mono fun hl => hl.return.1) w (hw.mono fun hl => hl.lend hone)

/-- **Closing** a context that is not lent, in one way or another. -/
theorem brings_closeOwn {c : Context} {a : Action ε α}
    (ha : ∀ f : Footing, f.Closable before.length → a.Brings
      (hp.Stands since (RestBut p.interceptors.length lent c.id f))
      (fun _ => hp.Stands since (AllRest p.interceptors.length lent)) fun _ => False) :
    a.Brings (fun w => (c.id < w.contexts.length ∧ c.id ∉ lent.map Prod.fst) ∧
        hp.Stands since (AllRest p.interceptors.length lent) w)
      (fun _ => hp.Stands since (AllRest p.interceptors.length lent))
      fun w => hp.Stands since (AllRest p.interceptors.length lent) w := by
  rintro w ⟨⟨hthere, hnot⟩, hw⟩
  have hone := World.getElem?_footings hthere
  have hne : ∀ x ∈ lent, x.1 ≠ c.id := fun x hx hid => hnot (hid ▸ List.mem_map_of_mem hx)
  exact (hp.brings_back hne (ha _)).mono (fun _ h => h) (fun _ _ h => h) (fun _ h => h.elim) w
    (hw.mono fun hl => hl.lend hone)

/-- **Whatever a careful program does** is accounted for, by induction on the program. -/
theorem tells_program {prog : Program ε α} (hprog : prog.Within Process.KeepsOff) :
    ((prog.careful (lent.map Prod.fst)).act p).Tells before.length (p.below after) True
      (AllRest p.interceptors.length lent) := by
  have hG : ∀ lent, Process.Pervades fun a : Action ε _ => a.Tells before.length (p.below after) True
      (AllRest p.interceptors.length lent) := fun _ => Process.Tells.pervades
  -- Bodies run while one more context is lent, so those that are lent vary.
  induction prog generalizing lent with
  | done a => exact (hG lent).calm (.pure a)
  | crash m => exact fun _ => .crash fun _ hw => ⟨trivial, hw⟩
  | own action resume ih =>
    exact (hG lent).bind ((hG lent).caught (Process.KeepsOff.tells hprog.1)) fun o => ih o (hprog.2 o)
  | start process key timeout settings resume ih =>
    exact (hG lent).bind ((hG lent).caught (hp.tells_start process key timeout settings)) fun o => ih o (hprog o)
  | call c phase codec body resume ihbody ih =>
    have hbody : ∀ f, ((body.careful (c.id :: lent.map Prod.fst)).act p).Tells before.length (p.below after) True
        (AllRest p.interceptors.length ((c.id, f) :: lent)) := fun f => ihbody hprog.1
    refine fun since => Program.brings_provided ?_ fun w hw => ⟨trivial, hw⟩
    exact (hp.brings_call phase codec hbody).caught_either.bind fun o => ih o (hprog.2 o) since
  | close c resume ih =>
    refine fun since => Program.brings_provided ?_ fun w hw => ⟨trivial, hw⟩
    exact (hp.brings_closeOwn fun f hf => hp.brings_close c hf).caught_either.bind fun o => ih o (hprog o) since
  | drop c resume ih =>
    refine fun since => Program.brings_provided ?_ fun w hw => ⟨trivial, hw⟩
    exact (hp.brings_closeOwn fun f hf => hp.brings_drop c hf).caught_either.bind fun o => ih o (hprog o) since
  | attempt process key timeout settings body resume ihbody ih =>
    exact (hG lent).bind ((hG lent).caught (hp.tells_runProcess process key timeout settings fun c f =>
      ihbody c (hprog.1 c))) fun o => ih o (hprog.2 o)

end Provider.Traced

/-! ## The trace of a program -/

/-- **The trace accounts for what has happened** since a world, by what it tells of contexts and phases. -/
structure World.Accounts (place : Nat) (inner : Executor ε) (tellings : List Telling) (w v : World ε) : Prop where
  account : Account place inner w tellings v
  told : v.told = w.told ++ tellings.map Telling.entry
  /-- A context that the extension does not know of is not told of. -/
  unknown : ∀ id, (v.context id).notified ≤ place → tellings.filter (·.context.id = id) = []
  /-- What is told of any other one begins with its creation, and ends with its end if it is closed. -/
  known : ∀ id, place < (v.context id).notified →
    ∃ s, Lifeline s (v.context id).closed (tellings.filter (·.context.id = id))
  /-- No two of the spans of contexts and phases are the same. -/
  distinct : ((tellings.filter (·.event.opens)).map (·.span)).Nodup

/-- Where all contexts are at rest, one that has a span is open and known to all extensions. -/
theorem AllRest.live (h : AllRest total lent w.footings) {id : Nat} {s : Span}
    (hspan : (w.context id).footing.span = some s) :
    (w.context id).closed = false ∧ (w.context id).notified = total := by
  have hone := World.getElem?_footings (World.lt_of_span hspan)
  have hrest := h.rest _ (List.mem_of_getElem? hone)
  cases hclosed : (w.context id).closed with
  | false => exact ⟨rfl, hrest.known hclosed⟩
  | true => exact absurd (hspan.symm.trans (hrest.closed hclosed)) (Option.some_ne_none s)

/-- Where all contexts are at rest, what has been told of them is what is to be told. -/
theorem Chronicle.accounts {tellings : List Telling} (h : Chronicle place tellings v)
    (haccount : Account place inner w tellings v) (hrest : AllRest total lent v.footings) (hplace : place < total) :
    World.Accounts place inner tellings w v where
  account := haccount
  told := haccount.entries.1
  unknown id hunknown := by
    have hlife := h.lives id
    generalize tellings.filter (·.context.id = id) = mine at hlife ⊢
    cases hlife with
    | unknown _ _ => rfl
    | live _ _ hspan => exact absurd ((hrest.live hspan).2 ▸ hunknown) (Nat.not_le_of_lt hplace)
    | ended _ hknown _ _ => exact absurd hunknown (Nat.not_le_of_lt hknown)
  known id hknown := by
    have hlife := h.lives id
    generalize tellings.filter (·.context.id = id) = mine at hlife ⊢
    cases hlife with
    | unknown hunknown _ => exact absurd hknown (Nat.not_lt_of_le hunknown)
    | live hcourse _ hspan => exact ⟨_, (hrest.live hspan).1 ▸ hcourse⟩
    | ended hcourse _ hclosed _ => exact ⟨_, hclosed ▸ hcourse⟩
  distinct := h.distinct

namespace Provider.Traced

variable {p : Provider ε} {before after : List (Interceptor ε)} (hp : p.Traced before after)
include hp

/-- Where nothing has been, all that is accounted for is in the trace. -/
theorem accounts_run {a : Action ε α}
    (ha : a.Tells before.length (p.below after) True (AllRest p.interceptors.length [])) (hnone : w.contexts = []) :
    ∃ tellings, World.Accounts before.length (p.below after) tellings w (a.run w).2 := by
  have hbegin : AllRest p.interceptors.length [] w.footings := by
    rw [World.footings, hnone]
    exact ⟨fun _ h => absurd h List.not_mem_nil, fun _ h => absurd h List.not_mem_nil⟩
  obtain ⟨hrest, tellings, haccount⟩ := ha.run (.begin hbegin)
  exact ⟨tellings, (haccount.chronicle (.begin hnone)).accounts haccount hrest (by simp [hp.interceptors])⟩

/-- **The trace of a program** accounts for whatever it does, if it owns its contexts or is careful with them;
    and every phase that reaches the extension in a context with a span is told of around its execution. -/
theorem trace_accounts {prog : Program ε α} (hprog : prog.Within Process.KeepsOff) (hnone : w.contexts = []) :
    (∃ tellings, World.Accounts before.length (p.below after) tellings w (((prog.careful []).act p).run w).2) ∧
      (prog.Owns p w → ∃ tellings, World.Accounts before.length (p.below after) tellings w ((prog.act p).run w).2) ∧
      ∀ {κ : Type} (phase : Phase) (body : Body ε κ) (s : Span) (c : Context) (u : World ε),
        (u.context c.id).footing.span = some s → Monitoring.Surrounds (p.below after) phase body s c u := by
  have hcareful : ((prog.careful []).act p).Tells before.length (p.below after) True
      (AllRest p.interceptors.length []) := hp.tells_program hprog
  have haccounts := hp.accounts_run hcareful hnone
  refine ⟨haccounts, fun howns => ?_, fun phase body _ _ _ hspan => Monitoring.surrounds _ phase body hspan⟩
  rwa [howns] at haccounts

end Provider.Traced

namespace Desk

/-- An extension that runs a phase when a context is created. -/
def salute : Interceptor Desk where
  created x c := c.run x { id := "hello" } .unit (pure (.ok ()))

theorem modest_salute : salute.Modest where
  wrap _ _ _ hx := hx
  created hG c x hx := by
    have hhello := hx.run hG (β := Error) { id := "hello" } .unit (hG.calm (.pure (.ok ())))
    exact hhello
  closed hG _ _ _ := hG.calm (.pure _)

/-- **The desk is traced**, with mute extensions before the one that traces and modest ones behind it. -/
theorem traced {before after : List (Interceptor Desk)} (hbefore : ∀ i ∈ before, i.Mute)
    (hafter : ∀ i ∈ after, i.Modest) :
    (provider (before ++ Monitoring.interceptor :: after)).Traced before after where
  interceptors := rfl
  before := hbefore
  after := hafter
  store := MemoryStore.calm_adapter _ (.pure _)
  findFinal _ _ := .look _
  clock := .pure _
  obtain := LockTable.calm_obtain _
  release := LockTable.calm_release _

/-- A codec that cannot write its values. -/
def unwritable : Codec Unit := { Codec.unit with encode := fun _ => .error "no text" }

/-- A letter that is written and fails to be sent, as a process of its own. -/
def letter : Program Desk (Except Error Unit) :=
  .attempt (β := Error) (ρ := Unit) "letter" "7" (.ofSeconds 5) [] (fun c =>
      .call c { id := "write" } unwritable (.done (.ok () : Except Error Unit)) fun _ =>
      .call c { id := "send", isFinal := true } .unit (.done (.error .missingKey : Except Error Unit)) fun _ =>
      .done (.ok ()))
    fun _ => .done (.ok ())

/-- An order with a letter in its first phase, and another one that is not kept. -/
def orders : Program Desk Unit :=
  .start "order" "7" (.ofSeconds 5) [] fun
    | .value (.ok c) =>
      .start "order" "8" (.ofSeconds 5) [] fun
        | .value (.ok d) =>
          .call c { id := "book" } .unit letter fun _ =>
          .close c fun _ => .drop d fun _ => .start "order" "" (.ofSeconds 5) [] fun _ => .done ()
        | _ => .done ()
    | _ => .done ()

/-- An order that is booked and closed. -/
def errand : Program Desk Unit :=
  .start "order" "7" (.ofSeconds 5) [] fun
    | .value (.ok c) =>
      .call c { id := "book" } .unit (.done (.ok () : Except Error Unit)) fun _ => .close c fun _ => .done ()
    | _ => .done ()

/-- The desk with an extension that counts before the one that traces, and one that greets behind it. -/
def lobby : Provider Desk := provider ([Stats.interceptor statsPart] ++ Monitoring.interceptor :: [salute])

theorem traced_lobby : lobby.Traced [Stats.interceptor statsPart] [salute] :=
  traced (by simpa using Stats.mute statsPart) (by simpa using modest_salute)

/-- The desk when the order has been started. -/
def begun : World Desk := ((lobby.start "order" "7" (.ofSeconds 5) []).run fresh).2

/-- Who runs the errand owns the order. -/
theorem owns_errand : errand.Owns lobby fresh := by
  have hbegun : (lobby.start "order" "7" (.ofSeconds 5) []).run fresh =
      (.value (.ok ⟨0, "order", "7", [], none⟩), begun) :=
    Prod.ext (Outcome.answer?_eq_some (by decide +kernel)) rfl
  have hopen : 0 < begun.contexts.length ∧ (begun.context 0).closed = false := by decide +kernel
  refine Program.owns_start hbegun ?_
  refine Program.owns_call hopen rfl ?_
  refine Program.owns_close ?_ (Program.owns_done _)
  decide +kernel

/-- What has been told, by the names of the events and the ids of their spans. -/
def names (w : World Desk) : List (Option String × List Nat) :=
  w.told.map fun e => (e.event.name?, e.span.map (·.id))

/-- What the orders are told of: the letter within the first phase of one order, and the other order around it. -/
theorem trace_accounts_orders :
    let v := (((orders.careful []).act lobby).run fresh).2
    lobby.Traced [Stats.interceptor statsPart] [salute] ∧ orders.Within Process.KeepsOff ∧
      errand.Within Process.KeepsOff ∧ errand.Owns lobby fresh ∧ fresh.contexts = [] ∧
      names v =
        [(some "idempotency_context_created", [0]),
          (some "idempotency_entering_new_phase", [0, 1]),
          (some "idempotency_phase_finished_no_retry", [0, 1]),
          (some "idempotency_context_created", [2]),
          (some "idempotency_entering_new_phase", [2, 3]),
          (some "idempotency_phase_finished_no_retry", [2, 3]),
          (some "idempotency_entering_new_phase", [0, 4]),
          (some "idempotency_context_created", [0, 4, 5]),
          (some "idempotency_entering_new_phase", [0, 4, 5, 6]),
          (some "idempotency_phase_finished_no_retry", [0, 4, 5, 6]),
          (some "idempotency_entering_new_phase", [0, 4, 5, 7]),
          (some "idempotency_phase_executor_error", [0, 4, 5, 7]),
          (some "idempotency_entering_new_phase", [0, 4, 5, 8]),
          (none, [0, 4, 5, 8]),
          (some "idempotency_phase_finished_exceptionally", [0, 4, 5, 8]),
          (some "idempotency_context_closed", [0, 4, 5]),
          (some "idempotency_phase_finished_no_retry", [0, 4]),
          (some "idempotency_context_closed", [0]),
          (some "idempotency_context_closed", [2])] ∧
      names ((orders.act lobby).run fresh).2 = names v ∧
      (∃ tellings, World.Accounts 1 (lobby.below [salute]) tellings fresh v) ∧
      ∃ tellings, World.Accounts 1 (lobby.below [salute]) tellings fresh ((errand.act lobby).run fresh).2 := by
  intro v
  have hletter : letter.Within Process.KeepsOff := by simp [letter, Program.Within]
  have horders : orders.Within Process.KeepsOff := by
    rintro ((e | c) | m)
    · trivial
    · rintro ((e | d) | m)
      · trivial
      · exact ⟨hletter, fun _ _ _ _ => trivial⟩
      · trivial
    · trivial
  have herrand : errand.Within Process.KeepsOff := by
    rintro ((e | c) | m)
    · trivial
    · exact ⟨trivial, fun _ _ => trivial⟩
    · trivial
  exact ⟨traced_lobby, horders, herrand, owns_errand, rfl, by decide +kernel, by decide +kernel,
    (traced_lobby.trace_accounts horders rfl).1, (traced_lobby.trace_accounts herrand rfl).2.1 owns_errand⟩

/-- **An extension that comes earlier runs no phase in its hooks**, or it would be told of before the context
    is. -/
theorem unaccounted_salute :
    let p := provider [salute, Monitoring.interceptor]
    let v := ((p.start "order" "7" (.ofSeconds 5) []).run fresh).2
    v.told.map (·.event.name?) = [some "idempotency_entering_new_phase",
      some "idempotency_phase_finished_no_retry", some "idempotency_context_created"] ∧
      ¬∃ tellings, World.Accounts 1 (p.below []) tellings fresh v := by
  intro p v
  have hnames : v.told.map (·.event.name?) = [some "idempotency_entering_new_phase",
      some "idempotency_phase_finished_no_retry", some "idempotency_context_created"] := by decide +kernel
  have hlength : v.contexts.length = 1 := by decide +kernel
  have hnotified : 1 < (v.context 0).notified := by decide +kernel
  refine ⟨hnames, fun ⟨tellings, h⟩ => ?_⟩
  -- There is one context only, so all that is told is told of it, beginning with its creation.
  have hone : ∀ t ∈ tellings, t.context.id = 0 := by
    intro t ht
    refine Decidable.byContradiction fun hne => ?_
    have hout : v.context t.context.id = default := by
      rw [World.context, List.getD_eq_getElem?_getD, List.getElem?_eq_none (by omega)]
      rfl
    have hnone := h.unknown t.context.id (by rw [hout]; exact Nat.zero_le _)
    have hmem : t ∈ tellings.filter (·.context.id = t.context.id) := by simpa using ht
    rw [hnone] at hmem
    exact List.not_mem_nil hmem
  obtain ⟨s, hcourse⟩ := h.known 0 hnotified
  rw [List.filter_eq_self.2 (by simpa using hone)] at hcourse
  obtain ⟨c, rest, rfl⟩ := hcourse.begins
  rw [h.told] at hnames
  exact absurd (List.cons.inj hnames).1 (by simp [Telling.entry, Event.name?])

end Desk

end Idempotence
