/-
  Frozen instances — what becomes of an instance once it has a final record.

  1. **Histories** — the life of an instance, one attempt at a time (`History`).  A moment of it is
     a world and the context that is open, if one is.  An attempt opens a context, calls phases on it
     in any order and with any outcome, and closes it or drops it; or it runs a whole process.  In
     between anything may go on that leaves the records of the instance alone.  Nothing is asked of
     a call but that its body is a client: it may fail, crash, call further phases of the same
     context, or swallow whatever comes back.

  2. **Final means frozen** (`final_is_frozen`) — from the first moment at which a final record is
     there, the records of the instance never change, and a call of whatever phase reads a record or
     fails and does not run its body.

  3. **The crux** — two mechanisms cover one another.  The attempt that made the final record has left
     a final phase; a later attempt has learnt of the record when it started.  `Moment.Held` says
     that an open context is in either case, which is what `course_frozen` keeps.
-/
import Idempotence.Proofs.Extensions

namespace Idempotence

variable {ε α β γ : Type}

/-- **A moment of an instance**: the world, and the context that is open. -/
abbrev Moment (ε : Type) := World ε × Option Context

section

variable (p : Provider ε) (records : Part ε MemoryStore) (process key : String)

/-- **What may happen next to an instance.** -/
inductive History.Step : Moment ε → Moment ε → Prop
  | opened {timeout : Duration} {settings : List Setting} {w w' : World ε} {c : Context}
      (run : (p.start process key timeout settings).run w = (.value (.ok c), w')) :
      Step (w, none) (w', some c)
  | refused {timeout : Duration} {settings : List Setting} {w w' : World ε}
      {o : Outcome (Except Error Context)} (run : (p.start process key timeout settings).run w = (o, w'))
      (refused : ∀ c, o ≠ .value (.ok c)) : Step (w, none) (w', none)
  | called {β γ : Type} [EngineFailure β] {phase : Phase} {codec : Codec γ}
      {body : Client ε β (Except β γ)} {c : Context} {w w' : World ε} {o : Outcome (Except β γ)}
      (within : body.Within (Beside Eq records c))
      (run : (p.runPhase c phase codec (body.act p.executor c)).run w = (o, w')) :
      Step (w, some c) (w', some c)
  | closed {c : Context} {w w' : World ε} {o : Outcome (Except Error Unit)}
      (run : (p.close c).run w = (o, w')) : Step (w, some c) (w', none)
  | dropped {c : Context} {w w' : World ε} {o : Outcome Unit} (run : (p.drop c).run w = (o, w')) :
      Step (w, some c) (w', none)
  | processed {α β : Type} [EngineFailure β] {timeout : Duration} {settings : List Setting}
      {body : Context → Client ε β (Except β α)} {w w' : World ε} {o : Outcome (Except β α)}
      (within : ∀ c, (body c).Within (Beside Eq records c))
      (run : (p.runProcess process key timeout settings fun c => (body c).act p.executor c).run w =
        (o, w')) : Step (w, none) (w', none)
  | beside {c : Context} {w w' : World ε} (steps : Beside Eq records c w w') :
      Step (w, some c) (w', some c)
  | elsewhere {w w' : World ε}
      (same : records.ledger process key w' = records.ledger process key w) :
      Step (w, none) (w', none)

/-- **A history of the instance**, from one moment to another. -/
inductive History : Moment ε → Moment ε → Prop
  | refl (s : Moment ε) : History s s
  | tail {s t u : Moment ε} (history : History s t) (step : History.Step p records process key t u) :
      History s u

/-- **What holds of an open context**: it is one of the instance, waits and is sealed. -/
def Moment.Held (s : Moment ε) : Prop :=
  ∀ c, s.2 = some c → c.process = process ∧ c.key = key ∧ c.Ready s.1 ∧ c.Sealed records s.1

end

variable {p : Provider ε} {records : Part ε MemoryStore} {stamps : Action ε Instant}
  {process key : String}

/-- Records are kept, and all of them once one is final. -/
def Frozen (l l' : Ledger) : Prop := l.Grows l' ∧ (l.Final → l' = l)

theorem Frozen.refl (l : Ledger) : Frozen l l := ⟨.refl l, fun _ => rfl⟩

theorem Frozen.of_eq {l l' : Ledger} (h : l' = l) : Frozen l l' := h ▸ .refl l

theorem Frozen.trans {l l' l'' : Ledger} (h : Frozen l l') (h' : Frozen l' l'') : Frozen l l'' :=
  ⟨h.1.trans h'.1, fun hfinal => (h'.2 (h.1.final hfinal)).trans (h.2 hfinal)⟩

/-! ## One attempt -/

/-- **A context that has been opened** waits and is sealed: it has learnt of the final record, if
    there is one. -/
theorem Provider.Opened.sealed {timeout : Duration} {settings : List Setting} {w w₀ : World ε}
    {c : Context} (hp : p.InMemory records stamps)
    (h : p.Opened records process key timeout settings w c w₀) : c.Ready w₀ ∧ c.Sealed records w₀ := by
  refine ⟨h.ready, fun hfinal => .inl ?_⟩
  rw [h.process_eq, h.key_eq, h.ledger_eq hp] at hfinal
  exact (h.knows_iff hp).2 hfinal

/-- **Starting** changes no ledger with a final record; and a context that comes of it is one of the
    instance, waits and is sealed. -/
theorem start_frozen {timeout : Duration} {settings : List Setting} {w w' : World ε}
    {o : Outcome (Except Error Context)} (hp : p.InMemory records stamps)
    (h : (p.start process key timeout settings).run w = (o, w')) :
    Frozen (records.ledger process key w) (records.ledger process key w') ∧
      ∀ c, o = .value (.ok c) →
        c.process = process ∧ c.key = key ∧ c.Ready w' ∧ c.Sealed records w' := by
  rcases Provider.start_cases hp h with ⟨hq, ⟨e, rfl⟩, -⟩ | ⟨c, w₀, hopened, hrun⟩
  · exact ⟨.of_eq (hq.ledger process key), fun c h => nomatch h⟩
  · obtain ⟨hheld, hfrozen⟩ := (course_frozen records c).introduce hp w₀ (hopened.sealed hp)
    rw [hrun] at hheld hfrozen
    rw [hopened.process_eq, hopened.key_eq, hopened.ledger_eq hp] at hfrozen
    refine ⟨hfrozen, fun c' hc => ?_⟩
    subst hc
    obtain rfl := Provider.introduce_eq_ok hrun
    exact ⟨hopened.process_eq, hopened.key_eq, hheld⟩

/-- **Running a process** changes no ledger with a final record, whatever its body. -/
theorem runProcess_frozen [EngineFailure β] (process key : String) (timeout : Duration)
    (settings : List Setting) (hp : p.InMemory records stamps) {body : Context → Client ε β (Except β α)}
    (hbody : ∀ c, (body c).Within (Beside Eq records c)) (w : World ε) :
    Frozen (records.ledger process key w) (records.ledger process key
      ((p.runProcess process key timeout settings fun c => (body c).act p.executor c).run w).2) := by
  rw [Provider.run_runProcess]
  cases hstart : (p.start process key timeout settings).run w with
  | mk o w₀ =>
    obtain ⟨hfrozen, hheld⟩ := start_frozen hp hstart
    match o, hheld with
    | .crashed m, _ => exact hfrozen
    | .value (.error e), _ => exact hfrozen
    | .value (.ok c), hheld =>
      obtain ⟨rfl, rfl, hcontext⟩ := hheld c rfl
      have hcourse := course_frozen records c
      have hconducted := hcourse.conduct hp c.process c.key
        (fun c => (body c).act p.executor c) (hcourse.client hp.sound (hbody c)) w₀ hcontext
      exact hfrozen.trans hconducted.2

/-! ## Whole histories -/

/-- **One step**: whatever happens next, an open context is held, and a ledger with a final record
    stays as it is. -/
theorem History.Step.frozen (hp : p.InMemory records stamps) {s t : Moment ε}
    (h : History.Step p records process key s t) (hs : s.Held records process key) :
    t.Held records process key ∧
      Frozen (records.ledger process key s.1) (records.ledger process key t.1) := by
  cases h with
  | opened run =>
    obtain ⟨hfrozen, hheld⟩ := start_frozen hp run
    refine ⟨fun c' hc => ?_, hfrozen⟩
    cases hc
    exact hheld _ rfl
  | refused run refused => exact ⟨fun c hc => (nomatch hc), (start_frozen hp run).1⟩
  | @called β γ _ phase codec body c w w' o within run =>
    obtain ⟨rfl, rfl, hcontext⟩ := hs c rfl
    have hcall := Client.called Ledger.keeping_eq hp.sound within hcontext.1.created run
    obtain ⟨hcontext', hfrozen⟩ := (course_frozen records c).called hcontext hcall
    refine ⟨fun c' hc => ?_, hfrozen⟩
    cases hc
    exact ⟨rfl, rfl, hcontext'⟩
  | @closed c w w' o run =>
    obtain ⟨rfl, rfl, hcontext⟩ := hs c rfl
    have hclosed := (course_frozen records c).close hp w hcontext
    rw [run] at hclosed
    exact ⟨fun c hc => (nomatch hc), hclosed.2⟩
  | @dropped c w w' o run =>
    obtain ⟨rfl, rfl, hcontext⟩ := hs c rfl
    have hdropped := (course_frozen records c).drop hp w hcontext
    rw [run] at hdropped
    exact ⟨fun c hc => (nomatch hc), hdropped.2⟩
  | @processed α β _ timeout settings body w w' o within run =>
    have hfrozen := runProcess_frozen process key timeout settings hp within w
    rw [run] at hfrozen
    exact ⟨fun c hc => (nomatch hc), hfrozen⟩
  | @beside c w w' steps =>
    obtain ⟨rfl, rfl, hcontext⟩ := hs c rfl
    obtain ⟨hcontext', hfrozen⟩ := (course_frozen records c).beside hcontext steps
    refine ⟨fun c' hc => ?_, hfrozen⟩
    cases hc
    exact ⟨rfl, rfl, hcontext'⟩
  | elsewhere same => exact ⟨fun c hc => (nomatch hc), .of_eq same⟩

/-- **A whole history**, by its steps. -/
theorem History.frozen (hp : p.InMemory records stamps) {s t : Moment ε}
    (h : History p records process key s t) (hs : s.Held records process key) :
    t.Held records process key ∧
      Frozen (records.ledger process key s.1) (records.ledger process key t.1) := by
  induction h with
  | refl => exact ⟨hs, .refl _⟩
  | tail history step ih =>
    obtain ⟨ht, hfrozen⟩ := ih
    obtain ⟨hu, hfrozen'⟩ := step.frozen hp ht
    exact ⟨hu, hfrozen.trans hfrozen'⟩

/-- **Final means frozen.**  Let there be a final record at some moment of a history that began
    without an open context.  At every later moment the records of the instance are the same; and a
    call of any phase on the context that is then open comes to the same for every body, and is the
    reading of a record or an error of the engine. -/
theorem final_is_frozen (hp : p.InMemory records stamps) {w : World ε} {s t : Moment ε}
    (earlier : History p records process key (w, none) s)
    (final : (records.ledger process key s.1).Final) (later : History p records process key s t) :
    records.ledger process key t.1 = records.ledger process key s.1 ∧
    ∀ c, t.2 = some c → ∀ {β γ : Type} [EngineFailure β] (phase : Phase) (codec : Codec γ),
      ∃ (answer : Except β γ) (w' : World ε),
        (∀ body : Action ε (Except β γ),
          (p.runPhase c phase codec body).run t.1 = (.value answer, w')) ∧
        ((∃ e, answer = .error (ofError e)) ∨
          ∃ r, records.ledger process key s.1 phase.id = some r ∧
            answer = Context.reread codec r.data) := by
  obtain ⟨hs, -⟩ := earlier.frozen hp fun c hc => nomatch hc
  obtain ⟨ht, hfrozen⟩ := later.frozen hp hs
  have hsame := hfrozen.2 final
  refine ⟨hsame, fun c hc {β γ _} phase codec => ?_⟩
  obtain ⟨rfl, rfl, -, hsealed⟩ := ht c hc
  have hidle : c.recordedFinal ≠ none ∨ (t.1.context c.id).wasFinal = true := hsealed (hsame ▸ final)
  rw [← hsame]
  exact Context.run_idle hp.sound (.inr hidle)

/-! ## An instance that is opened again -/

namespace Desk

/-- Starting the instance. -/
def start : Action Desk (Except Error Context) :=
  observed.start "transfer" "req-42" (.ofSeconds 5) []

/-- Running a phase that yields nothing but its end. -/
def finish (c : Context) (phase : Phase) (body : Client Desk Error (Except Error Unit)) :
    Action Desk (Except Error Unit) :=
  observed.runPhase c phase .unit (body.act observed.executor c)

/-- The first attempt has started. -/
def started : Outcome (Except Error Context) × World Desk := start.run fresh

/-- The context of the first attempt. -/
def attempt : Context := started.1.answer?.getD default

/-- The final phase has been run. -/
def charged : Outcome (Except Error Unit) × World Desk :=
  (finish attempt { id := "charge", isFinal := true } (.done (.ok ()))).run started.2

/-- The attempt is over, and a second one has started. -/
def restarted : Outcome (Except Error Context) × World Desk :=
  start.run ((observed.close attempt).run charged.2).2

/-- The context of the second attempt. -/
def retry : Context := restarted.1.answer?.getD default

end Desk

open Desk in
/-- Once the final phase has been recorded, closing and starting again leave the records as they are, and a further
    phase is refused without running its body. -/
theorem final_is_frozen_restarted :
    (recordsPart.ledger "transfer" "req-42" charged.2).Final ∧
    recordsPart.ledger "transfer" "req-42" restarted.2 =
      recordsPart.ledger "transfer" "req-42" charged.2 ∧
    ∃ (e : Error) (w : World Desk), ∀ body : Action Desk (Except Error Unit),
      (observed.runPhase retry { id := "refund" } .unit body).run restarted.2 = (.value (.error e), w) := by
  have hstarted : (observed.start "transfer" "req-42" (.ofSeconds 5) []).run fresh =
      (.value (.ok attempt), started.2) :=
    Prod.ext (Outcome.answer?_eq_some (by decide +kernel)) rfl
  have hrestarted : (observed.start "transfer" "req-42" (.ofSeconds 5) []).run
      ((observed.close attempt).run charged.2).2 = (.value (.ok retry), restarted.2) :=
    Prod.ext (Outcome.answer?_eq_some (by decide +kernel)) rfl
  have hfinal : (recordsPart.ledger "transfer" "req-42" charged.2).Final :=
    (MemoryStore.findFinal_isSome _ _ _).1 (by decide +kernel)
  have hno : recordsPart.ledger "transfer" "req-42" charged.2 "refund" = none := by decide +kernel
  have earlier : History observed recordsPart "transfer" "req-42" (fresh, none) (charged.2, some attempt) := by
    have hbody : (Client.done (.ok ()) : Client Desk Error (Except Error Unit)).Within
        (Beside Eq recordsPart attempt) := trivial
    exact .tail (.tail (.refl _) (.opened hstarted)) (.called hbody (Prod.eta charged).symm)
  have later : History observed recordsPart "transfer" "req-42" (charged.2, some attempt)
      (restarted.2, some retry) :=
    .tail (.tail (.refl _) (.closed (Prod.eta _).symm)) (.opened hrestarted)
  obtain ⟨hsame, hcalls⟩ := final_is_frozen inMemory_observed earlier hfinal later
  refine ⟨hfinal, hsame, ?_⟩
  obtain ⟨answer, w, hrun, ⟨e, rfl⟩ | ⟨r, hr, -⟩⟩ :=
    hcalls retry rfl (β := Error) { id := "refund" } .unit
  · exact ⟨_, w, hrun⟩
  · rw [hno] at hr
    cases hr

end Idempotence
