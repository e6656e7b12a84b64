/-
  Outcomes of phases — what a call of a phase comes to, whatever its body.

  1. **Exact executors** — what an executor does in a given world is one of two things (`Execution`).
     Either no body runs, and the answer and the world after it are the same for all bodies; or every
     body runs, from one and the same world, and `Finished` says what is made of its end.

  2. **The chain** — the base executor in memory is exact (`MemoryStore.exact_base`), and so is whatever
     the extensions of the library make of it, over sinks that may fail and crash
     (`Interceptor.Stock.exact_wrap`).  A sink gets to act behind a body that has succeeded only, and
     can do no more than spoil it.

  3. **The crux** — a body speaks to its caller past the chain, by what it puts aside.  The chain hands
     that on with whatever it answers, and an error of a body is answered with an error, since it does
     not come from a duplicate record.  So the caller gets the body's own error, and the body's own
     value where that has been recorded (`Finished.quiet_or_recorded`).

  4. **The result** — `phase_contract`: which record a call adds, what the store holds when it answers
     with a value, and what comes of a body that fails.
-/
import Idempotence.Proofs.Extensions

namespace Idempotence

variable {ε α β γ κ : Type} {records : Part ε MemoryStore}

/-! ## Spoilt bodies -/

namespace Spoilt

variable {o o' o'' : Outcome (Except Error String × κ)}

theorem trans (h : Spoilt o o') (h' : Spoilt o' o'') : Spoilt o o'' := by
  cases h with
  | not => exact h'
  | failed data k e =>
    cases h'
    exact .failed ..
  | crashed data k m =>
    cases h'
    exact .crashed ..

/-- A body that has failed is not spoilt any further. -/
theorem eq_of_error {e : Error} {k : κ} (h : Spoilt (.value (.error e, k)) o) : o = .value (.error e, k) := by
  cases h
  rfl

/-- A body that has crashed is not spoilt any further. -/
theorem eq_of_crashed {m : String} (h : Spoilt (.crashed m : Outcome (Except Error String × κ)) o) :
    o = .crashed m := by
  cases h
  rfl

/-- What succeeds has not been spoilt. -/
theorem eq_of_ok {data : String} {k : κ} (h : Spoilt o (.value (.ok data, k))) : o = .value (.ok data, k) := by
  cases h
  rfl

end Spoilt

/-! ## Exact executors -/

section Exact

variable (records : Part ε MemoryStore) (c : Context) (phase : Phase)

/-- **What is made of the end of a body**: it may be spoilt, and is then concluded; but an error that does
    not come from a duplicate record is answered with an error. -/
structure Finished (ended : Outcome (Except Error String × κ) × World ε)
    (result : Outcome (Answer κ) × World ε) : Prop where
  concluded : ∃ o, Spoilt ended.1 o ∧ Concluded records c phase o ended.2 result.1 result.2
  failed : ∀ e k, ended.1 = .value (.error e, k) → e.isDuplicate = false →
    ∃ e', result.1 = .value (.error e', some k)

/-- **What an executor does in a given world.** -/
inductive Execution (x : Executor ε) (κ : Type) (w : World ε) : Prop
  /-- No body runs: a record is replayed, or the phase is refused. -/
  | idle {answer : Except Error PhaseOutput} {w' : World ε}
      (reason : records.ledger c.process c.key w phase.id ≠ none ∨ c.recordedFinal ≠ none)
      (quiet : Alike records w w')
      (replayed : ∀ output, answer = .ok output →
        ∃ r, records.ledger c.process c.key w phase.id = some r ∧ output = .stored r.data)
      (same : ∀ body : Body ε κ, (x.execute c phase body).run w = (.value (answer, none), w'))
  /-- The body runs, whichever it is. -/
  | ran {w₁ : World ε} (free : records.ledger c.process c.key w phase.id = none)
      (fresh : c.recordedFinal = none) (quiet : Alike records w w₁)
      (finished : ∀ body : Body ε κ,
        Finished records c phase (body.run w₁) ((x.execute c phase body).run w))

end Exact

/-- **An exact executor** does one of the two in every world. -/
def Executor.Exact (records : Part ε MemoryStore) (x : Executor ε) : Prop :=
  ∀ (κ : Type) (c : Context) (phase : Phase) (w : World ε), Execution records c phase x κ w

section

variable {c : Context} {phase : Phase}

/-- What is made of the end of a body may be followed by something quiet. -/
theorem Finished.later {ended : Outcome (Except Error String × κ) × World ε}
    {result : Outcome (Answer κ) × World ε} {w : World ε} (h : Finished records c phase ended result)
    (hq : Alike records result.2 w) : Finished records c phase ended (result.1, w) := by
  obtain ⟨o, hspoilt, hconcluded⟩ := h.concluded
  exact ⟨⟨o, hspoilt, hconcluded.later hq⟩, h.failed⟩

/-- The end of a body may be spoilt quietly before anything is made of it. -/
theorem Finished.earlier {ended ended' : Outcome (Except Error String × κ) × World ε}
    {result : Outcome (Answer κ) × World ε} (hspoilt : Spoilt ended.1 ended'.1)
    (hq : Alike records ended.2 ended'.2) (h : Finished records c phase ended' result) :
    Finished records c phase ended result := by
  obtain ⟨o, hspoilt', hconcluded⟩ := h.concluded
  refine ⟨⟨o, hspoilt.trans hspoilt', hconcluded.seasoned (.same o) hq⟩, fun e k he hdup => ?_⟩
  rw [he] at hspoilt
  exact h.failed e k hspoilt.eq_of_error hdup

/-- What is around an exact executor is exact. -/
theorem Executor.Exact.around {x y : Executor ε} (hx : x.Exact records) (h : x.Around records y) :
    y.Exact records := by
  intro κ c phase w
  obtain ⟨w₁, finish, hq, hfinish, hrun⟩ := h κ c phase w
  have hledger := hq.ledger c.process c.key
  cases hx κ c phase w₁ with
  | @idle answer w₂ reason quiet replayed same =>
    exact .idle (hledger ▸ reason) ((hq.trans quiet).trans (hfinish (.value (answer, none), w₂)))
      (hledger ▸ replayed) fun body => by rw [hrun, same]
  | ran free fresh quiet finished =>
    refine .ran (hledger ▸ free) fresh (hq.trans quiet) fun body => ?_
    rw [hrun]
    exact (finished body).later (hfinish _)

end

/-! ## The base executor -/

namespace MemoryStore

variable {stamps : Action ε Instant}

/-- A body's error is answered with itself, if it does not come from a duplicate record. -/
theorem base_fails {c : Context} {phase : Phase} {w w₂ : World ε} {body : Body ε κ} {e : Error} {k : κ}
    (hfree : records.ledger c.process c.key w phase.id = none) (hfresh : c.recordedFinal = none)
    (hbody : body.run w = (.value (.error e, k), w₂)) (hdup : e.isDuplicate = false) :
    ((Executor.base (adapter records stamps)).execute c phase body).run w =
      (.value (.error e, some k), w₂) := by
  have hfree : (records.get w.env).get? ⟨c.process, c.key, phase.id⟩ = none := hfree
  rw [execute_adapter]
  simp [Action.look, hfree, hfresh, hbody, resolve_adapter, hdup]

/-- **The base executor in memory is exact.** -/
theorem exact_base (hstamps : Quiet records stamps) :
    (Executor.base (adapter records stamps)).Exact records := by
  intro κ c phase w
  cases hr : records.ledger c.process c.key w phase.id with
  | some r =>
    obtain ⟨w₁, hquiet, hrun⟩ := base_replays stamps c phase hr
    refine .idle (.inl (by simp [hr])) hquiet (fun output ho => ⟨r, hr, ?_⟩) hrun
    cases ho
    rfl
  | none =>
    cases hf : c.recordedFinal with
    | some final =>
      refine .idle (.inr (by simp [hf])) (.refl w) (fun output ho => ?_) (base_refuses phase hf hr)
      cases ho
    | none =>
      refine .ran hr hf (.refl w) fun body => ⟨⟨_, .not _, ?_⟩, fun e k he hdup => ⟨e, ?_⟩⟩
      · exact concluded_base hstamps c phase hr hf (Prod.eta _) (Prod.eta _)
      · rw [base_fails hr hf (Prod.ext he rfl) hdup]

end MemoryStore

/-! ## The extensions of the library -/

/-- **The extension that publishes** keeps executors exact, whatever its sink answers. -/
theorem Publisher.exact_wrap {sink : Sink ε} (hsink : ∀ messages, (sink.sendAll messages).Steps (Alike records))
    {x : Executor ε} (hx : x.Exact records) : (wrap sink x).Exact records := by
  intro κ c phase w
  obtain ⟨w₁, hq, flush, hrun⟩ := run_wrap records sink x κ c phase w
  have hledger := hq.ledger c.process c.key
  cases hx κ c phase w₁ with
  | idle reason quiet replayed same =>
    exact .idle (hledger ▸ reason) (hq.trans quiet) (hledger ▸ replayed) fun body => by rw [hrun, same]
  | @ran w₂ free fresh quiet finished =>
    refine .ran (hledger ▸ free) fresh (hq.trans quiet) fun body => ?_
    rw [hrun]
    cases flush with
    | true =>
      obtain ⟨hspoilt, hquiet, -⟩ := run_flushing hsink c body w₂
      exact (finished _).earlier hspoilt hquiet
    | false => exact finished body

/-- **The extensions of the library keep executors exact.** -/
theorem Interceptor.Stock.exact_wrap {i : Interceptor ε} (hi : i.Stock (Alike records)) {x : Executor ε}
    (hx : x.Exact records) : (i.wrap x).Exact records := by
  cases hi with
  | recording r log unnoticed => exact hx.around (r.around_wrap (fun _ => .change fun w => unnoticed w _) x)
  | counting part unnoticed => exact hx.around (Stats.around_wrap (fun _ => .change fun w => unnoticed w _) x)
  | monitoring => exact hx.around (Monitoring.around_wrap x)
  | publishing sink unnoticed => exact Publisher.exact_wrap unnoticed hx

/-! ## One call -/

namespace Context

variable [EngineFailure β]

/-- What the caller gets from the end of the chain. -/
def returned (codec : Codec γ) : Outcome (Answer (Option (Except β γ))) → Outcome (Except β γ)
  | .value (answer, aside) => .value (settle codec answer aside.join)
  | .crashed m => .crashed m

section

variable (records : Part ε MemoryStore) (c : Context) (phase : Phase) (codec : Codec γ)

/-- **What a call has to keep to** when its body runs: `chain` is the end of the chain of executors,
    `ended` how and where the body ended, and `result` what the caller gets and where. -/
structure Kept (chain : Outcome (Answer (Option (Except β γ)))) (ended result : Outcome (Except β γ) × World ε) :
    Prop where
  /-- No record is added but one, which is the call's own and comes of an output of its own body. -/
  added : records.get result.2.env = records.get ended.2.env ∨
    (∃ data aside, chain = .value (.ok (.executed data), aside)) ∧ ∃ r, r.isFinal = phase.isFinal ∧
      (records.get ended.2.env).get? ⟨c.process, c.key, phase.id⟩ = none ∧
      records.get result.2.env = (records.get ended.2.env).insert ⟨c.process, c.key, phase.id⟩ r
  /-- A value is what a record says that is there. -/
  value : ∀ v, result.1 = .value (.ok v) →
    ∃ r, (records.get result.2.env).get? ⟨c.process, c.key, phase.id⟩ = some r ∧
      (codec.encode v = .ok r.data ∨ codec.decode r.data = .ok v)
  /-- Without a value no record is added. -/
  failure : (∀ v, result.1 ≠ .value (.ok v)) → records.get result.2.env = records.get ended.2.env
  /-- An error of the body is what the caller gets. -/
  bodyError : ∀ e, ended.1 = .value (.error e) → result.1 = .value (.error e)
  /-- A crash of the body is a crash of the call. -/
  bodyCrash : ∀ m, ended.1 = .crashed m → result.1 = .crashed m

variable (β) in
/-- **What a call comes to** in a given world: no body runs, or every body does, whichever it is. -/
inductive Settles (x : Executor ε) (w : World ε) : Prop
  /-- The phase is refused, or there is a record, or a final phase is known to be recorded. -/
  | idle {answer : Except β γ} {w' : World ε}
      (reason : (∃ e, c.permit phase w = .error e) ∨
        records.ledger c.process c.key w phase.id ≠ none ∨ c.recordedFinal ≠ none)
      (same : ∀ body, (c.run x phase codec body).run w = (.value answer, w'))
      (kept : records.get w'.env = records.get w.env)
      (read : ∀ v, answer = .ok v → ∃ r,
        (records.get w'.env).get? ⟨c.process, c.key, phase.id⟩ = some r ∧ codec.decode r.data = .ok v)
  | ran {s : ContextState} {w₁ : World ε} (permit : c.permit phase w = .ok s)
      (free : records.ledger c.process c.key w phase.id = none) (fresh : c.recordedFinal = none)
      (quiet : Alike records (w.modifyContext c.id fun _ => s) w₁)
      (kept : ∀ body : Action ε (Except β γ), Kept records c phase codec
        ((x.execute c phase (erase phase codec body)).run (w.modifyContext c.id fun _ => s)).1
        (body.run w₁) ((c.run x phase codec body).run w))

end

variable {c : Context} {phase : Phase} {codec : Codec γ}

/-- **What is made of an erased body**: nothing is recorded, and a value is read from a record that is
    there; or the value of the body is recorded, and returned. -/
theorem quiet_or_recorded {ended : Outcome (Except β γ) × World ε}
    {result : Outcome (Answer (Option (Except β γ))) × World ε}
    (h : Finished records c phase (erased phase codec ended.1, ended.2) result) :
    (Alike records ended.2 result.2 ∧ ∀ v, returned codec result.1 = .value (.ok v) →
      ∃ r, records.ledger c.process c.key ended.2 phase.id = some r ∧ codec.decode r.data = .ok v) ∨
    ∃ v r, ended.1 = .value (.ok v) ∧ codec.encode v = .ok r.data ∧ r.isFinal = phase.isFinal ∧
      records.ledger c.process c.key ended.2 phase.id = none ∧
      Alike records (records.store ⟨c.process, c.key, phase.id⟩ r ended.2) result.2 ∧
      result.1 = .value (.ok (.executed r.data), some (some (.ok v))) := by
  obtain ⟨answer, w'⟩ := result
  obtain ⟨o, hspoilt, hconcluded⟩ := h.concluded
  cases hconcluded with
  | crashed quiet => exact .inl ⟨quiet, fun _ hv => nomatch hv⟩
  | failed quiet => exact .inl ⟨quiet, fun v hv => absurd (Outcome.value.inj hv) (settle_error codec _ _ v)⟩
  | @raced _ k r _ _ there quiet =>
    refine .inl ⟨quiet, fun v hv => ⟨r, there, reread_eq_ok (β := β) ?_⟩⟩
    exact (settle_replayed codec (.concurrent r.data) rfl _).symm.trans (Outcome.value.inj hv)
  | @recorded k r _ _ free final quiet =>
    obtain ⟨v, hv, hencode, rfl⟩ := erased_eq_ok hspoilt.eq_of_ok
    exact .inr ⟨v, r, hv, hencode, final, free, quiet, rfl⟩

/-- **A call keeps to the contract** once its body has been finished. -/
theorem kept_of_finished {ended : Outcome (Except β γ) × World ε}
    {result : Outcome (Answer (Option (Except β γ))) × World ε}
    (h : Finished records c phase (erased phase codec ended.1, ended.2) result) :
    Kept records c phase codec result.1 ended
      (returned codec result.1, result.2.modifyContext c.id (·.leave phase)) := by
  -- The body's error is put aside, and what executors get to see for it is no duplicate record.
  have hbodyError : ∀ e, ended.1 = .value (.error e) → returned codec result.1 = .value (.error e) := by
    intro e he
    obtain ⟨e', he'⟩ := h.failed (.phaseBody phase.id) (some (.error e)) (by rw [he]; rfl) rfl
    rw [he']
    rfl
  have hbodyCrash : ∀ m, ended.1 = .crashed m → returned codec result.1 = .crashed m := by
    intro m hm
    obtain ⟨answer, w'⟩ := result
    obtain ⟨o, hspoilt, hconcluded⟩ := h.concluded
    rw [hm] at hspoilt
    obtain rfl := hspoilt.eq_of_crashed
    cases hconcluded
    rfl
  rcases quiet_or_recorded h with ⟨hquiet, hread⟩ | ⟨v, r, hv, hencode, hfinal, hfree, hquiet, hanswer⟩
  · exact
      { added := .inl hquiet.records
        value := fun v hv => by
          obtain ⟨r, hr, hdecode⟩ := hread v hv
          rw [← hquiet.ledger] at hr
          exact ⟨r, hr, .inr hdecode⟩
        failure := fun _ => hquiet.records
        bodyError := hbodyError
        bodyCrash := hbodyCrash }
  · have hrecords : records.get result.2.env =
        (records.get ended.2.env).insert ⟨c.process, c.key, phase.id⟩ r :=
      hquiet.records.trans (records.get_set _ _)
    have hreturned : returned codec result.1 = .value (.ok v) := by
      rw [hanswer]
      rfl
    exact
      { added := .inr ⟨⟨_, _, hanswer⟩, r, hfinal, hfree, hrecords⟩
        value := fun u hu => by
          cases hreturned.symm.trans hu
          refine ⟨r, ?_, .inl hencode⟩
          show (records.get result.2.env).get? _ = some r
          rw [hrecords, Table.get?_insert, if_pos rfl]
        failure := fun hno => absurd hreturned (hno v)
        bodyError := hbodyError
        bodyCrash := hbodyCrash }

/-- **A call through an exact executor** settles. -/
theorem settles {x : Executor ε} (hx : x.Exact records) (c : Context) (phase : Phase) (codec : Codec γ)
    (w : World ε) : Settles β records c phase codec x w := by
  cases hpermit : c.permit phase w with
  | error e =>
    exact .idle (.inl ⟨e, hpermit⟩) (fun body => run_refused x codec body hpermit) rfl fun _ hv => nomatch hv
  | ok s =>
    cases hx (Option (Except β γ)) c phase (w.modifyContext c.id fun _ => s) with
    | @idle answer w₁ reason quiet replayed same =>
      have hcall : ∀ body : Action ε (Except β γ), (c.run x phase codec body).run w =
          (.value (settle codec answer none), w₁.modifyContext c.id (·.leave phase)) := by
        intro body
        rw [run_permitted x codec body hpermit, same]
        rfl
      refine .idle (.inr reason) hcall quiet.records fun v hv => ?_
      cases answer with
      | error e => exact absurd hv (settle_error codec e _ v)
      | ok output =>
        obtain ⟨r, hr, rfl⟩ := replayed output rfl
        rw [← quiet.ledger] at hr
        exact ⟨r, hr, reread_eq_ok hv⟩
    | ran free fresh quiet finished =>
      refine .ran hpermit free fresh quiet fun body => ?_
      have hfinished := finished (erase phase codec body)
      rw [run_erase] at hfinished
      rw [run_permitted x codec body hpermit]
      exact kept_of_finished hfinished

end Context

/-- **The contract of a call**, through the whole chain of a provider with a store in memory and
    extensions of the library: from every state of the context, for every phase, and for every body. -/
theorem Provider.phase_contract [EngineFailure β] {p : Provider ε} {stamps : Action ε Instant}
    (hstore : p.store = MemoryStore.adapter records stamps) (hstamps : Quiet records stamps)
    (hstock : ∀ i ∈ p.interceptors, i.Stock (Alike records)) (c : Context) (phase : Phase)
    (codec : Codec γ) (w : World ε) : c.Settles β records phase codec p.executor w := by
  have hexact : p.executor.Exact records := by
    refine Executor.compose_induction ?_ fun i hi x hx => (hstock i hi).exact_wrap hx
    rw [hstore]
    exact MemoryStore.exact_base hstamps
  exact Context.settles hexact c phase codec w

/-! ### A message that cannot be sent -/

namespace Desk

/-- A sink that is down. -/
def down : Sink Desk where
  send _ := pure (.error (.sink "down"))
  sendAll _ := pure (.error (.sink "down"))

/-- A provider that traces, counts and publishes to that sink. -/
def unsent : Provider Desk :=
  provider [Monitoring.interceptor, Stats.interceptor statsPart, Publisher.interceptor down]

theorem stock_unsent : ∀ i ∈ unsent.interceptors, i.Stock (Alike recordsPart) := by
  intro i hi
  simp only [unsent, provider, List.mem_cons, List.not_mem_nil, or_false] at hi
  rcases hi with rfl | rfl | rfl
  · exact .monitoring
  · exact .counting _ fun _ _ => ⟨rfl, rfl, fun _ => rfl⟩
  · exact .publishing _ fun _ => .pure _

/-- An attempt. -/
def sender : Context := { id := 0, process := "p", key := "k", settings := [], recordedFinal := none }

/-- The attempt has just begun. -/
def untouched : World Desk where
  contexts := [{}]
  env := {}

/-- A message of the attempt waits for the end of the current phase. -/
def waiting : World Desk where
  contexts :=
    [{ properties := ((default : Properties).set Publisher.binding .atEndOfCurrentPhase).set Publisher.queue
        [{ topic := "t", key := "m", payload := none }] }]
  env := {}

/-- The body succeeds.  While a message waits, that cannot be sent: the call fails, and nothing is recorded.  At the
    beginning none does: the chain answers that it has executed the body, the call returns the value, and the text
    is recorded. -/
theorem phase_contract_unsent :
    (∀ i ∈ unsent.interceptors, i.Stock (Alike recordsPart)) ∧
      (sender.Settles Error recordsPart { id := "a" } Codec.unit unsent.executor waiting ∧
        ∃ w, (unsent.runPhase sender { id := "a" } .unit (pure (.ok ()))).run waiting =
          (.value (.error (Error.publish (.sink "down"))), w) ∧ w.env.records = Table.empty) ∧
      sender.Settles Error recordsPart { id := "a" } Codec.unit unsent.executor untouched ∧
        (∃ w, (unsent.executor.execute sender { id := "a" } (Context.erase (β := Error) { id := "a" } .unit
          (pure (.ok ())))).run untouched = (.value (.ok (.executed "null"), some (some (.ok ()))), w)) ∧
        ∃ w, (unsent.runPhase (β := Error) sender { id := "a" } .unit (pure (.ok ()))).run untouched =
          (.value (.ok ()), w) ∧ w.env.records.get? ⟨"p", "k", "a"⟩ = some ⟨"null", false, .epoch⟩ := by
  refine ⟨stock_unsent, ⟨?_, _, rfl, rfl⟩, ?_, ⟨_, rfl⟩, _, rfl, rfl⟩
  · exact Provider.phase_contract rfl (.pure _) stock_unsent sender { id := "a" } .unit waiting
  · exact Provider.phase_contract rfl (.pure _) stock_unsent sender { id := "a" } .unit untouched

end Desk

end Idempotence
