/-
  Debts to the counters — what a provider owes its counters, and when.

  1. **Beside the books** — what changes nothing of the facts may be done at any time.

  2. **Stores that count** — the end of a transaction adds the one record that was inserted, or none
     (`StoreAdapter.CountsBy`); records in memory are such a store.  Over it the base executor makes a record
     if and only if it says to have executed (`leads_base`).

  3. **Executions** — an execution that reaches the counters owes a phase until it comes back, and is left
     owing nothing if it crashes, as the body that crashed is in the tally
     (`Provider.Counted.leads_executor`).

  4. **Closing and starting** — a context that is being closed is owed until its closing hook has counted it,
     and one that is being started is accounted for as far as it is known.  So all that a provider does leaves
     the facts settled where they have been (`settles_start`, `settles_runPhase`, `settles_close`,
     `settles_drop`, `settles_runProcess`).
-/
import Idempotence.Proofs.BodyRecords
import Idempotence.Proofs.CounterFacts
import Idempotence.Provider
import Idempotence.Testing.Winner

namespace Idempotence

variable {σ ε α β γ κ : Type}

open Fixture

/-! ## Beside the books -/

namespace Books

variable (B : Books ε)

/-- **An idle action** answers, with a `Q`, and leaves the facts as they are. -/
def Idle (Q : α → Prop) (a : Action ε α) : Prop :=
  ∀ f, a.Brings (fun w => B.facts w = f) (fun r w => Q r ∧ B.facts w = f) fun _ => False

variable {B} {X : Facts → Prop} {C : World ε → Prop}

theorem Idle.brings {Q : α → Prop} {a : Action ε α} (ha : B.Idle Q a) :
    a.Brings (B.At X) (fun r w => Q r ∧ B.At X w) C := by
  intro w hw
  have hrun := ha (B.facts w) w rfl
  revert hrun
  rcases a.run w with ⟨o, w'⟩
  cases o with
  | value r =>
    intro h
    refine ⟨h.1, ?_⟩
    rw [At, h.2]
    exact hw
  | crashed m => exact False.elim

/-- What is done beside the books. -/
theorem brings_aside {a : Action ε α} (ha : a.Steps B.Same) :
    a.Brings (B.At X) (fun _ => B.At X) (B.At X) := by
  refine .of_steps ha fun w w' hsame hX => ?_
  rw [At, hsame]
  exact hX

theorem brings_change {f : World ε → World ε} (hf : ∀ w, B.Same w (f w)) :
    (Process.change f).Brings (B.At X) (fun _ => B.At X) C := by
  refine .change fun w hX => ?_
  rw [At, hf]
  exact hX

theorem brings_tell (e : Event) : (Action.tell e : Action ε Unit).Brings (B.At X) (fun _ => B.At X) C :=
  brings_change fun _ => rfl

/-- A change of the counters. -/
theorem brings_stats {Y : Facts → Prop} {f : Stats → Stats} (h : ∀ g, X g → Y { g with stats := f g.stats }) :
    (Action.change B.stats f).Brings (B.At X) (fun _ => B.At Y) C := by
  refine .change fun w hX => ?_
  rw [At, B.facts_stats]
  exact h _ hX

end Books

/-! ## Stores that count -/

section

variable (store : StoreAdapter ε) (B : Books ε)

/-- **A store that counts**, if this says how many inserts wait in a transaction: looking and inserting
    leave the facts alone, and so does a transaction that fails, as it must if its body has; and the end of
    one with a single insert adds a single record. -/
structure StoreAdapter.CountsBy (waiting : store.Txn → Nat → Prop) : Prop where
  get : ∀ key, B.Idle (fun _ => True) (store.get key)
  begin : B.Idle (fun answer => ∀ txn?, answer = .ok txn? → ∃ txn, txn? = some txn ∧ waiting txn 0) store.begin
  insert : ∀ key data isFinal txn, waiting txn 0 →
    B.Idle (fun r => r.1 = .ok () → waiting r.2 1) ((store.insert key data isFinal).run txn)
  fail : ∀ txn e, B.Idle (fun answer => ∃ e', answer = .error e') (store.conclude txn (.error e))
  commit : ∀ txn, waiting txn 1 → ∀ f, (store.conclude txn (.ok ())).Brings (fun w => B.facts w = f)
    (fun answer w => B.facts w = match answer with | .ok () => f.recorded | .error _ => f) fun _ => False

/-- **A store that counts.** -/
def StoreAdapter.Counts : Prop := ∃ waiting, store.CountsBy B waiting

end

/-- **Where an executor leads**, for bodies that stay in `D` or crash to `C`. -/
structure Executor.Leads (B : Books ε) (D P : Facts → Prop) (Q : Except Error PhaseOutput → Facts → Prop)
    (C : Facts → Prop) (x : Executor ε) : Prop where
  execute : ∀ {κ : Type} (c : Context) (phase : Phase) {body : Body ε κ},
    body.Brings (B.At D) (fun _ => B.At D) (B.At C) →
    (x.execute c phase body).Brings (B.At P) (fun r => B.At (Q r.1)) (B.At C)

namespace StoreAdapter.CountsBy

variable {store : StoreAdapter ε} {B : Books ε} {waiting : store.Txn → Nat → Prop}
  {D R C : Facts → Prop}

/-- The one insert of a transaction and its end. -/
theorem brings_concluding (h : store.CountsBy B waiting) (hR : ∀ f, D f → R f.recorded) (key : RecordKey)
    (data : String) (isFinal : Bool) {txn : store.Txn} (htxn : waiting txn 0) (k : κ)
    (verdict : Except StoreError Unit → Except Error Unit → Except Error String)
    (hgood : verdict (.ok ()) (.ok ()) = .ok data) (hbad : ∀ answer e, verdict answer (.error e) = .error e) :
    (do
      let (answer, txn) ← (store.insert key data isFinal).run txn
      let result ← store.conclude txn (answer.mapError .store)
      return (verdict answer result, some k) : Action ε (Except Error String × Option κ)).Brings (B.At D)
      (fun r => B.At (match r.1 with | .ok _ => R | .error _ => D)) (B.At C) := by
  refine (h.insert key data isFinal txn htxn).brings.bind fun inserted => .knowing fun hinserted => ?_
  obtain ⟨answer, txn⟩ := inserted
  cases answer with
  | error e =>
    refine (h.fail txn (.store e)).brings.bind fun result => .knowing fun hresult => ?_
    obtain ⟨e', rfl⟩ := hresult
    rw [hbad]
    exact .done fun _ hw => hw
  | ok u =>
    have hcommit : (store.conclude txn (.ok ())).Brings (B.At D)
        (fun result => B.At (match result with | .ok () => R | .error _ => D)) (B.At C) := by
      intro w hw
      have hrun := h.commit txn (hinserted rfl) (B.facts w) w rfl
      revert hrun
      rcases (store.conclude txn (.ok ())).run w with ⟨o, w'⟩
      cases o with
      | crashed m => exact False.elim
      | value result =>
        cases result with
        | error e =>
          intro hsame
          show D (B.facts w')
          rw [hsame]
          exact hw
        | ok u =>
          intro hmore
          show R (B.facts w')
          rw [hmore]
          exact hR _ hw
    refine Process.Brings.bind hcommit fun result => ?_
    cases result with
    | error e =>
      rw [hbad]
      exact .done fun _ hw => hw
    | ok u =>
      rw [hgood]
      exact .done fun _ hw => hw

/-- **Recording** makes a record if it answers well, and none otherwise. -/
theorem brings_runAndRecord (h : store.CountsBy B waiting) (hR : ∀ f, D f → R f.recorded) (key : RecordKey)
    (phase : Phase) {body : Body ε κ} (hbody : body.Brings (B.At D) (fun _ => B.At D) (B.At C)) :
    (Executor.runAndRecord store key phase body).Brings (B.At D)
      (fun r => B.At (match r.1 with | .ok _ => R | .error _ => D)) (B.At C) := by
  have hdone : ∀ (e : Error) (k : Option κ),
      (pure (.error e, k) : Action ε (Except Error String × Option κ)).Brings (B.At D)
        (fun r => B.At (match r.1 with | .ok _ => R | .error _ => D)) (B.At C) :=
    fun e k => .done fun _ hw => hw
  cases hmode : phase.transactional with
  | true =>
    rw [Executor.runAndRecord_transactional store key body hmode]
    refine h.begin.brings.bind fun begun => .knowing fun hbegun => ?_
    cases begun with
    | error e => exact hdone e none
    | ok txn? =>
      obtain ⟨txn, rfl, htxn⟩ := hbegun _ rfl
      refine Process.Brings.bind hbody fun answer => ?_
      obtain ⟨text, k⟩ := answer
      cases text with
      | error e =>
        refine (h.fail txn e).brings.bind fun result => .knowing fun hresult => ?_
        obtain ⟨e', rfl⟩ := hresult
        exact hdone e' (some k)
      | ok data =>
        have hbad : ∀ answer e, Executor.verdict data answer (.error e) = .error e := by
          intro answer e
          cases answer <;> rfl
        exact h.brings_concluding hR key data phase.isFinal htxn k (Executor.verdict data) rfl hbad
  | false =>
    rw [Executor.runAndRecord_plain store key body hmode]
    refine Process.Brings.bind hbody fun answer => ?_
    obtain ⟨text, k⟩ := answer
    cases text with
    | error e => exact hdone e (some k)
    | ok data =>
      refine h.begin.brings.bind fun begun => .knowing fun hbegun => ?_
      cases begun with
      | error e => exact hdone e (some k)
      | ok txn? =>
        obtain ⟨txn, rfl, htxn⟩ := hbegun _ rfl
        exact h.brings_concluding hR key data phase.isFinal htxn k (fun _ result => result.map fun _ => data)
          rfl fun _ _ => rfl

/-- **The base executor** makes a record if it has executed, and none otherwise. -/
theorem leads_base (h : store.CountsBy B waiting) (hR : ∀ f, D f → R f.recorded) :
    (Executor.base store).Leads B D D (Facts.afterwards D R) C := by
  have hresolve : ∀ key phase e, (Executor.resolve store key phase e).Brings (B.At D)
      (fun r => B.At (Facts.afterwards D R r)) (B.At C) := by
    intro key phase e
    unfold Executor.resolve
    split
    · refine (h.get key).brings.bind fun found => .knowing fun _ => ?_
      split
      · exact .done fun _ hw => hw
      · exact .done fun _ hw => hw
      · exact (Books.brings_tell _).bind fun _ => .done fun _ hw => hw
    · exact .done fun _ hw => hw
  refine ⟨fun c phase body hbody => ?_⟩
  refine (h.get _).brings.bind fun found => .knowing fun _ => ?_
  split
  · exact .done fun _ hw => hw
  · exact (Books.brings_tell _).bind fun _ => .done fun _ hw => hw
  · split
    · exact .done fun _ hw => hw
    · refine (h.brings_runAndRecord hR _ phase hbody).bind fun answer => ?_
      obtain ⟨text, k⟩ := answer
      cases text with
      | ok data => exact .done fun _ hw => hw
      | error e => exact (hresolve _ phase e).bind fun _ => .done fun _ hw => hw

end StoreAdapter.CountsBy

/-! ### Such stores -/

namespace Table

variable {κ α : Type} [Ord κ] [Std.TransOrd κ] [Std.LawfulEqOrd κ] [DecidableEq κ]

omit [Std.TransOrd κ] in
theorem length_place {k : κ} {l : List (κ × α)} (h : lookup k l = none) (a : α) :
    (place k a l).length = l.length + 1 := by
  induction l with
  | nil => rfl
  | cons x rest ih =>
    obtain ⟨j, b⟩ := x
    have hj : k ≠ j := by
      rintro rfl
      simp [lookup] at h
    rw [lookup, if_neg hj] at h
    rw [place]
    split <;> rename_i hc
    · rfl
    · exact absurd (Std.LawfulEqCmp.eq_of_compare hc) hj
    · simp only [List.length_cons, ih h]

/-- A new key makes a table larger by one. -/
theorem size_insert {t : Table κ α} {k : κ} (h : t.get? k = none) (a : α) :
    (t.insert k a).size = t.size + 1 := length_place h a

end Table

section

variable {B : Books ε}

/-- **Records in memory** are counted as they are. -/
theorem MemoryStore.counts_adapter {records : Part ε MemoryStore} {stamps : Action ε Instant}
    (hcount : ∀ e, B.count e = (records.get e).size) (hstats : records.Commute B.stats)
    (htally : records.Commute B.tally) (hstamps : B.Idle (fun _ => True) stamps) :
    (MemoryStore.adapter records stamps).Counts B := by
  refine ⟨fun pending n => List.length pending = n, ?_⟩
  have hlook : ∀ {β : Type} (f : MemoryStore → β), B.Idle (fun _ => True) (Action.look records f) :=
    fun f _ => .look fun w hw => ⟨trivial, hw⟩
  refine {
    get := fun key => ?_
    begin := fun f => .done fun w hw => ⟨?_, hw⟩
    insert := fun key data isFinal pending hpending => ?_
    fail := fun pending e f => .done fun w hw => ⟨⟨e, rfl⟩, hw⟩
    commit := fun pending hpending f => ?_ }
  · dsimp only [adapter]
    exact hlook _
  · rintro txn? ⟨⟩
    exact ⟨[], rfl, rfl⟩
  · obtain rfl := List.eq_nil_of_length_eq_zero hpending
    refine fun f => Process.Brings.bind (hlook (·.contains key) f) fun taken => .knowing fun _ => ?_
    cases taken with
    | true => exact .done fun w hw => ⟨fun h => (by cases h), hw⟩
    | false => exact (hstamps f).bind fun createdAt => .done fun w hw => ⟨fun _ => rfl, hw.2⟩
  · obtain ⟨⟨key, r⟩, rfl⟩ := List.length_eq_one_iff.1 hpending
    refine .atomically fun w hw => ?_
    have hfacts : ∀ s, B.facts { w with env := records.set s w.env } = { f with records := s.size } := by
      intro s
      rw [← hw]
      simp only [Books.facts, hstats.symm.get_set, htally.symm.get_set, hcount, records.get_set]
    have hrecords : f.records = (records.get w.env).size := by rw [← hw, Books.facts, hcount]
    cases hfree : (records.get w.env).get? key with
    | some r' =>
      rw [commit_taken hfree]
      show B.facts { w with env := records.set (records.get w.env) w.env } = f
      rw [hfacts, ← hrecords]
    | none =>
      rw [commit_free hfree]
      show B.facts { w with env := records.set _ w.env } = f.recorded
      rw [hfacts, Table.size_insert hfree, ← hrecords]
      rfl

/-- **Where somebody else always comes first** nothing is recorded. -/
theorem WinnerStore.counts_adapter (data : String) {calls : Part ε WinnerCalls} {clock : Action ε Instant}
    (hcount : ∀ c e, B.count (calls.set c e) = B.count e) (hstats : calls.Commute B.stats)
    (htally : calls.Commute B.tally) (hclock : B.Idle (fun _ => True) clock) :
    (WinnerStore.adapter data calls clock).Counts B := by
  have hcalls : ∀ c (w : World ε), B.Same w { w with env := calls.set c w.env } := by
    intro c w
    simp only [Books.Same, Books.facts, hstats.symm.get_set, htally.symm.get_set, hcount]
  -- No insert goes well, so there is never one that waits.
  refine ⟨fun _ n => n = 0, ?_⟩
  refine {
    get := fun key f => ?_
    begin := fun f => .done fun w hw => ⟨?_, hw⟩
    insert := fun key data isFinal txn _ f => ?_
    fail := fun txn e f => .done fun w hw => ⟨⟨e, rfl⟩, hw⟩
    commit := fun txn h => absurd h Nat.one_ne_zero }
  · have hread : B.Idle (fun _ => True) (Action.on calls (countRead key)) :=
      fun f => .atomically fun w hw => ⟨trivial, (hcalls _ w).trans hw⟩
    refine (hread f).bind fun before => .knowing fun _ => ?_
    cases before with
    | true => exact (hclock f).bind fun _ => .done fun w hw => hw
    | false => exact .done fun w hw => ⟨trivial, hw⟩
  · rintro txn? ⟨⟩
    exact ⟨(), rfl, rfl⟩
  · have hinsert : (Action.change calls fun c => { c with inserts := c.inserts + 1 } : Action ε Unit).Brings
        (fun w => B.facts w = f) (fun _ w => B.facts w = f) fun _ => False :=
      .change fun w hw => (hcalls _ w).trans hw
    exact hinsert.bind fun _ => .done fun w hw => ⟨fun h => (by cases h), hw⟩

end

/-! ## Executions -/

namespace Executor.Leads

variable {B : Books ε} {D P C : Facts → Prop} {Q : Except Error PhaseOutput → Facts → Prop} {x : Executor ε}

/-- Those who record lead where the rest does. -/
theorem recorders (h : x.Leads B D P Q C) (l : List Recorder) :
    (x.compose ((l.map recording).map (·.interceptor B))).Leads B D P Q C := by
  induction l with
  | nil => exact h
  | cons r l ih =>
    exact ⟨fun c phase body hbody => (Books.brings_change fun w => B.same_log _ w).bind fun _ =>
      ih.execute c phase hbody⟩

/-- **The one who counts** owes a phase from before the rest executes it until afterwards. -/
theorem counted {fixtures : List Fixture} {base running : Nat}
    (h : x.Leads B D (Facts.Settled fixtures base running { phases := 1 })
      (Facts.afterwards (Facts.Settled fixtures base running { phases := 1 })
        (Facts.Settled fixtures base running { phases := 1, records := 1 })) C) :
    (Stats.wrap B.stats x).Leads B D (Facts.Settled fixtures base running {})
      (fun _ => Facts.Settled fixtures base running {}) C := by
  refine ⟨fun c phase body hbody => ?_⟩
  refine (Books.brings_stats fun _ hf => hf.begun).bind fun _ => (h.execute c phase hbody).bind fun answer => ?_
  exact (Books.brings_stats fun _ hf => Facts.Settled.counted hf).bind fun _ => .done fun _ hw => hw

end Executor.Leads

/-- **What leaves all as it should be**, however it ends. -/
abbrev Books.Settles (B : Books ε) (fixtures : List Fixture) (base running : Nat) (a : Action ε α) : Prop :=
  a.Brings (B.At (Facts.Settled fixtures base running {})) (fun _ => B.At (Facts.Settled fixtures base running {}))
    (B.At (Facts.Settled fixtures base running {}))

/-- **What a body has to do** while its phase is owed: it leaves that as it is, unless it crashes; then
    nothing must be owed any more. -/
abbrev Books.Pays (B : Books ε) (fixtures : List Fixture) (base running : Nat) (body : Action ε α) : Prop :=
  body.Brings (B.At (Facts.Settled fixtures base running { phases := 1 }))
    (fun _ => B.At (Facts.Settled fixtures base running { phases := 1 }))
    (B.At (Facts.Settled fixtures base running {}))

/-! ## Providers that are counted -/

/-- **A provider of which account is kept**: its extensions are these, of which one counts and the others
    record; its store counts; and its locks and its clock have nothing to do with the books. -/
structure Provider.Counted (p : Provider ε) (B : Books ε) (fixtures : List Fixture) : Prop where
  interceptors : p.interceptors = fixtures.map (·.interceptor B)
  once : ∃ before after : List Recorder, fixtures = before.map recording ++ counting :: after.map recording
  store : p.store.Counts B
  findFinal : ∀ process key, (p.store.findFinal process key).Steps B.Same
  clock : p.clock.Steps B.Same
  obtain : ∀ key timeout now, (p.locks.obtain key timeout now).Steps B.Same
  release : ∀ handle, (p.locks.release handle).Steps B.Same

namespace Provider.Counted

variable {p : Provider ε} {B : Books ε} {fixtures : List Fixture} (hp : p.Counted B fixtures)
  {base running : Nat} {C : World ε → Prop}
include hp

/-- **An execution** leaves all as it should be, however it ends, if its body does so when a phase is
    owed, and owes nothing any more when it crashes. -/
theorem leads_executor : p.executor.Leads B (Facts.Settled fixtures base running { phases := 1 })
    (Facts.Settled fixtures base running {}) (fun _ => Facts.Settled fixtures base running {})
    (Facts.Settled fixtures base running {}) := by
  obtain ⟨before, after, hfixtures⟩ := hp.once
  obtain ⟨waiting, hstore⟩ := hp.store
  have hchain : p.executor = ((Stats.wrap B.stats
      ((Executor.base p.store).compose ((after.map recording).map (·.interceptor B)))).compose
        ((before.map recording).map (·.interceptor B))) := by
    simp only [Provider.executor, hp.interceptors, hfixtures, List.map_append, List.map_cons, Executor.compose,
      List.foldr_append, List.foldr_cons]
    rfl
  have hbase : (Executor.base p.store).Leads B (Facts.Settled fixtures base running { phases := 1 })
      (Facts.Settled fixtures base running { phases := 1 })
      (Facts.afterwards (Facts.Settled fixtures base running { phases := 1 })
        (Facts.Settled fixtures base running { phases := 1, records := 1 }))
      (Facts.Settled fixtures base running {}) := hstore.leads_base fun _ => Facts.Settled.recorded
  rw [hchain]
  exact (hbase.recorders after).counted.recorders before

/-! ### Phases -/

/-- **A call of a phase** settles what it counts. -/
theorem settles_runPhase [EngineFailure β] (c : Context) (phase : Phase) (codec : Codec γ)
    {body : Action ε (Except β γ)} (hbody : B.Pays fixtures base running body) :
    B.Settles fixtures base running (p.runPhase c phase codec body) := by
  have herase : B.Pays fixtures base running (Context.erase phase codec body) := by
    refine Process.Brings.bind hbody fun answer => ?_
    cases answer with
    | error failure => exact .done fun _ hw => hw
    | ok a =>
      dsimp only
      split <;> exact .done fun _ hw => hw
  have henter : (c.enter phase : Action ε (Except Error Unit)).Steps B.Same := by
    refine .atomically fun w => ?_
    split
    · rfl
    · next s hs =>
      refine B.same_modifyContext ?_
      rw [(ContextState.enter_eq_ok hs).2.2.2]
      rfl
  have hleave : (c.leave phase : Action ε Unit).Steps B.Same := .change fun w => B.same_modifyContext rfl
  unfold Provider.runPhase Context.run
  split
  · exact .done fun _ hw => hw
  · refine (Books.brings_aside henter).bind fun entered => ?_
    cases entered with
    | error e => exact .done fun _ hw => hw
    | ok u =>
      have hexecution := (hp.leads_executor.execute c phase herase).onExit (fun _ => Books.brings_aside hleave)
        (Books.brings_aside hleave)
      exact hexecution.bind fun _ => .done fun _ hw => hw

/-! ### Closing -/

omit hp in
/-- **The closing hooks** count a context off as far as it had been counted. -/
theorem brings_runClosed (x : Executor ε) (c : Context) (l : List Fixture) :
    (Provider.runClosed x c (l.map (·.interceptor B))).Brings
      (B.At (Facts.Settled fixtures base running { contexts := weight l }))
      (fun _ => B.At (Facts.Settled fixtures base running {})) C := by
  induction l with
  | nil => exact .done fun _ hw => hw
  | cons i l ih =>
    have hhook : ((i.interceptor B).closed x c).Brings
        (B.At (Facts.Settled fixtures base running { contexts := weight (i :: l) }))
        (fun _ => B.At (Facts.Settled fixtures base running { contexts := weight l })) C := by
      cases i with
      | counting => exact (Books.brings_stats fun _ hf => hf.closed).bind fun _ => .done fun _ hw => hw
      | recording r => exact (Books.brings_change fun w => B.same_log _ w).bind fun _ => .done fun _ hw => hw
    refine hhook.bind fun answer => ih.bind fun errors => ?_
    cases answer <;> exact .done fun _ hw => hw

theorem steps_releaseLock (c : Context) : (p.releaseLock c).Steps B.Same := by
  refine .bind (.atomically fun w => B.same_modifyContext rfl) fun handle? => ?_
  cases handle? with
  | none => exact .pure _
  | some handle =>
    refine .bind (hp.release handle) fun answer => ?_
    cases answer with
    | ok u => exact .pure _
    | error e => exact .change fun _ => rfl

omit hp in
/-- Marking a context as closed.  What is owed then depends on how many extensions know of it. -/
theorem brings_markClosed (c : Context) :
    (markClosed c : Action ε Bool).Brings (B.At (Facts.SettledBut fixtures base running c.id))
      (fun before w => bif before then B.At (Facts.Settled fixtures base running {}) w
        else B.At (Facts.Settled fixtures base running
          { contexts := weight (fixtures.take (w.context c.id).notified) }) w) C := by
  refine .atomically fun w hw => ?_
  have hstanding := B.standing_context w c.id
  dsimp only
  cases hclosed : (w.context c.id).closed with
  | true =>
    have hsame : B.Same w (w.modifyContext c.id fun s => { s with closed := true }) := by
      refine B.same_modifyContext ?_
      simp only [ContextState.standing, hclosed]
    rw [cond_true, Books.At, hsame]
    refine Facts.SettledBut.settled hw ?_
    rw [← hstanding]
    exact hclosed
  | false =>
    have hopen : ((B.facts w).contexts.getD c.id {}).closed = false := by
      rw [← hstanding]
      exact hclosed
    have hnotified : ((w.modifyContext c.id fun s => { s with closed := true }).context c.id).notified =
        ((B.facts w).contexts.getD c.id {}).notified := by
      rw [← hstanding]
      simp only [World.context, World.modifyContext, List.getD_eq_getElem?_getD, List.getElem?_modify]
      cases w.contexts[c.id]? <;> rfl
    rw [cond_false, hnotified, Books.At,
      B.facts_modifyContext (g := fun s => { s with closed := true }) fun _ => rfl]
    exact Facts.SettledBut.closing hw hopen

/-- **Closing a context** that may not be known to all extensions leaves all as it should be. -/
theorem brings_close (c : Context) :
    (p.close c).Brings (B.At (Facts.SettledBut fixtures base running c.id))
      (fun _ => B.At (Facts.Settled fixtures base running {}))
      (B.At (Facts.Settled fixtures base running {})) := by
  refine (brings_markClosed c).bind fun before => ?_
  cases before with
  | true => exact .done fun _ hw => hw
  | false =>
    have hlook : (c.look (·.notified) : Action ε Nat).Brings
        (fun w => B.At (Facts.Settled fixtures base running
          { contexts := weight (fixtures.take (w.context c.id).notified) }) w)
        (fun notified => B.At (Facts.Settled fixtures base running
          { contexts := weight (fixtures.take notified).reverse }))
        (B.At (Facts.Settled fixtures base running {})) := by
      refine .look fun w hw => ?_
      rw [weight_reverse]
      exact hw
    refine Process.Brings.bind hlook fun notified => ?_
    rw [hp.interceptors, ← List.map_take, ← List.map_reverse]
    exact (brings_runClosed p.executor c _).bind fun errors =>
      (Books.brings_aside (hp.steps_releaseLock c)).bind fun _ => .done fun _ hw => hw

/-- **Dropping a context** settles the facts. -/
theorem brings_drop (c : Context) :
    (p.drop c).Brings (B.At (Facts.SettledBut fixtures base running c.id))
      (fun _ => B.At (Facts.Settled fixtures base running {}))
      (B.At (Facts.Settled fixtures base running {})) := by
  have hlook : (c.look (·.closed) : Action ε Bool).Brings (B.At (Facts.SettledBut fixtures base running c.id))
      (fun closed => bif closed then B.At (Facts.Settled fixtures base running {})
        else B.At (Facts.SettledBut fixtures base running c.id))
      (B.At (Facts.Settled fixtures base running {})) := by
    refine .look fun w hw => ?_
    dsimp only
    cases hclosed : (w.context c.id).closed with
    | false => exact hw
    | true =>
      refine Facts.SettledBut.settled hw ?_
      rw [← B.standing_context]
      exact hclosed
  have hclosing : (do
      match ← p.close c with
      | .ok () => return ()
      | .error e => Action.tell (.closingDroppedFailed c.process c.key e) : Action ε Unit).Brings
      (B.At (Facts.SettledBut fixtures base running c.id))
      (fun _ => B.At (Facts.Settled fixtures base running {}))
      (B.At (Facts.Settled fixtures base running {})) := by
    refine (hp.brings_close c).bind fun answer => ?_
    cases answer with
    | ok u => exact .done fun _ hw => hw
    | error e => exact Books.brings_tell _
  refine hlook.bind fun closed => ?_
  cases closed with
  | true => exact .done fun _ hw => hw
  | false =>
    have hnotified : (c.look (·.notified) : Action ε Nat).Brings
        (B.At (Facts.SettledBut fixtures base running c.id))
        (fun _ => B.At (Facts.SettledBut fixtures base running c.id))
        (B.At (Facts.Settled fixtures base running {})) := .look fun _ hw => hw
    refine Process.Brings.bind hnotified fun notified => ?_
    dsimp only
    split
    · exact (Books.brings_tell _).bind fun _ => hclosing
    · exact hclosing

/-- Where all contexts are known, so is the one in question. -/
theorem settles_close (c : Context) : B.Settles fixtures base running (p.close c) :=
  (hp.brings_close c).mono (fun _ hw => Facts.Settled.but hw c.id) (fun _ _ hw => hw) fun _ hw => hw

theorem settles_drop (c : Context) : B.Settles fixtures base running (p.drop c) :=
  (hp.brings_drop c).mono (fun _ hw => Facts.Settled.but hw c.id) (fun _ _ hw => hw) fun _ hw => hw

/-! ### Starting -/

omit hp in
theorem brings_newContext (process key : String) (settings : List Setting) (recordedFinal : Option String)
    (handle : LockHandle) :
    (newContext process key settings recordedFinal handle : Action ε Context).Brings
      (B.At (Facts.Settled fixtures base running {}))
      (fun c => B.At (Facts.Starting fixtures base running c.id 0 {})) C := by
  refine .atomically fun w hw => ?_
  have hstarting := Facts.Settled.starting hw
  have hcontexts : B.facts { w with contexts := w.contexts ++ [{ lock := some handle }] } =
      { B.facts w with contexts := (B.facts w).contexts ++ [(⟨false, 0⟩ : Standing)] } := by
    simp only [Books.facts, List.map_append]
    rfl
  have hlength : (B.facts w).contexts.length = w.contexts.length := List.length_map _
  rw [← hcontexts, hlength] at hstarting
  exact hstarting

omit hp in
/-- **The creating hooks** count a context, and say to how many extensions it is known. -/
theorem brings_runCreated (x : Executor ε) (c : Context) {before rest : List Fixture}
    (hfixtures : fixtures = before ++ rest) :
    (runCreated x c (rest.map (·.interceptor B))).Brings
      (B.At (Facts.Starting fixtures base running c.id before.length {}))
      (fun answer => B.At (match answer with
        | .ok () => Facts.Settled fixtures base running {}
        | .error _ => Facts.SettledBut fixtures base running c.id)) C := by
  induction rest generalizing before with
  | nil =>
    obtain rfl : fixtures = before := by rw [hfixtures, List.append_nil]
    exact .done fun _ hw => Facts.Starting.settled hw
  | cons i rest ih =>
    have hhook : ((i.interceptor B).created x c).Brings
        (B.At (Facts.Starting fixtures base running c.id before.length {}))
        (fun answer => B.At (match answer with
          | .ok () => Facts.Starting fixtures base running c.id before.length { contexts := weight [i] }
          | .error _ => Facts.Starting fixtures base running c.id before.length {})) C := by
      cases i with
      | counting => exact (Books.brings_stats fun _ hf => hf.created).bind fun _ => .done fun _ hw => hw
      | recording r =>
        refine (Books.brings_change fun w => B.same_log _ w).bind fun _ => ?_
        split <;> exact .done fun _ hw => hw
    refine hhook.bind fun answer => ?_
    cases answer with
    | error e => exact .done fun _ hw => Facts.Starting.but hw
    | ok u =>
      have hlearnt : (c.change fun s => { s with notified := s.notified + 1 } : Action ε Unit).Brings
          (B.At (Facts.Starting fixtures base running c.id before.length { contexts := weight [i] }))
          (fun _ => B.At (Facts.Starting fixtures base running c.id (before ++ [i]).length {})) C := by
        refine .change fun w hw => ?_
        rw [Books.At, B.facts_modifyContext (g := fun s => { s with notified := s.notified + 1 }) fun _ => rfl]
        subst hfixtures
        exact Facts.Starting.learnt hw
      exact hlearnt.bind fun _ => ih (by rw [hfixtures, List.append_assoc, List.singleton_append])

theorem settles_startLocked (process key : String) (settings : List Setting) (handle : LockHandle) :
    B.Settles fixtures base running (p.startLocked process key settings handle) := by
  refine (Books.brings_aside (hp.findFinal process key)).bind fun found => ?_
  cases found with
  | error e =>
    refine (Books.brings_aside (hp.release handle)).bind fun answer => ?_
    cases answer with
    | ok u => exact .done fun _ hw => hw
    | error r => exact (Books.brings_tell _).bind fun _ => .done fun _ hw => hw
  | ok recordedFinal =>
    refine (brings_newContext process key settings recordedFinal handle).bind fun c => ?_
    have hcreated : (runCreated p.executor c p.interceptors).Brings
        (B.At (Facts.Starting fixtures base running c.id 0 {}))
        (fun answer => B.At (match answer with
          | .ok () => Facts.Settled fixtures base running {}
          | .error _ => Facts.SettledBut fixtures base running c.id)) fun _ => False := by
      rw [hp.interceptors]
      exact brings_runCreated p.executor c (List.nil_append fixtures).symm
    refine (hcreated.onCrash fun w hw => hw.elim).bind fun answer => ?_
    cases answer with
    | ok u => exact .done fun _ hw => hw
    | error e => exact (hp.brings_drop c).bind fun _ => .done fun _ hw => hw

/-- **Starting an instance**, whatever becomes of it. -/
theorem settles_start (process key : String) (timeout : Duration) (settings : List Setting) :
    B.Settles fixtures base running (p.start process key timeout settings) := by
  unfold Provider.start
  split
  · exact .done fun _ hw => hw
  · refine (Books.brings_aside hp.clock).bind fun now => ?_
    refine (Books.brings_aside (hp.obtain (RecordKey.lock process key) timeout now)).bind fun answer => ?_
    cases answer with
    | error e => exact .done fun _ hw => hw
    | ok decision =>
      cases decision with
      | locked tryAt => exact (Books.brings_tell _).bind fun _ => .done fun _ hw => hw
      | obtained handle => exact hp.settles_startLocked process key settings handle

/-! ### Whole processes -/

theorem settles_runBody [EngineFailure β] (c : Context) {body : Context → Action ε (Except β α)}
    (hbody : B.Settles fixtures base running (body c)) :
    B.Settles fixtures base running (p.runBody c body) := by
  have hcomplete : B.Settles fixtures base running (p.complete c : Action ε (Except β Unit)) := by
    have hlook : B.Settles fixtures base running (c.wasFinal : Action ε Bool) := .look fun _ hw => hw
    refine hlook.bind fun wasFinal => ?_
    cases wasFinal with
    | true => exact .done fun _ hw => hw
    | false => exact hp.settles_runPhase c _ .unit (.done fun _ hw => hw)
  refine Process.Brings.bind hbody fun answer => ?_
  cases answer with
  | error e => exact .done fun _ hw => hw
  | ok a =>
    refine hcomplete.bind fun completed => ?_
    cases completed <;> exact .done fun _ hw => hw

/-- **A whole process** settles what it counts. -/
theorem settles_runProcess [EngineFailure β] (process key : String) (timeout : Duration)
    (settings : List Setting) {body : Context → Action ε (Except β α)}
    (hbody : ∀ c, B.Settles fixtures base running (body c)) :
    B.Settles fixtures base running (p.runProcess process key timeout settings body) := by
  refine (hp.settles_start process key timeout settings).bind fun started => ?_
  cases started with
  | error e => exact .done fun _ hw => hw
  | ok c =>
    refine ((hp.settles_runBody c (hbody c)).onCrash (hp.settles_drop c)).bind fun result => ?_
    refine (hp.settles_close c).bind fun closing => ?_
    cases result with
    | ok a => cases closing <;> exact .done fun _ hw => hw
    | error e =>
      cases closing with
      | ok u => exact .done fun _ hw => hw
      | error closing => exact (Books.brings_tell _).bind fun _ => .done fun _ hw => hw

end Provider.Counted

end Idempotence
