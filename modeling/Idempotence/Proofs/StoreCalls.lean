/-
  Calls of a store — what the base executor asks of its store, and what it makes of the answers.

  A store may answer anything: a transaction may end well without having run its body, a duplicate may be
  reported where there is none, and only the second look may fail.  So nothing can be said of what the store
  holds, and everything of which calls are made and of what comes of them.

  1. **Watching** — a store and a body are watched by noting every call, and how it ended, in a list beside
     the environment.  `Watches` says that a process that is watched does what it does unwatched, that its
     calls are of the given kinds, in their order and each at most once, and what the notes have to do with
     the answer.  It is closed under sequencing.

  2. **Recording** — `Recorded` lists the ways in which a text is recorded, inside the body's transaction or
     outside, and what comes of each.

  3. **Executing** — `Consulted` puts the two looks at the record around that (`watches_base`).

  4. **The result** — `Executor.base_accounted`.
-/
import Mathlib.Data.List.Basic
import Idempotence.Proofs.BodyRecords
import Idempotence.Proofs.PhaseCalls

namespace Idempotence

variable {ε α β τ ν κ : Type}

/-! ## Beside the environment -/

namespace Outcome

/-- The outcome with its answer changed. -/
def map (f : α → β) : Outcome α → Outcome β
  | value a => .value (f a)
  | crashed m => .crashed m

/-- Ending as it has ended. -/
def resume {σ : Type} : Outcome α → Process σ α
  | value a => .done a
  | crashed m => .crash m

end Outcome

namespace World

/-- The world with something beside its environment. -/
def beside (w : World ε) (t : τ) : World (ε × τ) := ⟨w.contexts, w.trace, (w.env, t)⟩

/-- The world without what is beside its environment. -/
def inner (w : World (ε × τ)) : World ε := ⟨w.contexts, w.trace, w.env.1⟩

end World

namespace Action

/-- **The action in a wider environment**, of which it sees only its own. -/
def widen : Action ε α → Action (ε × τ) α
  | .done a => .done a
  | .crash m => .crash m
  | .step e k => .step (fun w => (e w.inner).beside w.env.2) fun w => widen (k w.inner)

theorem run_widen (a : Action ε α) (w : World ε) (t : τ) :
    (widen a).run (w.beside t) = ((a.run w).1, (a.run w).2.beside t) := by
  induction a generalizing w with
  | done a => rfl
  | crash m => rfl
  | step e k ih => exact ih w (e w)

/-- **The action with a note** of how it ended. -/
def noted (note : Outcome α → ν) (a : Action ε α) : Action (ε × List ν) α := do
  let o ← (widen a).caught
  Process.change fun w => { w with env := (w.env.1, w.env.2 ++ [note o]) }
  o.resume

theorem run_noted (note : Outcome α → ν) (a : Action ε α) (w : World ε) (notes : List ν) :
    (a.noted note).run (w.beside notes) =
      ((a.run w).1, (a.run w).2.beside (notes ++ [note (a.run w).1])) := by
  simp only [noted, Process.run_bind, Process.run_caught, run_widen, Process.run_change]
  cases (a.run w).1 <;> rfl

end Action

/-! ## Calls -/

/-- **A call** of a store or of a body, and how it ended. -/
inductive StoreCall where
  | read (key : RecordKey) (answer : Outcome (Except StoreError (Option StoredRecord)))
  /-- A transaction is asked for; the answer is whether its body is to be run. -/
  | began (answer : Outcome (Except Error Bool))
  /-- The body of the phase is run. -/
  | ran (answer : Outcome (Except Error String))
  | inserted (key : RecordKey) (data : String) (isFinal : Bool) (answer : Outcome (Except StoreError Unit))
  /-- A transaction is ended, its body having said so. -/
  | ended (said : Except Error Unit) (answer : Outcome (Except Error Unit))
  | searched (process key : String) (answer : Outcome (Except StoreError (Option String)))

namespace StoreCall

/-- The kinds of calls. -/
inductive Kind where
  | read
  | begin
  | body
  | insert
  | finish
  | search
  deriving DecidableEq

/-- The kind of a call. -/
def kind : StoreCall → Kind
  | read .. => .read
  | began .. => .begin
  | ran .. => .body
  | inserted .. => .insert
  | ended .. => .finish
  | searched .. => .search

/-- How many calls are of a kind. -/
def count (k : Kind) (calls : List StoreCall) : Nat := (calls.map kind).count k

end StoreCall

/-- **A store that is watched.** -/
def StoreAdapter.watched (store : StoreAdapter ε) : StoreAdapter (ε × List StoreCall) where
  Txn := store.Txn
  get key := (store.get key).noted (.read key)
  begin := store.begin.noted fun o => .began (o.map (·.map Option.isSome))
  insert key data isFinal := fun txn =>
    ((store.insert key data isFinal).run txn).noted fun o => .inserted key data isFinal (o.map (·.1))
  conclude txn said := (store.conclude txn said).noted (.ended said)
  mayBeDuplicate := store.mayBeDuplicate
  findFinal process key := (store.findFinal process key).noted (.searched process key)

/-- **A body that is watched.** -/
def Body.watched (body : Body ε κ) : Body (ε × List StoreCall) κ := body.noted fun o => .ran (o.map (·.1))

/-! ## Watching -/

/-- **Watching**: the process watched does what it does unwatched; its calls are of the given kinds, in their
    order; and however it ends, `V` relates that to the calls. -/
def Watches (kinds : List StoreCall.Kind) (V : List StoreCall → Outcome α → Prop) (p : Action ε α)
    (q : Action (ε × List StoreCall) α) : Prop :=
  ∀ w notes, ∃ calls, q.run (w.beside notes) = ((p.run w).1, (p.run w).2.beside (notes ++ calls)) ∧
    (calls.map StoreCall.kind).Sublist kinds ∧ V calls (p.run w).1

/-- Something that is said of answers only. -/
def Answering (V : List StoreCall → α → Prop) (calls : List StoreCall) (o : Outcome α) : Prop :=
  ∀ a, o = .value a → V calls a

namespace Watches

variable {kinds kinds' : List StoreCall.Kind} {p : Action ε α} {q : Action (ε × List StoreCall) α}
  {f : α → Action ε β} {g : α → Action (ε × List StoreCall) β}

theorem pure {V : List StoreCall → Outcome α → Prop} {a : α} (h : V [] (.value a)) :
    Watches kinds V (pure a : Action ε α) (pure a) := by
  intro w notes
  refine ⟨[], ?_, List.nil_sublist _, h⟩
  rw [List.append_nil]
  rfl

/-- Telling an event is no call. -/
theorem telling {V : List StoreCall → Outcome α → Prop} (e : Event) (h : Watches kinds V p q) :
    Watches kinds V (Action.tell e >>= fun _ => p) (Action.tell e >>= fun _ => q) :=
  fun w notes => h { w with trace := w.trace.tell e } notes

/-- A call that is noted is the only call of its action. -/
theorem noted (note : Outcome α → StoreCall) {kind : StoreCall.Kind} (hkind : ∀ o, (note o).kind = kind)
    (a : Action ε α) : Watches [kind] (fun calls o => calls = [note o]) a (a.noted note) := by
  intro w notes
  have hkinds : [note (a.run w).1].map StoreCall.kind = [kind] := by rw [List.map_singleton, hkind]
  exact ⟨[note (a.run w).1], Action.run_noted note a w notes, hkinds ▸ List.Sublist.refl _, rfl⟩

/-- **Watching goes through sequencing**: the calls of one action follow those of the other. -/
theorem bind {V : List StoreCall → Outcome α → Prop} {U : List StoreCall → Outcome β → Prop}
    (hp : Watches kinds V p q)
    (hf : ∀ a calls, V calls (.value a) → Watches kinds' (fun more o => U (calls ++ more) o) (f a) (g a))
    (hcrash : ∀ m calls, (calls.map StoreCall.kind).Sublist kinds → V calls (.crashed m) →
      U calls (.crashed m)) :
    Watches (kinds ++ kinds') U (p >>= f) (q >>= g) := by
  intro w notes
  obtain ⟨calls, hq, hkinds, hV⟩ := hp w notes
  rw [Process.run_bind, Process.run_bind, hq]
  cases hpw : p.run w with
  | mk o w' =>
    rw [hpw] at hV
    cases o with
    | value a =>
      obtain ⟨more, hg, hkinds', hU⟩ := hf a calls hV w' (notes ++ calls)
      refine ⟨calls ++ more, ?_, ?_, hU⟩
      · rw [← List.append_assoc]
        exact hg
      · rw [List.map_append]
        exact hkinds.append hkinds'
    | crashed m =>
      exact ⟨calls, rfl, hkinds.trans (List.sublist_append_left ..), hcrash m calls hkinds hV⟩

/-- More kinds may be allowed for. -/
theorem widen {V : List StoreCall → Outcome α → Prop} (h : Watches kinds V p q)
    (hkinds : kinds.Sublist kinds') :
    Watches kinds' V p q := by
  intro w notes
  obtain ⟨calls, hq, hcalls, hV⟩ := h w notes
  exact ⟨calls, hq, hcalls.trans hkinds, hV⟩

/-- **A call, and what is made of its answer.** -/
theorem call {U : List StoreCall → β → Prop} {note : Outcome α → StoreCall} {kind : StoreCall.Kind}
    (hkind : ∀ o, (note o).kind = kind)
    (hf : ∀ x, Watches kinds (Answering fun more b => U (note (.value x) :: more) b) (f x) (g x)) :
    Watches (kind :: kinds) (Answering U) (p >>= f) (p.noted note >>= g) := by
  refine (noted note hkind p).bind (fun x calls hcalls => ?_) fun m calls _ _ b hb => nomatch hb
  subst hcalls
  exact hf x

/-- An answer without a further call. -/
theorem answer {U : List StoreCall → α → Prop} {a : α} (h : U [] a) :
    Watches kinds (Answering U) (Pure.pure a : Action ε α) (Pure.pure a) := by
  refine .pure fun b hb => ?_
  cases hb
  exact h

end Watches

/-! ## Recording -/

section

variable (key : RecordKey) (isFinal : Bool)

/-- **The ways to record a text**, inside the body's transaction (`true`) or outside, and what comes of them. -/
inductive Recorded : Bool → List StoreCall → Except Error String → Prop
  | refused (e : Error) : Recorded true [.began (.value (.error e))] (.error e)
  /-- The body is not run; this is an error even if the transaction ends well. -/
  | skipped : Recorded true [.began (.value (.ok false))] (.error Executor.skipped)
  | failed (e : Error) (result : Except Error Unit) :
      Recorded true [.began (.value (.ok true)), .ran (.value (.error e)), .ended (.error e) (.value result)]
        (.error (match result with | .error e' => e' | .ok () => Executor.skipped))
  | entered (data : String) (reply : Except StoreError Unit) (result : Except Error Unit) :
      Recorded true [.began (.value (.ok true)), .ran (.value (.ok data)),
          .inserted key data isFinal (.value reply), .ended (reply.mapError .store) (.value result)]
        (Executor.verdict data reply result)
  | plainFailed (e : Error) : Recorded false [.ran (.value (.error e))] (.error e)
  | plainRefused (data : String) (e : Error) :
      Recorded false [.ran (.value (.ok data)), .began (.value (.error e))] (.error e)
  /-- The transaction ends well without running its body: nothing is inserted, and nobody can tell. -/
  | plainSkipped (data : String) :
      Recorded false [.ran (.value (.ok data)), .began (.value (.ok false))] (.ok data)
  | plainEntered (data : String) (reply : Except StoreError Unit) (result : Except Error Unit) :
      Recorded false [.ran (.value (.ok data)), .began (.value (.ok true)),
          .inserted key data isFinal (.value reply), .ended (reply.mapError .store) (.value result)]
        (result.map fun _ => data)

end

/-- The kinds of calls that recording a text may make. -/
def StoreCall.Kind.recording (transactional : Bool) : List StoreCall.Kind :=
  if transactional then [.begin, .body, .insert, .finish] else [.body, .begin, .insert, .finish]

namespace Executor

/-- **Recording a text**, watched. -/
theorem watches_runAndRecord (store : StoreAdapter ε) (key : RecordKey) (phase : Phase) (body : Body ε κ) :
    Watches (StoreCall.Kind.recording phase.transactional)
      (Answering fun calls answer => Recorded key phase.isFinal phase.transactional calls answer.1)
      (runAndRecord store key phase body) (runAndRecord store.watched key phase body.watched) := by
  cases h : phase.transactional with
  | true =>
    rw [runAndRecord_transactional _ _ _ h, runAndRecord_transactional _ _ _ h]
    refine .call (fun _ => rfl) fun begun => ?_
    cases begun with
    | error e => exact .answer (.refused e)
    | ok txn? =>
      cases txn? with
      | none => exact .answer .skipped
      | some txn =>
        refine .call (fun _ => rfl) fun answer => ?_
        obtain ⟨text, k⟩ := answer
        cases text with
        | error e =>
          refine Watches.widen (.call (fun _ => rfl) fun result => ?_)
            (List.sublist_cons_self StoreCall.Kind.insert [StoreCall.Kind.finish])
          cases result with
          | error e' => exact .answer (.failed e (.error e'))
          | ok u => exact .answer (.failed e (.ok ()))
        | ok data =>
          refine .call (fun _ => rfl) fun inserted => ?_
          obtain ⟨reply, txn⟩ := inserted
          exact .call (fun _ => rfl) fun result => .answer (.entered data reply result)
  | false =>
    rw [runAndRecord_plain _ _ _ h, runAndRecord_plain _ _ _ h]
    refine .call (fun _ => rfl) fun answer => ?_
    obtain ⟨text, k⟩ := answer
    cases text with
    | error e => exact .answer (.plainFailed e)
    | ok data =>
      refine .call (fun _ => rfl) fun begun => ?_
      cases begun with
      | error e => exact .answer (.plainRefused data e)
      | ok txn? =>
        cases txn? with
        | none => exact .answer (.plainSkipped data)
        | some txn =>
          refine .call (fun _ => rfl) fun inserted => ?_
          obtain ⟨reply, txn⟩ := inserted
          exact .call (fun _ => rfl) fun result => .answer (.plainEntered data reply result)

end Executor

/-! ## Executing -/

/-- The key under which a context looks for the record of a phase. -/
def Context.recordKey (c : Context) (phase : Phase) : RecordKey := ⟨c.process, c.key, phase.id⟩

/-- **What a second look makes of an error** that may be due to a duplicate. -/
def Executor.resolved (e : Error) : Except StoreError (Option StoredRecord) → Except Error PhaseOutput
  | .error e' => .error (.store e')
  | .ok none => .error e
  | .ok (some r) => .ok (.concurrent r.data)

section

variable (store : StoreAdapter ε) (c : Context) (phase : Phase)

/-- **The ways to execute a phase**, and what comes of them. -/
inductive Consulted : List StoreCall → Outcome (Except Error PhaseOutput) → Prop
  | lost (m : String) : Consulted [.read (c.recordKey phase) (.crashed m)] (.crashed m)
  | unreadable (e : StoreError) :
      Consulted [.read (c.recordKey phase) (.value (.error e))] (.value (.error (.store e)))
  | stored (r : StoredRecord) :
      Consulted [.read (c.recordKey phase) (.value (.ok (some r)))] (.value (.ok (.stored r.data)))
  | over {final : String} (known : c.recordedFinal = some final) :
      Consulted [.read (c.recordKey phase) (.value (.ok none))]
        (.value (.error (.assertion (.finalPhaseRecorded c.process phase.id final))))
  | crashed {calls : List StoreCall} (fresh : c.recordedFinal = none) (unread : StoreCall.count .read calls = 0)
      (m : String) : Consulted (.read (c.recordKey phase) (.value (.ok none)) :: calls) (.crashed m)
  | executed {calls : List StoreCall} {data : String} (fresh : c.recordedFinal = none)
      (recorded : Recorded (c.recordKey phase) phase.isFinal phase.transactional calls (.ok data)) :
      Consulted (.read (c.recordKey phase) (.value (.ok none)) :: calls) (.value (.ok (.executed data)))
  | failed {calls : List StoreCall} {e : Error} (fresh : c.recordedFinal = none)
      (recorded : Recorded (c.recordKey phase) phase.isFinal phase.transactional calls (.error e))
      (certain : store.mayBeDuplicate e = false) :
      Consulted (.read (c.recordKey phase) (.value (.ok none)) :: calls) (.value (.error e))
  | doubtful {calls : List StoreCall} {e : Error} (fresh : c.recordedFinal = none)
      (recorded : Recorded (c.recordKey phase) phase.isFinal phase.transactional calls (.error e))
      (doubt : store.mayBeDuplicate e = true) (found : Outcome (Except StoreError (Option StoredRecord))) :
      Consulted (.read (c.recordKey phase) (.value (.ok none)) ::
          (calls ++ [.read (c.recordKey phase) found]))
        (found.map (Executor.resolved e))

end

namespace Executor

/-- **What becomes of an error**, watched: a second look, if it may be due to a duplicate. -/
theorem watches_resolve (store : StoreAdapter ε) (key : RecordKey) (phase : Phase) (e : Error) :
    Watches [.read]
      (fun calls o => (store.mayBeDuplicate e = false ∧ calls = [] ∧ o = .value (.error e)) ∨
        (store.mayBeDuplicate e = true ∧ ∃ found, calls = [.read key found] ∧ o = found.map (resolved e)))
      (resolve store key phase e) (resolve store.watched key phase e) := by
  have hsame : store.watched.mayBeDuplicate e = store.mayBeDuplicate e := rfl
  unfold resolve
  rw [hsame]
  cases hdoubt : store.mayBeDuplicate e with
  | false => exact .pure (.inl ⟨rfl, rfl, rfl⟩)
  | true =>
    have hread : Watches [.read] (fun calls o => calls = [.read key o]) (store.get key)
        (store.watched.get key) := .noted (.read key) (fun _ => rfl) _
    show Watches ([.read] ++ []) _ _ _
    refine hread.bind (fun found calls hcalls => ?_) fun m calls _ hcalls => ?_
    · subst hcalls
      cases found with
      | error e' => exact .pure (.inr ⟨rfl, _, rfl, rfl⟩)
      | ok record? =>
        cases record? with
        | none => exact .pure (.inr ⟨rfl, _, rfl, rfl⟩)
        | some r => exact .telling _ (.pure (.inr ⟨rfl, _, rfl, rfl⟩))
    · subst hcalls
      exact .inr ⟨rfl, _, rfl, rfl⟩

/-- Recording a text does not look for its record. -/
theorem unread_of_sublist {calls : List StoreCall} {transactional : Bool}
    (h : (calls.map StoreCall.kind).Sublist (StoreCall.Kind.recording transactional)) :
    StoreCall.count .read calls = 0 := by
  have hnone : (StoreCall.Kind.recording transactional).count .read = 0 := by cases transactional <;> decide
  exact Nat.le_zero.1 (hnone ▸ h.count_le StoreCall.Kind.read)

variable (store : StoreAdapter ε) (c : Context) (phase : Phase)

/-- **Executing a phase**, watched. -/
theorem watches_base (body : Body ε κ) :
    Watches (.read :: (StoreCall.Kind.recording phase.transactional ++ [.read]))
      (fun calls o => Consulted store c phase calls (o.map (·.1)))
      ((base store).execute c phase body) ((base store.watched).execute c phase body.watched) := by
  have hread : Watches [.read] (fun calls o => calls = [.read (c.recordKey phase) o])
      (store.get (c.recordKey phase)) (store.watched.get (c.recordKey phase)) :=
    .noted (.read _) (fun _ => rfl) _
  refine hread.bind (fun found calls hcalls => ?_) fun m calls _ hcalls => ?_
  · subst hcalls
    cases found with
    | error e => exact .pure (.unreadable e)
    | ok record? =>
      cases record? with
      | some r => exact .telling _ (.pure (.stored r))
      | none =>
        cases hknown : c.recordedFinal with
        | some final => exact .pure (.over hknown)
        | none =>
          refine (watches_runAndRecord store _ phase body).bind (fun answer calls hrecorded => ?_)
            fun m calls hkinds _ => ?_
          · have hrecorded := hrecorded answer rfl
            obtain ⟨text, aside⟩ := answer
            cases text with
            | ok data =>
              refine .pure ?_
              rw [List.append_nil]
              exact .executed hknown hrecorded
            | error e =>
              show Watches ([.read] ++ []) _ _ _
              refine (watches_resolve store _ phase e).bind (fun output more hmore => ?_)
                fun m more _ hmore => ?_
              · refine .pure ?_
                rw [List.append_nil]
                rcases hmore with ⟨hcertain, rfl, houtput⟩ | ⟨hdoubt, found, rfl, houtput⟩
                · cases houtput
                  rw [List.append_nil]
                  exact .failed hknown hrecorded hcertain
                · show Consulted store c phase _ (.value output)
                  rw [houtput]
                  exact .doubtful hknown hrecorded hdoubt found
              · rcases hmore with ⟨-, -, houtput⟩ | ⟨hdoubt, found, rfl, houtput⟩
                · cases houtput
                · show Consulted store c phase _ (.crashed m)
                  rw [houtput]
                  exact .doubtful hknown hrecorded hdoubt found
          · exact .crashed hknown (unread_of_sublist hkinds) m
  · subst hcalls
    exact .lost m

end Executor

/-! ## The account -/

section

variable (store : StoreAdapter ε) (c : Context) (phase : Phase)

/-- **The account of an execution**: what its calls were, and what its outcome has to do with them. -/
structure Accounted (calls : List StoreCall) (outcome : Outcome (Answer κ)) : Prop where
  body_once : StoreCall.count .body calls ≤ 1
  begin_once : StoreCall.count .begin calls ≤ 1
  read_twice : StoreCall.count .read calls ≤ 2
  /-- Unless nothing is found, and no final phase is known of, nothing else is called. -/
  first : ∃ found more, calls = .read (c.recordKey phase) found :: more ∧
    (found ≠ .value (.ok none) ∨ c.recordedFinal ≠ none → more = [])
  stored : ∀ {data aside}, outcome = .value (.ok (.stored data), aside) →
    ∃ r, r.data = data ∧ calls = [.read (c.recordKey phase) (.value (.ok (some r)))]
  executed_within : phase.transactional = true → ∀ {data aside},
    outcome = .value (.ok (.executed data), aside) →
    calls = [.read (c.recordKey phase) (.value (.ok none)), .began (.value (.ok true)),
      .ran (.value (.ok data)), .inserted (c.recordKey phase) data phase.isFinal (.value (.ok ())),
      .ended (.ok ()) (.value (.ok ()))]
  executed_plain : phase.transactional = false → ∀ {data aside},
    outcome = .value (.ok (.executed data), aside) →
    ∃ rest, calls = .read (c.recordKey phase) (.value (.ok none)) :: .ran (.value (.ok data)) :: rest ∧
      (rest = [.began (.value (.ok false))] ∨
        ∃ reply, rest = [.began (.value (.ok true)),
          .inserted (c.recordKey phase) data phase.isFinal (.value reply),
          .ended (reply.mapError .store) (.value (.ok ()))])
  concurrent : ∀ {data aside}, outcome = .value (.ok (.concurrent data), aside) →
    ∃ found front r, r.data = data ∧ calls = .read (c.recordKey phase) found ::
      (front ++ [.read (c.recordKey phase) (.value (.ok (some r)))])
  /-- A second look, wherever it stands, is the last call: it is for the same record, follows an error of the
      recording that may be due to a duplicate, and decides. -/
  again : ∀ {first front key found more}, calls = first :: (front ++ .read key found :: more) →
    more = [] ∧ key = c.recordKey phase ∧
      ∃ e, Recorded (c.recordKey phase) phase.isFinal phase.transactional front (.error e) ∧
        store.mayBeDuplicate e = true ∧ outcome.map (·.1) = found.map (Executor.resolved e)
  /-- The calls are a look, those of the recording and a look, in this order, and each is made once at most. -/
  in_order : (calls.map StoreCall.kind).Sublist
    (.read :: (StoreCall.Kind.recording phase.transactional ++ [.read]))

variable {store c phase} {calls : List StoreCall}

theorem Recorded.unread {key : RecordKey} {isFinal transactional : Bool} {result : Except Error String}
    (h : Recorded key isFinal transactional calls result) : StoreCall.count .read calls = 0 := by
  cases h <;> rfl

/-- Among calls that look for no record there is no look. -/
theorem read_notMem {key : RecordKey} {found : Outcome (Except StoreError (Option StoredRecord))}
    (h : StoreCall.count .read calls = 0) : .read key found ∉ calls :=
  fun hmem => List.count_eq_zero.1 h (List.mem_map_of_mem (f := StoreCall.kind) hmem)

/-- The calls of a recording that ends well inside a transaction. -/
theorem Recorded.within {key : RecordKey} {isFinal : Bool} {data : String}
    (h : Recorded key isFinal true calls (.ok data)) :
    calls = [.began (.value (.ok true)), .ran (.value (.ok data)),
      .inserted key data isFinal (.value (.ok ())), .ended (.ok ()) (.value (.ok ()))] := by
  generalize hresult : Except.ok data = result at h
  cases h with
  | entered data' reply result' =>
    cases reply <;> cases result' <;> cases hresult
    rfl
  | _ => cases hresult

/-- The calls of a recording that ends well outside a transaction. -/
theorem Recorded.plain {key : RecordKey} {isFinal : Bool} {data : String}
    (h : Recorded key isFinal false calls (.ok data)) :
    ∃ rest, calls = .ran (.value (.ok data)) :: rest ∧ (rest = [.began (.value (.ok false))] ∨
      ∃ reply, rest = [.began (.value (.ok true)), .inserted key data isFinal (.value reply),
        .ended (reply.mapError .store) (.value (.ok ()))]) := by
  generalize hresult : Except.ok data = result at h
  cases h with
  | plainSkipped data' =>
    cases hresult
    exact ⟨_, rfl, .inl rfl⟩
  | plainEntered data' reply result' =>
    cases result' <;> cases hresult
    exact ⟨_, rfl, .inr ⟨reply, rfl⟩⟩
  | _ => cases hresult

/-- What the ways to execute a phase say of a second look. -/
theorem Consulted.again {outcome : Outcome (Except Error PhaseOutput)}
    (h : Consulted store c phase calls outcome) {first : StoreCall} {front more : List StoreCall}
    {key : RecordKey} {found : Outcome (Except StoreError (Option StoredRecord))}
    (hcalls : calls = first :: (front ++ .read key found :: more)) :
    more = [] ∧ key = c.recordKey phase ∧
      ∃ e, Recorded (c.recordKey phase) phase.isFinal phase.transactional front (.error e) ∧
        store.mayBeDuplicate e = true ∧ outcome = found.map (Executor.resolved e) := by
  have htail : calls.tail = front ++ .read key found :: more := by rw [hcalls]; rfl
  have hlook : .read key found ∈ calls.tail := htail ▸ List.mem_append_right front List.mem_cons_self
  cases h with
  | doubtful fresh recorded doubt found' =>
    obtain ⟨rfl, hlast, rfl⟩ :=
      (List.append_cons_inj_of_notMem (read_notMem recorded.unread) List.not_mem_nil).1 htail
    cases hlast
    exact ⟨rfl, rfl, _, recorded, doubt, rfl⟩
  | crashed fresh unread m => exact absurd hlook (read_notMem unread)
  | executed fresh recorded => exact absurd hlook (read_notMem recorded.unread)
  | failed fresh recorded certain => exact absurd hlook (read_notMem recorded.unread)
  | _ => exact absurd hlook List.not_mem_nil

/-- A second look that yields an output has found a record. -/
theorem Executor.resolved_eq_ok {e : Error} {found : Outcome (Except StoreError (Option StoredRecord))}
    {output : PhaseOutput} (h : .value (.ok output) = found.map (resolved e)) :
    ∃ r : StoredRecord, output = .concurrent r.data ∧ found = .value (.ok (some r)) := by
  cases found with
  | crashed m => cases h
  | value found =>
    cases found with
    | error e' => cases h
    | ok record? =>
      cases record? with
      | none => cases h
      | some r =>
        cases h
        exact ⟨r, rfl, rfl⟩

/-- **The ways to get an output**: it was recorded, it has been recorded, or it has been found since. -/
theorem Consulted.output (output : PhaseOutput) (h : Consulted store c phase calls (.value (.ok output))) :
    (∃ r : StoredRecord, output = .stored r.data ∧
        calls = [.read (c.recordKey phase) (.value (.ok (some r)))]) ∨
      (∃ data more, output = .executed data ∧ calls = .read (c.recordKey phase) (.value (.ok none)) :: more ∧
        Recorded (c.recordKey phase) phase.isFinal phase.transactional more (.ok data)) ∨
      ∃ (r : StoredRecord) (front : List StoreCall), output = .concurrent r.data ∧
        calls = .read (c.recordKey phase) (.value (.ok none)) ::
          (front ++ [.read (c.recordKey phase) (.value (.ok (some r)))]) := by
  generalize houtcome : Outcome.value (Except.ok output) = outcome at h
  cases h with
  | stored r =>
    cases houtcome
    exact .inl ⟨r, rfl, rfl⟩
  | executed fresh recorded =>
    cases houtcome
    exact .inr (.inl ⟨_, _, rfl, rfl, recorded⟩)
  | doubtful fresh recorded doubt found =>
    obtain ⟨r, rfl, rfl⟩ := Executor.resolved_eq_ok houtcome
    exact .inr (.inr ⟨r, _, rfl, rfl⟩)
  | _ => cases houtcome

/-- Unless nothing is found, and no final phase is known of, nothing else is called. -/
theorem Consulted.first {outcome : Outcome (Except Error PhaseOutput)}
    (h : Consulted store c phase calls outcome) :
    ∃ found more, calls = .read (c.recordKey phase) found :: more ∧
      (found ≠ .value (.ok none) ∨ c.recordedFinal ≠ none → more = []) := by
  have hopen : c.recordedFinal = none → ∀ {more : List StoreCall},
      (Outcome.value (Except.ok none) : Outcome (Except StoreError (Option StoredRecord))) ≠ .value (.ok none) ∨
        c.recordedFinal ≠ none → more = [] :=
    fun hfresh more hclosed => hclosed.elim (absurd rfl) (absurd hfresh)
  cases h with
  | crashed fresh unread m => exact ⟨_, _, rfl, hopen fresh⟩
  | executed fresh recorded => exact ⟨_, _, rfl, hopen fresh⟩
  | failed fresh recorded certain => exact ⟨_, _, rfl, hopen fresh⟩
  | doubtful fresh recorded doubt found => exact ⟨_, _, rfl, hopen fresh⟩
  | _ => exact ⟨_, _, rfl, fun _ => rfl⟩

/-- **The ways to execute a phase make an account.** -/
theorem Consulted.accounted {outcome : Outcome (Answer κ)}
    (h : Consulted store c phase calls (outcome.map (·.1)))
    (hkinds : (calls.map StoreCall.kind).Sublist
      (.read :: (StoreCall.Kind.recording phase.transactional ++ [.read]))) :
    Accounted store c phase calls outcome := by
  have hcount : ∀ kind, StoreCall.count kind calls ≤
      (.read :: (StoreCall.Kind.recording phase.transactional ++ [.read])).count kind := hkinds.count_le
  have hmost : ∀ kind, StoreCall.count kind calls ≤ if kind = .read then 2 else 1 := by
    intro kind
    refine Nat.le_trans (hcount kind) ?_
    cases phase.transactional <;> cases kind <;> decide
  have houtput : ∀ {output aside}, outcome = .value (.ok output, aside) → _ := fun {output aside} heq =>
    Consulted.output output (heq ▸ h)
  refine ⟨hmost .body, hmost .begin, hmost .read, h.first, fun {data aside} heq => ?_,
    fun hmode {data aside} heq => ?_, fun hmode {data aside} heq => ?_, fun {data aside} heq => ?_, h.again, hkinds⟩
  · obtain ⟨r, ⟨⟩, hcalls⟩ | ⟨_, _, ⟨⟩, _⟩ | ⟨_, _, ⟨⟩, _⟩ := houtput heq
    exact ⟨r, rfl, hcalls⟩
  · obtain ⟨_, ⟨⟩, _⟩ | ⟨_, more, ⟨⟩, rfl, hrecorded⟩ | ⟨_, _, ⟨⟩, _⟩ := houtput heq
    rw [hmode] at hrecorded
    rw [hrecorded.within]
  · obtain ⟨_, ⟨⟩, _⟩ | ⟨_, more, ⟨⟩, rfl, hrecorded⟩ | ⟨_, _, ⟨⟩, _⟩ := houtput heq
    rw [hmode] at hrecorded
    obtain ⟨rest, rfl, hrest⟩ := hrecorded.plain
    exact ⟨rest, rfl, hrest⟩
  · obtain ⟨_, ⟨⟩, _⟩ | ⟨_, _, ⟨⟩, _⟩ | ⟨r, front, ⟨⟩, hcalls⟩ := houtput heq
    exact ⟨_, front, r, rfl, hcalls⟩

end

/-- **What an executor asks of its store**, whatever the store answers and whatever the body does: watched, it
    does what it does unwatched, and its calls make an account. -/
theorem Executor.base_accounted (store : StoreAdapter ε) (c : Context) (phase : Phase) (body : Body ε κ)
    (w : World ε) :
    ∃ calls, ((base store.watched).execute c phase body.watched).run (w.beside []) =
        ((((base store).execute c phase body).run w).1,
          (((base store).execute c phase body).run w).2.beside calls) ∧
      Accounted store c phase calls (((base store).execute c phase body).run w).1 := by
  obtain ⟨calls, hrun, hkinds, hconsulted⟩ := watches_base store c phase body w []
  exact ⟨calls, hrun, hconsulted.accounted hkinds⟩

end Idempotence
