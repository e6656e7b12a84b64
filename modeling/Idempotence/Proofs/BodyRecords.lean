/-
  Records of bodies — what becomes of the text of a body.

  `Executor.runAndRecord` hands its body to a transaction, and a transaction is a state that the
  store threads through whatever runs inside.  This file takes that state out again.

  1. **Any store** — `runAndRecord_transactional` and `runAndRecord_plain` say in which order the
     body, the insert and the end of the transaction come in either mode, with nothing threaded.
     The modes differ: inside a transaction the body does not run unless the transaction begins,
     and a transaction that ends well without an insert is an error only there.

  2. **In memory** — a transaction in memory begins in no step and keeps its one insert to itself,
     so the two modes are the SAME process: the body, then `MemoryStore.record`
     (`runAndRecord_adapter`).  Every later statement about recording in memory starts from that
     equation and never sees a transaction again.
-/
import Idempotence.Executor
import Idempotence.Store.Memory

namespace Idempotence

variable {ε κ : Type}

/-! ## Recording in any store -/

namespace Executor

/-- What a recording answers where the transaction ends well without having recorded the text. -/
def skipped : Error := .store (.storage "transaction committed without running the phase body")

/-- What a recording inside the body's own transaction answers, for the answers of the insert and of
    the end of the transaction. -/
def verdict (data : String) : Except StoreError Unit → Except Error Unit → Except Error String
  | _, .error e => .error e
  | .ok (), .ok () => .ok data
  | .error _, .ok () => .error skipped

/-- **Inside a transaction**: the body runs once the transaction has begun, and its text is inserted
    before the transaction ends. -/
theorem runAndRecord_transactional (store : StoreAdapter ε) (key : RecordKey) {phase : Phase}
    (body : Body ε κ) (h : phase.transactional = true) :
    runAndRecord store key phase body = (do
      match ← store.begin with
      | .error e => return (.error e, none)
      | .ok none => return (.error skipped, none)
      | .ok (some txn) =>
        let (text, k) ← body
        match text with
        | .error e =>
          match ← store.conclude txn (.error e) with
          | .error e => return (.error e, some k)
          | .ok () => return (.error skipped, some k)
        | .ok data =>
          let (answer, txn) ← (store.insert key data phase.isFinal).run txn
          let result ← store.conclude txn (answer.mapError .store)
          return (verdict data answer result, some k)) := by
  rw [runAndRecord, if_pos h]
  simp only [StoreAdapter.transact, bind_assoc]
  refine bind_congr fun begun => ?_
  cases begun with
  | error e => rfl
  | ok txn? =>
    cases txn? with
    | none => rfl
    | some txn =>
      simp only [StateT.run_bind, StateT.run_lift, bind_assoc, pure_bind]
      refine bind_congr fun answer => ?_
      obtain ⟨text, k⟩ := answer
      cases text with
      | error e =>
        simp only [StateT.run_pure, pure_bind]
        refine bind_congr fun result => ?_
        cases result <;> rfl
      | ok data =>
        simp only [StateT.run_bind, bind_assoc]
        refine bind_congr fun inserted => ?_
        obtain ⟨answer, txn⟩ := inserted
        cases answer <;> simp only [StateT.run_pure, pure_bind] <;>
          exact bind_congr fun result => by cases result <;> rfl

/-- **Outside**: the body runs first, and its text is inserted in a transaction of its own. -/
theorem runAndRecord_plain (store : StoreAdapter ε) (key : RecordKey) {phase : Phase}
    (body : Body ε κ) (h : phase.transactional = false) :
    runAndRecord store key phase body = (do
      let (text, k) ← body
      match text with
      | .error e => return (.error e, some k)
      | .ok data => match ← store.begin with
        | .error e => return (.error e, some k)
        | .ok none => return (.ok data, some k)
        | .ok (some txn) =>
          let (answer, txn) ← (store.insert key data phase.isFinal).run txn
          let result ← store.conclude txn (answer.mapError .store)
          return (result.map fun _ => data, some k)) := by
  rw [runAndRecord, if_neg (by simp [h])]
  refine bind_congr fun answer => ?_
  obtain ⟨text, k⟩ := answer
  cases text with
  | error e => rfl
  | ok data =>
    simp only [StoreAdapter.transact, bind_assoc]
    refine bind_congr fun begun => ?_
    cases begun with
    | error e => rfl
    | ok txn? =>
      cases txn? with
      | none => rfl
      | some txn =>
        simp only [StateT.run_bind, bind_assoc]
        refine bind_congr fun inserted => ?_
        obtain ⟨answer, txn⟩ := inserted
        cases answer <;> simp only [StateT.run_pure, pure_bind] <;>
          exact bind_congr fun result => by cases result <;> rfl

end Executor

/-! ## Recording in memory -/

namespace MemoryStore

variable (part : Part ε MemoryStore) (clock : Action ε Instant)

/-- The end of a transaction whose one key has been taken. -/
theorem commit_taken {s : MemoryStore} {key : RecordKey} {r' : StoredRecord}
    (h : s.get? key = some r') (r : StoredRecord) :
    commit [(key, r)] s = (.error (.store (.duplicateRecord key)), s) := by
  simp [commit, Table.contains, h]

/-- The end of a transaction whose one key is free. -/
theorem commit_free {s : MemoryStore} {key : RecordKey} (h : s.get? key = none) (r : StoredRecord) :
    commit [(key, r)] s = (.ok (), s.insert key r) := by
  simp [commit, Table.contains, h]

/-- **Records a text under a key**: one look whether the key is taken, one reading of the clock, and
    one step that puts the record in unless the key has been taken meanwhile. -/
def record (key : RecordKey) (isFinal : Bool) (data : String) : Action ε (Except Error Unit) := do
  if ← Action.look part (·.contains key) then return .error (.store (.duplicateRecord key))
  let createdAt ← clock
  Action.on part (commit [(key, { data, isFinal, createdAt })])

/-- Inserting a text and ending the transaction is recording it, however the answers of the two are put
    together: the first error comes out. -/
theorem insert_conclude (key : RecordKey) (isFinal : Bool) (data : String) (k : κ)
    {verdict : Except StoreError Unit → Except Error Unit → Except Error String}
    (hok : ∀ result, verdict (.ok ()) result = result.map fun _ => data)
    (herror : ∀ e e', verdict (.error e) (.error e') = .error e') :
    (do
      let (answer, txn) ← ((adapter part clock).insert key data isFinal).run []
      let result ← (adapter part clock).conclude txn (answer.mapError .store)
      return (verdict answer result, some k) : Action ε (Except Error String × Option κ)) = (do
      let result ← record part clock key isFinal data
      return (result.map fun _ => data, some k)) := by
  simp only [adapter, record, StateT.run, bind_assoc]
  refine bind_congr fun taken => ?_
  cases taken with
  | true =>
    simp only [Bool.true_or, if_true, pure_bind]
    show (pure (verdict (.error (.duplicateRecord key)) (.error (.store (.duplicateRecord key))), some k) :
      Action ε (Except Error String × Option κ)) = _
    rw [herror]
    rfl
  | false =>
    simp only [Bool.false_or, List.any_nil, Bool.false_eq_true, if_false, bind_assoc, pure_bind]
    exact bind_congr fun createdAt => bind_congr fun result => by rw [hok]

/-- **In memory the modes are one**: the body, and then `record`. -/
theorem runAndRecord_adapter (key : RecordKey) (phase : Phase) (body : Body ε κ) :
    Executor.runAndRecord (adapter part clock) key phase body = (do
      let (text, k) ← body
      match text with
      | .error e => return (.error e, some k)
      | .ok data =>
        let result ← record part clock key phase.isFinal data
        return (result.map fun _ => data, some k)) := by
  have hbegin : (adapter part clock).begin = pure (.ok (some [])) := rfl
  cases h : phase.transactional with
  | true =>
    rw [Executor.runAndRecord_transactional _ _ _ h, hbegin, pure_bind]
    refine bind_congr fun answer => ?_
    obtain ⟨text, k⟩ := answer
    cases text with
    | error e => rfl
    | ok data =>
      have hok : ∀ result, Executor.verdict data (.ok ()) result = result.map fun _ => data := by
        intro result
        cases result <;> rfl
      have herror : ∀ e e', Executor.verdict data (.error e) (.error e') = .error e' := fun _ _ => rfl
      exact insert_conclude part clock key phase.isFinal data k hok herror
  | false =>
    rw [Executor.runAndRecord_plain _ _ _ h]
    refine bind_congr fun answer => ?_
    obtain ⟨text, k⟩ := answer
    cases text with
    | error e => rfl
    | ok data =>
      simp only [hbegin, pure_bind]
      let verdict : Except StoreError Unit → Except Error Unit → Except Error String :=
        fun _ result => result.map fun _ => data
      have herror : ∀ e e', verdict (.error e) (.error e') = .error e' := fun _ _ => rfl
      exact insert_conclude part clock key phase.isFinal data k (fun _ => rfl) herror

/-- What becomes of an error of the recording, in memory. -/
theorem resolve_adapter (key : RecordKey) (phase : Phase) (e : Error) :
    Executor.resolve (adapter part clock) key phase e =
      if e.isDuplicate then (do
        match ← Action.look part (·.get? key) with
        | none => return .error e
        | some r =>
          Action.tell (.multipleExecutions phase.id)
          return .ok (.concurrent r.data))
      else pure (.error e) := by
  unfold Executor.resolve
  by_cases h : e.isDuplicate = true
  · simp only [adapter, h, if_true]
    show Process.step _ _ = Process.step _ _
    congr 1
    funext w
    simp only [Process.bind]
    cases (part.get w.env).get? key <;> rfl
  · simp only [adapter, h]
    rfl

/-- **The base executor in memory**, written out. -/
theorem execute_adapter (c : Context) (phase : Phase) (body : Body ε κ) :
    (Executor.base (adapter part clock)).execute c phase body = (do
      match ← Action.look part (·.get? ⟨c.process, c.key, phase.id⟩) with
      | some r =>
        Action.tell (.resultStored phase.id)
        return (.ok (.stored r.data), none)
      | none => match c.recordedFinal with
        | some final =>
          return (.error (.assertion (.finalPhaseRecorded c.process phase.id final)), none)
        | none =>
          let (text, k) ← body
          match text with
          | .error e =>
            return (← Executor.resolve (adapter part clock) ⟨c.process, c.key, phase.id⟩ phase e, some k)
          | .ok data => match ← record part clock ⟨c.process, c.key, phase.id⟩ phase.isFinal data with
            | .error e =>
              return (← Executor.resolve (adapter part clock) ⟨c.process, c.key, phase.id⟩ phase e, some k)
            | .ok () => return (.ok (.executed data), some k)) := by
  simp only [Executor.base, runAndRecord_adapter]
  show Process.step _ _ = Process.step _ _
  congr 1
  funext w
  simp only [Process.bind]
  cases (part.get w.env).get? ⟨c.process, c.key, phase.id⟩ with
  | some r => rfl
  | none =>
    cases c.recordedFinal with
    | some final => rfl
    | none =>
      simp only [bind_assoc]
      refine bind_congr fun answer => ?_
      obtain ⟨text, k⟩ := answer
      cases text with
      | error e => simp
      | ok data =>
        simp only [bind_assoc, pure_bind]
        refine bind_congr fun result => ?_
        cases result <;> simp [Except.map]

end MemoryStore

end Idempotence
