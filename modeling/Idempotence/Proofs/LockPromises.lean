/-
  Promises of locks — what locks promise over every sequence of uses.

  Locks are obtained, given back and cleaned away in any order, each use at its own moment and no use
  before an earlier one (`LockHome.play`).  Beside the world a sequence yields who has taken locks, the
  latest first, until when, and who has given them back.

  1. **One use** — obtaining, releasing and cleaning, each said once, in memory and for the durable
     locks alike (`Obtaining`, `Releasing`, `Sweeps`).  The durable locks read an obtained row back;
     alone they always find it, so they never try again.

  2. **The invariant** — `Fenced` relates everyone who has taken a lock to the row of its key: where
     the row is there, the latest one wrote it, and whoever has not given the lock back keeps its row
     up to the deadline.  Every use keeps it (`Fenced.after`), and so does every sequence.

  3. **The result** — `play_promises`: no two valid locks of one key at once; a release hits the row of
     its own handle and no other; whoever is told to wait gets the lock afterwards; and no use touches
     a row that is not its own, but for rows that have expired.
-/
import Idempotence.Lock.Durable
import Idempotence.Proofs.KeyCodes
import Idempotence.Proofs.StepInvariants
import Idempotence.Proofs.TimeArithmetic
import Idempotence.Retention

namespace Idempotence

variable {ε α : Type}

/-! ## One use of a table -/

namespace LockTable

variable {κ : Type} [Ord κ] [DecidableEq κ]

/-- Giving back deletes the row of the key if the operation wrote it, and no other row. -/
theorem row?_release [Std.LawfulEqOrd κ] (t : LockTable κ) (key j : κ) (operation : Nat) :
    (t.release key operation).row? j =
      if j = key ∧ (t.row? key).map (·.operation) = some operation then none else t.row? j := by
  unfold release
  by_cases hown : (t.row? key).map (·.operation) = some operation
  · rw [if_pos hown, row?_erase]
    simp only [hown, and_true]
  · rw [if_neg hown, if_neg fun h => hown h.2]

theorem nextOperation_release (t : LockTable κ) (key : κ) (operation : Nat) :
    (t.release key operation).nextOperation = t.nextOperation := by
  unfold release
  split <;> rfl

/-- Cleaning leaves a row alone or deletes it because it has expired. -/
theorem row?_deleteBefore [Std.LawfulEqOrd κ] (t : LockTable κ) (threshold : Instant) (key : κ) :
    (t.deleteBefore threshold).2.row? key = t.row? key ∨
      (t.deleteBefore threshold).2.row? key = none ∧
        ∃ row, t.row? key = some row ∧ row.lockedUntil < threshold := by
  simp only [deleteBefore, row?_filter]
  cases hrow : t.row? key with
  | none => exact .inl rfl
  | some row =>
    by_cases hkeep : threshold ≤ row.lockedUntil
    · exact .inl (by simp [Option.filter, hkeep])
    · exact .inr ⟨by simp [Option.filter, hkeep], row, rfl, Instant.not_le.1 hkeep⟩

variable [Std.TransOrd κ] [Std.LawfulEqOrd κ]

/-- A held lock is not taken. -/
theorem take_held {t : LockTable κ} {key : κ} {row : LockRow} {now : Instant}
    (hrow : t.row? key = some row) (hnow : now < row.lockedUntil) (timeout : Duration) :
    t.take key timeout now = (.error row.lockedUntil, t) := by
  simp only [take, lockedUntil?, hrow, Option.map_some, if_pos hnow]

/-- A lock that nobody holds is taken. -/
theorem take_free {t : LockTable κ} {key : κ} {now : Instant}
    (hfree : ∀ row, t.row? key = some row → row.lockedUntil ≤ now) (timeout : Duration) :
    t.take key timeout now = (.ok t.nextOperation, t.write key (now.deadline timeout)) := by
  cases hrow : t.row? key with
  | none => simp only [take, lockedUntil?, hrow, Option.map_none]
  | some row =>
    simp only [take, lockedUntil?, hrow, Option.map_some, if_neg (Instant.not_lt.2 (hfree row hrow))]

end LockTable

/-! ## Where locks are kept -/

/-- **Locks with the records that retention cleans away together with them**, in memory or durable. -/
inductive LockHome (ε : Type) where
  | memory (records : Part ε MemoryStore) (locks : Part ε (LockTable RecordKey))
      (apart : records.Apart locks)
  | durable (records : Part ε DurableStore) (locks : Part ε (LockTable String))
      (apart : records.Apart locks)

namespace LockHome

/-- The lock store. -/
def adapter : LockHome ε → LockAdapter ε
  | memory _ locks _ => LockTable.adapter locks
  | durable _ locks _ => DurableLocks.adapter locks

/-- What retention needs. -/
def retention : LockHome ε → RetentionStore ε
  | memory records locks _ => .memory records locks
  | durable records locks _ => .durable records locks

/-- The row of a key. -/
def row? (home : LockHome ε) (key : RecordKey) (w : World ε) : Option LockRow :=
  match home with
  | memory _ locks _ => (locks.get w.env).row? key
  | durable _ locks _ => (locks.get w.env).row? (KeyCode.ofKey key)

/-- The operation that will write the next row. -/
def nextOperation (home : LockHome ε) (w : World ε) : Nat :=
  match home with
  | memory _ locks _ => (locks.get w.env).nextOperation
  | durable _ locks _ => (locks.get w.env).nextOperation

/-- Whether a row can be kept under the key. -/
def fits : LockHome ε → RecordKey → Bool
  | memory .., _ => true
  | durable .., key => KeyCode.fits (KeyCode.ofKey key)

/-- Every row is kept under a key that fits. -/
def Stored (home : LockHome ε) (w : World ε) : Prop :=
  ∀ key row, home.row? key w = some row → home.fits key = true

variable (home : LockHome ε) {w w' : World ε}

/-! ### Obtaining -/

/-- **What asking for a lock comes to.** -/
inductive Obtaining (key : RecordKey) (timeout : Duration) (now : Instant) (w : World ε) :
    Except LockError LockDecision → World ε → Prop
  /-- Somebody holds it. -/
  | held {row : LockRow} (there : home.row? key w = some row) (valid : now < row.lockedUntil) :
      Obtaining key timeout now w (.ok (.locked row.lockedUntil)) w
  /-- Nobody holds it: the next operation writes its row. -/
  | taken {w' : World ε} (free : ∀ row, home.row? key w = some row → row.lockedUntil ≤ now)
      (fitting : home.fits key = true)
      (rows : ∀ j, home.row? j w' =
        if j = key then some ⟨home.nextOperation w, now.deadline timeout⟩ else home.row? j w)
      (next : home.nextOperation w' = home.nextOperation w + 1) :
      Obtaining key timeout now w (.ok (.obtained ⟨key, home.nextOperation w⟩)) w'
  /-- Nobody holds the lock, but its row cannot be kept. -/
  | refused {e : LockError} (free : ∀ row, home.row? key w = some row → row.lockedUntil ≤ now)
      (unfitting : home.fits key = false) : Obtaining key timeout now w (.error e) w

/-- Either somebody holds a lock, or nobody does. -/
theorem held_or_free (key : RecordKey) (now : Instant) (w : World ε) :
    (∃ row, home.row? key w = some row ∧ now < row.lockedUntil) ∨
      ∀ row, home.row? key w = some row → row.lockedUntil ≤ now := by
  cases hrow : home.row? key w with
  | none => exact .inr fun row h => by cases h
  | some row =>
    by_cases hnow : now < row.lockedUntil
    · exact .inl ⟨row, rfl, hnow⟩
    · refine .inr fun row' h => ?_
      obtain rfl := Option.some.inj h
      exact Instant.not_lt.1 hnow

/-- **Asking for a lock** always answers, in one of these ways. -/
theorem obtain_run (key : RecordKey) (timeout : Duration) (now : Instant) (w : World ε) :
    ∃ answer w', (home.adapter.obtain key timeout now).run w = (.value answer, w') ∧
      home.Obtaining key timeout now w answer w' := by
  cases home with
  | memory records locks apart =>
    rcases (memory records locks apart).held_or_free key now w with ⟨row, hrow, hnow⟩ | hfree
    · refine ⟨_, _, ?_, .held hrow hnow⟩
      simp only [adapter, LockTable.adapter, Action.on, Process.run_atomically,
        LockTable.take_held hrow hnow, locks.set_get]
    · refine ⟨.ok (.obtained ⟨key, (locks.get w.env).nextOperation⟩),
        { w with env := locks.set ((locks.get w.env).write key (now.deadline timeout)) w.env }, ?_,
        .taken hfree rfl (fun j => ?_) ?_⟩
      · simp only [adapter, LockTable.adapter, Action.on, Process.run_atomically,
          LockTable.take_free hfree]
      · simp only [row?, locks.get_set, LockTable.row?_write, nextOperation]
      · simp only [nextOperation, locks.get_set, LockTable.write]
  | durable records locks apart =>
    rcases (durable records locks apart).held_or_free key now w with ⟨row, hrow, hnow⟩ | hfree
    · refine ⟨_, _, ?_, .held hrow hnow⟩
      simp only [adapter, DurableLocks.adapter, DurableLocks.attempts, DurableLocks.obtain, Action.on,
        Process.run_bind, Process.run_atomically, DurableLocks.take, LockTable.take_held hrow hnow,
        locks.set_get, Process.run_pure]
    · cases hfits : KeyCode.fits (KeyCode.ofKey key) with
      | false =>
        refine ⟨.error .keyTooLong, w, ?_, .refused hfree hfits⟩
        simp only [adapter, DurableLocks.adapter, DurableLocks.attempts, DurableLocks.obtain, Action.on,
          Process.run_bind, Process.run_atomically, DurableLocks.take, LockTable.take_free hfree, hfits,
          Bool.false_eq_true, if_false, locks.set_get, Process.run_pure]
      | true =>
        refine ⟨.ok (.obtained ⟨key, (locks.get w.env).nextOperation⟩),
          { w with
            env := locks.set ((locks.get w.env).write (KeyCode.ofKey key) (now.deadline timeout)) w.env },
          ?_, .taken hfree hfits (fun j => ?_) ?_⟩
        · -- The row that is read back is the one that has just been written.
          simp only [adapter, DurableLocks.adapter, DurableLocks.attempts, DurableLocks.obtain, Action.on,
            Action.look, Process.run_bind, Process.run_atomically, DurableLocks.take,
            LockTable.take_free hfree, hfits, if_true, Process.run_look, locks.get_set,
            LockTable.row?_write, Option.map_some, Process.run_pure]
        · have hcode : KeyCode.ofKey j = KeyCode.ofKey key ↔ j = key :=
            ⟨KeyCode.ofKey_inj, congrArg KeyCode.ofKey⟩
          simp only [row?, locks.get_set, LockTable.row?_write, nextOperation, hcode]
        · simp only [nextOperation, locks.get_set, LockTable.write]

/-- A lock that nobody holds is to be had, if its row can be kept. -/
theorem obtain_free {key : RecordKey} {now : Instant}
    (hfree : ∀ row, home.row? key w = some row → row.lockedUntil ≤ now) (hfits : home.fits key = true)
    (timeout : Duration) : ∃ operation w', (home.adapter.obtain key timeout now).run w =
      (.value (.ok (.obtained ⟨key, operation⟩)), w') := by
  obtain ⟨answer, w', hrun, hanswer⟩ := home.obtain_run key timeout now w
  cases hanswer with
  | held hrow hvalid => exact absurd hvalid (Instant.not_lt.2 (hfree _ hrow))
  | refused _ hunfitting =>
    rw [hfits] at hunfitting
    cases hunfitting
  | taken _ _ _ _ => exact ⟨_, w', hrun⟩

/-! ### Releasing -/

/-- **What giving a lock back comes to.** -/
structure Releasing (handle : LockHandle) (w w' : World ε) : Prop where
  /-- The row goes if the operation of the handle wrote it. -/
  owned : (home.row? handle.key w).map (·.operation) = some handle.operation →
    home.row? handle.key w' = none
  /-- Otherwise nothing happens. -/
  foreign : (home.row? handle.key w).map (·.operation) ≠ some handle.operation → w' = w
  others : ∀ j, j ≠ handle.key → home.row? j w' = home.row? j w
  next : home.nextOperation w' = home.nextOperation w

/-- **Giving a lock back** always succeeds. -/
theorem release_run (handle : LockHandle) (w : World ε) :
    ∃ w', (home.adapter.release handle).run w = (.value (.ok ()), w') ∧ home.Releasing handle w w' := by
  cases home with
  | memory records locks apart =>
    refine ⟨_, rfl, fun howned => ?_, fun hforeign => ?_, fun j hj => ?_, ?_⟩
    · simp only [row?, locks.get_set, LockTable.row?_release] at howned ⊢
      exact if_pos ⟨trivial, howned⟩
    · simp only [row?] at hforeign
      simp only [LockTable.release, if_neg hforeign, locks.set_get]
    · simp only [row?, locks.get_set, LockTable.row?_release]
      exact if_neg fun h => hj h.1
    · simp only [nextOperation, locks.get_set, LockTable.nextOperation_release]
  | durable records locks apart =>
    refine ⟨_, rfl, fun howned => ?_, fun hforeign => ?_, fun j hj => ?_, ?_⟩
    · simp only [row?, locks.get_set, LockTable.row?_release] at howned ⊢
      exact if_pos ⟨trivial, howned⟩
    · simp only [row?] at hforeign
      simp only [LockTable.release, if_neg hforeign, locks.set_get]
    · simp only [row?, locks.get_set, LockTable.row?_release]
      exact if_neg fun h => hj (KeyCode.ofKey_inj h.1)
    · simp only [nextOperation, locks.get_set, LockTable.nextOperation_release]

/-! ### Cleaning -/

/-- **A step that takes away rows that have expired** by a moment, and does nothing else to locks. -/
structure Sweeps (now : Instant) (w w' : World ε) : Prop where
  rows : ∀ key, home.row? key w' = home.row? key w ∨
    home.row? key w' = none ∧ ∃ row, home.row? key w = some row ∧ row.lockedUntil < now
  next : home.nextOperation w' = home.nextOperation w

variable {home} {now : Instant}

theorem Sweeps.of_same (hrows : ∀ key, home.row? key w' = home.row? key w)
    (hnext : home.nextOperation w' = home.nextOperation w) : home.Sweeps now w w' :=
  ⟨fun key => .inl (hrows key), hnext⟩

theorem Sweeps.refl (w : World ε) : home.Sweeps now w w := .of_same (fun _ => rfl) rfl

theorem Sweeps.trans {w'' : World ε} (h : home.Sweeps now w w') (h' : home.Sweeps now w' w'') :
    home.Sweeps now w w'' := by
  refine ⟨fun key => ?_, h'.next.trans h.next⟩
  rcases h'.rows key with hsame' | ⟨hgone', row, hrow, hexpired⟩
  · rw [hsame']
    exact h.rows key
  · rcases h.rows key with hsame | ⟨hgone, -⟩
    · exact .inr ⟨hgone', row, hsame ▸ hrow, hexpired⟩
    · rw [hgone] at hrow
      cases hrow

/-- Rows that are left are unchanged. -/
theorem Sweeps.row_eq (h : home.Sweeps now w w') {key : RecordKey} {row : LockRow}
    (hrow : home.row? key w' = some row) : home.row? key w = some row := by
  rcases h.rows key with hsame | ⟨hgone, -⟩
  · exact hsame ▸ hrow
  · rw [hgone] at hrow
    cases hrow

/-- Rows that have not expired are left. -/
theorem Sweeps.row_valid (h : home.Sweeps now w w') {key : RecordKey} {row : LockRow}
    (hrow : home.row? key w = some row) (hvalid : now < row.lockedUntil) : home.row? key w' = some row := by
  rcases h.rows key with hsame | ⟨-, row', hrow', hexpired⟩
  · exact hsame.trans hrow
  · obtain rfl := Option.some.inj (hrow.symm.trans hrow')
    exact absurd (Instant.lt_trans hexpired hvalid) (Instant.lt_irrefl _)

end LockHome

/-- **Retention that keeps to a relation**, as far as it cleans away what is older than a moment. -/
structure RetentionStore.Keeps (store : RetentionStore ε) (R : World ε → World ε → Prop)
    (now : Instant) : Prop where
  tell : ∀ e, (Action.tell e : Action ε Unit).Steps R
  count : store.count.Steps R
  nthOldest : ∀ n, (store.nthOldest n).Steps R
  deleteRecords : ∀ threshold limit, (store.deleteRecords threshold limit).Steps R
  deleteLocks : ∀ threshold, threshold ≤ now → (store.deleteLocks threshold).Steps R
  fullBatches : store.fullBatches.Steps R

namespace RetentionStore.Keeps

variable {store : RetentionStore ε} {R : World ε → World ε → Prop} {now : Instant}

theorem removeRecords (h : store.Keeps R now) (config : CleanupConfig) (before : Instant) :
    ∀ fullBatches removed, (config.removeRecords store before fullBatches removed).Steps R
  | fullBatches, removed => by
    unfold CleanupConfig.removeRecords
    refine .bind (h.deleteRecords ..) fun answer => ?_
    cases answer with
    | error e => exact .pure _
    | ok batch =>
      refine .bind ?_ fun removed => .bind (h.tell _) fun _ => ?_
      · unfold CleanupConfig.addRemoved
        split
        · exact .pure _
        · trivial
      · split
        · exact .pure _
        · cases fullBatches with
          | zero => exact .pure _
          | succ n => exact removeRecords h config before n removed

theorem removeBefore (h : store.Keeps R now) (config : CleanupConfig) {before : Instant}
    (hbefore : before ≤ now) (limitReached : Bool) :
    (config.removeBefore store before limitReached).Steps R := by
  refine .bind (h.tell _) fun _ => .bind h.fullBatches fun batches => ?_
  refine .bind (h.removeRecords ..) fun records => ?_
  cases records with
  | error e => exact .pure _
  | ok records =>
    refine .bind (h.deleteLocks before hbefore) fun locks => ?_
    cases locks with
    | error e => exact .pure _
    | ok locks => exact .bind (h.tell _) fun _ => .pure _

/-- The threshold is never later than now. -/
theorem threshold_le {retained : Instant} (hretained : retained ≤ now) (firstKept : Option Instant) :
    (CleanupConfig.threshold retained firstKept).1 ≤ now := by
  unfold CleanupConfig.threshold
  split
  · split
    · next hdue => exact Instant.le_trans (Instant.le_of_lt hdue) hretained
    · exact hretained
  · exact hretained

/-- **A whole run of retention** keeps to the relation. -/
theorem cleanUp (h : store.Keeps R now) (config : CleanupConfig) :
    (config.cleanUp store now).Steps R := by
  have hclean : (config.clean store now).Steps R := by
    unfold CleanupConfig.clean
    split
    · trivial
    · next retained hretained =>
      refine .bind (h.nthOldest _) fun firstKept => ?_
      cases firstKept with
      | error e => exact .pure _
      | ok firstKept =>
        have hbefore := threshold_le (Instant.le_of_subtract? hretained) firstKept
        dsimp only
        split
        · exact .bind (h.tell _) fun _ => h.removeBefore config hbefore _
        · exact h.removeBefore config hbefore _
  unfold CleanupConfig.cleanUp
  split
  · exact .pure _
  · refine .bind h.count fun count => ?_
    split
    · exact .pure _
    · exact .bind (h.tell _) fun _ => .pure _
    · refine .bind hclean fun report => ?_
      split
      · exact .pure _
      · exact .bind (h.tell _) fun _ => .pure _

end RetentionStore.Keeps

namespace LockHome

variable {home : LockHome ε} {now : Instant}

/-- Cleaning the records and the expired locks away sweeps. -/
theorem keeps_retention (home : LockHome ε) (now : Instant) :
    home.retention.Keeps (home.Sweeps now) now := by
  have htell : ∀ e, (Action.tell e : Action ε Unit).Steps (home.Sweeps now) :=
    fun e => .change fun w => .of_same (fun _ => by cases home <;> rfl) (by cases home <;> rfl)
  cases home with
  | memory records locks apart =>
    refine ⟨htell, .look .refl _, fun _ => .look .refl _, fun threshold limit => ?_,
      fun threshold hbefore => ?_, .look .refl _⟩
    · exact .atomically fun w => .of_same (fun key => by simp only [row?, apart.get_set_right])
        (by simp only [nextOperation, apart.get_set_right])
    · refine .atomically fun w => ⟨fun key => ?_, by simp only [nextOperation, locks.get_set]; rfl⟩
      simp only [row?, locks.get_set]
      exact (LockTable.row?_deleteBefore _ threshold key).imp_right fun ⟨hgone, row, hrow, hexpired⟩ =>
        ⟨hgone, row, hrow, Instant.lt_of_lt_of_le hexpired hbefore⟩
  | durable records locks apart =>
    refine ⟨htell, .look .refl _, fun _ => .look .refl _, fun threshold limit => ?_,
      fun threshold hbefore => ?_, .look .refl _⟩
    · exact .atomically fun w => .of_same (fun key => by simp only [row?, apart.get_set_right])
        (by simp only [nextOperation, apart.get_set_right])
    · refine .atomically fun w => ⟨fun key => ?_, by simp only [nextOperation, locks.get_set]; rfl⟩
      simp only [row?, locks.get_set]
      exact (LockTable.row?_deleteBefore _ threshold _).imp_right fun ⟨hgone, row, hrow, hexpired⟩ =>
        ⟨hgone, row, hrow, Instant.lt_of_lt_of_le hexpired hbefore⟩

/-- **A whole run of retention sweeps**, however it ends. -/
theorem cleanUp_run (home : LockHome ε) (config : CleanupConfig) (now : Instant) (w : World ε) :
    home.Sweeps now w ((config.cleanUp home.retention now).run w).2 :=
  ((home.keeps_retention now).cleanUp config).run .refl .trans w

end LockHome

/-! ## Sequences of uses -/

/-- **A use of locks.** -/
inductive LockUse where
  | obtain (key : RecordKey) (timeout : Duration)
  /-- Gives a lock back that was obtained before and has not been given back. -/
  | release (handle : LockHandle)
  | cleanUp (config : CleanupConfig)

/-- Whether a use asks for the lock of a key. -/
def LockUse.Asks (key : RecordKey) : LockUse → Prop
  | obtain j _ => j = key
  | _ => False

/-- **A lock that was obtained.** -/
structure Tenure where
  handle : LockHandle
  deadline : Instant
  released : Bool := false
  deriving DecidableEq

namespace Tenure

/-- The key of the lock. -/
abbrev key (x : Tenure) : RecordKey := x.handle.key

/-- Released, if the handle is the given one. -/
def releasing (handle : LockHandle) (x : Tenure) : Tenure :=
  if x.handle = handle then { x with released := true } else x

@[simp] theorem handle_releasing (handle : LockHandle) (x : Tenure) :
    (x.releasing handle).handle = x.handle := by
  unfold releasing
  split <;> rfl

@[simp] theorem deadline_releasing (handle : LockHandle) (x : Tenure) :
    (x.releasing handle).deadline = x.deadline := by
  unfold releasing
  split <;> rfl

/-- Whoever is not released then was not released before, and has another handle. -/
theorem of_releasing {handle : LockHandle} {x : Tenure} (h : (x.releasing handle).released = false) :
    x.handle ≠ handle ∧ x.released = false := by
  unfold releasing at h
  split at h
  · cases h
  · next hne => exact ⟨hne, h⟩

end Tenure

/-- **A world in which locks are used**, with the locks that were obtained, the latest first. -/
structure Tenancy (ε : Type) where
  world : World ε
  tenures : List Tenure := []

namespace Tenancy

/-- The last one who obtained the lock of a key. -/
def latest? (s : Tenancy ε) (key : RecordKey) : Option Tenure := s.tenures.find? (·.key = key)

end Tenancy

namespace LockHome

variable (home : LockHome ε)

/-- **One use**, at a moment. -/
def after (s : Tenancy ε) (now : Instant) : LockUse → Tenancy ε
  | .obtain key timeout => match (home.adapter.obtain key timeout now).run s.world with
    | (.value (.ok (.obtained handle)), w) =>
      { world := w, tenures := { handle, deadline := now.deadline timeout } :: s.tenures }
    | (_, w) => { s with world := w }
  | .release handle =>
    if ∃ x ∈ s.tenures, x.handle = handle ∧ x.released = false then
      { world := ((home.adapter.release handle).run s.world).2
        tenures := s.tenures.map (·.releasing handle) }
    else s
  | .cleanUp config => { s with world := ((config.cleanUp home.retention now).run s.world).2 }

/-- **A sequence of uses**, each at its moment. -/
def play (s : Tenancy ε) (uses : List (Instant × LockUse)) : Tenancy ε :=
  uses.foldl (fun s use => home.after s use.1 use.2) s

/-! ### The invariant -/

/-- **Everyone who obtained a lock, and the rows.** -/
structure Fenced (now : Instant) (s : Tenancy ε) : Prop where
  stored : home.Stored s.world
  /-- Operations come from the past, and no two locks from one. -/
  past : ∀ x ∈ s.tenures, x.handle.operation < home.nextOperation s.world
  ordered : s.tenures.Pairwise fun x y => y.handle.operation < x.handle.operation
  /-- Where there is a row, the last one who obtained the lock wrote it. -/
  written : ∀ key row x, home.row? key s.world = some row → s.latest? key = some x →
    row = ⟨x.handle.operation, x.deadline⟩
  /-- Whoever did not release a lock keeps its row up to the deadline. -/
  kept : ∀ x ∈ s.tenures, x.released = false → now < x.deadline →
    home.row? x.key s.world = some ⟨x.handle.operation, x.deadline⟩

variable {home} {now now' : Instant} {s : Tenancy ε} {w' : World ε}

/-- In the beginning nobody has obtained a lock. -/
theorem Fenced.begin {w : World ε} (h : home.Stored w) (now : Instant) : home.Fenced now ⟨w, []⟩ where
  stored := h
  past := fun _ hx => absurd hx List.not_mem_nil
  ordered := .nil
  written := fun _ _ _ _ hlatest => by cases hlatest
  kept := fun _ hx => absurd hx List.not_mem_nil

theorem Fenced.later (h : home.Fenced now s) (hle : now ≤ now') : home.Fenced now' s :=
  { h with kept := fun x hx hopen hvalid => h.kept x hx hopen (Instant.lt_of_le_of_lt hle hvalid) }

/-- Two locks of one operation are one lock. -/
theorem Fenced.eq_of_operation (h : home.Fenced now s) {x y : Tenure} (hx : x ∈ s.tenures)
    (hy : y ∈ s.tenures) (heq : x.handle.operation = y.handle.operation) : x = y :=
  List.Pairwise.forall_of_forall_of_flip (R := fun x y => x.handle.operation = y.handle.operation → x = y)
    (fun _ _ _ => rfl) (h.ordered.imp fun hlt heq => absurd heq (Nat.ne_of_gt hlt))
    (h.ordered.imp fun hlt heq => absurd heq (Nat.ne_of_lt hlt)) hx hy heq

/-- Rows may go, as long as nobody keeps them. -/
theorem Fenced.shrunk (h : home.Fenced now s) (hnext : home.nextOperation w' = home.nextOperation s.world)
    (hrows : ∀ key row, home.row? key w' = some row → home.row? key s.world = some row)
    (hkept : ∀ x ∈ s.tenures, x.released = false → now < x.deadline →
      home.row? x.key w' = home.row? x.key s.world) :
    home.Fenced now { s with world := w' } where
  stored key row hrow := h.stored key row (hrows key row hrow)
  past x hx := hnext ▸ h.past x hx
  ordered := h.ordered
  written key row x hrow hlatest := h.written key row x (hrows key row hrow) hlatest
  kept x hx hopen hvalid := (hkept x hx hopen hvalid).trans (h.kept x hx hopen hvalid)

/-- Noting that a handle is released. -/
theorem Fenced.releasing (h : home.Fenced now s) (handle : LockHandle) :
    home.Fenced now { s with tenures := s.tenures.map (·.releasing handle) } where
  stored := h.stored
  past x hx := by
    obtain ⟨y, hy, rfl⟩ := List.mem_map.1 hx
    rw [Tenure.handle_releasing]
    exact h.past y hy
  ordered := List.pairwise_map.2 (h.ordered.imp fun hlt => by simpa using hlt)
  written key row x hrow hlatest := by
    simp only [Tenancy.latest?, Tenure.key, List.find?_map, Function.comp_def, Tenure.handle_releasing,
      Option.map_eq_some_iff] at hlatest
    obtain ⟨y, hy, rfl⟩ := hlatest
    rw [Tenure.handle_releasing, Tenure.deadline_releasing]
    exact h.written key row y hrow hy
  kept x hx hopen hvalid := by
    obtain ⟨y, hy, rfl⟩ := List.mem_map.1 hx
    rw [Tenure.deadline_releasing] at hvalid ⊢
    rw [Tenure.key, Tenure.handle_releasing]
    exact h.kept y hy (Tenure.of_releasing hopen).2 hvalid

/-- **Obtaining** keeps the invariant. -/
theorem Fenced.after_obtain (h : home.Fenced now s) (key : RecordKey) (timeout : Duration) :
    home.Fenced now (home.after s now (.obtain key timeout)) := by
  obtain ⟨answer, w', hrun, hanswer⟩ := home.obtain_run key timeout now s.world
  rw [after, hrun]
  cases hanswer with
  | held hrow hvalid => exact h
  | refused hfree hfits => exact h
  | taken hfree hfits hrows hnext =>
    refine ⟨fun j row hrow => ?_, fun x hx => ?_, ?_, fun j row x hrow hlatest => ?_,
      fun x hx hopen hvalid => ?_⟩
    · rw [hrows] at hrow
      split at hrow
      · next hj => exact hj ▸ hfits
      · exact h.stored j row hrow
    · rw [hnext]
      rcases List.mem_cons.1 hx with rfl | hx
      · exact Nat.lt_succ_self _
      · exact Nat.lt_succ_of_lt (h.past x hx)
    · exact List.pairwise_cons.2 ⟨h.past, h.ordered⟩
    · rw [hrows] at hrow
      rw [Tenancy.latest?, List.find?_cons] at hlatest
      split at hrow
      · next hj =>
        rw [hj] at hlatest
        simp only [Tenure.key, decide_true] at hlatest
        cases hlatest
        cases hrow
        rfl
      · next hj =>
        simp only [Tenure.key, decide_eq_false fun h : key = j => hj h.symm] at hlatest
        exact h.written j row x hrow hlatest
    · rw [hrows]
      rcases List.mem_cons.1 hx with rfl | hx
      · exact if_pos rfl
      · -- Nobody else keeps the row that was free.
        have hrow := h.kept x hx hopen hvalid
        rw [if_neg]
        · exact hrow
        · rintro rfl
          exact absurd hvalid (Instant.not_lt.2 (hfree _ hrow))

/-- **Releasing** keeps the invariant. -/
theorem Fenced.after_release (h : home.Fenced now s) (handle : LockHandle) :
    home.Fenced now (home.after s now (.release handle)) := by
  rw [LockHome.after]
  split
  · next hopen =>
    obtain ⟨x, hx, rfl, -⟩ := hopen
    obtain ⟨w', hrun, hrelease⟩ := home.release_run x.handle s.world
    rw [hrun]
    by_cases hown : (home.row? x.key s.world).map (·.operation) = some x.handle.operation
    · refine (h.releasing x.handle).shrunk hrelease.next (fun j row hrow => ?_) fun y hy hopen hvalid => ?_
      · by_cases hj : j = x.key
        · rw [hj, hrelease.owned hown] at hrow
          cases hrow
        · exact (hrelease.others j hj).symm.trans hrow
      · -- Whoever keeps the row that goes would have the handle that is released.
        refine hrelease.others _ fun hkey => ?_
        obtain ⟨z, hz, rfl⟩ := List.mem_map.1 hy
        obtain ⟨hne, hopen⟩ := Tenure.of_releasing hopen
        rw [Tenure.deadline_releasing] at hvalid
        rw [Tenure.key, Tenure.handle_releasing] at hkey
        have hrow := h.kept z hz hopen hvalid
        rw [Tenure.key, hkey] at hrow
        rw [Tenure.key, hrow] at hown
        exact hne (congrArg Tenure.handle (h.eq_of_operation hz hx (Option.some.inj hown)))
    · rw [hrelease.foreign hown]
      exact h.releasing x.handle
  · exact h

/-- **Cleaning** keeps the invariant. -/
theorem Fenced.after_cleanUp (h : home.Fenced now s) (config : CleanupConfig) :
    home.Fenced now (home.after s now (.cleanUp config)) := by
  have hsweeps := home.cleanUp_run config now s.world
  refine h.shrunk hsweeps.next (fun key row hrow => hsweeps.row_eq hrow) fun x hx hopen hvalid => ?_
  have hrow := h.kept x hx hopen hvalid
  exact (hsweeps.row_valid hrow hvalid).trans hrow.symm

/-- **Every use** keeps the invariant. -/
theorem Fenced.after (h : home.Fenced now s) (use : LockUse) : home.Fenced now (home.after s now use) := by
  cases use with
  | obtain key timeout => exact h.after_obtain key timeout
  | release handle => exact h.after_release handle
  | cleanUp config => exact h.after_cleanUp config

/-- **Every sequence of uses** keeps the invariant. -/
theorem Fenced.play (h : home.Fenced now s) {uses : List (Instant × LockUse)}
    (horder : (now :: uses.map Prod.fst ++ [now']).Pairwise (· ≤ ·)) :
    home.Fenced now' (home.play s uses) := by
  induction uses generalizing now s with
  | nil => exact h.later ((List.pairwise_cons.1 horder).1 now' (by simp))
  | cons use uses ih =>
    obtain ⟨hfirst, hrest⟩ := List.pairwise_cons.1 horder
    exact ih ((h.later (hfirst use.1 (by simp))).after use.2) hrest

/-! ### Rows from use to use -/

/-- A use that does not ask for a lock leaves its row alone or takes it away. -/
theorem row?_after (home : LockHome ε) (s : Tenancy ε) (now : Instant) {use : LockUse} {key : RecordKey}
    (hasks : ¬ use.Asks key) {row : LockRow} (hrow : home.row? key (home.after s now use).world = some row) :
    home.row? key s.world = some row := by
  cases use with
  | obtain j timeout =>
    obtain ⟨answer, w', hrun, hanswer⟩ := home.obtain_run j timeout now s.world
    rw [LockHome.after, hrun] at hrow
    cases hanswer with
    | held _ _ => exact hrow
    | refused _ _ => exact hrow
    | taken _ _ hrows _ =>
      simp only [hrows, if_neg fun h : key = j => hasks h.symm] at hrow
      exact hrow
  | release handle =>
    rw [LockHome.after] at hrow
    split at hrow
    · obtain ⟨w', hrun, hrelease⟩ := home.release_run handle s.world
      simp only [hrun] at hrow
      by_cases hkey : key = handle.key
      · by_cases hown : (home.row? handle.key s.world).map (·.operation) = some handle.operation
        · rw [hkey, hrelease.owned hown] at hrow
          cases hrow
        · rwa [hrelease.foreign hown] at hrow
      · rwa [hrelease.others key hkey] at hrow
    · exact hrow
  | cleanUp config => exact (home.cleanUp_run config now s.world).row_eq hrow

/-- A sequence of uses that do not ask for a lock leaves its row alone or takes it away. -/
theorem row?_play (home : LockHome ε) (s : Tenancy ε) {uses : List (Instant × LockUse)} {key : RecordKey}
    (hasks : ∀ use ∈ uses, ¬ use.2.Asks key) {row : LockRow}
    (hrow : home.row? key (home.play s uses).world = some row) : home.row? key s.world = some row := by
  induction uses generalizing s with
  | nil => exact hrow
  | cons use uses ih =>
    obtain ⟨hfirst, hrest⟩ := List.forall_mem_cons.1 hasks
    exact home.row?_after s use.1 hfirst (ih _ hrest hrow)

/-! ## The result -/

/-- **The row of a key is there, and it is this lock's**: nobody has obtained the lock of the key since. -/
def Wrote (home : LockHome ε) (s : Tenancy ε) (x : Tenure) : Prop :=
  (home.row? x.key s.world).isSome ∧ s.latest? x.key = some x

/-- **What locks promise**, at a moment of a sequence of uses. -/
structure Promises (home : LockHome ε) (now : Instant) (s : Tenancy ε) : Prop where
  /-- No two locks of one key are valid while neither of them has been released. -/
  exclusive : s.tenures.Pairwise fun x y => x.key = y.key → x.released = false → y.released = false →
    ¬ (now < x.deadline ∧ now < y.deadline)
  /-- A release takes the row of its key away if it is the handle's own, and otherwise does nothing. -/
  release : ∀ x ∈ s.tenures, x.released = false →
    ∃ w', (home.adapter.release x.handle).run s.world = (.value (.ok ()), w') ∧
      (home.Wrote s x → home.row? x.key w' = none) ∧ (¬ home.Wrote s x → w' = s.world)
  /-- A lock that nobody holds is to be had, if its row can be kept. -/
  free : ∀ key timeout, (∀ row, home.row? key s.world = some row → row.lockedUntil ≤ now) →
    home.fits key = true → ∃ operation w', (home.adapter.obtain key timeout now).run s.world =
      (.value (.ok (.obtained ⟨key, operation⟩)), w')
  /-- Whoever is told to wait is told a later moment. -/
  tryAt : ∀ key timeout until' w',
    (home.adapter.obtain key timeout now).run s.world = (.value (.ok (.locked until')), w') → now < until'
  /-- From that moment on the lock is to be had, unless somebody asks for it in between. -/
  waited : ∀ key timeout until' w',
    (home.adapter.obtain key timeout now).run s.world = (.value (.ok (.locked until')), w') →
    ∀ (uses : List (Instant × LockUse)) (later : Instant), (∀ use ∈ uses, ¬ use.2.Asks key) →
      until' ≤ later → ∀ timeout', ∃ operation w'', (home.adapter.obtain key timeout' later).run
        (home.play (home.after s now (.obtain key timeout)) uses).world =
          (.value (.ok (.obtained ⟨key, operation⟩)), w'')
  /-- Obtaining a lock leaves the rows of other keys alone. -/
  obtain_others : ∀ key timeout j, j ≠ key →
    home.row? j ((home.adapter.obtain key timeout now).run s.world).2 = home.row? j s.world
  /-- Releasing a lock leaves the rows of other keys alone. -/
  release_others : ∀ handle : LockHandle, ∀ j, j ≠ handle.key →
    home.row? j ((home.adapter.release handle).run s.world).2 = home.row? j s.world
  /-- Cleaning leaves valid rows alone. -/
  cleanUp_valid : ∀ (config : CleanupConfig) key row, home.row? key s.world = some row → now < row.lockedUntil →
    home.row? key ((config.cleanUp home.retention now).run s.world).2 = some row

/-- Of two unreleased locks of a key one has expired. -/
theorem Fenced.exclusive (h : home.Fenced now s) :
    s.tenures.Pairwise fun x y => x.key = y.key → x.released = false → y.released = false →
      ¬ (now < x.deadline ∧ now < y.deadline) := by
  refine h.ordered.imp_of_mem fun {x y} hx hy hlt hkey hopenx hopeny hvalid => ?_
  have hrowx := h.kept x hx hopenx hvalid.1
  have hrowy := h.kept y hy hopeny hvalid.2
  rw [hkey, hrowy] at hrowx
  have hoperation : y.handle.operation = x.handle.operation :=
    congrArg LockRow.operation (Option.some.inj hrowx)
  exact Nat.ne_of_lt hlt hoperation

/-- **The row that the handle's operation wrote** is the one that the last lock of the key wrote. -/
theorem Fenced.wrote_iff (h : home.Fenced now s) {x : Tenure} (hx : x ∈ s.tenures) :
    home.Wrote s x ↔ (home.row? x.key s.world).map (·.operation) = some x.handle.operation := by
  have hlatest : ∃ y, s.latest? x.key = some y := by
    refine Option.isSome_iff_exists.1 (List.find?_isSome.2 ⟨x, hx, ?_⟩)
    exact decide_eq_true rfl
  obtain ⟨y, hy⟩ := hlatest
  cases hrow : home.row? x.key s.world with
  | none => simp [Wrote, hrow]
  | some row =>
    have hwritten := h.written _ _ _ hrow hy
    rw [Wrote, hrow, hy, hwritten]
    simp only [Option.isSome_some, true_and, Option.map_some, Option.some.injEq]
    exact ⟨fun hyx => by rw [hyx], fun heq => h.eq_of_operation (List.mem_of_find?_eq_some hy) hx heq⟩

/-- A lock that somebody holds can be had once it has expired. -/
theorem Fenced.waited (h : home.Fenced now s) {key : RecordKey} {row : LockRow}
    (hrow : home.row? key s.world = some row) {uses : List (Instant × LockUse)} {later : Instant}
    (hasks : ∀ use ∈ uses, ¬ use.2.Asks key) (hlater : row.lockedUntil ≤ later) (timeout : Duration) :
    ∃ operation w'', (home.adapter.obtain key timeout later).run (home.play s uses).world =
      (.value (.ok (.obtained ⟨key, operation⟩)), w'') := by
  refine home.obtain_free (fun row' hrow' => ?_) (h.stored key row hrow) timeout
  -- The row that is there still is the row that was there, and that has expired.
  obtain rfl := Option.some.inj ((home.row?_play s hasks hrow').symm.trans hrow)
  exact hlater

/-- **The invariant gives the promises.** -/
theorem Fenced.promises (h : home.Fenced now s) : home.Promises now s where
  exclusive := h.exclusive
  release x hx _ := by
    obtain ⟨w', hrun, hrelease⟩ := home.release_run x.handle s.world
    exact ⟨w', hrun, fun hwrote => hrelease.owned ((h.wrote_iff hx).1 hwrote),
      fun hnot => hrelease.foreign fun hown => hnot ((h.wrote_iff hx).2 hown)⟩
  free _ timeout hfree hfits := home.obtain_free hfree hfits timeout
  tryAt key timeout until' w' hlocked := by
    obtain ⟨answer, w'', hrun, hanswer⟩ := home.obtain_run key timeout now s.world
    rw [hrun] at hlocked
    cases hanswer with
    | held _ hvalid =>
      cases hlocked
      exact hvalid
    | taken _ _ _ _ => cases hlocked
    | refused _ _ => cases hlocked
  waited key timeout until' w' hlocked uses later hasks hlater timeout' := by
    obtain ⟨answer, w'', hrun, hanswer⟩ := home.obtain_run key timeout now s.world
    rw [hrun] at hlocked
    cases hanswer with
    | held hrow _ =>
      cases hlocked
      rw [LockHome.after, hrun]
      exact h.waited hrow hasks hlater timeout'
    | taken _ _ _ _ => cases hlocked
    | refused _ _ => cases hlocked
  obtain_others key timeout j hj := by
    obtain ⟨answer, w', hrun, hanswer⟩ := home.obtain_run key timeout now s.world
    rw [hrun]
    cases hanswer with
    | held _ _ => rfl
    | refused _ _ => rfl
    | taken _ _ hrows _ => exact (hrows j).trans (if_neg hj)
  release_others handle j hj := by
    obtain ⟨w', hrun, hrelease⟩ := home.release_run handle s.world
    rw [hrun]
    exact hrelease.others j hj
  cleanUp_valid config key row hrow hvalid := (home.cleanUp_run config now s.world).row_valid hrow hvalid

/-- **Locks are safe and fenced**: from wherever they are kept, after every sequence of uses in the order
    of time, they promise what `Promises` says. -/
theorem play_promises (home : LockHome ε) {w : World ε} (hstored : home.Stored w)
    {uses : List (Instant × LockUse)} {now : Instant}
    (horder : (uses.map Prod.fst ++ [now]).Pairwise (· ≤ ·)) :
    home.Promises now (home.play ⟨w, []⟩ uses) := by
  refine Fenced.promises ?_
  cases uses with
  | nil => exact .begin hstored now
  | cons use uses =>
    have hfirst := (Fenced.begin hstored use.1).after use.2
    exact hfirst.play horder

/-! ### A lock that is taken over -/

/-- Durable locks and records, and nothing else. -/
def shelf : LockHome (DurableStore × LockTable String) :=
  .durable ⟨Prod.fst, fun a e => (a, e.2), fun _ _ => rfl, fun _ => rfl, fun _ _ _ => rfl⟩
    ⟨Prod.snd, fun a e => (e.1, a), fun _ _ => rfl, fun _ => rfl, fun _ _ _ => rfl⟩
    ⟨fun _ _ => rfl, fun _ _ => rfl⟩

/-- Two ask for a lock, the second twice: first it has to wait, then it takes the lock over.  After
    that the first one releases its lock, late, and everything is cleaned. -/
def takeover : List (Instant × LockUse) :=
  let key := RecordKey.lock "p" "k"
  [ (.epoch, .obtain key ⟨10⟩),
    (Instant.epoch.deadline ⟨5⟩, .obtain key ⟨10⟩),
    (Instant.epoch.deadline ⟨10⟩, .obtain key ⟨10⟩),
    (Instant.epoch.deadline ⟨11⟩, .release ⟨key, 0⟩),
    (Instant.epoch.deadline ⟨12⟩, .cleanUp {}) ]

/-- After the takeover the first lock is released, the second one is not, and its row is there. -/
theorem play_promises_takeover :
    let s := shelf.play ⟨{ env := (default, default) }, []⟩ takeover
    shelf.Promises (Instant.epoch.deadline ⟨12⟩) s ∧
      s.tenures.map (fun x => (x.handle.operation, x.released)) = [(1, false), (0, true)] ∧
      (shelf.row? (RecordKey.lock "p" "k") s.world).map (·.operation) = some 1 :=
  ⟨play_promises shelf (fun _ _ h => by cases h) (by decide +kernel), by decide +kernel, by decide +kernel⟩

end LockHome

end Idempotence
