/-
  Retention in memory — what a run of retention removes from the stores in memory.

  1. **Ranks** — the oldest records are found by sorting, but what a run comes to depends on counts only:
     before the `(n + 1)`-th oldest record at most `n` were created (`countBefore_le`), and a batch takes
     as many of the due records as it may, no matter which (`deleteBefore_due`).

  2. **Batches** — the crux is `removeRecords_run`.  What a batch leaves has the same records that are not
     due, and as many fewer that are as the batch has removed; so a batch that is not full leaves none.
     Since each full batch removes at least one record, the bound on their number is never met
     (`removeRecords_bound`).

  3. **The result** — `cleanUp_exact`: the threshold, what is removed, what is reported, and that the size
     of the batches does not matter.
-/
import Idempotence.Proofs.LockPromises

namespace Idempotence

variable {ε : Type}

/-! ## Counting -/

/-- Erasing keys one after the other is keeping the entries of the others. -/
theorem Table.foldl_erase {κ α : Type} [Ord κ] [DecidableEq κ] [Std.TransOrd κ] [Std.LawfulEqOrd κ]
    (keys : List κ) (t : Table κ α) :
    keys.foldl Table.erase t = t.filter fun k _ => decide (k ∉ keys) := by
  refine Table.ext_get? fun k => ?_
  rw [Table.get?_filter]
  induction keys generalizing t with
  | nil => cases h : t.get? k <;> simp [h, Option.filter_some]
  | cons j keys ih =>
    rw [List.foldl_cons, ih, Table.get?_erase]
    by_cases hk : k = j
    · cases t.get? k <;> simp [hk, Option.filter_some]
    · cases t.get? k <;> simp [hk]

/-- What is filtered out and what is kept are all. -/
theorem Table.size_filter {κ α : Type} [Ord κ] (t : Table κ α) {keep : κ → α → Bool}
    {gone : κ × α → Bool} (h : ∀ e, keep e.1 e.2 = !gone e) :
    t.size = (t.filter keep).size + t.entries.countP gone := by
  have hkept : (t.filter keep).size = t.entries.countP fun e => !gone e := by
    rw [Table.size, Table.filter, ← List.countP_eq_length_filter]
    exact List.countP_congr fun e _ => by rw [h]
  rw [hkept, Table.size, List.length_eq_countP_add_countP gone, Nat.add_comm]
  congr 1
  exact List.countP_congr fun e _ => by simp

namespace MemoryStore

/-- The test for records created before a moment. -/
def isBefore (before : Instant) (e : RecordKey × StoredRecord) : Bool := decide (e.2.createdAt < before)

/-- How many records were created before a moment. -/
def countBefore (s : MemoryStore) (before : Instant) : Nat := s.entries.countP (isBefore before)

/-- The records created at a moment or later. -/
def since (s : MemoryStore) (before : Instant) : MemoryStore :=
  s.filter fun _ r => decide (before ≤ r.createdAt)

variable {s : MemoryStore} {before : Instant}

theorem size_since : s.size = (s.since before).size + s.countBefore before :=
  s.size_filter fun e => by simp [isBefore, ← Instant.not_lt]

/-- Nothing was created before a moment: no record is older. -/
theorem countBefore_eq_zero_iff :
    s.countBefore before = 0 ↔ ∀ key r, s.get? key = some r → before ≤ r.createdAt := by
  rw [countBefore, List.countP_eq_zero]
  constructor
  · intro hnone key r hr
    have hnot := hnone (key, r) ((Table.get?_eq_some_iff s).1 hr)
    simpa [isBefore, Instant.not_lt] using hnot
  · intro hlate e he
    have hle := hlate e.1 e.2 ((Table.get?_eq_some_iff s).2 he)
    simpa [isBefore, Instant.not_lt] using hle

/-- Where nothing is due, all records stay. -/
theorem since_of_countBefore (h : s.countBefore before = 0) : s.since before = s := by
  refine Table.ext_get? fun key => ?_
  rw [since, Table.get?_filter]
  cases hr : s.get? key with
  | none => rfl
  | some r => rw [Option.filter_some, if_pos (decide_eq_true (countBefore_eq_zero_iff.1 h key r hr))]

/-! ### Ranks -/

/-- The records by age, as far as they are due. -/
def dueByAge (s : MemoryStore) (before : Instant) : List (RecordKey × StoredRecord) :=
  (byAge s).filter (isBefore before)

theorem length_dueByAge : (s.dueByAge before).length = s.countBefore before := by
  rw [dueByAge, ← List.countP_eq_length_filter, countBefore]
  exact (byAge_perm s).countP_eq _

/-- There are no more records than there are. -/
theorem nthOldest_eq_none {n : Nat} (h : s.size < n) : s.nthOldest n = none := by
  cases n with
  | zero => rfl
  | succ n =>
    have hlength : (byAge s).length ≤ n := by
      rw [(byAge_perm s).length_eq]
      exact Nat.le_of_lt_succ h
    simp [nthOldest, List.getElem?_eq_none hlength]

/-- **What only the oldest records are** is at most as many as come before the first that is not. -/
theorem countP_le_rank {p : RecordKey × StoredRecord → Bool} {n : Nat}
    (hage : ∀ e e' : RecordKey × StoredRecord, e.2.createdAt ≤ e'.2.createdAt → p e' = true → p e = true)
    (h : ∀ e, (byAge s)[n]? = some e → p e = false) : s.entries.countP p ≤ n := by
  have hlate : ((byAge s).drop n).countP p = 0 := by
    cases hdrop : (byAge s).drop n with
    | nil => rfl
    | cons e rest =>
      have hnth : (byAge s)[n]? = some e := by
        have := congrArg (·[0]?) hdrop
        simpa using this
      -- Behind it come only records that are not older.
      have hsorted := (byAge_sorted s).sublist (List.drop_sublist n _)
      rw [hdrop] at hsorted
      refine List.countP_eq_zero.2 fun x hx hpx => ?_
      have hpe : p e = true := by
        rcases List.mem_cons.1 hx with rfl | hx
        · exact hpx
        · exact hage e x ((List.pairwise_cons.1 hsorted).1 x hx) hpx
      rw [h e hnth] at hpe
      cases hpe
  calc s.entries.countP p
      = (byAge s).countP p := ((byAge_perm s).countP_eq _).symm
    _ = ((byAge s).take n).countP p + ((byAge s).drop n).countP p := by
        rw [← List.countP_append, List.take_append_drop]
    _ = ((byAge s).take n).countP p := by rw [hlate, Nat.add_zero]
    _ ≤ ((byAge s).take n).length := List.countP_le_length
    _ ≤ n := List.length_take_le ..

/-- **Before the `(n + 1)`-th oldest record** at most `n` were created. -/
theorem countBefore_le {n : Nat} (h : ∀ t, s.nthOldest (n + 1) = some t → before ≤ t) :
    s.countBefore before ≤ n := by
  refine countP_le_rank (fun e e' hle hbefore => ?_) fun e hnth => ?_
  · exact decide_eq_true (Instant.lt_of_le_of_lt hle (of_decide_eq_true hbefore))
  · exact decide_eq_false (Instant.not_lt.2 (h _ (by simp [nthOldest, hnth])))

/-! ### One batch -/

/-- The due records are among those of the store. -/
theorem get?_of_mem_dueByAge {e : RecordKey × StoredRecord} (he : e ∈ s.dueByAge before) :
    s.get? e.1 = some e.2 ∧ e.2.createdAt < before := by
  obtain ⟨hage, hbefore⟩ := List.mem_filter.1 he
  exact ⟨(Table.get?_eq_some_iff s).2 ((byAge_perm s).mem_iff.1 hage), of_decide_eq_true hbefore⟩

/-- No two due records have one key. -/
theorem nodup_dueByAge (s : MemoryStore) (before : Instant) : ((s.dueByAge before).map Prod.fst).Nodup := by
  have hentries : (s.entries.map Prod.fst).Nodup :=
    List.pairwise_map.2 (s.ordered.imp fun h heq => by simp [heq] at h)
  exact ((((byAge_perm s).map Prod.fst).nodup_iff).2 hentries).sublist (List.filter_sublist.map _)

/-- A batch is the oldest of the due records. -/
theorem due_eq (s : MemoryStore) (before : Instant) (limit : Nat) :
    s.due before limit = ((s.dueByAge before).take limit).map Prod.fst := rfl

theorem length_due (s : MemoryStore) (before : Instant) (limit : Nat) :
    (s.due before limit).length = min limit (s.countBefore before) := by
  rw [due_eq, List.length_map, List.length_take, length_dueByAge]

/-- A batch is taken out. -/
theorem deleteBefore_eq (s : MemoryStore) (before : Instant) (limit : Nat) :
    (s.deleteBefore before limit).2 = s.filter fun k _ => decide (k ∉ s.due before limit) :=
  Table.foldl_erase ..

/-- **What a batch leaves of the due records** are those behind it. -/
theorem countBefore_deleteBefore (s : MemoryStore) (before : Instant) (limit : Nat) :
    (s.deleteBefore before limit).2.countBefore before =
      s.countBefore before - min limit (s.countBefore before) := by
  -- No two due records have one key, so those behind the batch stay.
  have hkeys := s.nodup_dueByAge before
  rw [← List.take_append_drop limit (s.dueByAge before), List.map_append, ← due_eq] at hkeys
  obtain ⟨-, -, hdisjoint⟩ := List.nodup_append.1 hkeys
  have htaken : ((s.dueByAge before).take limit).countP
      (fun e => decide (e.1 ∉ s.due before limit)) = 0 := by
    refine List.countP_eq_zero.2 fun e he => ?_
    have hmem : e.1 ∈ s.due before limit := s.due_eq before limit ▸ List.mem_map_of_mem he
    simp [hmem]
  have hstays : ((s.dueByAge before).drop limit).countP
      (fun e => decide (e.1 ∉ s.due before limit)) = ((s.dueByAge before).drop limit).length := by
    refine List.countP_eq_length.2 fun e he => decide_eq_true fun hmem => ?_
    exact hdisjoint e.1 hmem e.1 (List.mem_map_of_mem he) rfl
  calc (s.deleteBefore before limit).2.countBefore before
      = s.entries.countP fun e => isBefore before e && decide (e.1 ∉ s.due before limit) := by
        rw [deleteBefore_eq, countBefore, Table.filter, List.countP_filter]
    _ = (byAge s).countP fun e => isBefore before e && decide (e.1 ∉ s.due before limit) :=
        ((byAge_perm s).countP_eq _).symm
    _ = (s.dueByAge before).countP fun e => decide (e.1 ∉ s.due before limit) := by
        rw [dueByAge, List.countP_filter]
        exact List.countP_congr fun e _ => by rw [Bool.and_comm]
    _ = ((s.dueByAge before).drop limit).length := by
        rw [← List.take_append_drop limit (s.dueByAge before), List.countP_append,
          List.take_append_drop, htaken, hstays, Nat.zero_add]
    _ = s.countBefore before - min limit (s.countBefore before) := by
        rw [List.length_drop, length_dueByAge]
        omega

/-- **A batch leaves alone** what is not due. -/
theorem since_deleteBefore (s : MemoryStore) (before : Instant) (limit : Nat) :
    (s.deleteBefore before limit).2.since before = s.since before := by
  rw [deleteBefore_eq]
  refine Table.ext_get? fun key => ?_
  rw [since, since, Table.get?_filter, Table.get?_filter, Table.get?_filter]
  cases hr : s.get? key with
  | none => rfl
  | some r =>
    by_cases hkept : before ≤ r.createdAt
    · have hnot : key ∉ s.due before limit := by
        rw [due_eq]
        intro hmem
        obtain ⟨e, he, rfl⟩ := List.mem_map.1 hmem
        obtain ⟨hr', hbefore⟩ := get?_of_mem_dueByAge (List.mem_of_mem_take he)
        obtain rfl := Option.some.inj (hr.symm.trans hr')
        exact Instant.not_lt.2 hkept hbefore
      simp [Option.filter_some, hnot]
    · by_cases hmem : key ∈ s.due before limit <;> simp [Option.filter_some, hkept, hmem]

/-- **A batch takes as many of the due records as it may**, and leaves the others alone. -/
theorem deleteBefore_due (s : MemoryStore) (before : Instant) (limit : Nat) :
    (s.deleteBefore before limit).1 = min limit (s.countBefore before) ∧
      (s.deleteBefore before limit).2.countBefore before =
        s.countBefore before - min limit (s.countBefore before) ∧
      (s.deleteBefore before limit).2.since before = s.since before :=
  ⟨s.length_due before limit, s.countBefore_deleteBefore before limit, s.since_deleteBefore before limit⟩

end MemoryStore

/-! ## A whole run -/

namespace LockTable

/-- The locks that expire at a moment or later. -/
def since (t : LockTable RecordKey) (before : Instant) : LockTable RecordKey :=
  t.filter fun _ row => decide (before ≤ row.lockedUntil)

/-- How many locks expired before a moment. -/
def countExpired (t : LockTable RecordKey) (before : Instant) : Nat :=
  t.rows.entries.countP fun e => decide (e.2.lockedUntil < before)

theorem size_since (t : LockTable RecordKey) (before : Instant) :
    t.size = (t.since before).size + t.countExpired before :=
  t.rows.size_filter fun e => by simp [← Instant.not_lt]

end LockTable

namespace CleanupConfig

variable (config : CleanupConfig) (records : Part ε MemoryStore) (locks : Part ε (LockTable RecordKey))

/-- **The threshold of a run** that may not reach beyond `retained`: the creation of the first record
    beyond the limit, if that record is due as well. -/
def cutoff (s : MemoryStore) (retained : Instant) : Instant :=
  match s.nthOldest (config.maxRecords.toNat + 1) with
  | some t => if t < retained then t else retained
  | none => retained

theorem cutoff_le (s : MemoryStore) (retained : Instant) : config.cutoff s retained ≤ retained := by
  unfold cutoff
  split
  · split
    · next h => exact Instant.le_of_lt h
    · exact Instant.le_refl _
  · exact Instant.le_refl _

/-- A run removes no more records than it may. -/
theorem countBefore_cutoff (s : MemoryStore) (retained : Instant) :
    s.countBefore (config.cutoff s retained) ≤ config.maxRecords.toNat := by
  refine MemoryStore.countBefore_le fun t ht => ?_
  simp only [cutoff, ht]
  split
  · exact Instant.le_refl _
  · next h => exact Instant.not_lt.1 h

theorem firstBeyond_pos : 0 < config.firstBeyond := Nat.lt_min.2 ⟨Nat.succ_pos _, by decide⟩

/-- **Any threshold leaves** the record that the ordinal belongs to, and all that are not older. -/
theorem countBefore_threshold (s : MemoryStore) (retained : Instant) :
    s.countBefore (threshold retained (s.nthOldest config.firstBeyond)).1 < config.firstBeyond := by
  obtain ⟨n, hn⟩ := Nat.exists_eq_succ_of_ne_zero (Nat.ne_of_gt config.firstBeyond_pos)
  rw [hn]
  refine Nat.lt_succ_of_le (MemoryStore.countBefore_le fun t ht => ?_)
  simp only [ht, threshold]
  split
  · exact Instant.le_refl _
  · next h => exact Instant.not_lt.1 h

/-- **The threshold that a run finds** is this one, unless 64 bits are too few to tell the records from
    those beyond the limit. -/
theorem threshold_eq {s : MemoryStore}
    (hroom : config.maxRecords.toNat + 1 < Config.limit64 ∨ s.size + 1 < Config.limit64)
    (retained : Instant) :
    threshold retained (s.nthOldest config.firstBeyond) =
      (config.cutoff s retained, decide (config.cutoff s retained < retained)) := by
  have hsame : s.nthOldest config.firstBeyond = s.nthOldest (config.maxRecords.toNat + 1) := by
    unfold firstBeyond
    by_cases hfits : config.maxRecords.toNat + 1 ≤ Config.limit64 - 1
    · rw [Nat.min_eq_left hfits]
    · -- An ordinal that is too large for 64 bits is too large for the records, too.
      rw [MemoryStore.nthOldest_eq_none (by omega), MemoryStore.nthOldest_eq_none (by omega)]
  have hirrefl : ¬ retained < retained := Instant.lt_irrefl _
  rw [hsame]
  unfold threshold cutoff
  cases s.nthOldest (config.maxRecords.toNat + 1) with
  | none => simp [hirrefl]
  | some t => by_cases ht : t < retained <;> simp [ht, hirrefl]

/-- **Batches remove all that is due**, from the records `s` on, if enough of them can be full. -/
theorem removeRecords_run (before : Instant) {fullBatches : Nat}
    {s : MemoryStore} (henough : s.countBefore before < (fullBatches + 1) * config.batchSize.toNat)
    {removed : Nat} (hfits : removed + s.countBefore before < Config.limit64) {w : World ε}
    (hs : records.get w.env = s) :
    ∃ trace, (config.removeRecords (.memory records locks) before fullBatches removed).run w =
      (.value (.ok (removed + s.countBefore before)),
        { w with trace, env := records.set (s.since before) w.env }) := by
  induction fullBatches generalizing s removed w with
  | zero =>
    obtain ⟨hcount, hleft, hsince⟩ := s.deleteBefore_due before config.batchSize.toNat
    have hshort : min config.batchSize.toNat (s.countBefore before) = s.countBefore before := by omega
    rw [hshort] at hcount hleft
    rw [removeRecords]
    simp only [RetentionStore.memory, Action.on, Process.run_bind, Process.run_atomically, hs, hcount,
      addRemoved, if_pos hfits, Process.run_pure, Action.tell, Process.run_change]
    rw [if_pos (by omega), ← hsince, MemoryStore.since_of_countBefore (by omega)]
    exact ⟨_, rfl⟩
  | succ n ih =>
    obtain ⟨hcount, hleft, hsince⟩ := s.deleteBefore_due before config.batchSize.toNat
    have hfits' : removed + min config.batchSize.toNat (s.countBefore before) < Config.limit64 := by omega
    rw [removeRecords]
    simp only [RetentionStore.memory, Action.on, Process.run_bind, Process.run_atomically, hs, hcount,
      addRemoved, if_pos hfits', Process.run_pure, Action.tell, Process.run_change]
    by_cases hshort : s.countBefore before < config.batchSize.toNat
    · rw [Nat.min_eq_right (Nat.le_of_lt hshort)] at hleft ⊢
      rw [if_pos hshort, ← hsince, MemoryStore.since_of_countBefore (by omega)]
      exact ⟨_, rfl⟩
    · rw [Nat.min_eq_left (Nat.le_of_not_lt hshort)] at hleft hfits' ⊢
      rw [if_neg (Nat.lt_irrefl _)]
      rw [Nat.succ_mul] at henough
      obtain ⟨trace, hrun⟩ := @ih (s.deleteBefore before config.batchSize.toNat).2 (by omega)
        (removed + config.batchSize.toNat) (by omega)
        ⟨w.contexts, w.trace.tell (.cleanupBatch config.batchSize.toNat config.batchSize.toNat),
          records.set (s.deleteBefore before config.batchSize.toNat).2 w.env⟩ (records.get_set ..)
      refine ⟨trace, ?_⟩
      have htotal : removed + config.batchSize.toNat +
          (s.deleteBefore before config.batchSize.toNat).2.countBefore before =
            removed + s.countBefore before := by omega
      rw [htotal, hsince, records.set_set] at hrun
      exact hrun

/-- **The bound on the batches is never met**: a greater one changes nothing. -/
theorem removeRecords_bound (before : Instant) {n m : Nat} {s : MemoryStore}
    (hn : s.countBefore before < (n + 1) * config.batchSize.toNat)
    (hm : s.countBefore before < (m + 1) * config.batchSize.toNat) (removed : Nat) {w : World ε}
    (hs : records.get w.env = s) :
    (config.removeRecords (.memory records locks) before n removed).run w =
      (config.removeRecords (.memory records locks) before m removed).run w := by
  induction n generalizing m s removed w with
  | zero =>
    -- Either loop ends with its first batch.
    have hshort : s.countBefore before < config.batchSize.toNat := by omega
    obtain ⟨hcount, -, -⟩ := s.deleteBefore_due before config.batchSize.toNat
    rw [Nat.min_eq_right (Nat.le_of_lt hshort)] at hcount
    rw [removeRecords, removeRecords]
    simp only [RetentionStore.memory, Action.on, Process.run_bind, Process.run_atomically, hs, hcount,
      if_pos hshort]
  | succ n ih =>
    obtain ⟨hcount, hleft, -⟩ := s.deleteBefore_due before config.batchSize.toNat
    rw [removeRecords, removeRecords]
    simp only [RetentionStore.memory, Action.on, Process.run_bind, Process.run_atomically, hs, hcount]
    by_cases hshort : s.countBefore before < config.batchSize.toNat
    · rw [Nat.min_eq_right (Nat.le_of_lt hshort)]
      simp only [if_pos hshort]
    · rw [Nat.min_eq_left (Nat.le_of_not_lt hshort)] at hleft ⊢
      simp only [if_neg (Nat.lt_irrefl _)]
      cases m with
      | zero => omega
      | succ m =>
        rw [Nat.succ_mul] at hn hm
        by_cases hfits : removed + config.batchSize.toNat < Config.limit64
        · simp only [addRemoved, if_pos hfits, Process.run_pure, Action.tell, Process.run_change]
          exact ih (s := (s.deleteBefore before config.batchSize.toNat).2) (by omega) (by omega) _
            (records.get_set ..)
        · simp only [addRemoved, if_neg hfits, Process.run_crash]

/-- There is room for a batch more than there are records. -/
theorem countBefore_lt_batches (hconfig : config.check = .ok ()) {s : MemoryStore} (before : Instant)
    {fullBatches : Nat} (h : s.size ≤ fullBatches) :
    s.countBefore before < (fullBatches + 1) * config.batchSize.toNat := by
  have hpositive : 0 < config.batchSize.toNat := by
    refine Nat.pos_of_ne_zero fun hzero => ?_
    rw [check, if_pos (UInt64.toNat_inj.1 hzero)] at hconfig
    cases hconfig
  calc s.countBefore before
      ≤ s.size := List.countP_le_length
    _ < fullBatches + 1 := Nat.lt_succ_of_le h
    _ ≤ (fullBatches + 1) * config.batchSize.toNat := Nat.le_mul_of_pos_right _ hpositive

/-- The world without what is older than a moment, and with another trace. -/
def leaving (before : Instant) (trace : Trace) (w : World ε) : World ε where
  contexts := w.contexts
  trace
  env := locks.set ((locks.get w.env).since before) (records.set ((records.get w.env).since before) w.env)

/-- What is reported of removing what is older than a moment. -/
def reporting (before : Instant) (limitReached : Bool) (w : World ε) : CleanupReport where
  threshold := some before
  removedRecords := (records.get w.env).countBefore before
  removedLocks := (locks.get w.env).countExpired before
  limitReached

/-- **What a run comes to**, from the records `s` and the locks `t` on. -/
structure Cleaned (now retained : Instant) (s s' : MemoryStore) (t t' : LockTable RecordKey)
    (report : CleanupReport) : Prop where
  threshold : report.threshold = some (config.cutoff s retained)
  /-- The records before the threshold go, and no others. -/
  records : ∀ key, s'.get? key =
    (s.get? key).filter fun r => decide (config.cutoff s retained ≤ r.createdAt)
  /-- The locks that expired before the threshold go, and no others. -/
  locks : ∀ key, t'.row? key =
    (t.row? key).filter fun row => decide (config.cutoff s retained ≤ row.lockedUntil)
  removedRecords : s.size = s'.size + report.removedRecords
  removedLocks : t.size = t'.size + report.removedLocks
  limited : report.removedRecords ≤ config.maxRecords.toNat
  limitReached : report.limitReached = true ↔ config.cutoff s retained < retained
  /-- Where the limit is not reached, no record is left that is older than it may be. -/
  complete : report.limitReached = false → ∀ key r, s'.get? key = some r → retained ≤ r.createdAt
  /-- Locks that are held are left. -/
  held : ∀ key row, t.row? key = some row → now < row.lockedUntil → t'.row? key = some row

variable {config records locks}

/-- **What is left and reported** is as told. -/
theorem cleaned_leaving (hapart : records.Apart locks) {now retained : Instant} (hretained : retained ≤ now)
    (trace : Trace) (w : World ε) :
    config.Cleaned now retained (records.get w.env)
      (records.get (leaving records locks (config.cutoff (records.get w.env) retained) trace w).env)
      (locks.get w.env)
      (locks.get (leaving records locks (config.cutoff (records.get w.env) retained) trace w).env)
      (reporting records locks (config.cutoff (records.get w.env) retained)
        (decide (config.cutoff (records.get w.env) retained < retained)) w) := by
  simp only [leaving, locks.get_set, hapart.get_set_left, records.get_set]
  exact {
    threshold := rfl
    records := fun _ => Table.get?_filter ..
    locks := fun _ => LockTable.row?_filter ..
    removedRecords := MemoryStore.size_since
    removedLocks := LockTable.size_since ..
    limited := config.countBefore_cutoff ..
    limitReached := decide_eq_true_iff
    complete := fun hnot key r hr => by
      have hle : retained ≤ config.cutoff (records.get w.env) retained :=
        Instant.not_lt.1 (of_decide_eq_false hnot)
      rw [MemoryStore.since, Table.get?_filter, Option.filter_eq_some_iff] at hr
      exact Instant.le_trans hle (of_decide_eq_true hr.2)
    held := fun key row hrow hvalid => by
      have hle : config.cutoff (records.get w.env) retained ≤ now :=
        Instant.le_trans (config.cutoff_le ..) hretained
      have hkept : config.cutoff (records.get w.env) retained ≤ row.lockedUntil :=
        Instant.le_trans hle (Instant.le_of_lt hvalid)
      rw [LockTable.since, LockTable.row?_filter, hrow, Option.filter_some, if_pos (decide_eq_true hkept)] }

/-- **Removing everything before a moment**, whatever the size of the batches. -/
theorem removeBefore_run (hapart : records.Apart locks) (hconfig : config.check = .ok ())
    (before : Instant) (limitReached : Bool) {w : World ε}
    (hfits : (records.get w.env).countBefore before < Config.limit64) :
    ∃ trace, (config.removeBefore (.memory records locks) before limitReached).run w =
      (.value (.ok (reporting records locks before limitReached w)), leaving records locks before trace w) := by
  let w₁ : World ε := { w with trace := w.trace.tell (.cleanupStarted before) }
  have hbound : (RetentionStore.memory records locks).fullBatches.run w₁ =
      (.value (records.get w.env).size, w₁) := rfl
  have hfits₁ : 0 + (records.get w.env).countBefore before < Config.limit64 := by omega
  obtain ⟨trace, hrun⟩ := config.removeRecords_run records locks before (w := w₁)
    (config.countBefore_lt_batches hconfig before (Nat.le_refl _)) hfits₁ rfl
  rw [Nat.zero_add] at hrun
  have hdelete : ((RetentionStore.memory records locks).deleteLocks before).run
      { w₁ with trace, env := records.set ((records.get w.env).since before) w₁.env } =
        (.value (.ok ((locks.get w.env).countExpired before)), leaving records locks before trace w) := by
    have hcount : (locks.get w.env).size - ((locks.get w.env).since before).size =
        (locks.get w.env).countExpired before := by
      have := (locks.get w.env).size_since before
      omega
    simp only [RetentionStore.memory, Action.on, Process.run_atomically, LockTable.deleteBefore,
      hapart.get_set_right, ← hcount]
    rfl
  unfold removeBefore
  simp only [Action.tell, Process.run_bind, Process.run_change]
  rw [hbound]
  simp only [hrun, hdelete, Process.run_bind, Process.run_change]
  exact ⟨_, rfl⟩

/-- **A run**, with the threshold that it finds. -/
theorem cleanUp_found (hapart : records.Apart locks) (hconfig : config.check = .ok ())
    {now retained : Instant} (hretained : now.subtract? config.retention = some retained) (w : World ε)
    (hsome : (records.get w.env).size ≠ 0) {before : Instant} {limitReached : Bool}
    (hfound : threshold retained ((records.get w.env).nthOldest config.firstBeyond) =
      (before, limitReached)) :
    ∃ trace, (config.cleanUp (.memory records locks) now).run w =
      (.value (.ok (reporting records locks before limitReached w)), leaving records locks before trace w) := by
  have hfits : (records.get w.env).countBefore before < Config.limit64 := by
    have hcount := config.countBefore_threshold (records.get w.env) retained
    rw [hfound] at hcount
    exact Nat.lt_of_lt_of_le hcount (Nat.le_trans (Nat.min_le_right ..) (Nat.sub_le ..))
  have hnth : ((RetentionStore.memory records locks).nthOldest config.firstBeyond).run w =
      (.value (.ok ((records.get w.env).nthOldest config.firstBeyond)), w) := rfl
  have hclean : ∃ trace, (config.clean (.memory records locks) now).run w =
      (.value (.ok (reporting records locks before limitReached w)),
        leaving records locks before trace w) := by
    simp only [clean, hretained, Process.run_bind, hnth, hfound]
    split
    · exact removeBefore_run hapart hconfig _ _ (w := { w with trace := w.trace.tell _ }) hfits
    · exact removeBefore_run hapart hconfig _ _ hfits
  obtain ⟨trace, hrun⟩ := hclean
  have hcount : (RetentionStore.memory records locks).count.run w =
      (.value (.ok (records.get w.env).size), w) := rfl
  refine ⟨trace, ?_⟩
  cases hsize : (records.get w.env).size with
  | zero => exact absurd hsize hsome
  | succ n => simp only [cleanUp, hconfig, Process.run_bind, hcount, hsize, hrun, Process.run_pure]

/-- **A run**, once its threshold is known. -/
theorem cleanUp_run (hapart : records.Apart locks) (hconfig : config.check = .ok ())
    {now retained : Instant} (hretained : now.subtract? config.retention = some retained) (w : World ε)
    (hsome : (records.get w.env).size ≠ 0)
    (hroom : config.maxRecords.toNat + 1 < Config.limit64 ∨
      (records.get w.env).size + 1 < Config.limit64) :
    ∃ trace, (config.cleanUp (.memory records locks) now).run w =
      (.value (.ok (reporting records locks (config.cutoff (records.get w.env) retained)
          (decide (config.cutoff (records.get w.env) retained < retained)) w)),
        leaving records locks (config.cutoff (records.get w.env) retained) trace w) :=
  cleanUp_found hapart hconfig hretained w hsome (config.threshold_eq hroom retained)

/-- **A run of retention is exact.**  Where there are records, and the period does not reach back behind
    the first moment there is, a run answers.  What it removes and reports is told by `Cleaned`, and
    nothing else in the environment changes.  The answer and what is left are the same for every size of
    the batches; and the loop over the batches ends by itself, since the bound on their number is never
    met.

    Ordinals are kept in 64 bits: either that of the first record beyond the limit fits, or there are
    fewer records than that. -/
theorem cleanUp_exact (hapart : records.Apart locks) (hconfig : config.check = .ok ())
    {now retained : Instant} (hretained : now.subtract? config.retention = some retained) (w : World ε)
    (hsome : (records.get w.env).size ≠ 0)
    (hroom : config.maxRecords.toNat + 1 < Config.limit64 ∨
      (records.get w.env).size + 1 < Config.limit64) :
    ∃ report w', (config.cleanUp (.memory records locks) now).run w = (.value (.ok report), w') ∧
      config.Cleaned now retained (records.get w.env) (records.get w'.env) (locks.get w.env)
        (locks.get w'.env) report ∧
      w'.contexts = w.contexts ∧
      w'.env = locks.set (locks.get w'.env) (records.set (records.get w'.env) w.env) ∧
      (∀ batch ≠ 0, ∃ trace,
        (CleanupConfig.cleanUp { config with batchSize := batch } (.memory records locks) now).run w =
          (.value (.ok report), { w' with trace })) ∧
      ∀ before removed fullBatches, (records.get w.env).size ≤ fullBatches →
        (config.removeRecords (.memory records locks) before fullBatches removed).run w =
          (config.removeRecords (.memory records locks) before (records.get w.env).size removed).run w := by
  obtain ⟨trace, hrun⟩ := cleanUp_run hapart hconfig hretained w hsome hroom
  refine ⟨_, _, hrun, cleaned_leaving hapart (Instant.le_of_subtract? hretained) trace w, rfl, ?_,
    fun batch hbatch => ?_, fun before removed fullBatches hbound => ?_⟩
  · simp only [leaving, locks.get_set, hapart.get_set_left, records.get_set]
  · have hcheck : CleanupConfig.check { config with batchSize := batch } = .ok () := by
      unfold check at hconfig ⊢
      rw [if_neg hbatch]
      split at hconfig
      · cases hconfig
      · exact hconfig
    exact cleanUp_run hapart hcheck hretained w hsome hroom
  · exact config.removeRecords_bound records locks before
      (config.countBefore_lt_batches hconfig before hbound)
      (config.countBefore_lt_batches hconfig before (Nat.le_refl _)) removed rfl

end CleanupConfig

/-! ## An archive -/

namespace Archive

/-- The records. -/
def records : Part (MemoryStore × LockTable RecordKey) MemoryStore where
  get := Prod.fst
  set s e := (s, e.2)

/-- The locks. -/
def locks : Part (MemoryStore × LockTable RecordKey) (LockTable RecordKey) where
  get := Prod.snd
  set t e := (e.1, t)

/-- The beginning of a day, counting from 1970-01-01. -/
def day (n : Nat) : Instant := (Instant.ofNanos? (n * secondsPerDay * nanosPerSecond)).getD .epoch

/-- A record of one instance, created on a day. -/
def record (id : String) (created : Nat) : RecordKey × StoredRecord :=
  (⟨"transfer", "req-42", id⟩, ⟨"null", false, day created⟩)

/-- Four records, two of them of one day, a lock that has expired and one that is held. -/
def stock : World (MemoryStore × LockTable RecordKey) where
  env := (Table.ofList [record "a" 3, record "b" 1, record "c" 3, record "d" 2],
    ((default : LockTable RecordKey).write (.lock "transfer" "req-41") (day 2)).write
      (.lock "transfer" "req-42") (day 61))

theorem byAge_stock : MemoryStore.byAge stock.env.1 =
    [record "b" 1, record "d" 2, record "a" 3, record "c" 3] := by
  have hentries : stock.env.1.entries = [record "a" 3, record "b" 1, record "c" 3, record "d" 2] := by
    decide +kernel
  have hsame : day 3 ≤ day 3 := by decide +kernel
  have hfirst : ¬ day 3 ≤ day 1 := by decide +kernel
  have hsecond : ¬ day 3 ≤ day 2 := by decide +kernel
  have hearlier : day 1 ≤ day 2 := by decide +kernel
  rw [MemoryStore.byAge, hentries]
  simp [List.mergeSort, List.MergeSort.Internal.splitInTwo, record, hsame, hfirst, hsecond, hearlier]

/-- No more than two records, one at a time. -/
def config : CleanupConfig := { maxRecords := 2, batchSize := 1 }

/-- **Two records of four go**, all of them due: the third oldest one moves the threshold back. -/
theorem cleanUp_exact_limited : ∃ report w',
    (config.cleanUp (.memory records locks) (day 60)).run stock = (.value (.ok report), w') ∧
    report.threshold = some (day 3) ∧ report.limitReached = true ∧ report.removedRecords ≤ 2 ∧
    w'.env.1.get? ⟨"transfer", "req-42", "b"⟩ = none ∧
    w'.env.1.get? ⟨"transfer", "req-42", "c"⟩ = some ⟨"null", false, day 3⟩ ∧
    w'.env.2.row? (.lock "transfer" "req-41") = none ∧
    (w'.env.2.row? (.lock "transfer" "req-42")).isSome := by
  have hapart : records.Apart locks := ⟨fun _ _ => rfl, fun _ _ => rfl⟩
  have hconfig : config.check = .ok () := rfl
  have hretained : (day 60).subtract? config.retention = some (day 30) := by decide +kernel
  obtain ⟨report, w', hrun, hcleaned, -⟩ := CleanupConfig.cleanUp_exact hapart hconfig hretained stock
    (by decide +kernel) (.inl (by decide))
  have hthird : (records.get stock.env).nthOldest (config.maxRecords.toNat + 1) = some (day 3) := by
    show (stock.env.1.byAge[2]?).map _ = _
    rw [byAge_stock]
    rfl
  have hcutoff : config.cutoff (records.get stock.env) (day 30) = day 3 := by
    rw [CleanupConfig.cutoff, hthird]
    decide +kernel
  have hthreshold := hcleaned.threshold
  have hlimitReached := hcleaned.limitReached
  have hrecords := hcleaned.records
  have hlocks := hcleaned.locks
  rw [hcutoff] at hthreshold hlimitReached hrecords hlocks
  refine ⟨report, w', hrun, hthreshold, hlimitReached.2 (by decide +kernel), hcleaned.limited,
    (hrecords _).trans ?_, (hrecords _).trans ?_, (hlocks _).trans ?_, ?_⟩
  · decide +kernel
  · decide +kernel
  · decide +kernel
  · exact (congrArg Option.isSome (hlocks _)).trans (by decide +kernel)

end Archive

end Idempotence
