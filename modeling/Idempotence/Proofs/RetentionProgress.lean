/-
  Progress of retention — how far runs of retention get that are repeated.

  1. **Crowds** — a run takes the records of one moment all or none, and takes no more than it may.  So a
     moment is a crowd where more records were created than that.

  2. **One run** — it removes nothing only if the oldest of all moments is a crowd that is due
     (`removes_none_iff`).  Its threshold is never later than a crowd (`found_le_of_crowd`).

  3. **Runs in turn** — `records_inTurn`: each run before the first crowd removes a record, so as many runs
     as there are records before it get there, and no run gets any farther.
-/
import Idempotence.Proofs.RetentionInMemory

namespace Idempotence

variable {ε : Type}

/-! ## Ranks and moments -/

namespace MemoryStore

variable {s : MemoryStore} {t before : Instant}

/-- How many records were created at a moment. -/
def countAt (s : MemoryStore) (t : Instant) : Nat := s.entries.countP fun e => decide (e.2.createdAt = t)

/-- How many records were created up to a moment. -/
theorem countP_le (s : MemoryStore) (t : Instant) :
    s.entries.countP (fun e => decide (e.2.createdAt ≤ t)) = s.countBefore t + s.countAt t := by
  unfold countBefore countAt
  induction s.entries with
  | nil => rfl
  | cons e rest ih =>
    have hsplit : e.2.createdAt ≤ t ↔ e.2.createdAt < t ∨ e.2.createdAt = t := by
      refine ⟨fun hle => ?_, fun h => h.elim Instant.le_of_lt fun heq => heq ▸ Instant.le_refl _⟩
      exact Instant.lt_or_eq_of_le hle
    have hirrefl : ¬ t < t := Instant.lt_irrefl _
    simp only [List.countP_cons, ih, isBefore, decide_eq_true_eq, hsplit]
    by_cases heq : e.2.createdAt = t
    · simp [heq, hirrefl]
      omega
    · by_cases hlt : e.2.createdAt < t <;> simp [heq, hlt]
      omega

/-- What was created up to a moment was created before any later one. -/
theorem countBefore_lt (h : t < before) (s : MemoryStore) :
    s.countBefore t + s.countAt t ≤ s.countBefore before := by
  rw [← countP_le]
  refine List.countP_mono_left fun e _ he => ?_
  exact decide_eq_true (Instant.lt_of_le_of_lt (of_decide_eq_true he) h)

/-- **As many records as were created up to a moment** are not later than that. -/
theorem nthOldest_le {n : Nat} (hpos : 0 < n) (hn : n ≤ s.countBefore t + s.countAt t) :
    ∃ t', s.nthOldest n = some t' ∧ t' ≤ t := by
  obtain ⟨n, rfl⟩ := Nat.exists_eq_succ_of_ne_zero (Nat.ne_of_gt hpos)
  rw [← countP_le] at hn
  -- If it were later, all that was created up to `t` would be among the `n` records before it.
  false_or_by_contra
  next hnone =>
    refine absurd hn (Nat.not_le.2 (Nat.lt_succ_of_le (countP_le_rank (fun e e' hle he' => ?_) fun e hnth => ?_)))
    · exact decide_eq_true (Instant.le_trans hle (of_decide_eq_true he'))
    · exact decide_eq_false fun hle => hnone ⟨_, by simp [nthOldest, hnth], hle⟩

/-- **Up to the moment of the `n`-th oldest record** at least `n` were created. -/
theorem le_of_nthOldest {n : Nat} (h : s.nthOldest n = some t) : n ≤ s.countBefore t + s.countAt t := by
  cases n with
  | zero => exact Nat.zero_le _
  | succ n =>
    obtain ⟨e, hnth, rfl⟩ := Option.map_eq_some_iff.1 h
    obtain ⟨hn, rfl⟩ := List.getElem?_eq_some_iff.1 hnth
    rw [← countP_le, ← (byAge_perm s).countP_eq]
    -- None of the `n + 1` oldest is later than the last one of them.
    have htaken : ((byAge s).take (n + 1)).countP
        (fun e => decide (e.2.createdAt ≤ (byAge s)[n].2.createdAt)) = n + 1 := by
      rw [List.countP_eq_length.2 fun e he => ?_, List.length_take, Nat.min_eq_left hn]
      obtain ⟨i, hi, rfl⟩ := List.mem_iff_getElem.1 he
      have hin : i ≤ n := Nat.le_of_lt_succ (Nat.lt_of_lt_of_le hi (List.length_take_le ..))
      rw [List.getElem_take]
      rcases Nat.lt_or_eq_of_le hin with hlt | rfl
      · exact decide_eq_true (List.pairwise_iff_getElem.1 (byAge_sorted s) i n _ hn hlt)
      · exact decide_eq_true (Instant.le_refl _)
    calc n + 1 = ((byAge s).take (n + 1)).countP
          (fun e => decide (e.2.createdAt ≤ (byAge s)[n].2.createdAt)) := htaken.symm
      _ ≤ (byAge s).countP (fun e => decide (e.2.createdAt ≤ (byAge s)[n].2.createdAt)) :=
          (List.take_sublist ..).countP_le

/-! ### Records since a moment -/

variable {a b : Instant}

theorem since_since (h : a ≤ b) (s : MemoryStore) : (s.since a).since b = s.since b := by
  refine Table.ext_get? fun key => ?_
  simp only [since, Table.get?_filter]
  cases hr : s.get? key with
  | none => rfl
  | some r =>
    by_cases hb : b ≤ r.createdAt
    · have ha : a ≤ r.createdAt := Instant.le_trans h hb
      simp [Option.filter_some, ha, hb]
    · by_cases ha : a ≤ r.createdAt <;> simp [Option.filter_some, ha, hb]

/-- What was created before a moment is what was created before an earlier one, and what is left then. -/
theorem countBefore_since (h : a ≤ b) (s : MemoryStore) :
    s.countBefore b = (s.since a).countBefore b + s.countBefore a := by
  have hwhole : s.size = (s.since b).size + s.countBefore b := size_since
  have hearly : s.size = (s.since a).size + s.countBefore a := size_since
  have hlate : (s.since a).size = ((s.since a).since b).size + (s.since a).countBefore b := size_since
  rw [since_since h] at hlate
  omega

theorem countBefore_mono (h : a ≤ b) (s : MemoryStore) : s.countBefore a ≤ s.countBefore b := by
  have := s.countBefore_since h
  omega

theorem countAt_since_le (s : MemoryStore) (a t : Instant) : (s.since a).countAt t ≤ s.countAt t :=
  List.filter_sublist.countP_le

theorem countAt_since (h : a ≤ t) (s : MemoryStore) : (s.since a).countAt t = s.countAt t := by
  rw [countAt, since, Table.filter, List.countP_filter]
  refine List.countP_congr fun e _ => ?_
  have hkept : e.2.createdAt = t → a ≤ e.2.createdAt := fun heq => heq ▸ h
  simp only [Bool.and_eq_true, decide_eq_true_eq, and_iff_left_iff_imp]
  exact hkept

end MemoryStore

/-! ## Crowds -/

namespace CleanupConfig

variable {config : CleanupConfig} {s : MemoryStore} {retained t : Instant}

/-- **A crowd** is a moment when more records were created than a run may remove. -/
def Crowd (config : CleanupConfig) (s : MemoryStore) (t : Instant) : Prop := config.firstBeyond ≤ s.countAt t

instance (config : CleanupConfig) (s : MemoryStore) (t : Instant) : Decidable (config.Crowd s t) := Nat.decLe ..

/-- A crowd has a record. -/
theorem Crowd.entry (h : config.Crowd s t) : ∃ e ∈ s.entries, e.2.createdAt = t := by
  have hpos : 0 < s.countAt t := Nat.lt_of_lt_of_le config.firstBeyond_pos h
  obtain ⟨e, he, heq⟩ := List.countP_pos_iff.1 hpos
  exact ⟨e, he, of_decide_eq_true heq⟩

/-- **The threshold that a run finds**, for records since `retained` are not to be removed. -/
def horizon (config : CleanupConfig) (s : MemoryStore) (retained : Instant) : Instant :=
  (threshold retained (s.nthOldest config.firstBeyond)).1

theorem horizon_le (config : CleanupConfig) (s : MemoryStore) (retained : Instant) :
    config.horizon s retained ≤ retained := RetentionStore.Keeps.threshold_le (Instant.le_refl _) _

/-- **No run gets behind a crowd.** -/
theorem horizon_le_of_crowd (hdue : t < retained) (hcrowd : config.Crowd s t) :
    config.horizon s retained ≤ t := by
  obtain ⟨t', hnth, hle⟩ := MemoryStore.nthOldest_le config.firstBeyond_pos
    (Nat.le_trans hcrowd (Nat.le_add_left _ (s.countBefore t)))
  have hdue' : t' < retained := Instant.lt_of_le_of_lt hle hdue
  simp only [horizon, hnth, threshold, if_pos hdue']
  exact hle

/-- **A run that moves its threshold back** to the oldest of all records has met a crowd. -/
theorem crowd_horizon (hdue : config.horizon s retained < retained)
    (hnone : s.countBefore (config.horizon s retained) = 0) :
    config.Crowd s (config.horizon s retained) := by
  have hirrefl : ¬ retained < retained := Instant.lt_irrefl _
  cases hnth : s.nthOldest config.firstBeyond with
  | none =>
    simp only [horizon, hnth, threshold] at hdue
    exact absurd hdue hirrefl
  | some t =>
    have hfound : config.horizon s retained = t := by
      simp only [horizon, hnth, threshold] at hdue ⊢
      split
      · rfl
      · next hnot =>
        rw [if_neg hnot] at hdue
        exact absurd hdue hirrefl
    rw [hfound] at hnone ⊢
    have hrank := MemoryStore.le_of_nthOldest hnth
    show config.firstBeyond ≤ s.countAt t
    omega

/-- **When a run removes nothing**, though something is due: the oldest of all moments is a crowd. -/
theorem removes_none_iff (hsome : 0 < s.countBefore retained) :
    s.countBefore (config.horizon s retained) = 0 ↔
      ∃ t < retained, config.Crowd s t ∧ s.countBefore t = 0 := by
  constructor
  · intro hnone
    have hne : config.horizon s retained ≠ retained := by
      intro heq
      rw [heq] at hnone
      omega
    have hdue : config.horizon s retained < retained := by
      rcases Instant.lt_or_eq_of_le (config.horizon_le s retained) with hlt | heq
      · exact hlt
      · exact absurd heq hne
    exact ⟨_, hdue, crowd_horizon hdue hnone, hnone⟩
  · rintro ⟨t, hdue, hcrowd, hnone⟩
    have hle := s.countBefore_since (horizon_le_of_crowd hdue hcrowd)
    omega

/-- **Where runs come to a standstill**: at the first crowd, or where nothing more is due. -/
structure Standstill (config : CleanupConfig) (s : MemoryStore) (retained stop : Instant) : Prop where
  le : stop ≤ retained
  crowd : stop < retained → config.Crowd s stop
  first : ∀ t < stop, ¬ config.Crowd s t

/-- There is a moment of standstill: of the crowds, each has fewer records before it than a later one. -/
theorem exists_standstill (config : CleanupConfig) (s : MemoryStore) (retained : Instant) :
    ∃ stop, config.Standstill s retained stop := by
  -- By induction on how many records are before `retained`.  There are fewer before a crowd that is due, so
  -- any earlier crowd is found by looking there.
  induction hn : s.countBefore retained using Nat.strongRecOn generalizing retained with
  | ind n ih =>
    by_cases hcrowd : ∃ t < retained, config.Crowd s t
    · obtain ⟨t, ht, hcrowd⟩ := hcrowd
      have hcount := s.countBefore_lt ht
      have hpos : 0 < s.countAt t := Nat.lt_of_lt_of_le config.firstBeyond_pos hcrowd
      obtain ⟨stop, hle, hstop, hfirst⟩ := ih (s.countBefore t) (by omega) t rfl
      refine ⟨stop, Instant.le_trans hle (Instant.le_of_lt ht), fun _ => ?_, hfirst⟩
      rcases Instant.lt_or_eq_of_le hle with hlt | heq
      · exact hstop hlt
      · exact heq ▸ hcrowd
    · exact ⟨retained, Instant.le_refl _, fun hlt => absurd hlt (Instant.lt_irrefl _),
        fun t ht hcrowd' => hcrowd ⟨t, ht, hcrowd'⟩⟩

/-- A run does not move the standstill. -/
theorem Standstill.since {stop a : Instant} (h : config.Standstill s retained stop) (ha : a ≤ stop) :
    config.Standstill (s.since a) retained stop where
  le := h.le
  crowd hdue := by
    show config.firstBeyond ≤ (s.since a).countAt stop
    rw [MemoryStore.countAt_since ha]
    exact h.crowd hdue
  first t ht hcrowd := h.first t ht (Nat.le_trans hcrowd (s.countAt_since_le a t))

/-- A run does not get behind the standstill. -/
theorem Standstill.horizon_le {stop : Instant} (h : config.Standstill s retained stop) :
    config.horizon s retained ≤ stop := by
  rcases Instant.lt_or_eq_of_le h.le with hlt | heq
  · exact horizon_le_of_crowd hlt (h.crowd hlt)
  · exact heq ▸ config.horizon_le s retained

/-- A run comes closer to the standstill: where records are before it, some are removed. -/
theorem Standstill.removes {stop : Instant} (h : config.Standstill s retained stop)
    (hsome : 0 < s.countBefore stop) : 0 < s.countBefore (config.horizon s retained) := by
  have hdue : 0 < s.countBefore retained := Nat.lt_of_lt_of_le hsome (s.countBefore_mono h.le)
  refine Nat.pos_of_ne_zero fun hnone => ?_
  obtain ⟨t, -, hcrowd, hzero⟩ := (removes_none_iff hdue).1 hnone
  have hle : stop ≤ t := Instant.not_lt.1 fun hlt => h.first t hlt hcrowd
  have := s.countBefore_mono hle
  omega

/-! ## One run -/

variable {records : Part ε MemoryStore} {locks : Part ε (LockTable RecordKey)}

/-- **What one run does to the records**, whatever they are. -/
theorem cleanUp_horizon (hapart : records.Apart locks) (hconfig : config.check = .ok ())
    {now retained : Instant} (hretained : now.subtract? config.retention = some retained) (w : World ε) :
    ∃ report w', (config.cleanUp (.memory records locks) now).run w = (.value (.ok report), w') ∧
      records.get w'.env = (records.get w.env).since (config.horizon (records.get w.env) retained) ∧
      report.removedRecords = (records.get w.env).countBefore (config.horizon (records.get w.env) retained) := by
  by_cases hsome : (records.get w.env).size = 0
  · -- Where there is no record, there is none to be removed.
    have hnone : (records.get w.env).countBefore (config.horizon (records.get w.env) retained) = 0 :=
      Nat.le_zero.1 (hsome ▸ List.countP_le_length)
    have hcount : (RetentionStore.memory records locks).count.run w = (.value (.ok 0), w) := by
      rw [← hsome]
      rfl
    refine ⟨{}, { w with trace := w.trace.tell .nothingToClean }, ?_, ?_, hnone.symm⟩
    · simp only [cleanUp, hconfig, Process.run_bind, hcount]
      rfl
    · exact (MemoryStore.since_of_countBefore hnone).symm
  · obtain ⟨trace, hrun⟩ := cleanUp_found hapart hconfig hretained w hsome
      (Prod.eta (threshold retained ((records.get w.env).nthOldest config.firstBeyond))).symm
    refine ⟨_, _, hrun, ?_, rfl⟩
    simp only [leaving, hapart.get_set_left, records.get_set]
    rfl

/-! ## Runs in turn -/

/-- **Runs in turn** remove what was created before the standstill, one record each at least, and nothing
    else. -/
theorem records_inTurn (hapart : records.Apart locks) (hconfig : config.check = .ok ())
    {now retained stop : Instant} (hretained : now.subtract? config.retention = some retained) (n : Nat)
    {w : World ε} (hstop : config.Standstill (records.get w.env) retained stop) :
    (records.get (Process.inTurn (List.replicate n (config.cleanUp (.memory records locks) now)) w).env).since
        stop = (records.get w.env).since stop ∧
      ((records.get w.env).countBefore stop ≤ n →
        records.get (Process.inTurn (List.replicate n (config.cleanUp (.memory records locks) now)) w).env =
          (records.get w.env).since stop) := by
  -- By induction on the number of runs, from any world: the first one does not move the standstill, and
  -- takes one of the records before it at least, if there are any.
  induction n generalizing w with
  | zero =>
    exact ⟨rfl, fun hnone => (MemoryStore.since_of_countBefore (Nat.le_zero.1 hnone)).symm⟩
  | succ n ih =>
    obtain ⟨report, w', hrun, hrecords, -⟩ := cleanUp_horizon hapart hconfig hretained w
    have hle := hstop.horizon_le
    have hstop' := hrecords ▸ hstop.since hle
    obtain ⟨hsince, hall⟩ := ih hstop'
    have hcount := (records.get w.env).countBefore_since hle
    rw [hrecords, MemoryStore.since_since hle] at hsince hall
    have hstep : Process.inTurn (List.replicate (n + 1) (config.cleanUp (.memory records locks) now)) w =
        Process.inTurn (List.replicate n (config.cleanUp (.memory records locks) now)) w' := by
      simp only [Process.inTurn, List.replicate_succ, List.foldl_cons, hrun]
    rw [hstep]
    refine ⟨hsince, fun hbound => hall ?_⟩
    rcases Nat.eq_zero_or_pos ((records.get w.env).countBefore stop) with hzero | hsome
    · omega
    · have := hstop.removes hsome
      omega

/-- **Retention makes progress, but does not get past a crowd.**  Every run answers.  Where something is
    due, it removes a record, unless the oldest of all moments is a crowd.  If no moment that is due is a
    crowd, nothing is left that is due after as many runs as there were such records.  But what was
    created in a crowd that is due, or later, is there after any number of runs. -/
theorem cleanUp_progress (hapart : records.Apart locks) (hconfig : config.check = .ok ())
    {now retained : Instant} (hretained : now.subtract? config.retention = some retained) (w : World ε) :
    (∃ report w', (config.cleanUp (.memory records locks) now).run w = (.value (.ok report), w') ∧
      (records.get w.env).size = (records.get w'.env).size + report.removedRecords ∧
      ((∃ key r, (records.get w.env).get? key = some r ∧ r.createdAt < retained) →
        (report.removedRecords = 0 ↔ ∃ t < retained, config.Crowd (records.get w.env) t ∧
          ∀ key r, (records.get w.env).get? key = some r → t ≤ r.createdAt))) ∧
    ((∀ t < retained, ¬ config.Crowd (records.get w.env) t) →
      ∀ n, (records.get w.env).countBefore retained ≤ n → ∀ key r,
        (records.get (Process.inTurn (List.replicate n
          (config.cleanUp (.memory records locks) now)) w).env).get? key = some r →
        retained ≤ r.createdAt) ∧
    ∀ t < retained, config.Crowd (records.get w.env) t →
      ∀ n key r, (records.get w.env).get? key = some r → t ≤ r.createdAt →
        (records.get (Process.inTurn (List.replicate n
          (config.cleanUp (.memory records locks) now)) w).env).get? key = some r := by
  obtain ⟨report, w', hrun, hrecords, hremoved⟩ := cleanUp_horizon hapart hconfig hretained w
  refine ⟨⟨report, w', hrun, ?_, ?_⟩, ?_, ?_⟩
  · rw [hrecords, hremoved]
    exact MemoryStore.size_since
  · rintro ⟨key, r, hr, hdue⟩
    have hsome : 0 < (records.get w.env).countBefore retained := by
      refine Nat.pos_of_ne_zero fun hzero => ?_
      have hle := MemoryStore.countBefore_eq_zero_iff.1 hzero key r hr
      exact Instant.not_lt.2 hle hdue
    simp only [hremoved, removes_none_iff hsome, MemoryStore.countBefore_eq_zero_iff]
  · intro hfree n hbound
    have hstop : config.Standstill (records.get w.env) retained retained :=
      ⟨Instant.le_refl _, fun hlt => absurd hlt (Instant.lt_irrefl _), hfree⟩
    obtain ⟨-, hall⟩ := records_inTurn hapart hconfig hretained n hstop
    have hnone := (records.get w.env).countBefore_since (Instant.le_refl retained)
    rw [hall hbound]
    exact MemoryStore.countBefore_eq_zero_iff.1 (by omega)
  · intro t _ hcrowd n key r hr ht
    obtain ⟨stop, hstop⟩ := exists_standstill config (records.get w.env) retained
    obtain ⟨hsince, -⟩ := records_inTurn hapart hconfig hretained n hstop
    have hle : stop ≤ r.createdAt := by
      have hstop_le : stop ≤ t := Instant.not_lt.1 fun hlt => hstop.first t hlt hcrowd
      exact Instant.le_trans hstop_le ht
    have hkept : ((records.get w.env).since stop).get? key = some r := by
      rw [MemoryStore.since, Table.get?_filter, hr, Option.filter_some, if_pos (decide_eq_true hle)]
    rw [← hsince, MemoryStore.since, Table.get?_filter, Option.filter_eq_some_iff] at hkept
    exact hkept.1

end CleanupConfig

/-! ## In the archive -/

namespace Archive

/-- Four runs that remove no more than two records each leave nothing of the four. -/
theorem cleanUp_progress_stock : config.check = .ok () ∧
    (day 60).subtract? config.retention = some (day 30) ∧
    (∃ report w', (config.cleanUp (.memory records locks) (day 60)).run stock = (.value (.ok report), w') ∧
      0 < report.removedRecords) ∧
    ∀ key r, (records.get (Process.inTurn (List.replicate 4
      (config.cleanUp (.memory records locks) (day 60))) stock).env).get? key = some r →
        day 30 ≤ r.createdAt := by
  have hapart : records.Apart locks := ⟨fun _ _ => rfl, fun _ _ => rfl⟩
  have hconfig : config.check = .ok () := rfl
  have hretained : (day 60).subtract? config.retention = some (day 30) := by decide +kernel
  have hfree : ∀ t < day 30, ¬ config.Crowd (records.get stock.env) t := by
    have hentries : ∀ e ∈ (records.get stock.env).entries,
        ¬ config.Crowd (records.get stock.env) e.2.createdAt := by decide +kernel
    intro t _ hcrowd
    obtain ⟨e, he, rfl⟩ := hcrowd.entry
    exact hentries e he hcrowd
  obtain ⟨⟨report, w', hrun, -, hremoved⟩, hcleared, -⟩ :=
    CleanupConfig.cleanUp_progress hapart hconfig hretained stock
  have hdue : ∃ key r, (records.get stock.env).get? key = some r ∧ r.createdAt < day 30 :=
    ⟨⟨"transfer", "req-42", "b"⟩, ⟨"null", false, day 1⟩, by decide +kernel⟩
  refine ⟨hconfig, hretained, ⟨report, w', hrun, Nat.pos_of_ne_zero fun hzero => ?_⟩,
    hcleared hfree 4 (by decide +kernel)⟩
  obtain ⟨t, ht, hcrowd, -⟩ := (hremoved hdue).1 hzero
  exact hfree t ht hcrowd

/-- Two records of one day. -/
def twins : World (MemoryStore × LockTable RecordKey) where
  env := (Table.ofList [record "a" 3, record "b" 3], default)

/-- No more than one record. -/
def single : CleanupConfig := { maxRecords := 1 }

/-- **Runs that may remove one record remove neither of two** that are due and of one moment, however
    often they are repeated. -/
theorem cleanUp_stalls : single.check = .ok () ∧
    (day 60).subtract? single.retention = some (day 30) ∧
    (∃ r, (records.get twins.env).get? ⟨"transfer", "req-42", "a"⟩ = some r ∧ r.createdAt < day 30) ∧
    (∃ report w', (single.cleanUp (.memory records locks) (day 60)).run twins = (.value (.ok report), w') ∧
      report.removedRecords = 0) ∧
    ∀ n, records.get (Process.inTurn (List.replicate n
      (single.cleanUp (.memory records locks) (day 60))) twins).env = records.get twins.env := by
  have hapart : records.Apart locks := ⟨fun _ _ => rfl, fun _ _ => rfl⟩
  have hconfig : single.check = .ok () := rfl
  have hretained : (day 60).subtract? single.retention = some (day 30) := by decide +kernel
  have hdue : day 3 < day 30 := by decide +kernel
  have hcrowd : single.Crowd (records.get twins.env) (day 3) := by decide +kernel
  have hnone : (records.get twins.env).countBefore (day 3) = 0 := by decide +kernel
  have hstop : single.Standstill (records.get twins.env) (day 30) (day 3) := by
    refine ⟨Instant.le_of_lt hdue, fun _ => hcrowd, fun t ht hcrowd' => ?_⟩
    obtain ⟨e, he, rfl⟩ := hcrowd'.entry
    have hday : ∀ e ∈ (records.get twins.env).entries, ¬ e.2.createdAt < day 3 := by decide +kernel
    exact hday e he ht
  obtain ⟨report, w', hrun, -, hremoved⟩ :=
    CleanupConfig.cleanUp_horizon hapart hconfig hretained twins
  refine ⟨hconfig, hretained, ⟨⟨"null", false, day 3⟩, by decide +kernel, hdue⟩,
    ⟨report, w', hrun, ?_⟩, fun n => ?_⟩
  · rw [hremoved]
    exact (CleanupConfig.removes_none_iff (by decide +kernel)).2 ⟨_, hdue, hcrowd, hnone⟩
  · obtain ⟨-, hall⟩ := CleanupConfig.records_inTurn hapart hconfig hretained n hstop
    rw [hall (hnone ▸ Nat.zero_le n), MemoryStore.since_of_countBefore hnone]

end Archive

end Idempotence
