/-
  The durable mirror — the durable store holds what the store in memory holds.

  The two keep the same things in different shapes: records by address or by code, ages found by sorting
  or by walking an index of texts.  This file relates the shapes; it runs nothing.

  1. **Tables by code** — `Table.Coded` relates a table by addresses to one by their codes.  Inserting,
     erasing and filtering keep it, and sizes agree.  The two LIST their entries in different orders, for
     a code begins with lengths; but within an instance the codes share their beginning, so the first
     final record is the same one (`findFinal_eq`).

  2. **Ages** — `Dated` says what the index needs to be in the order of time: room in the keys, years of
     four digits and no two records of one time.  Then the entries of the index ARE the records by age
     (`Mirrors.byCreation_eq`), and everything that retention asks of either is the same.

  3. **Locks** — the same rows by code, written by the same operations (`LockTable.Mirrors`).
-/
import Idempotence.Proofs.CreationIndex

namespace Idempotence

open Std (LawfulEqOrd)

variable {α : Type}

/-! ## Lists in order -/

/-- Lists that are strictly in order and have the same members are equal. -/
theorem eq_of_ordered {R : α → α → Prop} (hasymm : ∀ {a b}, R a b → ¬ R b a) {l m : List α}
    (hl : l.Pairwise R) (hm : m.Pairwise R) (hmem : ∀ a, a ∈ l ↔ a ∈ m) : l = m := by
  have hirrefl : ∀ {a}, ¬ R a a := fun h => hasymm h h
  have hnodup : ∀ {k : List α}, k.Pairwise R → k.Nodup := by
    intro k hk
    refine List.Pairwise.imp (fun hab => ?_) hk
    rintro rfl
    exact hirrefl hab
  have hperm : l.Perm m := (List.perm_ext_iff_of_nodup (hnodup hl) (hnodup hm)).2 hmem
  exact hperm.eq_of_pairwise (fun a b _ _ hab hba => absurd hba (hasymm hab)) hl hm

/-- In a list along which a test can only begin to fail, what passes is the beginning. -/
theorem takeWhile_eq_filter {p : α → Bool} {l : List α} (h : l.Pairwise fun a b => p b → p a) :
    l.takeWhile p = l.filter p := by
  induction l with
  | nil => rfl
  | cons a l ih =>
    obtain ⟨hfirst, hrest⟩ := List.pairwise_cons.1 h
    by_cases ha : p a
    · rw [List.takeWhile_cons_of_pos ha, List.filter_cons_of_pos ha, ih hrest]
    · have hnone : l.filter p = [] := by
        apply List.filter_eq_nil_iff.2
        intro b hb hpb
        exact ha (hfirst b hb hpb)
      rw [List.takeWhile_cons_of_neg ha, List.filter_cons_of_neg ha, hnone]

theorem compare_lt_iff {s t : String} : compare s t = .lt ↔ s < t := by
  show compareOfLessAndEq s t = .lt ↔ s < t
  unfold compareOfLessAndEq
  split
  · simp [*]
  · split <;> simp [*]

/-- Texts with a common beginning are in the order of what follows it. -/
theorem compare_append_lt {p s t : String} : compare (p ++ s) (p ++ t) = .lt ↔ compare s t = .lt := by
  have happend : ∀ l : List Char, l ++ s.toList < l ++ t.toList ↔ s.toList < t.toList := by
    intro l
    induction l with
    | nil => rfl
    | cons c l ih =>
      rw [List.cons_append, List.cons_append, List.cons_lt_cons_iff, ih]
      constructor
      · rintro (h | ⟨-, h⟩)
        · exact absurd h (Char.lt_irrefl _)
        · exact h
      · exact fun h => .inr ⟨rfl, h⟩
  rw [compare_lt_iff, compare_lt_iff, String.lt_iff, String.lt_iff, String.toList_append,
    String.toList_append, happend]

/-! ## Tables by code -/

namespace Table

/-- The entries of a table are in order, so none comes twice. -/
theorem nodup_entries {κ : Type} [Ord κ] [LawfulEqOrd κ] (t : Table κ α) : t.entries.Nodup :=
  t.ordered.imp fun h heq => by simp [heq] at h

/-- **The same table by code.** -/
structure Coded (m : Table RecordKey α) (d : Table String α) : Prop where
  get?_code : ∀ key, d.get? (KeyCode.ofKey key) = m.get? key
  code : ∀ {code a}, d.get? code = some a → ∃ key, code = KeyCode.ofKey key

namespace Coded

variable {m : Table RecordKey α} {d : Table String α}

theorem empty : Coded (.empty : Table RecordKey α) .empty := ⟨fun _ => rfl, fun h => nomatch h⟩

/-- Keys are equal if their codes are. -/
theorem ofKey_eq {j k : RecordKey} : KeyCode.ofKey j = KeyCode.ofKey k ↔ j = k :=
  ⟨KeyCode.ofKey_inj, congrArg _⟩

theorem contains (h : Coded m d) (key : RecordKey) : d.contains (KeyCode.ofKey key) = m.contains key := by
  rw [Table.contains, Table.contains, h.get?_code]

theorem insert (h : Coded m d) (key : RecordKey) (a : α) :
    Coded (m.insert key a) (d.insert (KeyCode.ofKey key) a) where
  get?_code j := by simp only [Table.get?_insert, ofKey_eq, h.get?_code]
  code {code b} hb := by
    rw [Table.get?_insert] at hb
    split at hb
    · exact ⟨key, ‹_›⟩
    · exact h.code hb

/-- Keeping the same entries, told apart by their values. -/
theorem filter (h : Coded m d) (keep : α → Bool) :
    Coded (m.filter fun _ a => keep a) (d.filter fun _ a => keep a) where
  get?_code j := by rw [Table.get?_filter, Table.get?_filter, h.get?_code]
  code {code b} hb := by
    rw [Table.get?_filter] at hb
    exact h.code (Option.filter_eq_some_iff.1 hb).1

theorem erase (h : Coded m d) (key : RecordKey) : Coded (m.erase key) (d.erase (KeyCode.ofKey key)) where
  get?_code j := by simp only [Table.get?_erase, ofKey_eq, h.get?_code]
  code {code b} hb := by
    rw [Table.get?_erase] at hb
    split at hb
    · cases hb
    · exact h.code hb

/-- An entry of the one table is one of the other. -/
theorem mem_entries (h : Coded m d) {code : String} {a : α} :
    (code, a) ∈ d.entries ↔ ∃ key, code = KeyCode.ofKey key ∧ (key, a) ∈ m.entries := by
  rw [← Table.get?_eq_some_iff]
  constructor
  · intro hd
    obtain ⟨key, rfl⟩ := h.code hd
    rw [h.get?_code] at hd
    exact ⟨key, rfl, (Table.get?_eq_some_iff m).1 hd⟩
  · rintro ⟨key, rfl, hm⟩
    rw [h.get?_code]
    exact (Table.get?_eq_some_iff m).2 hm

/-- A table has as many entries by code as by key. -/
theorem size (h : Coded m d) : d.size = m.size := by
  have hinj : ∀ e ∈ m.entries, ∀ e' ∈ m.entries,
      (KeyCode.ofKey e.1, e.2) = (KeyCode.ofKey e'.1, e'.2) → e = e' := by
    rintro ⟨key, a⟩ - ⟨key', a'⟩ - heq
    obtain ⟨hcode, rfl⟩ := Prod.mk.inj heq
    obtain rfl := KeyCode.ofKey_inj hcode
    rfl
  have hnodup : (m.entries.map fun e => (KeyCode.ofKey e.1, e.2)).Nodup := by
    refine List.pairwise_map.2 ?_
    refine List.Pairwise.imp_of_mem (fun he he' hne heq => hne (hinj _ he _ he' heq)) m.nodup_entries
  have hperm : d.entries.Perm (m.entries.map fun e => (KeyCode.ofKey e.1, e.2)) := by
    refine (List.perm_ext_iff_of_nodup d.nodup_entries hnodup).2 fun ⟨code, a⟩ => ?_
    rw [h.mem_entries, List.mem_map]
    constructor
    · rintro ⟨key, rfl, hm⟩
      exact ⟨(key, a), hm, rfl⟩
    · rintro ⟨⟨key, b⟩, hm, heq⟩
      obtain ⟨rfl, rfl⟩ := Prod.mk.inj heq
      exact ⟨key, rfl, hm⟩
  rw [Table.size, Table.size, hperm.length_eq, List.length_map]

end Coded

end Table

/-! ## Final records -/

theorem record?_eq_some {process key code record : String} :
    KeyCode.record? process key code = some record ↔ code = KeyCode.ofKey ⟨process, key, record⟩ := by
  unfold KeyCode.record? KeyCode.ofKey
  constructor
  · intro h
    simp only at h
    split at h
    · rename_i hprefix
      obtain ⟨rest, hrest⟩ := List.isPrefixOf_iff_prefix.1 hprefix
      have hrecord := Option.some.inj h
      rw [← hrest, List.drop_left] at hrecord
      apply String.toList_injective
      rw [← hrecord, String.toList_append, String.toList_ofList, hrest]
    · cases h
  · rintro rfl
    simp

namespace DurableStore

/-- Whether there is a final record under a key. -/
def HasFinal (d : DurableStore) (key : RecordKey) : Prop := ∃ r, d.get? key = some r ∧ r.isFinal = true

/-- The ids of the final records of an instance, as the table lists them. -/
def finals (d : DurableStore) (process key : String) : List String :=
  d.records.entries.filterMap fun e =>
    if e.2.isFinal then KeyCode.record? process key e.1 else none

variable {d : DurableStore} {process key : String}

/-- Looking for a final record finds the first the table lists. -/
theorem findFinal_eq_head : d.findFinal process key = (d.finals process key).head? :=
  (List.head?_filterMap ..).symm

theorem mem_finals {record : String} :
    record ∈ d.finals process key ↔ d.HasFinal ⟨process, key, record⟩ := by
  rw [finals, List.mem_filterMap]
  constructor
  · rintro ⟨⟨code, r⟩, hmem, hcode⟩
    split at hcode
    · rename_i hfinal
      rw [record?_eq_some] at hcode
      subst hcode
      exact ⟨r, (Table.get?_eq_some_iff _).2 hmem, hfinal⟩
    · cases hcode
  · rintro ⟨r, hr, hfinal⟩
    refine ⟨(_, r), (Table.get?_eq_some_iff _).1 hr, ?_⟩
    rw [if_pos hfinal]
    exact record?_eq_some.2 rfl

/-- The final records are listed in the order of the ids, for the codes of an instance share their beginning. -/
theorem finals_ordered : (d.finals process key).Pairwise fun a b => compare a b = .lt := by
  refine List.Pairwise.filterMap _ (fun e e' hlt => ?_) d.records.ordered
  intro record hrecord record' hrecord'
  split at hrecord
  · split at hrecord'
    · rw [record?_eq_some.1 hrecord, record?_eq_some.1 hrecord'] at hlt
      exact compare_append_lt.1 hlt
    · cases hrecord'
  · cases hrecord

end DurableStore

/-- **Records that can be found by their age**: their codes leave room for the time, their years have
    four digits, no two of them are of one time, and the moments to come are later than all. -/
structure Dated (m : MemoryStore) (moments : List Instant) : Prop where
  roomy : ∀ {key r}, m.get? key = some r → (KeyCode.ofKey key).utf8ByteSize + 31 ≤ KeyCode.limit
  yearFits : ∀ {key r}, m.get? key = some r → r.createdAt.YearFits
  distinct : ∀ {key key' r r'}, m.get? key = some r → m.get? key' = some r' →
    r.createdAt = r'.createdAt → key = key'
  later : ∀ {key r}, m.get? key = some r → ∀ t ∈ moments, r.createdAt < t
  increasing : moments.Pairwise (· < ·)
  yearsFit : ∀ t ∈ moments, t.YearFits

namespace Dated

variable {m : MemoryStore} {moments : List Instant}

/-- The entry of a record fits. -/
theorem fits (h : Dated m moments) {key : RecordKey} {r : StoredRecord} (hr : m.get? key = some r) :
    KeyCode.fits (DurableStore.indexKey r.createdAt (KeyCode.ofKey key)) := by
  rw [KeyCode.fits, decide_eq_true_iff, DurableStore.size_indexKey (h.yearFits hr)]
  exact h.roomy hr

/-- A record written at the next moment leaves the store dated by those that remain. -/
theorem insert {t : Instant} (h : Dated m (t :: moments)) {key : RecordKey}
    (hroomy : (KeyCode.ofKey key).utf8ByteSize + 31 ≤ KeyCode.limit) (data : String) (isFinal : Bool) :
    Dated (Table.insert m key ⟨data, isFinal, t⟩) moments := by
  obtain ⟨hfirst, hrest⟩ := List.pairwise_cons.1 h.increasing
  have hlt : ∀ {k r}, m.get? k = some r → r.createdAt ≠ t := by
    intro k r hr heq
    have hlater : r.createdAt < t := h.later hr t (List.mem_cons_self ..)
    rw [heq] at hlater
    exact Instant.lt_irrefl _ hlater
  have hcases : ∀ {k r}, (Table.insert m key ⟨data, isFinal, t⟩).get? k = some r →
      k = key ∧ r = ⟨data, isFinal, t⟩ ∨ m.get? k = some r := by
    intro k r hr
    rw [Table.get?_insert] at hr
    split at hr
    · exact .inl ⟨‹_›, (Option.some.inj hr).symm⟩
    · exact .inr hr
  refine ⟨fun hr => ?_, fun hr => ?_, fun hr hr' htime => ?_, fun hr u hu => ?_, hrest,
    fun u hu => h.yearsFit u (List.mem_cons_of_mem _ hu)⟩
  · rcases hcases hr with ⟨rfl, rfl⟩ | hr
    · exact hroomy
    · exact h.roomy hr
  · rcases hcases hr with ⟨rfl, rfl⟩ | hr
    · exact h.yearsFit t (List.mem_cons_self ..)
    · exact h.yearFits hr
  · rcases hcases hr with ⟨rfl, rfl⟩ | hold <;> rcases hcases hr' with ⟨rfl, rfl⟩ | hold'
    · rfl
    · exact absurd htime.symm (hlt hold')
    · exact absurd htime (hlt hold)
    · exact h.distinct hold hold' htime
  · rcases hcases hr with ⟨rfl, rfl⟩ | hr
    · exact hfirst u hu
    · exact h.later hr u (List.mem_cons_of_mem _ hu)

/-- A dated store is dated without one of its records. -/
theorem erase (h : Dated m moments) (key : RecordKey) : Dated (Table.erase m key) moments := by
  have hsub : ∀ {k r}, (Table.erase m key).get? k = some r → m.get? k = some r := by
    intro k r hr
    rw [Table.get?_erase] at hr
    split at hr
    · cases hr
    · exact hr
  exact ⟨fun hr => h.roomy (hsub hr), fun hr => h.yearFits (hsub hr),
    fun hr hr' => h.distinct (hsub hr) (hsub hr'), fun hr => h.later (hsub hr), h.increasing, h.yearsFit⟩

/-- A dated store is dated by fewer moments to come. -/
theorem tail {t : Instant} (h : Dated m (t :: moments)) : Dated m moments where
  roomy := h.roomy
  yearFits := h.yearFits
  distinct := h.distinct
  later hr u hu := h.later hr u (List.mem_cons_of_mem _ hu)
  increasing := (List.pairwise_cons.1 h.increasing).2
  yearsFit u hu := h.yearsFit u (List.mem_cons_of_mem _ hu)

/-- By age the records are strictly in the order of time. -/
theorem byAge_ordered (h : Dated m moments) :
    (MemoryStore.byAge m).Pairwise fun a b => a.2.createdAt < b.2.createdAt := by
  have hperm := MemoryStore.byAge_perm m
  have hnodup : (MemoryStore.byAge m).Nodup := hperm.nodup_iff.2 m.nodup_entries
  refine List.Pairwise.imp_of_mem (fun {a b} ha hb hab => ?_) ((MemoryStore.byAge_sorted m).and hnodup)
  obtain ⟨hle, hne⟩ := hab
  refine (Instant.lt_or_eq_of_le hle).resolve_right fun heq => hne ?_
  -- Records of one time are one record.
  have hra := (Table.get?_eq_some_iff m).2 (hperm.mem_iff.1 ha)
  have hrb := (Table.get?_eq_some_iff m).2 (hperm.mem_iff.1 hb)
  have hkey := h.distinct hra hrb heq
  rw [hkey, hrb] at hra
  exact Prod.ext hkey (Option.some.inj hra).symm

end Dated

/-! ## The records -/

namespace DurableStore

/-- **The same records**, with an index that tells of them. -/
structure Mirrors (d : DurableStore) (m : MemoryStore) : Prop where
  coded : Table.Coded m d.records
  indexed : d.Indexed

namespace Mirrors

variable {d : DurableStore} {m : MemoryStore} {moments : List Instant}

/-- The index entry of a record in memory. -/
def entryOf (e : RecordKey × StoredRecord) : String × IndexEntry :=
  (indexKey e.2.createdAt (KeyCode.ofKey e.1), ⟨e.2.createdAt, KeyCode.ofKey e.1⟩)

/-- A record has its entry. -/
theorem entry (h : d.Mirrors m) (hdated : Dated m moments) {e : RecordKey × StoredRecord}
    (he : m.get? e.1 = some e.2) : d.byCreation.get? (entryOf e).1 = some (entryOf e).2 :=
  h.indexed.listed (by rw [h.coded.get?_code, he]) (hdated.fits he)

/-- **The index lists the records by age.** -/
theorem byCreation_eq (h : d.Mirrors m) (hdated : Dated m moments) :
    d.byCreation.entries = (MemoryStore.byAge m).map entryOf := by
  have hperm := MemoryStore.byAge_perm m
  have hthere : ∀ {e}, e ∈ MemoryStore.byAge m → m.get? e.1 = some e.2 := fun he =>
    (Table.get?_eq_some_iff m).2 (hperm.mem_iff.1 he)
  refine eq_of_ordered (R := fun a b => compare a.1 b.1 = .lt)
    (fun hab hba => by rw [Std.OrientedCmp.gt_of_lt hab] at hba; cases hba) d.byCreation.ordered ?_ ?_
  · refine List.pairwise_map.2 (List.Pairwise.imp_of_mem (fun he he' hlt => ?_) hdated.byAge_ordered)
    exact compare_lt_iff.2 (indexKey_lt hlt (hdated.yearFits (hthere he)) (hdated.yearFits (hthere he')) ..)
  · rintro ⟨key, e⟩
    rw [← Table.get?_eq_some_iff, List.mem_map]
    constructor
    · intro he
      obtain ⟨rfl, -, r, hr, htime⟩ := h.indexed.points he
      obtain ⟨k, hk, hm⟩ := h.coded.mem_entries.1 ((Table.get?_eq_some_iff _).1 hr)
      refine ⟨(k, r), hperm.mem_iff.2 hm, ?_⟩
      simp only [entryOf, htime, ← hk]
    · rintro ⟨e', he', heq⟩
      have hentry := h.entry hdated (hthere he')
      rw [heq] at hentry
      exact hentry

/-- **The same records are due**, in the same order. -/
theorem due_eq (h : d.Mirrors m) (hdated : Dated m moments) {threshold : Instant}
    (hyear : threshold.YearFits) (limit : Nat) :
    d.due threshold limit = (((MemoryStore.byAge m).filter fun e =>
      decide (e.2.createdAt < threshold)).take limit).map entryOf := by
  have hperm := MemoryStore.byAge_perm m
  have htest : ∀ e ∈ MemoryStore.byAge m, (entryOf e).1 < threshold.indexText ↔
      e.2.createdAt < threshold := by
    intro e he
    have hfits := hdated.yearFits ((Table.get?_eq_some_iff m).2 (hperm.mem_iff.1 he))
    show indexKey e.2.createdAt (KeyCode.ofKey e.1) < threshold.indexText ↔ _
    exact indexKey_lt_indexText hfits hyear _
  have hsame : ∀ e ∈ MemoryStore.byAge m, decide ((entryOf e).1 < threshold.indexText) =
      decide (e.2.createdAt < threshold) := fun e he => decide_eq_decide.2 (htest e he)
  have hdown : (MemoryStore.byAge m).Pairwise fun a b =>
      decide ((entryOf b).1 < threshold.indexText) → decide ((entryOf a).1 < threshold.indexText) := by
    refine List.Pairwise.imp_of_mem (fun {a b} ha hb hab hbefore => ?_) hdated.byAge_ordered
    have hb' := (htest b hb).1 (of_decide_eq_true hbefore)
    exact decide_eq_true ((htest a ha).2 (Instant.lt_trans hab hb'))
  rw [DurableStore.due, h.byCreation_eq hdated, List.takeWhile_map, Function.comp_def,
    takeWhile_eq_filter hdown, List.filter_congr hsame, List.map_take]

/-- A record and its entry go together. -/
theorem eraseEntry (h : d.Mirrors m) (hdated : Dated m moments) {e : RecordKey × StoredRecord}
    (he : m.get? e.1 = some e.2) : (d.eraseEntry (entryOf e)).Mirrors (Table.erase m e.1) where
  coded := h.coded.erase e.1
  indexed := h.indexed.eraseEntry (h.entry hdated he)

theorem eraseEntries (h : d.Mirrors m) (hdated : Dated m moments)
    {entries : List (RecordKey × StoredRecord)} (hthere : ∀ e ∈ entries, m.get? e.1 = some e.2)
    (hkeys : entries.Pairwise fun a b => a.1 ≠ b.1) :
    ((entries.map entryOf).foldl DurableStore.eraseEntry d).Mirrors
        ((entries.map (·.1)).foldl Table.erase m) ∧
      Dated ((entries.map (·.1)).foldl Table.erase m) moments := by
  induction entries generalizing d m with
  | nil => exact ⟨h, hdated⟩
  | cons e entries ih =>
    obtain ⟨hfirst, hrest⟩ := List.pairwise_cons.1 hkeys
    have he := hthere e (List.mem_cons_self ..)
    refine ih (h.eraseEntry hdated he) (hdated.erase e.1) (fun e' he' => ?_) hrest
    rw [Table.get?_erase, if_neg (hfirst e' he').symm]
    exact hthere e' (List.mem_cons_of_mem _ he')

/-- **Retention deletes the same records.** -/
theorem deleteBefore (h : d.Mirrors m) (hdated : Dated m moments) {threshold : Instant}
    (hyear : threshold.YearFits) (limit : Nat) :
    (d.deleteBefore threshold limit).1 = (MemoryStore.deleteBefore m threshold limit).1 ∧
      (d.deleteBefore threshold limit).2.Mirrors (MemoryStore.deleteBefore m threshold limit).2 ∧
      Dated (MemoryStore.deleteBefore m threshold limit).2 moments := by
  have hperm := MemoryStore.byAge_perm m
  have hsub : ((MemoryStore.byAge m).filter fun e => decide (e.2.createdAt < threshold)).take limit
      |>.Sublist (MemoryStore.byAge m) := (List.take_sublist _ _).trans List.filter_sublist
  have hthere : ∀ e ∈ MemoryStore.byAge m, m.get? e.1 = some e.2 := fun e he =>
    (Table.get?_eq_some_iff m).2 (hperm.mem_iff.1 he)
  have hkeys : (MemoryStore.byAge m).Pairwise fun a b => a.1 ≠ b.1 := by
    refine List.Pairwise.imp_of_mem (fun {a b} ha hb hab heq => ?_) hdated.byAge_ordered
    have hra := hthere a ha
    rw [heq, hthere b hb] at hra
    rw [Option.some.inj hra] at hab
    exact Instant.lt_irrefl _ hab
  rw [DurableStore.deleteBefore, MemoryStore.deleteBefore, MemoryStore.due, h.due_eq hdated hyear]
  refine ⟨by simp, ?_⟩
  exact h.eraseEntries hdated (fun e he => hthere e (hsub.subset he)) (hkeys.sublist hsub)

/-- **A record that both take.** -/
theorem write {t : Instant} (h : d.Mirrors m) (hdated : Dated m (t :: moments)) {key : RecordKey}
    (hroomy : (KeyCode.ofKey key).utf8ByteSize + 31 ≤ KeyCode.limit)
    (hfree : m.get? key = none) (data : String) (isFinal : Bool) :
    (d.write key ⟨data, isFinal, t⟩).1 = .ok () ∧
      (d.write key ⟨data, isFinal, t⟩).2.Mirrors (Table.insert m key ⟨data, isFinal, t⟩) := by
  have hyear := hdated.yearsFit t (List.mem_cons_self ..)
  have hcode : KeyCode.fits (KeyCode.ofKey key) := decide_eq_true (by omega)
  have hentry : KeyCode.fits (indexKey t (KeyCode.ofKey key)) := by
    rw [KeyCode.fits, decide_eq_true_iff, size_indexKey hyear]
    exact hroomy
  have hfree' : d.records.get? (KeyCode.ofKey key) = none := by rw [h.coded.get?_code, hfree]
  rw [write_whole (r := ⟨data, isFinal, t⟩) hcode hentry]
  exact ⟨rfl, h.coded.insert key _, h.indexed.record_and_entry hfree' hentry⟩

end Mirrors

end DurableStore

/-! ## The locks -/

namespace LockTable

/-- **The same locks by code**, written by the same operations. -/
structure Mirrors (d : LockTable String) (m : LockTable RecordKey) : Prop where
  coded : Table.Coded m.rows d.rows
  next : d.nextOperation = m.nextOperation

namespace Mirrors

variable {d : LockTable String} {m : LockTable RecordKey}

theorem row? (h : d.Mirrors m) (key : RecordKey) : d.row? (KeyCode.ofKey key) = m.row? key :=
  h.coded.get?_code key

theorem take (h : d.Mirrors m) (key : RecordKey) (timeout : Duration) (now : Instant) :
    (d.take (KeyCode.ofKey key) timeout now).1 = (m.take key timeout now).1 ∧
      (d.take (KeyCode.ofKey key) timeout now).2.Mirrors (m.take key timeout now).2 := by
  have hwrite : (d.write (KeyCode.ofKey key) (now.deadline timeout)).Mirrors
      (m.write key (now.deadline timeout)) := by
    refine ⟨?_, congrArg (· + 1) h.next⟩
    show Table.Coded (m.rows.insert key ⟨m.nextOperation, _⟩)
      (d.rows.insert (KeyCode.ofKey key) ⟨d.nextOperation, _⟩)
    rw [h.next]
    exact h.coded.insert key _
  have hexpiry : d.lockedUntil? (KeyCode.ofKey key) = m.lockedUntil? key := by
    rw [lockedUntil?, lockedUntil?, h.row?]
  unfold LockTable.take
  rw [hexpiry]
  split
  · split
    · exact ⟨rfl, h⟩
    · exact ⟨congrArg _ h.next, hwrite⟩
  · exact ⟨congrArg _ h.next, hwrite⟩

theorem release (h : d.Mirrors m) (key : RecordKey) (operation : Nat) :
    (d.release (KeyCode.ofKey key) operation).Mirrors (m.release key operation) := by
  unfold LockTable.release
  rw [h.row?]
  split
  · exact ⟨h.coded.erase key, h.next⟩
  · exact h

theorem deleteBefore (h : d.Mirrors m) (threshold : Instant) :
    (d.deleteBefore threshold).1 = (m.deleteBefore threshold).1 ∧
      (d.deleteBefore threshold).2.Mirrors (m.deleteBefore threshold).2 := by
  have hkept := h.coded.filter fun r => decide (threshold ≤ r.lockedUntil)
  refine ⟨?_, hkept, h.next⟩
  show d.rows.size - (d.rows.filter _).size = m.rows.size - (m.rows.filter _).size
  rw [h.coded.size, hkept.size]

end Mirrors

end LockTable

end Idempotence
