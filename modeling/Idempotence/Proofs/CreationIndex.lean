/-
  The creation index — what the index of the durable records tells about them.

  Retention finds records through the index alone, so a record without an entry is never deleted and
  never counted among the oldest.

  1. **Fillings** — the body of a transaction as a tree: inserts, each chosen by what the ones before
     it answered, and at the end an answer or a crash.  A filling is a body for every store.

  2. **The invariant** — `Indexed`: every entry stands under its own key and points to a record of its
     time, and every record whose entry FITS has it.  Writing keeps it although it is done in two steps,
     for the only write that stops between them is one whose entry does not fit.

  3. **The result** — `reachable_entries`: in every state that transactions and retention can reach a
     record has exactly one entry if the key of the entry fits, and none otherwise.

  The second case is real (`record_without_entry`): the key of an entry is 31 bytes longer than the
  code of its record, and a body may carry on after an insert that has failed half way.
-/
import Idempotence.Proofs.Chronology
import Idempotence.Proofs.StepInvariants
import Idempotence.Retention

namespace Idempotence

variable {ε : Type}

/-! ## Fillings -/

/-- **What the body of a transaction does.** -/
inductive Filling where
  | done (answer : Except Error Unit)
  | crash (message : String)
  /-- Inserts, and goes on knowing what the insert answered. -/
  | insert (key : RecordKey) (data : String) (isFinal : Bool) (resume : Except StoreError Unit → Filling)

namespace Filling

/-- **The body of a transaction**; it puts aside what the inserts answered, in their order. -/
def body (store : StoreAdapter ε) :
    Filling → StateT store.Txn (Action ε) (Except Error Unit × List (Except StoreError Unit))
  | done answer => pure (answer, [])
  | crash message => fun _ => Process.crash message
  | insert key data isFinal resume => do
    let reply ← store.insert key data isFinal
    let (answer, replies) ← body store (resume reply)
    return (answer, reply :: replies)

/-- The filling as a transaction. -/
def transact (store : StoreAdapter ε) (f : Filling) :
    Action ε (Except Error Unit × Option (List (Except StoreError Unit))) :=
  store.transact (f.body store)

end Filling

namespace DurableStore

/-! ## Writing, by cases -/

section
variable {s : DurableStore} {key : RecordKey} {r : StoredRecord}

theorem write_overlong (hcode : ¬ KeyCode.fits (KeyCode.ofKey key)) :
    s.write key r = (.error .keyTooLong, s) := by
  simp [write, hcode]

/-- A write whose entry does not fit stops half way. -/
theorem write_halfway (hcode : KeyCode.fits (KeyCode.ofKey key))
    (hentry : ¬ KeyCode.fits (indexKey r.createdAt (KeyCode.ofKey key))) :
    s.write key r = (.error .keyTooLong, { s with records := s.records.insert (KeyCode.ofKey key) r }) := by
  simp [write, hcode, hentry]

theorem write_whole (hcode : KeyCode.fits (KeyCode.ofKey key))
    (hentry : KeyCode.fits (indexKey r.createdAt (KeyCode.ofKey key))) :
    s.write key r = (.ok (),
      { records := s.records.insert (KeyCode.ofKey key) r
        byCreation := s.byCreation.insert (indexKey r.createdAt (KeyCode.ofKey key))
          ⟨r.createdAt, KeyCode.ofKey key⟩ }) := by
  simp [write, hcode, hentry]

end

/-! ## The invariant -/

/-- **The index tells of the records.** -/
structure Indexed (s : DurableStore) : Prop where
  /-- An entry stands under its own key and points to a record of its time. -/
  points : ∀ {key e}, s.byCreation.get? key = some e →
    key = indexKey e.createdAt e.code ∧ KeyCode.fits key ∧
      ∃ r, s.records.get? e.code = some r ∧ r.createdAt = e.createdAt
  /-- A record whose entry fits has it. -/
  listed : ∀ {code r}, s.records.get? code = some r → KeyCode.fits (indexKey r.createdAt code) →
    s.byCreation.get? (indexKey r.createdAt code) = some ⟨r.createdAt, code⟩

theorem indexed_empty : Indexed {} := ⟨fun h => (nomatch h), fun h => (nomatch h)⟩

namespace Indexed

variable {s : DurableStore}

/-- Two entries that point to one record are one entry. -/
theorem eq_of_code (h : s.Indexed) {key key' : String} {e e' : IndexEntry}
    (he : s.byCreation.get? key = some e) (he' : s.byCreation.get? key' = some e')
    (hcode : e.code = e'.code) : key = key' := by
  obtain ⟨rfl, -, r, hr, htime⟩ := h.points he
  obtain ⟨rfl, -, r', hr', htime'⟩ := h.points he'
  rw [hcode, hr'] at hr
  cases hr
  rw [hcode, ← htime, htime']

/-- A record without entry, put where there was none. -/
theorem record (h : s.Indexed) {code : String} {r : StoredRecord} (hfree : s.records.get? code = none)
    (hlong : ¬ KeyCode.fits (indexKey r.createdAt code)) :
    Indexed { s with records := s.records.insert code r } where
  points {key e} he := by
    obtain ⟨hkey, hfits, r', hr', htime⟩ := h.points he
    have hne : e.code ≠ code := by
      rintro rfl
      rw [hfree] at hr'
      cases hr'
    exact ⟨hkey, hfits, r', by simp [hne, hr'], htime⟩
  listed {c r'} hr' hfits := by
    simp only [Table.get?_insert] at hr'
    by_cases hc : c = code
    · subst hc
      rw [if_pos rfl] at hr'
      cases hr'
      exact absurd hfits hlong
    · rw [if_neg hc] at hr'
      exact h.listed hr' hfits

/-- A record with its entry, put where there was none. -/
theorem record_and_entry (h : s.Indexed) {code : String} {r : StoredRecord}
    (hfree : s.records.get? code = none) (hfits : KeyCode.fits (indexKey r.createdAt code)) :
    Indexed { records := s.records.insert code r
              byCreation := s.byCreation.insert (indexKey r.createdAt code) ⟨r.createdAt, code⟩ } where
  points {key e} he := by
    simp only [Table.get?_insert] at he ⊢
    by_cases hkey : key = indexKey r.createdAt code
    · rw [if_pos hkey] at he
      cases he
      exact ⟨hkey, hkey ▸ hfits, r, if_pos rfl, rfl⟩
    · rw [if_neg hkey] at he
      obtain ⟨hown, hfits', r', hr', htime⟩ := h.points he
      have hne : e.code ≠ code := by
        rintro rfl
        rw [hfree] at hr'
        cases hr'
      exact ⟨hown, hfits', r', by rw [if_neg hne, hr'], htime⟩
  listed {c r'} hr' hfits' := by
    simp only [Table.get?_insert] at hr' ⊢
    by_cases hc : c = code
    · subst hc
      rw [if_pos rfl] at hr'
      cases hr'
      rw [if_pos rfl]
    · rw [if_neg hc] at hr'
      have hne : indexKey r'.createdAt c ≠ indexKey r.createdAt code := fun heq => hc (code_of_indexKey heq)
      rw [if_neg hne]
      exact h.listed hr' hfits'

/-- **Writing** keeps the index, also where it stops half way. -/
theorem write (h : s.Indexed) {key : RecordKey} (r : StoredRecord)
    (hfree : s.records.get? (KeyCode.ofKey key) = none) : (s.write key r).2.Indexed := by
  by_cases hcode : KeyCode.fits (KeyCode.ofKey key)
  · by_cases hentry : KeyCode.fits (indexKey r.createdAt (KeyCode.ofKey key))
    · rw [write_whole hcode hentry]
      exact h.record_and_entry hfree hentry
    · rw [write_halfway hcode hentry]
      exact h.record hfree hentry
  · rw [write_overlong hcode]
    exact h

/-- **Deleting an entry** with its record keeps the index. -/
theorem eraseEntry (h : s.Indexed) {e : String × IndexEntry} (he : s.byCreation.get? e.1 = some e.2) :
    (s.eraseEntry e).Indexed where
  points {key e'} he' := by
    simp only [DurableStore.eraseEntry, Table.get?_erase] at he' ⊢
    by_cases hkey : key = e.1
    · simp [hkey] at he'
    · rw [if_neg hkey] at he'
      obtain ⟨hown, hfits, r, hr, htime⟩ := h.points he'
      have hne : e'.code ≠ e.2.code := fun hcode => hkey (h.eq_of_code he' he hcode)
      exact ⟨hown, hfits, r, by rw [if_neg hne, hr], htime⟩
  listed {code r} hr hfits := by
    simp only [DurableStore.eraseEntry, Table.get?_erase] at hr ⊢
    by_cases hcode : code = e.2.code
    · simp [hcode] at hr
    · rw [if_neg hcode] at hr
      have hne : indexKey r.createdAt code ≠ e.1 := by
        intro heq
        rw [(h.points he).1] at heq
        exact hcode (code_of_indexKey heq)
      rw [if_neg hne]
      exact h.listed hr hfits

/-- Deleting entries of different keys, one after the other. -/
theorem eraseEntries (h : s.Indexed) {entries : List (String × IndexEntry)}
    (hthere : ∀ e ∈ entries, s.byCreation.get? e.1 = some e.2)
    (hordered : entries.Pairwise fun a b => compare a.1 b.1 = .lt) :
    (entries.foldl DurableStore.eraseEntry s).Indexed := by
  induction entries generalizing s with
  | nil => exact h
  | cons e entries ih =>
    obtain ⟨hfirst, hrest⟩ := List.pairwise_cons.1 hordered
    refine ih (h.eraseEntry (hthere e (List.mem_cons_self ..))) (fun e' he' => ?_) hrest
    -- Later keys are greater, so deleting this one leaves their entries alone.
    have hne : e'.1 ≠ e.1 := by
      intro heq
      have hlt := hfirst e' he'
      rw [heq] at hlt
      simp at hlt
    simpa [DurableStore.eraseEntry, hne] using hthere e' (List.mem_cons_of_mem _ he')

/-- **Retention** keeps the index. -/
theorem deleteBefore (h : s.Indexed) (threshold : Instant) (limit : Nat) :
    (s.deleteBefore threshold limit).2.Indexed := by
  have hsub : (due s threshold limit).Sublist s.byCreation.entries :=
    (List.take_sublist _ _).trans (List.takeWhile_sublist _)
  exact h.eraseEntries (fun e he => (Table.get?_eq_some_iff _).2 (hsub.subset he))
    (s.byCreation.ordered.sublist hsub)

/-- **Entries of a record**: its own if that fits, and no other. -/
theorem entries_of_record (h : s.Indexed) {code : String} {r : StoredRecord}
    (hr : s.records.get? code = some r) :
    s.byCreation.entries.filter (fun e => e.2.code == code) =
      if KeyCode.fits (indexKey r.createdAt code) then
        [(indexKey r.createdAt code, ⟨r.createdAt, code⟩)]
      else [] := by
  have hmem : ∀ e ∈ s.byCreation.entries.filter (fun e => e.2.code == code),
      e = (indexKey r.createdAt code, ⟨r.createdAt, code⟩) ∧ KeyCode.fits (indexKey r.createdAt code) := by
    rintro ⟨key, e⟩ he
    obtain ⟨hentry, hcode⟩ := List.mem_filter.1 he
    obtain rfl : e.code = code := by simpa using hcode
    obtain ⟨rfl, hfits, r', hr', htime⟩ := h.points ((Table.get?_eq_some_iff _).2 hentry)
    rw [hr] at hr'
    cases hr'
    exact ⟨by rw [htime], htime ▸ hfits⟩
  split
  · rename_i hfits
    have hown : (indexKey r.createdAt code, (⟨r.createdAt, code⟩ : IndexEntry)) ∈
        s.byCreation.entries.filter (fun e => e.2.code == code) :=
      List.mem_filter.2 ⟨(Table.get?_eq_some_iff _).1 (h.listed hr hfits), by simp⟩
    have hordered : (s.byCreation.entries.filter (fun e => e.2.code == code)).Pairwise
        fun a b => compare a.1 b.1 = .lt := s.byCreation.ordered.filter _
    generalize s.byCreation.entries.filter (fun e => e.2.code == code) = l at *
    match l, hown, hordered with
    | [e], _, _ => rw [(hmem e (List.mem_cons_self ..)).1]
    | e :: e' :: _, _, hordered =>
      -- Both would be the entry of the record, but no table has two entries of one key.
      have hlt := (List.pairwise_cons.1 hordered).1 e' (List.mem_cons_self ..)
      rw [(hmem e (List.mem_cons_self ..)).1,
        (hmem e' (List.mem_cons_of_mem _ (List.mem_cons_self ..))).1] at hlt
      simp at hlt
  · rename_i hlong
    apply List.eq_nil_iff_forall_not_mem.2
    intro e he
    exact hlong (hmem e he).2

end Indexed

/-! ## Runs -/

section
variable (part : Part ε DurableStore) (clock : Action ε Instant)

/-- The body of a transaction on a copy of the records. -/
def filled (f : Filling) (copy : DurableStore) :
    Action ε ((Except Error Unit × List (Except StoreError Unit)) × DurableStore) :=
  f.body (adapter part clock) copy

theorem filled_insert (key : RecordKey) (data : String) (isFinal : Bool)
    (resume : Except StoreError Unit → Filling) (copy : DurableStore) :
    filled part clock (.insert key data isFinal resume) copy = (do
      let (reply, next) ← insert clock key data isFinal copy
      let ((answer, replies), last) ← filled part clock (resume reply) next
      return ((answer, reply :: replies), last)) := rfl

end

variable {part : Part ε DurableStore} {clock : Action ε Instant}

/-- **A transaction**: its body works on a copy, which is put back if the body answers well. -/
theorem transact_eq (f : Filling) : f.transact (adapter part clock) = (do
    let copy ← Action.look part fun s => s
    let ((answer, replies), last) ← filled part clock f copy
    match answer with
      | .error e => return (.error e, some replies)
      | .ok () => do
        Action.change part fun _ => last
        return (.ok (), some replies)) := by
  refine congrArg (Process.step id) (funext fun w => ?_)
  refine congrArg (Process.bind (filled part clock f (part.get w.env))) (funext fun ended => ?_)
  obtain ⟨⟨e | ⟨⟩, replies⟩, last⟩ := ended <;> rfl

/-- A transaction alone copies the store, fills the copy and puts it back. -/
theorem run_transact (f : Filling) (w : World ε) :
    (f.transact (adapter part clock)).run w =
      match (filled part clock f (part.get w.env)).run w with
      | (.value ((.ok (), replies), copy), w') =>
        (.value (.ok (), some replies), { w' with env := part.set copy w'.env })
      | (.value ((.error e, replies), _), w') => (.value (.error e, some replies), w')
      | (.crashed m, w') => (.crashed m, w') := by
  rw [transact_eq]
  simp only [Action.look, Process.run_bind, Process.run_look]
  rcases (filled part clock f (part.get w.env)).run w with ⟨⟨⟨⟨e | ⟨⟩, replies⟩, copy⟩⟩ | m, w'⟩
  · rfl
  · rfl
  · rfl

/-- The steps of a body leave the records of the environment alone. -/
theorem steps_filled (hclock : clock.Steps fun w w' => part.get w'.env = part.get w.env) (f : Filling)
    (copy : DurableStore) :
    (filled part clock f copy).Steps fun w w' => part.get w'.env = part.get w.env := by
  induction f generalizing copy with
  | done answer => trivial
  | crash m => trivial
  | insert key data isFinal resume ih =>
    rw [filled_insert]
    refine Process.Steps.bind ?_ fun ⟨reply, next⟩ => Process.Steps.bind (ih ..) fun last => trivial
    unfold insert
    split
    · trivial
    · exact Process.Steps.bind hclock fun createdAt => trivial

/-- An insert keeps the index of the copy. -/
theorem indexed_insert {key : RecordKey} {data : String} {isFinal : Bool} {copy copy' : DurableStore}
    {w w' : World ε} {reply : Except StoreError Unit} (h : copy.Indexed)
    (hrun : (insert clock key data isFinal copy).run w = (.value (reply, copy'), w')) : copy'.Indexed := by
  unfold insert at hrun
  split at hrun
  · cases hrun
    exact h
  · rename_i hfree
    obtain ⟨createdAt, u, -, hwrite⟩ := Process.run_bind_eq_value hrun
    have hcopy : (copy.write key { data, isFinal, createdAt }).2 = copy' :=
      congrArg Prod.snd (Outcome.value.inj (Prod.mk.inj hwrite).1)
    exact hcopy ▸ h.write _ (by simpa [Table.contains] using hfree)

/-- A body keeps the index of the copy. -/
theorem indexed_filled {f : Filling} {copy copy' : DurableStore} {w w' : World ε}
    {a : Except Error Unit × List (Except StoreError Unit)} (h : copy.Indexed)
    (hrun : (filled part clock f copy).run w = (.value (a, copy'), w')) : copy'.Indexed := by
  induction f generalizing copy w a with
  | done answer =>
    cases hrun
    exact h
  | crash m => cases hrun
  | insert key data isFinal resume ih =>
    rw [filled_insert] at hrun
    obtain ⟨⟨reply, next⟩, u, hinsert, hrest⟩ := Process.run_bind_eq_value hrun
    obtain ⟨⟨⟨answer, replies⟩, last⟩, t, hbody, hlast⟩ := Process.run_bind_eq_value hrest
    cases hlast
    exact ih reply (indexed_insert h hinsert) hbody

variable (part clock)

/-- **What transactions and retention make of durable records**, from none at all. -/
inductive Reachable (locks : Part ε (LockTable String)) : World ε → Prop
  | empty {w : World ε} (h : part.get w.env = {}) : Reachable locks w
  | transact {w : World ε} (h : Reachable locks w) (f : Filling) :
    Reachable locks ((f.transact (adapter part clock)).run w).2
  | deleteRecords {w : World ε} (h : Reachable locks w) (threshold : Instant) (limit : Nat) :
    Reachable locks (((RetentionStore.durable part locks).deleteRecords threshold limit).run w).2
  /-- What happens elsewhere leaves the records alone. -/
  | elsewhere {w w' : World ε} (h : Reachable locks w) (hsame : part.get w'.env = part.get w.env) :
    Reachable locks w'

variable {part clock} {locks : Part ε (LockTable String)}

/-- One transaction keeps the index. -/
theorem indexed_transact (hclock : clock.Steps fun w w' => part.get w'.env = part.get w.env)
    {w : World ε} (h : (part.get w.env).Indexed) (f : Filling) :
    (part.get ((f.transact (adapter part clock)).run w).2.env).Indexed := by
  have hsteps := (steps_filled hclock f (part.get w.env)).run (fun _ => rfl) (fun h h' => h'.trans h) w
  rw [run_transact]
  rcases hbody : (filled part clock f (part.get w.env)).run w with
    ⟨⟨⟨⟨e | ⟨⟩, replies⟩, copy⟩⟩ | m, w'⟩
  · rw [hbody] at hsteps
    exact hsteps ▸ h
  · show (part.get (part.set copy w'.env)).Indexed
    rw [part.get_set]
    exact indexed_filled h hbody
  · rw [hbody] at hsteps
    exact hsteps ▸ h

/-- **The index tells of the records** in every reachable state. -/
theorem Reachable.indexed (hclock : clock.Steps fun w w' => part.get w'.env = part.get w.env)
    {w : World ε} (h : Reachable part clock locks w) : (part.get w.env).Indexed := by
  induction h with
  | empty h => exact h ▸ indexed_empty
  | transact _ f ih => exact indexed_transact hclock ih f
  | deleteRecords _ threshold limit ih =>
    simpa [RetentionStore.durable, Action.on, part.get_set] using ih.deleteBefore threshold limit
  | elsewhere _ hsame ih => exact hsame ▸ ih

/-! ## The result -/

/-- **The index is complete**: every entry stands under its own key and points to a record of its
    time, and every record has exactly one entry. -/
def Complete (s : DurableStore) : Prop :=
  (∀ e ∈ s.byCreation.entries, e.1 = indexKey e.2.createdAt e.2.code ∧
    ∃ r, s.records.get? e.2.code = some r ∧ r.createdAt = e.2.createdAt) ∧
  ∀ code r, s.records.get? code = some r →
    s.byCreation.entries.filter (fun e => e.2.code == code) =
      [(indexKey r.createdAt code, ⟨r.createdAt, code⟩)]

/-- **Records and their entries.**  Whatever transactions and retention have done: every entry stands
    under its own key and points to a record of its time; a record has exactly one entry if the key of
    that fits, and none if it does not. -/
theorem reachable_entries (hclock : clock.Steps fun w w' => part.get w'.env = part.get w.env)
    {w : World ε} (h : Reachable part clock locks w) :
    (∀ e ∈ (part.get w.env).byCreation.entries, e.1 = indexKey e.2.createdAt e.2.code ∧
      ∃ r, (part.get w.env).records.get? e.2.code = some r ∧ r.createdAt = e.2.createdAt) ∧
    ∀ code r, (part.get w.env).records.get? code = some r →
      (part.get w.env).byCreation.entries.filter (fun e => e.2.code == code) =
        if KeyCode.fits (indexKey r.createdAt code) then
          [(indexKey r.createdAt code, ⟨r.createdAt, code⟩)]
        else [] := by
  have hindexed := h.indexed hclock
  constructor
  · rintro ⟨key, e⟩ he
    obtain ⟨hown, -, hrecord⟩ := hindexed.points ((Table.get?_eq_some_iff _).2 he)
    exact ⟨hown, hrecord⟩
  · intro code r hr
    exact hindexed.entries_of_record hr

end DurableStore

/-! ## A depot -/

/-- **An environment of records, locks and the moments that are still to come.** -/
structure Depot (S L : Type) where
  records : S
  locks : L
  moments : List Instant

namespace Depot

variable {S L : Type}

/-- The records of a depot. -/
def recordsPart : Part (Depot S L) S where
  get := records
  set s e := { e with records := s }

/-- The locks of a depot. -/
def locksPart : Part (Depot S L) L where
  get := locks
  set l e := { e with locks := l }

/-- The moments of a depot. -/
def momentsPart : Part (Depot S L) (List Instant) where
  get := moments
  set ts e := { e with moments := ts }

/-- Reads off the next moment; after the last one there is no time. -/
def clock : Action (Depot S L) Instant := do
  match ← Action.on momentsPart fun ts => (ts.head?, ts.tail) with
  | some t => return t
  | none => Process.crash "no time left"

/-- Reading the clock leaves the records alone. -/
theorem steps_clock : (clock (S := S) (L := L)).Steps fun w w' => w'.env.records = w.env.records := by
  refine Process.Steps.bind (Process.Steps.atomically fun w => rfl) fun t => ?_
  cases t <;> trivial

/-- Reading the clock while there is time. -/
theorem run_clock {w : World (Depot S L)} {t : Instant} {rest : List Instant}
    (h : w.env.moments = t :: rest) :
    clock.run w = (.value t, { w with env := { w.env with moments := rest } }) := by
  simp [clock, Action.on, momentsPart, h]

/-- A depot of durable records without any, at some moments. -/
def opening (moments : List Instant) : World (Depot DurableStore (LockTable String)) where
  env := { records := {}, locks := {}, moments }

/-- A body that inserts a record and carries on whatever comes of it. -/
def careless (key : RecordKey) : Filling := .insert key "1" true fun _ => .done (.ok ())

/-- The records after a careless body whose insert has stopped half way. -/
def littered (key : RecordKey) (t : Instant) : DurableStore where
  records := Table.empty.insert (KeyCode.ofKey key) ⟨"1", true, t⟩

/-- What a careless body comes to whose record is new. -/
theorem run_careless {w : World (Depot DurableStore (LockTable String))} {key : RecordKey} {t : Instant}
    {rest : List Instant} {reply : Except StoreError Unit} {s : DurableStore}
    (hmoments : w.env.moments = t :: rest)
    (hfree : ¬ w.env.records.records.contains (KeyCode.ofKey key) = true)
    (hwrite : w.env.records.write key ⟨"1", true, t⟩ = (reply, s)) :
    ((careless key).transact (DurableStore.adapter recordsPart clock)).run w =
      (.value (.ok (), some [reply]), { w with env := { w.env with records := s, moments := rest } }) := by
  have hinsert : (DurableStore.insert clock key "1" true w.env.records).run w =
      (.value (reply, s), { w with env := { w.env with moments := rest } }) := by
    rw [DurableStore.insert, if_neg hfree, Process.run_bind, run_clock hmoments]
    simp only [hwrite]
    rfl
  have hbody : (DurableStore.filled recordsPart clock (careless key) w.env.records).run w =
      (.value ((.ok (), [reply]), s), { w with env := { w.env with moments := rest } }) := by
    rw [careless, DurableStore.filled_insert, Process.run_bind, hinsert]
    rfl
  have hrecords : recordsPart.get w.env = w.env.records := rfl
  rw [DurableStore.run_transact, hrecords, hbody]
  rfl

/-- Where the entry of a record does not fit, a careless body leaves the record alone behind. -/
theorem transact_careless {key : RecordKey} {t : Instant} (hcode : KeyCode.fits (KeyCode.ofKey key))
    (hentry : ¬ KeyCode.fits (DurableStore.indexKey t (KeyCode.ofKey key))) :
    ((careless key).transact (DurableStore.adapter recordsPart clock)).run (opening [t]) =
      (.value (.ok (), some [.error .keyTooLong]),
        { env := { records := littered key t, locks := {}, moments := [] } }) :=
  run_careless rfl nofun (DurableStore.write_halfway hcode hentry)

/-- A record without an entry is there, is not among the oldest, and outlives every retention. -/
theorem littered_stays (key : RecordKey) (t : Instant) :
    (littered key t).get? key = some ⟨"1", true, t⟩ ∧
    (littered key t).nthOldest 1 = none ∧
    (∀ threshold limit, (littered key t).deleteBefore threshold limit = (0, littered key t)) ∧
    ¬ (littered key t).Complete := by
  have hthere : (littered key t).records.get? (KeyCode.ofKey key) = some ⟨"1", true, t⟩ := by
    simp [littered]
  refine ⟨hthere, rfl, fun threshold limit => ?_, fun hcomplete => ?_⟩
  · simp [DurableStore.deleteBefore, DurableStore.due, littered]
  · have hone := hcomplete.2 _ _ hthere
    exact absurd hone (List.cons_ne_nil _ _).symm

/-- A key whose code has 498 bytes, which fit, and whose entry has 529, which do not. -/
def bulky : RecordKey := ⟨"p", String.ofList (List.replicate 490 'k'), "r"⟩

theorem bulky_fits : KeyCode.fits (KeyCode.ofKey bulky) := by decide +kernel

theorem bulky_overlong : ¬ KeyCode.fits (DurableStore.indexKey .epoch (KeyCode.ofKey bulky)) := by
  decide +kernel

/-- A record that a careless body has left has no entry. -/
theorem reachable_entries_littered :
    ((littered bulky .epoch).byCreation.entries.filter fun e => e.2.code == KeyCode.ofKey bulky) = [] := by
  have hreach : DurableStore.Reachable recordsPart clock locksPart
      ((careless bulky).transact (DurableStore.adapter recordsPart clock) |>.run (opening [.epoch])).2 :=
    .transact (.empty rfl) (careless bulky)
  rw [transact_careless bulky_fits bulky_overlong] at hreach
  obtain ⟨-, hentries⟩ := DurableStore.reachable_entries steps_clock hreach
  have hone := hentries (KeyCode.ofKey bulky) ⟨"1", true, .epoch⟩ (by simp [recordsPart, littered])
  rw [if_neg bulky_overlong] at hone
  exact hone

/-- **A record without an entry**: its insert has failed and the transaction has not. -/
theorem record_without_entry :
    ((careless bulky).transact (DurableStore.adapter recordsPart clock)).run (opening [.epoch]) =
      (.value (.ok (), some [.error .keyTooLong]),
        { env := { records := littered bulky .epoch, locks := {}, moments := [] } }) ∧
    (littered bulky .epoch).get? bulky = some ⟨"1", true, .epoch⟩ ∧
    (littered bulky .epoch).nthOldest 1 = none ∧
    (∀ threshold limit, (littered bulky .epoch).deleteBefore threshold limit =
      (0, littered bulky .epoch)) ∧
    ¬ (littered bulky .epoch).Complete :=
  ⟨transact_careless bulky_fits bulky_overlong, littered_stays bulky .epoch⟩

end Depot

end Idempotence
