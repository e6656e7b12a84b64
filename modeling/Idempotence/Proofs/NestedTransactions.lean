/-
  Nested transactions — transactions in memory, with other transactions inside them.

  A transaction looks twice whether a key is taken: at the insert and at its end.  Between the two looks
  anything may come into the records, for instance through transactions that begin and end while the body
  runs.

  1. **Drafts** — the body of a transaction as a tree that inserts, looks at the records, puts records in
     from outside and runs whole transactions in between; after each of these it goes on as it likes, be it
     an error or a crash that came back.

  2. **Deeds** — what has come into the records, as the client knows it from the answers: it keeps a diary of
     the batches that were committed and of the records put in from outside.  `Annals` says that a diary
     tells all that has become of the records.

  3. **The invariant** — `Drafted`: what waits in a transaction is what its inserts have been told is in, each
     key once, and each key free unless a deed since then has brought it.

  4. **The result** — `Draft.transact_atomic`: a transaction commits the whole of its batch or nothing, and
     no step of it changes or removes a record.
-/
import Idempotence.Proofs.BodyHosts
import Idempotence.Proofs.DurableRefinement

namespace Idempotence

variable {ε α β σ : Type}

namespace Process.Steps

variable {R : σ → σ → Prop}

/-- A sequence keeps to `R` if its second part does for every answer that its first part can give. -/
theorem bind_gives {Q : α → Prop} {p : Process σ α} {f : α → Process σ β} (hp : p.Steps R)
    (hgives : p.Gives Q) (hf : ∀ a, Q a → (f a).Steps R) : (p >>= f).Steps R := by
  induction p with
  | done a => exact hf a hgives
  | crash m => trivial
  | step e k ih => exact ⟨hp.1, fun s => ih s (hp.2 s) (hgives s trivial).2⟩

end Process.Steps

/-! ## Drafts -/

/-- **A record to be**: its key, its text and whether it is final. -/
structure Proposal where
  key : RecordKey
  data : String
  isFinal : Bool
  deriving DecidableEq

/-- **An insert and its answer.** -/
structure Insertion where
  proposal : Proposal
  reply : Except StoreError Unit

/-- The inserts that have been accepted, in their order. -/
def accepted (log : List Insertion) : List Proposal :=
  log.filterMap fun i => match i.reply with
    | .ok () => some i.proposal
    | .error _ => none

/-- **What the body of a transaction does**, and what else goes on meanwhile. -/
inductive Draft where
  | done (answer : Except Error Unit)
  | crash (message : String)
  /-- Looks at the records. -/
  | look (resume : MemoryStore → Draft)
  /-- Inserts, and goes on knowing what the insert answered. -/
  | insert (proposal : Proposal) (resume : Except StoreError Unit → Draft)
  /-- A record is put in from outside, over any earlier one. -/
  | load (key : RecordKey) (record : StoredRecord) (resume : Draft)
  /-- A whole transaction of somebody else runs; the body goes on however that has ended. -/
  | transact (other : Draft) (resume : Outcome (Except Error Unit) → Draft)

/-- **What has come into the records.** -/
inductive Deed where
  | committed (batch : List Proposal)
  | loaded (key : RecordKey) (record : StoredRecord)

/-- Whether a record may be put in from outside in the run of a draft. -/
def Draft.Loads (key : RecordKey) (record : StoredRecord) : Draft → Prop
  | done _ => False
  | crash _ => False
  | look resume => ∃ s, (resume s).Loads key record
  | insert _ resume => ∃ reply, (resume reply).Loads key record
  | load key' record' resume => (key' = key ∧ record' = record) ∨ resume.Loads key record
  | transact other resume => other.Loads key record ∨ ∃ o, (resume o).Loads key record

section
variable (records : Part ε MemoryStore) (clock : Action ε Instant) (diary : Part ε (List Deed))

/-- Notes a deed in the diary. -/
def Deed.note (deed : Deed) : Action ε Unit := Action.change diary (· ++ [deed])

/-- **A transaction as its client sees it**: if it ends well, the client notes what was accepted. -/
def chronicled (transaction : Action ε (Except Error Unit × Option (List Insertion))) :
    Action ε (Outcome (Except Error Unit)) := do
  match ← transaction.caught with
  | .crashed m => return .crashed m
  | .value (.error e, _) => return .value (.error e)
  | .value (.ok (), log) => do
    Deed.note diary (.committed (accepted (log.getD [])))
    return .value (.ok ())

namespace Draft

/-- **The draft as the body of a transaction**; it puts aside its inserts and their answers. -/
def body : Draft → StateT MemoryStore.Pending (Action ε) (Except Error Unit × List Insertion)
  | done answer => pure (answer, [])
  | crash m => fun _ => Process.crash m
  | look resume => do
    let s ← StateT.lift (Action.look records fun s => s)
    body (resume s)
  | insert proposal resume => do
    let reply ← (MemoryStore.adapter records clock).insert proposal.key proposal.data proposal.isFinal
    let (answer, log) ← body (resume reply)
    return (answer, ⟨proposal, reply⟩ :: log)
  | load key record resume => do
    StateT.lift (Action.change records (·.insert key record))
    StateT.lift (Deed.note diary (.loaded key record))
    body resume
  | transact other resume => do
    let o ← StateT.lift (chronicled diary ((MemoryStore.adapter records clock).transact (body other)))
    body (resume o)

/-- **The draft as a transaction.** -/
def run (d : Draft) : Action ε (Except Error Unit × Option (List Insertion)) :=
  (MemoryStore.adapter records clock).transact (d.body records clock diary)

end Draft

end

/-! ## Deeds -/

/-- **A batch is committed**: its keys are new and different, its records are in, and everything else is as
    it was. -/
structure Committed (batch : List Proposal) (s s' : MemoryStore) : Prop where
  distinct : (batch.map Proposal.key).Nodup
  new : ∀ e ∈ batch, s.get? e.key = none
  there : ∀ e ∈ batch, ∃ r, s'.get? e.key = some r ∧ r.data = e.data ∧ r.isFinal = e.isFinal
  rest : ∀ key, (∀ e ∈ batch, e.key ≠ key) → s'.get? key = s.get? key

namespace Deed

/-- What a deed makes of the records. -/
def Leads : Deed → MemoryStore → MemoryStore → Prop
  | committed batch, s, s' => Committed batch s s'
  | loaded key record, s, s' => s' = Table.insert s key record

/-- Whether a deed brings a key. -/
def Brings (key : RecordKey) : Deed → Prop
  | committed batch => ∃ e ∈ batch, e.key = key
  | loaded key' _ => key' = key

/-- Whether a deed puts in a key from outside. -/
def Overrides (key : RecordKey) : Deed → Prop
  | committed _ => False
  | loaded key' _ => key' = key

variable {deed : Deed} {s s' : MemoryStore} {key : RecordKey}

/-- A deed leaves all keys alone that it does not bring. -/
theorem Leads.rest (h : deed.Leads s s') (hkey : ¬ deed.Brings key) : s'.get? key = s.get? key := by
  cases deed with
  | committed batch => exact Committed.rest h key fun e he heq => hkey ⟨e, he, heq⟩
  | loaded key' record =>
    obtain rfl : s' = Table.insert s key' record := h
    rw [Table.get?_insert, if_neg fun heq => hkey heq.symm]

/-- A deed leaves all records alone, except one that is put in from outside. -/
theorem Leads.keeps (h : deed.Leads s s') (hkey : ¬ deed.Overrides key) {r : StoredRecord}
    (hr : s.get? key = some r) : s'.get? key = some r := by
  cases deed with
  | committed batch =>
    refine (Committed.rest h key fun e he heq => ?_).trans hr
    rw [← heq, Committed.new h e he] at hr
    cases hr
  | loaded key' record => exact (h.rest hkey).trans hr

end Deed

/-- **The annals of deeds**: what they make of the records, one after the other. -/
inductive Annals : List Deed → MemoryStore → MemoryStore → Prop
  | nil (s : MemoryStore) : Annals [] s s
  | cons {deed : Deed} {deeds : List Deed} {s t u : MemoryStore} (first : deed.Leads s t)
      (rest : Annals deeds t u) : Annals (deed :: deeds) s u

namespace Annals

variable {deeds deeds' : List Deed} {s t u : MemoryStore} {key : RecordKey}

theorem one {deed : Deed} (h : deed.Leads s t) : Annals [deed] s t := cons h (nil t)

theorem append (h : Annals deeds s t) (h' : Annals deeds' t u) : Annals (deeds ++ deeds') s u := by
  induction h with
  | nil s => exact h'
  | cons first rest ih => exact cons first (ih h')

/-- A key that no deed brings stays as it is. -/
theorem rest (h : Annals deeds s t) (hkey : ∀ deed ∈ deeds, ¬ deed.Brings key) :
    t.get? key = s.get? key := by
  induction h with
  | nil s => rfl
  | cons first later ih =>
    exact (ih fun deed hdeed => hkey deed (List.mem_cons_of_mem _ hdeed)).trans
      (first.rest (hkey _ (List.mem_cons_self ..)))

/-- **A record stays**, unless one is put in over it from outside. -/
theorem keeps (h : Annals deeds s t) (hkey : ∀ deed ∈ deeds, ¬ deed.Overrides key) {r : StoredRecord}
    (hr : s.get? key = some r) : t.get? key = some r := by
  induction h with
  | nil s => exact hr
  | cons first later ih =>
    exact ih (fun deed hdeed => hkey deed (List.mem_cons_of_mem _ hdeed))
      (first.keeps (hkey _ (List.mem_cons_self ..)) hr)

/-- A key that has come in has been brought by a deed. -/
theorem brought (h : Annals deeds s t) (hfree : s.get? key = none) :
    t.get? key = none ∨ ∃ deed ∈ deeds, deed.Brings key := by
  by_cases hbrings : ∃ deed ∈ deeds, deed.Brings key
  · exact .inr hbrings
  · exact .inl ((h.rest fun deed hdeed hkey => hbrings ⟨deed, hdeed, hkey⟩).trans hfree)

end Annals

/-! ## What waits, and how it comes in -/

namespace MemoryStore

/-- What a waiting record says. -/
def proposal (e : RecordKey × StoredRecord) : Proposal := ⟨e.1, e.2.data, e.2.isFinal⟩

/-- An insert goes through where the key is not taken and does not wait. -/
theorem not_waiting {taken : Bool} {pending : Pending} {key : RecordKey}
    (h : ¬ (taken || pending.any (·.1 == key)) = true) : taken = false ∧ ∀ e ∈ pending, e.1 ≠ key := by
  rw [Bool.or_eq_true, not_or, List.any_eq_true] at h
  exact ⟨Bool.eq_false_iff.2 h.1, fun e he heq => h.2 ⟨e, he, beq_iff_eq.2 heq⟩⟩

/-- Waiting keys stay distinct with one more that does not wait yet. -/
theorem distinct_snoc {pending : Pending} (h : (pending.map Prod.fst).Nodup) {key : RecordKey}
    (hnew : ∀ e ∈ pending, e.1 ≠ key) (r : StoredRecord) :
    ((pending ++ [(key, r)]).map Prod.fst).Nodup := by
  rw [List.map_append]
  refine List.nodup_append.2 ⟨h, List.pairwise_singleton _ _, fun key' hkey' key'' hkey'' heq => ?_⟩
  obtain ⟨e, he, rfl⟩ := List.mem_map.1 hkey'
  exact hnew e he (heq.trans (List.mem_singleton.1 hkey''))

/-- Keys that do not wait stay as they are. -/
theorem get?_applied_of_ne {pending : Pending} {s : MemoryStore} {key : RecordKey}
    (h : ∀ e ∈ pending, e.1 ≠ key) : Table.get? (applied pending s) key = Table.get? s key := by
  induction pending generalizing s with
  | nil => rfl
  | cons e pending ih =>
    obtain ⟨hne, hrest⟩ := List.forall_mem_cons.1 h
    show Table.get? (applied pending (Table.insert s e.1 e.2)) key = _
    rw [ih hrest, Table.get?_insert, if_neg hne.symm]

/-- Of different keys each record that waits comes in. -/
theorem get?_applied_of_mem {pending : Pending} (s : MemoryStore) (h : (pending.map Prod.fst).Nodup)
    {e : RecordKey × StoredRecord} (he : e ∈ pending) :
    Table.get? (applied pending s) e.1 = some e.2 := by
  induction pending generalizing s with
  | nil => cases he
  | cons e' pending ih =>
    obtain ⟨hnew, hrest⟩ := List.nodup_cons.1 h
    rcases List.mem_cons.1 he with rfl | he
    · have hne : ∀ e' ∈ pending, e'.1 ≠ e.1 := fun e' he' heq => hnew (heq ▸ List.mem_map_of_mem he')
      show Table.get? (applied pending (Table.insert s e.1 e.2)) e.1 = _
      rw [get?_applied_of_ne hne, Table.get?_insert, if_pos rfl]
    · exact ih (Table.insert s e'.1 e'.2) hrest he

/-- **All that waits comes in** where its keys are different and free. -/
theorem committed_applied {pending : Pending} {s : MemoryStore} (h : (pending.map Prod.fst).Nodup)
    (hfree : ∀ e ∈ pending, s.get? e.1 = none) : Committed (pending.map proposal) s (applied pending s) where
  distinct := by rwa [List.map_map]
  new := List.forall_mem_map.2 hfree
  there := List.forall_mem_map.2 fun e he => ⟨e.2, get?_applied_of_mem s h he, rfl, rfl⟩
  rest key hkey := get?_applied_of_ne fun e he => hkey (proposal e) (List.mem_map_of_mem he)

/-- **The end of a transaction**: everything comes in, or one of the keys has been taken and nothing does. -/
theorem commit_cases (pending : Pending) (s : MemoryStore) :
    ((∀ e ∈ pending, s.get? e.1 = none) ∧ commit pending s = (.ok (), applied pending s)) ∨
      ∃ e ∈ pending, s.contains e.1 = true ∧
        commit pending s = (.error (.store (.duplicateRecord e.1)), s) := by
  cases hfind : pending.find? fun e => Table.contains s e.1 with
  | none =>
    have hfree : ∀ e ∈ pending, s.get? e.1 = none := fun e he => by
      simpa [Table.contains] using List.find?_eq_none.1 hfind e he
    exact .inl ⟨hfree, commit_applied hfree⟩
  | some e =>
    have htaken := List.find?_some hfind
    refine .inr ⟨e, List.mem_of_find?_eq_some hfind, htaken, ?_⟩
    unfold commit
    rw [hfind]

end MemoryStore

/-! ## Bodies -/

/-- **Who keeps a diary**: the clock leaves the records and the diary alone, and neither of these sees the
    other. -/
structure Chronicler (records : Part ε MemoryStore) (clock : Action ε Instant) (diary : Part ε (List Deed)) :
    Prop where
  quiet : Quiet records clock
  apart : records.Apart diary
  silent : clock.Steps fun w w' => diary.get w'.env = diary.get w.env

/-- **Deeds between two worlds**: they have been noted, and they are all that has become of the records. -/
structure Passed (records : Part ε MemoryStore) (diary : Part ε (List Deed)) (w w' : World ε)
    (deeds : List Deed) : Prop where
  noted : diary.get w'.env = diary.get w.env ++ deeds
  annals : Annals deeds (records.get w.env) (records.get w'.env)

/-- **What waits in a transaction** after some deeds: every key once, and free unless a deed has brought it. -/
structure Drafted (records : Part ε MemoryStore) (w : World ε) (deeds : List Deed)
    (pending : MemoryStore.Pending) : Prop where
  distinct : (pending.map Prod.fst).Nodup
  free : ∀ e ∈ pending, (records.get w.env).get? e.1 = none ∨ ∃ deed ∈ deeds, deed.Brings e.1

variable {records : Part ε MemoryStore} {clock : Action ε Instant} {diary : Part ε (List Deed)}

namespace Passed

variable {w w' w'' : World ε} {deeds deeds' : List Deed}

theorem refl (w : World ε) : Passed records diary w w [] :=
  ⟨(List.append_nil _).symm, .nil _⟩

theorem trans (h : Passed records diary w w' deeds) (h' : Passed records diary w' w'' deeds') :
    Passed records diary w w'' (deeds ++ deeds') :=
  ⟨by rw [h'.noted, h.noted, List.append_assoc], h.annals.append h'.annals⟩

/-- A deed that is done and noted at once. -/
theorem deed (happart : records.Apart diary) (deed : Deed) {s' : MemoryStore}
    (h : deed.Leads (records.get w.env) s') :
    Passed records diary w
      { w with env := diary.set (diary.get (records.set s' w.env) ++ [deed]) (records.set s' w.env) }
      [deed] where
  noted := by rw [diary.get_set, happart.get_set_right]
  annals := by
    rw [happart.get_set_left, records.get_set]
    exact .one h

end Passed

namespace Drafted

variable {w w' : World ε} {before deeds : List Deed} {pending : MemoryStore.Pending}

theorem nil (w : World ε) : Drafted records w before [] := ⟨.nil, fun _ he => nomatch he⟩

/-- A draft stays what it is as deeds pass. -/
theorem later (h : Drafted records w before pending) (hpassed : Passed records diary w w' deeds) :
    Drafted records w' (before ++ deeds) pending where
  distinct := h.distinct
  free e he := by
    rcases h.free e he with hfree | ⟨deed, hdeed, hbrings⟩
    · rcases hpassed.annals.brought hfree with hfree' | ⟨deed, hdeed, hbrings⟩
      · exact .inl hfree'
      · exact .inr ⟨deed, List.mem_append_right _ hdeed, hbrings⟩
    · exact .inr ⟨deed, List.mem_append_left _ hdeed, hbrings⟩

/-- A draft may take one more record. -/
theorem snoc (h : Drafted records w before pending) {key : RecordKey} (r : StoredRecord)
    (hfree : (records.get w.env).get? key = none) (hnew : ∀ e ∈ pending, e.1 ≠ key) :
    Drafted records w before (pending ++ [(key, r)]) where
  distinct := MemoryStore.distinct_snoc h.distinct hnew r
  free e he := by
    rcases List.mem_append.1 he with he | he
    · exact h.free e he
    · obtain rfl := List.mem_singleton.1 he
      exact .inl hfree

end Drafted

namespace Chronicler

variable (h : Chronicler records clock diary)
include h

/-- The clock is no deed. -/
theorem clock_run (w : World ε) : ∃ t w', clock.run w = (.value t, w') ∧ Passed records diary w w' [] := by
  obtain ⟨t, w', hrun, halike⟩ := h.quiet.run w
  have hdiary := h.silent.run (fun _ => rfl) (fun h h' => h'.trans h) w
  rw [hrun] at hdiary
  refine ⟨t, w', hrun, ⟨by rw [hdiary, List.append_nil], ?_⟩⟩
  rw [halike.records]
  exact .nil _

/-- **One insert** is refused, or accepted where the key is free and does not wait. -/
theorem insert_run (proposal : Proposal) (pending : MemoryStore.Pending) (w : World ε) :
    ∃ w', Passed records diary w w' [] ∧
      ((MemoryStore.pend records clock proposal.key proposal.data proposal.isFinal pending).run w =
          (.value (.error (.duplicateRecord proposal.key), pending), w') ∨
        ∃ t, (records.get w.env).get? proposal.key = none ∧ (∀ e ∈ pending, e.1 ≠ proposal.key) ∧
          (MemoryStore.pend records clock proposal.key proposal.data proposal.isFinal pending).run w =
            (.value (.ok (), pending ++ [(proposal.key, ⟨proposal.data, proposal.isFinal, t⟩)]), w')) := by
  unfold MemoryStore.pend
  rw [Action.look, Process.run_bind, Process.run_look]
  by_cases htaken :
      (Table.contains (records.get w.env) proposal.key || pending.any (·.1 == proposal.key)) = true
  · refine ⟨w, .refl w, .inl ?_⟩
    simp only [htaken, if_true, Process.run_pure]
  · obtain ⟨t, w', hrun, hpassed⟩ := h.clock_run w
    obtain ⟨hfree, hnew⟩ := MemoryStore.not_waiting htaken
    rw [Table.contains, Option.isSome_eq_false_iff, Option.isNone_iff_eq_none] at hfree
    refine ⟨w', hpassed, .inr ⟨t, hfree, hnew, ?_⟩⟩
    simp only [htaken, if_false, Bool.false_eq_true, Process.run_bind, hrun, Process.run_pure]

end Chronicler

namespace Draft

variable (records clock diary) in
/-- The body of a draft, on what waits already. -/
def drafted (d : Draft) (pending : MemoryStore.Pending) :
    Action ε ((Except Error Unit × List Insertion) × MemoryStore.Pending) :=
  d.body records clock diary pending

theorem drafted_look (resume : MemoryStore → Draft) (pending : MemoryStore.Pending) :
    (look resume).drafted records clock diary pending = (do
      let s ← Action.look records fun s => s
      (resume s).drafted records clock diary pending) := rfl

theorem drafted_insert (proposal : Proposal) (resume : Except StoreError Unit → Draft)
    (pending : MemoryStore.Pending) :
    (insert proposal resume).drafted records clock diary pending = (do
      let (reply, next) ← MemoryStore.pend records clock proposal.key proposal.data proposal.isFinal pending
      let ((answer, log), last) ← (resume reply).drafted records clock diary next
      return ((answer, ⟨proposal, reply⟩ :: log), last)) := rfl

theorem drafted_load (key : RecordKey) (record : StoredRecord) (resume : Draft)
    (pending : MemoryStore.Pending) :
    (load key record resume).drafted records clock diary pending = (do
      Action.change records (·.insert key record)
      Deed.note diary (.loaded key record)
      resume.drafted records clock diary pending) := rfl

theorem drafted_transact (other : Draft) (resume : Outcome (Except Error Unit) → Draft)
    (pending : MemoryStore.Pending) :
    (transact other resume).drafted records clock diary pending = (do
      let o ← chronicled diary (other.run records clock diary)
      (resume o).drafted records clock diary pending) := by
  show ((chronicled diary (other.run records clock diary)).bind fun o => pure (o, pending)).bind
    (fun r => (resume r.1).drafted records clock diary r.2) = _
  rw [Process.bind_assoc']
  rfl

theorem run_eq (d : Draft) : d.run records clock diary = (do
    let ((answer, log), pending) ← d.drafted records clock diary []
    match answer with
      | .error e => return (.error e, some log)
      | .ok () => return (← Action.on records (MemoryStore.commit pending), some log)) := by
  refine congrArg (Process.bind (d.drafted records clock diary [])) (funext fun ended => ?_)
  obtain ⟨⟨e | ⟨⟩, log⟩, pending⟩ := ended <;> rfl

/-! ## Runs -/

/-- **The ways in which a transaction ends**, as its body has ended after the deeds `between`. -/
inductive Ends (records : Part ε MemoryStore) (mayBeDuplicate : Error → Bool) (between : List Deed) :
    Outcome ((Except Error Unit × List Insertion) × MemoryStore.Pending) × World ε →
      Outcome (Except Error Unit × Option (List Insertion)) × World ε → Prop
  /-- A crash of the body goes on, and nothing comes in. -/
  | crashed (m : String) (w : World ε) :
    Ends records mayBeDuplicate between (.crashed m, w) (.crashed m, w)
  /-- An error of the body is the answer, and nothing comes in. -/
  | failed (e : Error) (log : List Insertion) (pending : MemoryStore.Pending) (w : World ε) :
    Ends records mayBeDuplicate between (.value ((.error e, log), pending), w) (.value (.error e, some log), w)
  /-- All that was accepted comes in at once. -/
  | committed (log : List Insertion) (pending : MemoryStore.Pending) (w : World ε) {s : MemoryStore}
    (batch : Committed (accepted log) (records.get w.env) s) :
    Ends records mayBeDuplicate between (.value ((.ok (), log), pending), w)
      (.value (.ok (), some log), { w with env := records.set s w.env })
  /-- A deed has taken a key meanwhile, so nothing comes in, and the error tells of a duplicate. -/
  | refused (log : List Insertion) (pending : MemoryStore.Pending) (w : World ε) {e : Proposal}
    (mem : e ∈ accepted log) (taken : (records.get w.env).contains e.key = true)
    (brought : ∃ deed ∈ between, deed.Brings e.key)
    (told : mayBeDuplicate (.store (.duplicateRecord e.key)) = true) :
    Ends records mayBeDuplicate between (.value ((.ok (), log), pending), w)
      (.value (.error (.store (.duplicateRecord e.key)), some log), w)

/-- A record that is there when the body has ended is there at the end. -/
theorem Ends.keeps {mayBeDuplicate : Error → Bool} {between : List Deed}
    {ended : Outcome ((Except Error Unit × List Insertion) × MemoryStore.Pending) × World ε}
    {result : Outcome (Except Error Unit × Option (List Insertion)) × World ε}
    (h : Ends records mayBeDuplicate between ended result) {key : RecordKey} {r : StoredRecord}
    (hr : (records.get ended.2.env).get? key = some r) : (records.get result.2.env).get? key = some r := by
  cases h with
  | crashed => exact hr
  | failed => exact hr
  | committed log pending w batch =>
    rw [records.get_set]
    exact Deed.Leads.keeps (show (Deed.committed (accepted log)).Leads _ _ from batch) id hr
  | refused => exact hr

/-- What a body comes to that begins in the world `w`, after the deeds `before` and with something waiting:
    further deeds have been done, and what waits now is what waited and what was accepted. -/
structure Stands (records : Part ε MemoryStore) (diary : Part ε (List Deed)) (w : World ε)
    (before : List Deed) (pending : MemoryStore.Pending)
    (ended : Outcome ((Except Error Unit × List Insertion) × MemoryStore.Pending) × World ε)
    (deeds : List Deed) : Prop where
  passed : Passed records diary w ended.2 deeds
  drafted : ∀ answer log last, ended.1 = .value ((answer, log), last) →
    Drafted records ended.2 (before ++ deeds) last ∧
      last.map MemoryStore.proposal = pending.map MemoryStore.proposal ++ accepted log

namespace Stands

variable {w w' : World ε} {before deeds deeds' : List Deed} {pending : MemoryStore.Pending}
  {ended : Outcome ((Except Error Unit × List Insertion) × MemoryStore.Pending) × World ε}

/-- The deeds before the rest of a body join those of the rest. -/
theorem after (hpassed : Passed records diary w w' deeds)
    (h : Stands records diary w' (before ++ deeds) pending ended deeds') :
    Stands records diary w before pending ended (deeds ++ deeds') where
  passed := hpassed.trans h.passed
  drafted answer log last heq := by
    rw [← List.append_assoc]
    exact h.drafted answer log last heq

/-- **An insert before the rest of a body**, which has the insert put aside with its own. -/
theorem logged {d : Draft} {next : MemoryStore.Pending} {i : Insertion}
    (h : Stands records diary w before next ((d.drafted records clock diary next).run w) deeds)
    (hnext : next.map MemoryStore.proposal = pending.map MemoryStore.proposal ++ accepted [i]) :
    Stands records diary w before pending
      ((do
        let ((answer, log), last) ← d.drafted records clock diary next
        return ((answer, i :: log), last) : Action ε _).run w) deeds := by
  rw [Process.run_bind]
  rcases hrun : (d.drafted records clock diary next).run w with ⟨⟨⟨answer, log⟩, last⟩ | m, w'⟩
  · rw [hrun] at h
    refine ⟨h.passed, ?_⟩
    rintro _ _ _ ⟨⟩
    obtain ⟨hdrafted, hlog⟩ := h.drafted _ _ _ rfl
    refine ⟨hdrafted, ?_⟩
    rw [hlog, hnext, List.append_assoc]
    exact congrArg _ (List.filterMap_append (l := [i])).symm
  · rw [hrun] at h
    exact ⟨h.passed, fun _ _ _ heq => nomatch heq⟩

end Stands

/-- **The end of a transaction**, from where its body stands. -/
theorem ends_run {d : Draft} {w : World ε} {between : List Deed}
    (hbody : Stands records diary w [] [] ((d.drafted records clock diary []).run w) between) :
    Ends records Error.isDuplicate between ((d.drafted records clock diary []).run w)
      ((d.run records clock diary).run w) := by
  rw [run_eq, Process.run_bind]
  rcases hrun : (d.drafted records clock diary []).run w with ⟨⟨⟨e | ⟨⟩, log⟩, pending⟩ | m, w'⟩
  · exact .failed e log pending w'
  · rw [hrun] at hbody
    obtain ⟨hdrafted, hlog⟩ := hbody.drafted _ _ _ rfl
    have hcommit : (Action.on records (MemoryStore.commit pending)).run w' =
        (.value (MemoryStore.commit pending (records.get w'.env)).1,
          { w' with env := records.set (MemoryStore.commit pending (records.get w'.env)).2 w'.env }) := rfl
    simp only [Process.run_bind, hcommit, Process.run_pure]
    rcases MemoryStore.commit_cases pending (records.get w'.env) with ⟨hfree, heq⟩ | ⟨e, he, htaken, heq⟩
    · rw [heq]
      refine .committed log pending w' ?_
      rw [show accepted log = pending.map MemoryStore.proposal from hlog.symm]
      exact MemoryStore.committed_applied hdrafted.distinct hfree
    · rw [heq, records.set_get]
      have hbrought : ∃ deed ∈ between, deed.Brings e.1 := by
        refine (hdrafted.free e he).resolve_left fun hnone => ?_
        rw [Table.contains, hnone] at htaken
        cases htaken
      have hmem : MemoryStore.proposal e ∈ accepted log := by
        rw [show accepted log = pending.map MemoryStore.proposal from hlog.symm]
        exact List.mem_map_of_mem he
      exact .refused log pending w' hmem htaken hbrought rfl
  · exact .crashed m w'

/-- **What a client notes** of a transaction is all that has become of the records. -/
theorem chronicled_run (h : Chronicler records clock diary) {d : Draft} {w : World ε} {between : List Deed}
    (hbody : Stands records diary w [] [] ((d.drafted records clock diary []).run w) between) :
    ∃ o w' deeds, (chronicled diary (d.run records clock diary)).run w = (.value o, w') ∧
      Passed records diary w w' deeds := by
  have hends := ends_run hbody
  have hpassed := hbody.passed
  unfold chronicled
  rw [Process.run_bind, Process.run_caught]
  generalize (d.drafted records clock diary []).run w = ended at hends hpassed
  generalize (d.run records clock diary).run w = result at hends
  cases hends with
  | crashed m w' => exact ⟨_, w', between, rfl, hpassed⟩
  | failed e log pending w' => exact ⟨_, w', between, rfl, hpassed⟩
  | committed log pending w' hbatch =>
    exact ⟨_, _, _, rfl, hpassed.trans (.deed h.apart (.committed (accepted log)) hbatch)⟩
  | refused log pending w' => exact ⟨_, w', between, rfl, hpassed⟩

/-- **A whole body**: what waits at its end has been accepted, and the deeds in between have been noted. -/
theorem stands (h : Chronicler records clock diary) (d : Draft) {w : World ε} {before : List Deed}
    {pending : MemoryStore.Pending} (hpending : Drafted records w before pending) :
    ∃ deeds, Stands records diary w before pending ((d.drafted records clock diary pending).run w) deeds := by
  induction d generalizing w before pending with
  | done answer =>
    refine ⟨[], .refl w, ?_⟩
    rintro _ _ _ ⟨⟩
    exact ⟨by rwa [List.append_nil], (List.append_nil _).symm⟩
  | crash m => exact ⟨[], .refl w, fun _ _ _ heq => nomatch heq⟩
  | look resume ih =>
    rw [drafted_look]
    exact ih (records.get w.env) hpending
  | insert proposal resume ih =>
    obtain ⟨w', hpassed, hinsert⟩ := h.insert_run proposal pending w
    rw [drafted_insert, Process.run_bind]
    rcases hinsert with hrun | ⟨t, hfree, hnew, hrun⟩
    · rw [hrun]
      obtain ⟨deeds, hrest⟩ := ih _ (hpending.later hpassed)
      exact ⟨_, (hrest.logged (List.append_nil _).symm).after hpassed⟩
    · rw [hrun]
      obtain ⟨deeds, hrest⟩ := ih _ ((hpending.snoc _ hfree hnew).later hpassed)
      exact ⟨_, (hrest.logged (List.map_append ..)).after hpassed⟩
  | load key record resume ih =>
    rw [drafted_load]
    have hpassed : Passed records diary w _ [.loaded key record] := .deed h.apart _ rfl
    obtain ⟨deeds, hrest⟩ := ih (hpending.later hpassed)
    exact ⟨_, hrest.after hpassed⟩
  | transact other resume ihother ih =>
    obtain ⟨between, hother⟩ := ihother (.nil w)
    obtain ⟨o, w', deeds, hrun, hpassed⟩ := chronicled_run h hother
    rw [drafted_transact, Process.run_bind, hrun]
    obtain ⟨deeds', hrest⟩ := ih o (hpending.later hpassed)
    exact ⟨_, hrest.after hpassed⟩

/-! ## Single steps -/

/-- **What a step may do to the records**: nothing, put one in from outside, or commit a batch. -/
inductive Touches (loads : RecordKey → StoredRecord → Prop) : MemoryStore → MemoryStore → Prop
  | nothing (s : MemoryStore) : Touches loads s s
  | loaded (s : MemoryStore) {key : RecordKey} {r : StoredRecord} (h : loads key r) :
    Touches loads s (Table.insert s key r)
  | committed {batch : List Proposal} {s s' : MemoryStore} (h : Committed batch s s') : Touches loads s s'

variable (records) in
/-- Every step of an action touches the records like that. -/
abbrev Touching (loads : RecordKey → StoredRecord → Prop) (a : Action ε α) : Prop :=
  a.Steps fun w w' => Touches loads (records.get w.env) (records.get w'.env)

theorem Touches.mono {loads loads' : RecordKey → StoredRecord → Prop} {s s' : MemoryStore}
    (h : Touches loads s s') (hloads : ∀ key r, loads key r → loads' key r) : Touches loads' s s' := by
  cases h with
  | nothing => exact .nothing s
  | loaded _ h => exact .loaded s (hloads _ _ h)
  | committed h => exact .committed h

theorem Touching.mono {loads loads' : RecordKey → StoredRecord → Prop} {a : Action ε α}
    (h : Touching records loads a) (hloads : ∀ key r, loads key r → loads' key r) :
    Touching records loads' a :=
  Process.Steps.mono h fun _ _ hstep => hstep.mono hloads

/-- What leaves the records alone touches none of them. -/
theorem touching_of_apart {loads : RecordKey → StoredRecord → Prop} {a : Action ε α}
    (h : a.Steps fun w w' => records.get w'.env = records.get w.env) : Touching records loads a :=
  h.mono fun _ _ heq => heq ▸ .nothing _

theorem touching_note (h : Chronicler records clock diary) (loads : RecordKey → StoredRecord → Prop)
    (deed : Deed) : Touching records loads (Deed.note diary deed) :=
  touching_of_apart (.change fun _ => h.apart.get_set_left _ _)

theorem touching_pend (h : Chronicler records clock diary) (loads : RecordKey → StoredRecord → Prop)
    (proposal : Proposal) (pending : MemoryStore.Pending) :
    Touching records loads
      (MemoryStore.pend records clock proposal.key proposal.data proposal.isFinal pending) := by
  refine touching_of_apart (Process.Steps.bind ⟨fun _ => rfl, fun _ => trivial⟩ fun taken => ?_)
  split
  · trivial
  · exact .bind (h.quiet.steps.mono fun _ _ halike => halike.records) fun _ => trivial

/-- Keys that wait stay different at an insert, whatever it sees. -/
theorem gives_pend (records : Part ε MemoryStore) (clock : Action ε Instant) (proposal : Proposal)
    {pending : MemoryStore.Pending} (hpending : (pending.map Prod.fst).Nodup) :
    (MemoryStore.pend records clock proposal.key proposal.data proposal.isFinal pending).Gives fun next =>
      (next.2.map Prod.fst).Nodup := by
  unfold MemoryStore.pend
  refine .bind (Process.gives_any _) fun taken _ => ?_
  by_cases hnew : (taken || pending.any (·.1 == proposal.key)) = true
  · rw [if_pos hnew]
    exact hpending
  · rw [if_neg hnew]
    refine .bind (Process.gives_any _) fun t _ => ?_
    exact MemoryStore.distinct_snoc hpending (MemoryStore.not_waiting hnew).2 _

/-- The keys that wait at the end of a body are different, whatever the body has seen. -/
theorem gives_distinct (d : Draft) {pending : MemoryStore.Pending} (hpending : (pending.map Prod.fst).Nodup) :
    (d.drafted records clock diary pending).Gives fun ended => (ended.2.map Prod.fst).Nodup := by
  induction d generalizing pending with
  | done answer => exact hpending
  | crash m => trivial
  | look resume ih =>
    rw [drafted_look]
    exact .bind (Process.gives_any _) fun s _ => ih s hpending
  | insert proposal resume ih =>
    rw [drafted_insert]
    refine (gives_pend records clock proposal hpending).bind fun next hnext => ?_
    exact .bind (ih next.1 hnext) fun ended hended => hended
  | load key record resume ih =>
    rw [drafted_load]
    exact .bind (Process.gives_any _) fun _ _ => .bind (Process.gives_any _) fun _ _ => ih hpending
  | transact other resume _ ih =>
    rw [drafted_transact]
    exact .bind (Process.gives_any _) fun o _ => ih o hpending

/-- The end of a transaction touches the records once. -/
theorem touching_commit (loads : RecordKey → StoredRecord → Prop) {pending : MemoryStore.Pending}
    (hpending : (pending.map Prod.fst).Nodup) :
    Touching records loads (Action.on records (MemoryStore.commit pending)) := by
  refine .atomically fun w => ?_
  show Touches loads (records.get w.env)
    (records.get (records.set (MemoryStore.commit pending (records.get w.env)).2 w.env))
  rw [records.get_set]
  rcases MemoryStore.commit_cases pending (records.get w.env) with ⟨hfree, heq⟩ | ⟨e, -, -, heq⟩
  · rw [heq]
    exact .committed (MemoryStore.committed_applied hpending hfree)
  · rw [heq]
    exact .nothing _

/-- A transaction touches the records as its body does, and at its end. -/
theorem touching_run {loads : RecordKey → StoredRecord → Prop} {d : Draft}
    (hbody : Touching records loads (d.drafted records clock diary [])) :
    Touching records loads (d.run records clock diary) := by
  rw [run_eq]
  refine hbody.bind_gives (gives_distinct d .nil) fun ended hpending => ?_
  obtain ⟨⟨e | ⟨⟩, log⟩, pending⟩ := ended
  · trivial
  · exact .bind (touching_commit loads hpending) fun _ => trivial

theorem touching_chronicled (h : Chronicler records clock diary) {loads : RecordKey → StoredRecord → Prop}
    {transaction : Action ε (Except Error Unit × Option (List Insertion))}
    (htransaction : Touching records loads transaction) :
    Touching records loads (chronicled diary transaction) := by
  refine .bind (Process.steps_caught htransaction) fun o => ?_
  obtain ⟨⟨e | ⟨⟩, log⟩⟩ | m := o
  · trivial
  · exact .bind (touching_note h loads _) fun _ => trivial
  · trivial

/-- **A body** puts in only what it has put in from outside, and what its transactions commit. -/
theorem touching_drafted (h : Chronicler records clock diary) (d : Draft) (pending : MemoryStore.Pending) :
    Touching records (fun key r => d.Loads key r) (d.drafted records clock diary pending) := by
  induction d generalizing pending with
  | done answer => trivial
  | crash m => trivial
  | look resume ih =>
    rw [drafted_look]
    exact .bind ⟨fun _ => .nothing _, fun _ => trivial⟩ fun s =>
      (ih s pending).mono fun _ _ hloads => ⟨s, hloads⟩
  | insert proposal resume ih =>
    rw [drafted_insert]
    exact .bind (touching_pend h _ proposal pending) fun next =>
      .bind ((ih next.1 next.2).mono fun _ _ hloads => ⟨next.1, hloads⟩) fun _ => trivial
  | load key record resume ih =>
    rw [drafted_load]
    refine .bind (.change fun w => ?_) fun _ => .bind (touching_note h _ _) fun _ =>
      (ih pending).mono fun _ _ hloads => .inr hloads
    show Touches _ _ (records.get (records.set _ w.env))
    rw [records.get_set]
    exact .loaded _ (.inl ⟨rfl, rfl⟩)
  | transact other resume ihother ih =>
    rw [drafted_transact]
    exact .bind (touching_chronicled h (touching_run ((ihother []).mono fun _ _ hloads => .inl hloads)))
      fun o => (ih o pending).mono fun _ _ hloads => .inr ⟨o, hloads⟩

/-! ## The result -/

/-- **Transactions are atomic and create-only.**  Whatever the body does, with whole transactions and
    records from outside in between: the deeds in between are all that its run has made of the records
    (`Passed`); then all that was accepted comes in at once, its keys new, or nothing does (`Ends`).  A
    record that is there stays as it is unless one is put in over it from outside, and that goes for every
    single step, too, whoever else takes steps meanwhile (`Touching`). -/
theorem transact_atomic (h : Chronicler records clock diary) (d : Draft) (w : World ε) :
    (∃ between,
      Passed records diary w ((d.drafted records clock diary []).run w).2 between ∧
        Ends records (MemoryStore.adapter records clock).mayBeDuplicate between
          ((d.drafted records clock diary []).run w) ((d.run records clock diary).run w) ∧
        ∀ key r, (records.get w.env).get? key = some r → (∀ deed ∈ between, ¬ deed.Overrides key) →
          (records.get ((d.run records clock diary).run w).2.env).get? key = some r) ∧
      Touching records (fun key r => d.Loads key r) (d.run records clock diary) := by
  obtain ⟨between, hbody⟩ := stands h d (.nil w)
  have hends := ends_run hbody
  refine ⟨⟨between, hbody.passed, hends, fun key r hr hkey => ?_⟩, touching_run (touching_drafted h d [])⟩
  have hkept := hbody.passed.annals.keeps hkey hr
  exact hends.keeps hkept

end Draft

/-! ## A rival -/

/-- Records, and the diary of a client. -/
structure Registry where
  records : MemoryStore := Table.empty
  diary : List Deed := []

namespace Registry

/-- The records of a registry. -/
def recordsPart : Part Registry MemoryStore where
  get r := r.records
  set records r := { r with records }

/-- The diary of a registry. -/
def diaryPart : Part Registry (List Deed) where
  get r := r.diary
  set diary r := { r with diary }

/-- A clock that stands still. -/
def still : Action Registry Instant := pure .epoch

theorem chronicler : Chronicler recordsPart still diaryPart :=
  ⟨.pure _, ⟨fun _ _ => rfl, fun _ _ => rfl⟩, trivial⟩

/-- An empty registry. -/
def fresh : World Registry := { env := {} }

/-- A record to be. -/
def apply : Proposal := ⟨⟨"p", "k", "apply"⟩, "1", true⟩

/-- A body that swallows its second insert's error, with a whole transaction in between that inserts the
    same record. -/
def rivalled : Draft :=
  .insert apply fun _ => .insert apply fun _ =>
    .transact (.insert apply fun reply => .done (reply.mapError .store)) fun _ => .done (.ok ())

/-- The rival wins, and the body's own transaction is refused. -/
theorem rivalled_atomic :
    (∃ between,
      Passed recordsPart diaryPart fresh
          ((rivalled.drafted recordsPart still diaryPart []).run fresh).2 between ∧
        Draft.Ends recordsPart (MemoryStore.adapter recordsPart still).mayBeDuplicate between
          ((rivalled.drafted recordsPart still diaryPart []).run fresh)
          ((rivalled.run recordsPart still diaryPart).run fresh)) ∧
      ((rivalled.run recordsPart still diaryPart).run fresh).1 =
        .value (.error (.store (.duplicateRecord apply.key)),
          some [⟨apply, .ok ()⟩, ⟨apply, .error (.duplicateRecord apply.key)⟩]) ∧
      ((rivalled.run recordsPart still diaryPart).run fresh).2.env.diary = [.committed [apply]] := by
  obtain ⟨⟨between, hpassed, hends, -⟩, -⟩ := Draft.transact_atomic chronicler rivalled fresh
  exact ⟨⟨between, hpassed, hends⟩, rfl, rfl⟩

end Registry

end Idempotence
