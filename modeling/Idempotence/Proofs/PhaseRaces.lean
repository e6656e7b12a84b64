/-
  Races for a phase — executions of one phase of one instance, any number of them at once.

  1. **The race** — processes that touch the record under one key only by EXECUTING phases of that
     key through the base executor over a store in memory (`Race.Runs`).  A process may run any
     number of executions, one after the other or one inside the body of another, and do anything
     else that leaves the record alone.  Every execution writes into a book what became of its body
     and what it answered; the book is the only thing added to the code that runs.

  2. **Agreement** (`Race.executions_agree`) — whatever the schedule: at most one execution answers
     that it was executed; every output that is answered carries the data of the record; the record
     never changes once it is there; and an error is answered only where it is the body's own, so
     that meeting a duplicate, at the insert or at the end of the transaction, always yields the
     other's output.

  3. **The crux** — between the step that puts the record in and the entry in the book, an execution
     alone knows that it made the record.  The treaty therefore speaks of the world together with
     the process, if there is one, that has made the record and not yet said so.  Nobody else can
     come into that place while it is taken, because the record is there; and it is left only by the
     one entry that counts.
-/
import Idempotence.Proofs.BodyRecords
import Idempotence.Proofs.Interleaving
import Idempotence.Proofs.StepInvariants

namespace Idempotence

variable {ε κ α β : Type}

/-! ## The book -/

/-- **What is known of an execution afterwards**: what its body came to, if it ran, and the answer. -/
structure Entry where
  body : Option (Except Error String)
  answer : Except Error PhaseOutput

/-- The executions that have answered, the last one first. -/
abbrev Book := List Entry

namespace Entry

/-- Whether the body's own output became the recorded one. -/
def executed (e : Entry) : Bool :=
  match e.answer with
  | .ok output => output.wasExecuted
  | .error _ => false

/-- **What an entry says is so**: an output is the record's data, and the body's own if it was
    executed; an error is the body's own. -/
structure Agrees (e : Entry) (record : Option StoredRecord) : Prop where
  recorded : ∀ {output}, e.answer = .ok output → ∃ r, record = some r ∧ r.data = output.data
  own : ∀ {data}, e.answer = .ok (.executed data) → e.body = some (.ok data)
  failed : ∀ {x}, e.answer = .error x → e.body = some (.error x)

/-- An entry stays right as long as the record stays. -/
theorem Agrees.later {e : Entry} {record record' : Option StoredRecord} (h : e.Agrees record)
    (hkept : ∀ r, record = some r → record' = some r) : e.Agrees record' where
  recorded ha := by
    obtain ⟨r, hr, hd⟩ := h.recorded ha
    exact ⟨r, hkept r hr, hd⟩
  own := h.own
  failed := h.failed

end Entry

/-- The body with its text put aside, too. -/
def Body.shown (body : Body ε κ) : Action ε (Except Error String × (Except Error String × κ)) := do
  let (text, k) ← body
  return (text, (text, k))

/-- **An execution that enters into the book** what became of it. -/
def Executor.noted (x : Executor ε) (book : Part ε Book) (c : Context) (phase : Phase)
    (body : Body ε κ) : Action ε (Answer κ) := do
  let (answer, aside) ← x.execute c phase body.shown
  Action.change book (⟨aside.map (·.1), answer⟩ :: ·)
  return (answer, aside.map (·.2))

/-! ## The race -/

/-- A step that touches neither the record under the key nor the book. -/
def Untouched (records : Part ε MemoryStore) (book : Part ε Book) (key : RecordKey)
    (w w' : World ε) : Prop :=
  (records.get w'.env).get? key = (records.get w.env).get? key ∧ book.get w'.env = book.get w.env

/-- **Where a race is held**: the records, the book, the clock of the store, and the key. -/
structure Race (ε : Type) where
  records : Part ε MemoryStore
  book : Part ε Book
  key : RecordKey
  clock : Action ε Instant
  apart : records.Apart book
  clock_steps : clock.Steps (Untouched records book key)
  clock_safe : clock.Safe

namespace Race

variable (race : Race ε)

/-- The executor at work. -/
def executor : Executor ε := .base (MemoryStore.adapter race.records race.clock)

/-- The record under the key. -/
def record (w : World ε) : Option StoredRecord := (race.records.get w.env).get? race.key

/-- What stands in the book. -/
def entries (w : World ε) : Book := race.book.get w.env

/-- **A process in the race**: it touches the record by executions of the key alone, in contexts
    that know of no final phase, and it does not crash. -/
inductive Runs : {α : Type} → Action ε α → Prop
  | done {α : Type} (a : α) : Runs (.done a)
  | step {α : Type} {effect : World ε → World ε} {resume : World ε → Action ε α}
      (untouched : ∀ w, Untouched race.records race.book race.key w (effect w))
      (rest : ∀ w, Runs (resume w)) : Runs (.step effect resume)
  | execution {α κ : Type} {c : Context} {phase : Phase} {body : Body ε κ}
      {resume : Answer κ → Action ε α}
      (key : ⟨c.process, c.key, phase.id⟩ = race.key) (fresh : c.recordedFinal = none)
      (inner : Runs body) (rest : ∀ a, Runs (resume a)) :
      Runs (race.executor.noted race.book c phase body >>= resume)

/-! ## The treaty -/

/-- The world, and who has made the record without having said so yet. -/
abbrev Standing (ε : Type) := World ε × Option Nat

/-- **What holds at every moment.** -/
structure Fair (t : Standing ε) : Prop where
  unmade : race.record t.1 = none → t.2 = none ∧ (race.entries t.1).countP Entry.executed = 0
  unsaid : t.2 ≠ none → (race.entries t.1).countP Entry.executed = 0
  once : (race.entries t.1).countP Entry.executed ≤ 1
  agrees : ∀ e ∈ race.entries t.1, e.Agrees (race.record t.1)

/-- **What process `i` may do in one step.** -/
inductive Move (i : Nat) : Standing ε → Standing ε → Prop
  | quiet {w w' : World ε} {o : Option Nat}
      (untouched : Untouched race.records race.book race.key w w') : Move i (w, o) (w', o)
  | make {w w' : World ε} {o : Option Nat} {r : StoredRecord} (free : race.record w = none)
      (made : race.record w' = some r) (same : race.entries w' = race.entries w) :
      Move i (w, o) (w', some i)
  | say {w w' : World ε} {e : Entry} (own : e.executed = true)
      (same : race.record w' = race.record w) (noted : race.entries w' = e :: race.entries w)
      (agrees : e.Agrees (race.record w)) : Move i (w, some i) (w', none)
  | tell {w w' : World ε} {o : Option Nat} {e : Entry} (other : e.executed = false)
      (same : race.record w' = race.record w) (noted : race.entries w' = e :: race.entries w)
      (agrees : e.Agrees (race.record w)) : Move i (w, o) (w', o)

/-- What process `i` relies on: the record stays, and so does its own claim to have made it. -/
def Kept (i : Nat) (t u : Standing ε) : Prop :=
  (∀ r, race.record t.1 = some r → race.record u.1 = some r) ∧ (t.2 = some i ↔ u.2 = some i)

variable {race}

/-- **Every move keeps the race fair.** -/
theorem Move.fair {i : Nat} {t u : Standing ε} (h : race.Move i t u) (ht : race.Fair t) :
    race.Fair u := by
  cases h with
  | quiet untouched =>
    obtain ⟨hr, hb⟩ := untouched
    obtain ⟨h1, h2, h3, h4⟩ := ht
    simp only [record, entries] at *
    constructor <;> simp only [record, entries, hr, hb] <;> assumption
  | @make w w' o r free made same =>
    have hzero : (race.entries w').countP Entry.executed = 0 := same ▸ (ht.unmade free).2
    refine ⟨fun h => ?_, fun _ => hzero, by simp [hzero], fun e he => ?_⟩
    · rw [made] at h
      cases h
    · exact (ht.agrees e (same ▸ he)).later fun r' hr' => by rw [free] at hr'; cases hr'
  | @say w w' e own same noted agrees =>
    have hzero : (race.entries w).countP Entry.executed = 0 := ht.unsaid (by simp)
    have hone : (race.entries w').countP Entry.executed = 1 := by
      rw [noted, List.countP_cons_of_pos own, hzero]
    refine ⟨fun h => ?_, fun h => absurd rfl h, Nat.le_of_eq hone, fun e' he' => ?_⟩
    · have := (ht.unmade (same ▸ h)).1
      cases this
    · rw [noted] at he'
      rw [same]
      rcases List.mem_cons.1 he' with rfl | he'
      · exact agrees
      · exact ht.agrees e' he'
  | @tell w w' o e other same noted agrees =>
    have hcount : (race.entries w').countP Entry.executed = (race.entries w).countP Entry.executed := by
      rw [noted, List.countP_cons_of_neg (by simp [other])]
    refine ⟨fun h => ?_, fun h => ?_, ?_, fun e' he' => ?_⟩
    · rw [hcount]
      exact ht.unmade (same ▸ h)
    · rw [hcount]
      exact ht.unsaid h
    · rw [hcount]
      exact ht.once
    · rw [noted] at he'
      rw [same]
      rcases List.mem_cons.1 he' with rfl | he'
      · exact agrees
      · exact ht.agrees e' he'

/-- **What one does is what the others rely on.** -/
theorem Move.kept {i j : Nat} {t u : Standing ε} (hij : i ≠ j) (ht : race.Fair t)
    (h : race.Move i t u) : race.Kept j t u := by
  cases h with
  | quiet untouched => exact ⟨fun r hr => untouched.1.trans hr, Iff.rfl⟩
  | make free made same =>
    refine ⟨fun r hr => ?_, ?_⟩
    · rw [free] at hr
      cases hr
    · have := (ht.unmade free).1
      simp only at this
      simp [this, hij]
  | say own same noted agrees => exact ⟨fun r hr => same ▸ hr, by simp [hij]⟩
  | tell other same noted agrees => exact ⟨fun r hr => same ▸ hr, Iff.rfl⟩

variable (race)

/-- **The treaty of the race.** -/
def treaty : Treaty (World ε) (Standing ε) where
  view := Prod.fst
  inv := race.Fair
  rely := race.Kept
  guar := race.Move
  rely_refl _ _ := ⟨fun _ h => h, Iff.rfl⟩
  rely_trans h h' := ⟨fun r hr => h'.1 r (h.1 r hr), h.2.trans h'.2⟩
  guar_refl _ _ := .quiet ⟨rfl, rfl⟩
  inv_guar ht h := h.fair ht
  rely_guar := Move.kept

variable {race} {i : Nat} {t : Standing ε}

/-- Whoever is in the race may go on to anything that is. -/
theorem Runs.bind {p : Action ε α} {f : α → Action ε β} (hp : race.Runs p)
    (hf : ∀ a, race.Runs (f a)) : race.Runs (p >>= f) := by
  induction hp with
  | done a => exact hf a
  | step untouched rest ih => exact .step untouched fun w => ih w hf
  | execution key fresh inner rest _ ih =>
    rw [bind_assoc]
    exact .execution key fresh inner fun a => ih a hf

/-! ## What an execution keeps to -/

/-- A process that leaves record and book alone keeps the treaty. -/
theorem meets_steps {post : α → Standing ε → Prop} {p : Action ε α}
    (hp : p.Steps (Untouched race.records race.book race.key)) (hs : p.Safe)
    (hpost : ∀ a u, race.Fair u → post a u) : race.treaty.Meets i post p t := by
  induction p generalizing t with
  | done a => exact fun u _ hu => hpost a u hu
  | crash m => exact hs.elim
  | step e k ih =>
    intro u _ _
    exact ⟨(e u.1, u.2), rfl, .quiet (hp.1 u.1), ih u.1 (hp.2 u.1) (hs u.1)⟩

/-- A look at the records meets the treaty if what comes after it does. -/
theorem meets_look {post : β → Standing ε → Prop} {f : MemoryStore → α} {k : α → Action ε β}
    (h : ∀ u, race.Kept i t u → race.treaty.Meets i post (k (f (race.records.get u.1.env))) u) :
    race.treaty.Meets i post (Action.look race.records f >>= k) t :=
  Treaty.meets_look fun u htu _ => h u htu

/-- Telling an event meets the treaty if what comes after it does. -/
theorem meets_tell {post : α → Standing ε → Prop} {e : Event} {k : Unit → Action ε α}
    (h : ∀ u, race.Kept i t u → race.treaty.Meets i post (k ()) u) :
    race.treaty.Meets i post (Action.tell e >>= k) t :=
  Treaty.meets_change fun u htu _ =>
    ⟨({ u.1 with trace := u.1.trace.tell e }, u.2), rfl, .quiet ⟨rfl, rfl⟩, h _ htu⟩

/-- A step on the records meets the treaty if it is a move of the race. -/
theorem meets_on {post : α → Standing ε → Prop} {f : MemoryStore → α × MemoryStore}
    (h : ∀ u, race.Kept i t u → ∃ v, v.1 = u.1.modifyEnv (fun e => race.records.set (f (race.records.get e)).2 e) ∧
      race.Move i u v ∧ race.treaty.Meets i post (pure (f (race.records.get u.1.env)).1) v) :
    race.treaty.Meets i post (Action.on race.records f) t :=
  fun u htu _ => h u htu

/-- **The end of a transaction**: the record is this process's, or somebody has made one before. -/
theorem meets_commit {post : Except Error Unit → Standing ε → Prop} {r : StoredRecord}
    (hmade : ∀ u, race.record u.1 = some r → u.2 = some i → post (.ok ()) u)
    (htaken : ∀ u r', race.record u.1 = some r' →
      post (.error (.store (.duplicateRecord race.key))) u) :
    race.treaty.Meets i post (Action.on race.records (MemoryStore.commit [(race.key, r)])) t := by
  refine meets_on fun u _ => ?_
  cases hrec : race.record u.1 with
  | some r' =>
    rw [MemoryStore.commit_taken hrec]
    refine ⟨u, ?_, .quiet ⟨rfl, rfl⟩, fun v huv _ => htaken v r' (huv.1 r' hrec)⟩
    simp only [World.modifyEnv]
    rw [MemoryStore.commit_taken hrec, Part.set_get]
  | none =>
    rw [MemoryStore.commit_free hrec]
    let w : World ε := u.1.modifyEnv fun e => race.records.set ((race.records.get e).insert race.key r) e
    have hw : race.record w = some r := by
      simp only [record, w, World.modifyEnv, Part.get_set, Table.get?_insert, if_true]
    refine ⟨(w, some i), ?_, .make hrec hw ?_, fun v huv _ => hmade v (huv.1 r hw) (huv.2.1 rfl)⟩
    · simp only [World.modifyEnv, w]
      rw [MemoryStore.commit_free hrec]
    · simp only [entries, w, World.modifyEnv, race.apart.get_set_right]

/-- **Recording**: either the record is now this process's, or somebody has made one. -/
theorem meets_record {post : Except Error Unit → Standing ε → Prop} {isFinal : Bool} {data : String}
    (hmade : ∀ u r, race.record u.1 = some r → r.data = data → u.2 = some i → post (.ok ()) u)
    (htaken : ∀ u r, race.record u.1 = some r →
      post (.error (.store (.duplicateRecord race.key))) u) :
    race.treaty.Meets i post (MemoryStore.record race.records race.clock race.key isFinal data) t := by
  refine meets_look fun u _ => ?_
  cases hu : (race.records.get u.1.env).contains race.key with
  | true =>
    -- The key is taken, and stays so while others go on.
    obtain ⟨r, hr⟩ := Option.isSome_iff_exists.1 hu
    exact fun v huv _ => htaken v r (huv.1 r hr)
  | false =>
    -- The end of the transaction looks once more, since others may have come first.
    exact Treaty.Meets.bind (meets_steps race.clock_steps race.clock_safe fun createdAt v _ =>
      meets_commit (fun u hr => hmade u _ hr rfl) htaken)

/-- **An error of the recording** comes back as it is, or another's output comes instead of it; a
    duplicate comes back only where the record was not there. -/
theorem meets_resolve {post : Except Error PhaseOutput → Standing ε → Prop} {phase : Phase} {e : Error}
    (hback : (e.isDuplicate = true → race.record t.1 = none) → ∀ u, post (.error e) u)
    (hother : ∀ u r, race.record u.1 = some r → post (.ok (.concurrent r.data)) u) :
    race.treaty.Meets i post
      (Executor.resolve (MemoryStore.adapter race.records race.clock) race.key phase e) t := by
  rw [MemoryStore.resolve_adapter]
  by_cases hdup : e.isDuplicate = true
  · rw [if_pos hdup]
    refine meets_look fun u htu => ?_
    cases hu : (race.records.get u.1.env).get? race.key with
    | some r =>
      exact meets_tell fun v huv w hvw _ => hother w r (hvw.1 r (huv.1 r hu))
    | none =>
      refine fun v _ _ => hback (fun _ => ?_) v
      -- Had the record been there, it would be there still.
      cases ht : race.record t.1 with
      | none => rfl
      | some r => exact absurd (htu.1 r ht) (by simp [record, hu])
  · rw [if_neg hdup]
    exact fun u _ _ => hback (fun h => absurd h hdup) u

variable (race) in
/-- What an execution has answered, given what its body put aside. -/
def Answered (i : Nat) (answer : Answer (Except Error String × κ)) (t : Standing ε) : Prop :=
  let e : Entry := ⟨answer.2.map (·.1), answer.1⟩
  e.Agrees (race.record t.1) ∧ (e.executed = true → t.2 = some i)

/-- An output that is the record's. -/
theorem answered_other {output : PhaseOutput} {aside : Option (Except Error String × κ)}
    {r : StoredRecord} (hr : race.record t.1 = some r) (hdata : r.data = output.data)
    (hother : output.wasExecuted = false) : race.Answered i (.ok output, aside) t := by
  refine ⟨⟨fun {output'} h => ?_, fun {data} h => ?_, fun {x} h => nomatch h⟩, fun h => ?_⟩
  · cases h
    exact ⟨r, hr, hdata⟩
  · cases h
    cases hother
  · exact absurd h (by simp [Entry.executed, hother])

/-- An error that is the body's. -/
theorem answered_error {e : Error} {k : κ} :
    race.Answered i (.error e, some (.error e, k)) t :=
  ⟨⟨fun h => (nomatch h), fun h => (nomatch h), fun h => by cases h; rfl⟩, fun h => nomatch h⟩

/-- A body that keeps the treaty shows its own text. -/
theorem meets_shown {body : Body ε κ} (h : race.treaty.Meets i (fun _ _ => True) body t) :
    race.treaty.Meets i (fun a _ => a.2.1 = a.1) body.shown t :=
  Treaty.Meets.bind (h.weaken fun (_, _) _ _ => fun _ _ _ => rfl)

/-- **An execution keeps the treaty**, and what it answers is so. -/
theorem meets_execute {c : Context} {phase : Phase} {body : Body ε κ}
    (hkey : ⟨c.process, c.key, phase.id⟩ = race.key) (hfresh : c.recordedFinal = none)
    (hbody : ∀ u, race.treaty.Meets i (fun _ _ => True) body u) :
    race.treaty.Meets i (race.Answered i) (race.executor.execute c phase body.shown) t := by
  rw [executor, MemoryStore.execute_adapter]
  simp only [hkey, hfresh]
  refine meets_look fun u _ => ?_
  cases hu : (race.records.get u.1.env).get? race.key with
  | some r =>
    exact meets_tell fun v huv w hvw _ => answered_other (hvw.1 r (huv.1 r hu)) rfl rfl
  | none =>
    refine Treaty.Meets.bind ((meets_shown (hbody u)).weaken fun answer v hshown => ?_)
    obtain ⟨text, text', k⟩ := answer
    obtain rfl : text' = text := hshown
    cases text' with
    | error e =>
      exact Treaty.Meets.bind (meets_resolve (fun _ _ => fun _ _ _ => answered_error)
        fun w r hr => fun x hwx _ => answered_other (hwx.1 r hr) rfl rfl)
    | ok data =>
      refine Treaty.Meets.bind (meets_record (fun w r hr hdata hown => ?_) fun w r hr => ?_)
      · -- Its own record: nobody else can answer so.
        refine fun x hwx _ => ⟨⟨fun {output} h => ?_, fun {data'} h => ?_, fun {e} h => ?_⟩,
          fun _ => hwx.2.1 hown⟩
        · cases h
          exact ⟨r, hwx.1 r hr, hdata⟩
        · cases h
          rfl
        · cases h
      · exact Treaty.Meets.bind (meets_resolve
          (fun habsent => by simp [habsent rfl] at hr)
          fun w' r' hr' => fun x hwx _ => answered_other (hwx.1 r' hr') rfl rfl)

/-- **A noted execution keeps the treaty**: what it enters into the book is so. -/
theorem meets_noted {c : Context} {phase : Phase} {body : Body ε κ}
    (hkey : ⟨c.process, c.key, phase.id⟩ = race.key) (hfresh : c.recordedFinal = none)
    (hbody : ∀ u, race.treaty.Meets i (fun _ _ => True) body u) :
    race.treaty.Meets i (fun _ _ => True) (race.executor.noted race.book c phase body) t := by
  refine Treaty.Meets.bind ((meets_execute hkey hfresh hbody).weaken fun a u hanswered => ?_)
  obtain ⟨answer, aside⟩ := a
  intro v huv _
  let e : Entry := ⟨aside.map (·.1), answer⟩
  let w : World ε := v.1.modifyEnv fun env => race.book.set (e :: race.book.get env) env
  have hagrees : e.Agrees (race.record v.1) := hanswered.1.later huv.1
  have hsame : race.record w = race.record v.1 := by
    simp only [record, w, World.modifyEnv, race.apart.get_set_left]
  have hnoted : race.entries w = e :: race.entries v.1 := by
    simp only [entries, w, World.modifyEnv, Part.get_set]
  cases hown : e.executed with
  | true =>
    have hv : v = (v.1, some i) := Prod.ext rfl (huv.2.1 (hanswered.2 hown))
    exact ⟨(w, none), rfl, hv ▸ .say hown hsame hnoted hagrees, fun _ _ _ => trivial⟩
  | false =>
    exact ⟨(w, v.2), rfl, .tell hown hsame hnoted hagrees, fun _ _ _ => trivial⟩

/-- **Whoever is in the race keeps its treaty.** -/
theorem Runs.meets {p : Action ε α} (h : race.Runs p) (t : Standing ε) :
    race.treaty.Meets i (fun _ _ => True) p t := by
  induction h generalizing t with
  | done a => exact fun _ _ _ => trivial
  | step untouched rest ih =>
    intro u _ _
    exact ⟨(_, u.2), rfl, .quiet (untouched u.1), ih u.1 _⟩
  | execution key fresh inner rest ihinner ihrest =>
    exact Treaty.Meets.bind ((meets_noted key fresh ihinner).weaken fun a u _ => ihrest a u)

/-! ## Agreement -/

/-- **Executions agree under any schedule.**  `mid` and `last` are any two moments of any
    interleaving, `mid` the earlier one: at most one execution was executed; every output that was
    answered carries the data of the record, and every error is the body's own, so that an execution
    whose body succeeded has an output; the record stays as it is; and nobody crashes. -/
theorem executions_agree (race : Race ε) {threads : List (Action ε α)}
    (hthreads : ∀ p ∈ threads, race.Runs p) (w : World ε) (hbook : race.entries w = [])
    (before after : List Nat) :
    let mid := (Pool.mk threads w).play before
    let last := mid.play after
    (race.entries last.state).countP Entry.executed ≤ 1 ∧
    (∀ e ∈ race.entries last.state,
      (∀ output, e.answer = .ok output →
        ∃ r, race.record last.state = some r ∧ r.data = output.data) ∧
      (∀ data, e.body = some (.ok data) → ∃ output, e.answer = .ok output) ∧
      (∀ data, e.answer = .ok (.executed data) → e.body = some (.ok data)) ∧
      (∀ x, e.answer = .error x → e.body = some (.error x))) ∧
    (∀ r, race.record mid.state = some r → race.record last.state = some r) ∧
    (∀ (i : Nat) m, last.threads[i]? ≠ some (.crash m)) := by
  intro mid last
  have hstart : race.treaty.Together (fun _ (_ : α) _ => True) (Pool.mk threads w) (w, none) :=
    ⟨rfl, ⟨fun _ => ⟨rfl, by simp [hbook]⟩, fun h => absurd rfl h, by simp [hbook], by simp [hbook]⟩,
      fun hi => (hthreads _ (List.mem_of_getElem? hi)).meets _⟩
  obtain ⟨t, hmid, -⟩ := hstart.play before
  obtain ⟨u, hlast, hout⟩ := hmid.play after
  have hu : u.1 = last.state := hlast.view
  have ht : t.1 = mid.state := hmid.view
  have hfair : race.Fair u := hlast.inv
  refine ⟨hu ▸ hfair.once, fun e he => ?_, fun r hr => ?_, hlast.not_crashed⟩
  · have hagrees := hfair.agrees e (hu ▸ he)
    rw [hu] at hagrees
    refine ⟨fun _ => hagrees.recorded, fun data hbody => ?_, fun _ => hagrees.own,
      fun _ => hagrees.failed⟩
    cases hanswer : e.answer with
    | ok output => exact ⟨output, rfl⟩
    | error x =>
      -- An error would be the body's.
      have := hagrees.failed hanswer
      rw [hbody] at this
      cases this
  · rw [← ht] at hr
    rw [← hu]
    exact (hout mid.threads.length (Nat.le_refl _)).1 r hr

/-! ## A race with an execution inside another's body -/

/-- Records and a book and nothing else, with a clock that stands still. -/
def arena : Race (MemoryStore × Book) where
  records := { get := Prod.fst, set := fun s e => (s, e.2) }
  book := { get := Prod.snd, set := fun b e => (e.1, b) }
  key := ⟨"transfer", "req-42", "debit"⟩
  clock := pure .epoch
  apart := ⟨fun _ _ => rfl, fun _ _ => rfl⟩
  clock_steps := trivial
  clock_safe := trivial

/-- A body that does some work and then yields a text. -/
def yields (data : String) (work : Action (MemoryStore × Book) Unit) :
    Action (MemoryStore × Book) (Except Error String × Unit) := do
  work
  return (.ok data, ())

/-- An execution in the arena of such a body. -/
def contender (transactional : Bool) (data : String) (work : Action (MemoryStore × Book) Unit) :
    Action (MemoryStore × Book) Unit := do
  let _ ← arena.executor.noted arena.book
    { id := 0, process := "transfer", key := "req-42", settings := [], recordedFinal := none }
    { id := "debit", transactional } (yields data work)
  return ()

theorem runs_contender (transactional : Bool) (data : String)
    {work : Action (MemoryStore × Book) Unit} (h : arena.Runs work) :
    arena.Runs (contender transactional data work) :=
  .execution rfl rfl (h.bind fun _ => .done _) fun _ => .done _

/-- One contender with another in its body, and a third beside them. -/
def contenders : List (Action (MemoryStore × Book) Unit) :=
  [contender true "1" (contender false "2" (pure ())), contender true "3" (pure ())]

/-- All three have looked before the inner one records; the others meet its record. -/
def finish : Pool (World (MemoryStore × Book)) Unit :=
  ((Pool.mk contenders { env := (Table.empty, []) }).play [0, 0, 1]).play
    [0, 0, 0, 1, 1, 1, 1, 1, 0, 0, 0, 0, 0]

/-- Three executions of one phase, one of them in the body of another: the inner one is recorded while the others are
    under way, and all three answer with its text. -/
theorem executions_agree_nested :
    (arena.entries finish.state).map (·.answer.toOption) =
      [some (.concurrent "2"), some (.concurrent "2"), some (.executed "2")] ∧
    (arena.entries finish.state).countP Entry.executed ≤ 1 ∧
    (∀ e ∈ arena.entries finish.state, ∀ output, e.answer = .ok output →
      ∃ r, arena.record finish.state = some r ∧ r.data = output.data) := by
  have hruns : ∀ p ∈ contenders, arena.Runs p := by
    intro p hp
    rcases List.mem_cons.1 hp with rfl | hp
    · exact runs_contender true "1" (runs_contender false "2" (.done ()))
    · obtain rfl := List.mem_singleton.1 hp
      exact runs_contender true "3" (.done ())
  have h := executions_agree arena hruns { env := (Table.empty, []) } rfl [0, 0, 1]
    [0, 0, 0, 1, 1, 1, 1, 1, 0, 0, 0, 0, 0]
  exact ⟨by decide +kernel, h.1, fun e he => (h.2.1 e he).1⟩

end Race

end Idempotence
