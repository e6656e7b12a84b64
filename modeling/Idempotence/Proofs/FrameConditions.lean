/-
  Frame conditions — what goes on beside the records and the contexts.

  The engine decides by two things alone: the RECORDS of the instance and the BARE state of the
  context, which is its state without the properties that extensions keep there.  Everything else in
  the world may change at any time without the engine taking notice.

  1. **Ledgers** — the records of one instance, as a function of the phase id.  A ledger `Grows`; it
     is `Final` once one of its records is.  `findFinal_isSome` says that the store answers just that.

  2. **Steps beside a context** — `Beside K` leaves the bare state of one context alone and changes
     the ledger of its instance by `K` at most: not at all for `Eq`, by new records for `Grows`.
     Bodies of phases and whatever else goes on in the world are made of such steps.

  3. **Quiet actions** — `Alike` worlds agree in all records and in the bare states of all contexts; an
     action is `Quiet` if its steps lead to alike worlds and it does not crash.  Clocks, locks, sinks
     and the bookkeeping of extensions are quiet.
-/
import Idempotence.Context
import Idempotence.Proofs.StepInvariants
import Idempotence.Store.Memory

namespace Idempotence

variable {ε α β : Type}

/-! ## Ledgers -/

/-- **The records of one instance**, by the ids of their phases. -/
abbrev Ledger := String → Option StoredRecord

namespace Ledger

/-- No record is lost or changed. -/
def Grows (l l' : Ledger) : Prop := ∀ id r, l id = some r → l' id = some r

/-- There is a final record. -/
def Final (l : Ledger) : Prop := ∃ id r, l id = some r ∧ r.isFinal = true

/-- The ledger with one more record. -/
def put (l : Ledger) (id : String) (r : StoredRecord) : Ledger := fun j => if j = id then some r else l j

theorem Grows.refl (l : Ledger) : l.Grows l := fun _ _ h => h

theorem grows_of_eq {l l' : Ledger} (h : l' = l) : l.Grows l' := h ▸ .refl l

theorem Grows.trans {l l' l'' : Ledger} (h : l.Grows l') (h' : l'.Grows l'') : l.Grows l'' :=
  fun id r hr => h' id r (h id r hr)

theorem Grows.final {l l' : Ledger} (h : l.Grows l') : l.Final → l'.Final :=
  fun ⟨id, r, hr, hf⟩ => ⟨id, r, h id r hr, hf⟩

/-- A record under an id that was free changes no other. -/
theorem grows_put {l : Ledger} {id : String} (h : l id = none) (r : StoredRecord) :
    l.Grows (l.put id r) := by
  intro j s hs
  have hj : j ≠ id := by
    rintro rfl
    rw [h] at hs
    cases hs
  rw [put, if_neg hj]
  exact hs

/-- A record that is not final makes nothing final. -/
theorem final_put {l : Ledger} {id : String} {r : StoredRecord} (hr : r.isFinal = false)
    (h : (l.put id r).Final) : l.Final := by
  obtain ⟨j, s, hs, hf⟩ := h
  unfold put at hs
  split at hs
  · cases hs
    rw [hr] at hf
    cases hf
  · exact ⟨j, s, hs, hf⟩

/-- **How ledgers may change**: the preorders in which no record is lost. -/
structure Keeping (K : Ledger → Ledger → Prop) : Prop where
  refl : ∀ l, K l l
  trans : ∀ {l l' l''}, K l l' → K l' l'' → K l l''
  grows : ∀ {l l'}, K l l' → l.Grows l'

theorem keeping_eq : Keeping Eq := ⟨fun _ => rfl, Eq.trans, fun h => h ▸ Grows.refl _⟩

theorem keeping_grows : Keeping Grows := ⟨Grows.refl, Grows.trans, fun h => h⟩

end Ledger

namespace MemoryStore

/-- The records of an instance. -/
def ledger (s : MemoryStore) (process key : String) : Ledger := fun id => s.get? ⟨process, key, id⟩

/-- Inserting a record of the instance. -/
theorem ledger_insert (s : MemoryStore) (process key id : String) (r : StoredRecord) :
    MemoryStore.ledger (s.insert ⟨process, key, id⟩ r) process key =
      (s.ledger process key).put id r := by
  funext j
  simp only [ledger, Ledger.put, Table.get?_insert, RecordKey.mk.injEq, true_and]

/-- **The store finds a final record** exactly where there is one. -/
theorem findFinal_isSome (s : MemoryStore) (process key : String) :
    (s.findFinal process key).isSome = true ↔ (s.ledger process key).Final := by
  unfold findFinal
  rw [Option.isSome_map, List.find?_isSome]
  constructor
  · rintro ⟨⟨⟨process', key', id⟩, r⟩, hmem, hr⟩
    obtain ⟨hf, rfl, rfl⟩ : r.isFinal = true ∧ process' = process ∧ key' = key := by
      simpa [RecordKey.belongsTo] using hr
    exact ⟨id, r, (Table.get?_eq_some_iff s).2 hmem, hf⟩
  · rintro ⟨id, r, hr, hf⟩
    exact ⟨(⟨process, key, id⟩, r), (Table.get?_eq_some_iff s).1 hr, by simp [RecordKey.belongsTo, hf]⟩

end MemoryStore

/-- The records of an instance in a world. -/
def Part.ledger (records : Part ε MemoryStore) (process key : String) (w : World ε) : Ledger :=
  (records.get w.env).ledger process key

/-! ## Bare states -/

namespace ContextState

/-- **The state without its properties**, which is all that the engine itself goes by. -/
def bare (s : ContextState) : ContextState :=
  { s with properties := default, active := s.active.map fun a => ⟨a.phase, default⟩ }

variable {s t : ContextState}

theorem wasFinal_eq (h : s.bare = t.bare) : s.wasFinal = t.wasFinal := congrArg (·.wasFinal) h

theorem visited_eq (h : s.bare = t.bare) : s.visited = t.visited := congrArg (·.visited) h

theorem lock_eq (h : s.bare = t.bare) : s.lock = t.lock := congrArg (·.lock) h

theorem closed_eq (h : s.bare = t.bare) : s.closed = t.closed := congrArg (·.closed) h

/-- Whether a phase is active is part of the bare state. -/
theorem active_eq_none (h : s.bare = t.bare) : s.active = none ↔ t.active = none := by
  have hactive : s.active.map (fun a => (⟨a.phase, default⟩ : ActivePhase)) =
      t.active.map fun a => ⟨a.phase, default⟩ := congrArg (·.active) h
  rw [← Option.map_eq_none_iff, hactive, Option.map_eq_none_iff]

/-- Leaving a phase takes no notice of properties. -/
theorem bare_leave (h : s.bare = t.bare) (phase : Phase) : (s.leave phase).bare = (t.leave phase).bare := by
  show { s.bare with wasFinal := s.wasFinal || phase.isFinal, active := none } =
    ({ t.bare with wasFinal := t.wasFinal || phase.isFinal, active := none } : ContextState)
  rw [h, wasFinal_eq h]

end ContextState

namespace World

@[simp] theorem length_modifyContext (w : World ε) (id : Nat) (f : ContextState → ContextState) :
    (w.modifyContext id f).contexts.length = w.contexts.length :=
  List.length_modify ..

/-- The state of a context after a change of the state of a context. -/
theorem context_modifyContext (w : World ε) (id j : Nat) (f : ContextState → ContextState) :
    (w.modifyContext id f).context j =
      if id = j ∧ j < w.contexts.length then f (w.context j) else w.context j := by
  unfold context modifyContext
  rw [List.getD_eq_getElem?_getD, List.getD_eq_getElem?_getD, List.getElem?_modify]
  by_cases hj : j < w.contexts.length
  · rw [List.getElem?_eq_getElem hj]
    by_cases hid : id = j <;> simp [hid, hj]
  · rw [List.getElem?_eq_none (by omega)]
    simp [hj]

/-- The state of a context after a change of its own. -/
theorem context_modifyContext_self (w : World ε) {id : Nat} (f : ContextState → ContextState)
    (h : id < w.contexts.length) : (w.modifyContext id f).context id = f (w.context id) := by
  rw [context_modifyContext, if_pos ⟨rfl, h⟩]

/-- A new context leaves the others as they are. -/
theorem context_append (w : World ε) (s : ContextState) {id : Nat} (h : id < w.contexts.length) :
    ({ w with contexts := w.contexts ++ [s] } : World ε).context id = w.context id := by
  simp only [context, List.getD_eq_getElem?_getD, List.getElem?_append_left h]

/-- A new context gets the next id. -/
theorem context_append_self (w : World ε) (s : ContextState) :
    ({ w with contexts := w.contexts ++ [s] } : World ε).context w.contexts.length = s := by
  simp [context, List.getD_eq_getElem?_getD]

/-- A change that leaves the state of the context as it is leaves the world as it is. -/
theorem modifyContext_eq_self {w : World ε} {id : Nat} {f : ContextState → ContextState}
    (h : f (w.context id) = w.context id) : w.modifyContext id f = w := by
  have hcontexts : w.contexts.modify id f = w.contexts := by
    refine List.ext_getElem? fun j => ?_
    rw [List.getElem?_modify]
    by_cases hj : id = j
    · subst hj
      cases hs : w.contexts[id]? with
      | none => rfl
      | some s =>
        have hcontext : w.context id = s := by simp [context, List.getD_eq_getElem?_getD, hs]
        rw [hcontext] at h
        simp [h]
    · simp [hj]
  unfold modifyContext
  rw [hcontexts]

/-! What is seen of all contexts, when one of them changes. -/

section

variable (see : ContextState → α)

/-- What is seen of one context. -/
theorem see_context (w : World ε) (id : Nat) :
    see (w.context id) = (w.contexts.map see).getD id (see default) := by
  simp only [context, List.getD_eq_getElem?_getD, List.getElem?_map]
  cases w.contexts[id]? <;> rfl

/-- A change that can be seen changes what is seen. -/
theorem see_modifyContext {f : ContextState → ContextState} {g : α → α} (hfg : ∀ s, see (f s) = g (see s))
    (id : Nat) (w : World ε) : (w.modifyContext id f).contexts.map see = (w.contexts.map see).modify id g := by
  refine List.ext_getElem? fun j => ?_
  simp only [modifyContext, List.getElem?_map, List.getElem?_modify]
  by_cases hj : id = j <;> cases w.contexts[j]? <;> simp [hj, hfg]

/-- A change that cannot be seen changes nothing. -/
theorem see_modifyContext_same {f : ContextState → ContextState} {w : World ε} {id : Nat}
    (hf : see (f (w.context id)) = see (w.context id)) :
    (w.modifyContext id f).contexts.map see = w.contexts.map see := by
  refine List.ext_getElem? fun j => ?_
  simp only [modifyContext, List.getElem?_map, List.getElem?_modify]
  by_cases hj : id = j
  · subst hj
    rw [context, List.getD_eq_getElem?_getD] at hf
    cases hs : w.contexts[id]? with
    | none => rfl
    | some s =>
      rw [hs] at hf
      simpa using hf
  · simp [hj]

end

end World

/-! ## Steps beside a context -/

/-- **A step beside a context**: it leaves the bare state of the context alone, and changes the ledger
    of the instance by `K` at most. -/
structure Beside (K : Ledger → Ledger → Prop) (records : Part ε MemoryStore) (c : Context)
    (w w' : World ε) : Prop where
  ledger : K (records.ledger c.process c.key w) (records.ledger c.process c.key w')
  length : w.contexts.length ≤ w'.contexts.length
  bare : c.id < w.contexts.length → (w'.context c.id).bare = (w.context c.id).bare

/-- **Worlds that the engine cannot tell apart**: their records and the bare states of their contexts
    are the same. -/
structure Alike (records : Part ε MemoryStore) (w w' : World ε) : Prop where
  records : records.get w'.env = records.get w.env
  length : w'.contexts.length = w.contexts.length
  bare : ∀ i, (w'.context i).bare = (w.context i).bare

section Relations

variable {K : Ledger → Ledger → Prop} {records : Part ε MemoryStore} {c : Context}
  {w w' w'' : World ε}

theorem Beside.refl (hK : Ledger.Keeping K) (w : World ε) : Beside K records c w w :=
  ⟨hK.refl _, Nat.le_refl _, fun _ => rfl⟩

theorem Beside.trans (hK : Ledger.Keeping K) (h : Beside K records c w w')
    (h' : Beside K records c w' w'') : Beside K records c w w'' :=
  ⟨hK.trans h.ledger h'.ledger, Nat.le_trans h.length h'.length,
    fun hc => (h'.bare (Nat.lt_of_lt_of_le hc h.length)).trans (h.bare hc)⟩

theorem Beside.grows (hK : Ledger.Keeping K) (h : Beside K records c w w') :
    Beside Ledger.Grows records c w w' :=
  ⟨hK.grows h.ledger, h.length, h.bare⟩

theorem Alike.refl (w : World ε) : Alike records w w := ⟨rfl, rfl, fun _ => rfl⟩

theorem Alike.trans (h : Alike records w w') (h' : Alike records w' w'') : Alike records w w'' :=
  ⟨h'.records.trans h.records, h'.length.trans h.length, fun i => (h'.bare i).trans (h.bare i)⟩

theorem Alike.ledger (h : Alike records w w') (process key : String) :
    records.ledger process key w' = records.ledger process key w := by
  unfold Part.ledger
  rw [h.records]

/-- Alike worlds are beside every context. -/
theorem Alike.beside (hK : Ledger.Keeping K) (h : Alike records w w') : Beside K records c w w' :=
  ⟨h.ledger c.process c.key ▸ hK.refl _, Nat.le_of_eq h.length.symm, fun _ => h.bare c.id⟩

/-- Changing the state of a context without touching its bare state. -/
theorem alike_modifyContext {id : Nat} {f : ContextState → ContextState}
    (hf : (f (w.context id)).bare = (w.context id).bare) :
    Alike records w (w.modifyContext id f) := by
  refine ⟨rfl, w.length_modifyContext id f, fun i => ?_⟩
  rw [World.context_modifyContext]
  split
  · rename_i h
    rw [← h.1]
    exact hf
  · rfl

end Relations

/-! ## Quiet actions -/

/-- **A quiet action**: no step of it shows in the records or the bare states, and it does not crash. -/
structure Quiet (records : Part ε MemoryStore) (a : Action ε α) : Prop where
  steps : a.Steps (Alike records)
  safe : a.Safe

namespace Quiet

variable {records : Part ε MemoryStore}

/-- A quiet action alone answers, in an alike world. -/
theorem run {a : Action ε α} (h : Quiet records a) (w : World ε) :
    ∃ b w', a.run w = (.value b, w') ∧ Alike records w w' := by
  obtain ⟨b, w', hrun⟩ := h.safe.run w
  have halike := h.steps.run Alike.refl Alike.trans w
  rw [hrun] at halike
  exact ⟨b, w', hrun, halike⟩

theorem pure (a : α) : Quiet records (Pure.pure a : Action ε α) := ⟨trivial, trivial⟩

theorem bind {a : Action ε α} {f : α → Action ε β} (ha : Quiet records a)
    (hf : ∀ x, Quiet records (f x)) : Quiet records (a >>= f) :=
  ⟨ha.steps.bind fun x => (hf x).steps, ha.safe.bind fun x => (hf x).safe⟩

theorem atomically {f : World ε → α × World ε} (h : ∀ w, Alike records w (f w).2) :
    Quiet records (Process.atomically f) :=
  ⟨⟨h, fun _ => trivial⟩, fun _ => trivial⟩

theorem change {f : World ε → World ε} (h : ∀ w, Alike records w (f w)) :
    Quiet records (Process.change f) :=
  ⟨⟨h, fun _ => trivial⟩, fun _ => trivial⟩

theorem onExit {a : Action ε α} {last : Action ε Unit} (ha : Quiet records a)
    (hlast : Quiet records last) : Quiet records (a.onExit last) :=
  ⟨ha.steps.onExit hlast.steps, ha.safe.onExit hlast.safe⟩

/-- Telling an event is quiet. -/
theorem tell (e : Event) : Quiet records (Action.tell e) := change fun _ => ⟨rfl, rfl, fun _ => rfl⟩

theorem newSpan (name : String) (fields : List (String × String)) :
    Quiet records (Action.newSpan name fields) :=
  atomically fun _ => ⟨rfl, rfl, fun _ => rfl⟩

theorem newSpanBelow (parent : Span) (name : String) (fields : List (String × String)) :
    Quiet records (Action.newSpanBelow parent name fields) :=
  atomically fun _ => ⟨rfl, rfl, fun _ => rfl⟩

theorem within (s : Span) {a : Action ε α} (ha : Quiet records a) : Quiet records (Action.within s a) :=
  bind (change fun _ => ⟨rfl, rfl, fun _ => rfl⟩) fun _ =>
    onExit ha (change fun _ => ⟨rfl, rfl, fun _ => rfl⟩)

/-- A step on another part is quiet. -/
theorem on {part : Part ε β} (hapart : records.Apart part) (f : β → α × β) :
    Quiet records (Action.on part f) :=
  atomically fun _ => ⟨hapart.get_set_left _ _, rfl, fun _ => rfl⟩

theorem changePart {part : Part ε β} (hapart : records.Apart part) (f : β → β) :
    Quiet records (Action.change part f) :=
  change fun _ => ⟨hapart.get_set_left _ _, rfl, fun _ => rfl⟩

/-- A use of the properties of a context. -/
theorem withProperties (c : Context) (f : StateM Properties α) :
    Quiet records (c.withProperties f : Action ε α) :=
  atomically fun _ => alike_modifyContext rfl

end Quiet

end Idempotence
