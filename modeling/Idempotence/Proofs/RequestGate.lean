/-
  The request gate — which requests reach their bodies.

  A handler compares the inputs of a request with those of the first request of its key, through a phase
  that records the texts of the inputs in an object.  Its gate therefore depends on what has been recorded
  whenever, and on reading that back.

  1. **Inputs** — `Inputs.Differs` says what the gate is about: one id, two values.  Where the values can be
     written and read again, the conflicts that are found by their texts are just those, in ascending order
     (`Inputs.mem_conflicts`, `Inputs.conflicts_ascending`).

  2. **Requests** — a `Request` has any key, any inputs and any body that keeps `Outside` of the handler's
     processes but for the phases that it runs.  `Request.TurnedAway` and `Request.Admitted` speak of all
     bodies at once: either none makes a difference, or each is run.

  3. **Other instances** — an attempt spares every instance but its own (`Provider.Bare.conduct_spares`): the
     base executor makes records of its context's instance only, and what is released is the row that was
     taken.

  4. **The crux** — between requests every instance `Rests`: it is unlocked, and its records begin with the
     inputs of the first request that offered some, or there are none.  One request keeps that, however it
     ends (`Request.rests`): the phase of the inputs is replayed where it has a record and cannot fail where
     it has none (`Provider.Bare.validateInputs_run`), and from there on records are only added.

  5. **The result** — `Request.handle_gate`, by induction on the requests.
-/
import Idempotence.Handler
import Idempotence.Proofs.AttemptReplay
import Idempotence.Proofs.ContextUse
import Idempotence.Proofs.DocumentRoundTrip

namespace Idempotence

variable {ε α β γ κ : Type}

/-! ## Inputs -/

/-- **Checking texts one after the other** stops at one that is no identifier. -/
theorem Identifier.forM_check (what : String) (ids : List String) :
    ((∀ id ∈ ids, isValid id = true) ∧ ids.forM (check what) = .ok ()) ∨
      ∃ id ∈ ids, isValid id = false ∧
        ids.forM (check what) = .error (.assertion (.invalidIdentifier what id)) := by
  induction ids with
  | nil => exact .inl ⟨fun _ h => absurd h List.not_mem_nil, rfl⟩
  | cons id ids ih =>
    have hcons : (id :: ids).forM (check what) = (do
        check what id
        ids.forM (check what)) := rfl
    rw [hcons, check]
    cases hid : isValid id with
    | false => exact .inr ⟨id, List.mem_cons_self .., hid, rfl⟩
    | true =>
      rcases ih with ⟨hids, hok⟩ | ⟨id', hmem, hinvalid, herror⟩
      · exact .inl ⟨List.forall_mem_cons.2 ⟨hid, hids⟩, hok⟩
      · exact .inr ⟨id', List.mem_cons_of_mem _ hmem, hinvalid, herror⟩

namespace Inputs

/-- **Inputs whose ids are identifiers.** -/
def Valid (inputs : Inputs) : Prop := ∀ id ∈ inputs.keys, Identifier.isValid id = true

instance (inputs : Inputs) : Decidable inputs.Valid :=
  inferInstanceAs (Decidable (∀ id ∈ inputs.keys, Identifier.isValid id = true))

/-- **Inputs whose values can be written and read again.** -/
def Plain (inputs : Inputs) : Prop := ∀ e ∈ inputs.entries, e.2.Plain Json.nestingLimit

/-- **An id whose value differs**: both inputs have it, and not with the same value. -/
def Differs (first inputs : Inputs) (id : String) : Prop :=
  ∃ v v', first.get? id = some v ∧ inputs.get? id = some v' ∧ v ≠ v'

variable {first inputs : Inputs}

/-- **Checking the ids** tells one that is no identifier, if there is one. -/
theorem checkIds_cases (inputs : Inputs) :
    (inputs.Valid ∧ inputs.checkIds = .ok ()) ∨
      ¬ inputs.Valid ∧ ∃ id ∈ inputs.keys, Identifier.isValid id = false ∧
        inputs.checkIds = .error (.assertion (.invalidIdentifier "inputId" id)) := by
  refine (Identifier.forM_check "inputId" inputs.keys).imp id ?_
  rintro ⟨id, hmem, hinvalid, herror⟩
  refine ⟨fun hvalid => ?_, id, hmem, hinvalid, herror⟩
  rw [hvalid id hmem] at hinvalid
  cases hinvalid

theorem Valid.checkIds_eq (h : inputs.Valid) : inputs.checkIds = .ok () :=
  inputs.checkIds_cases.elim And.right fun hnot => absurd h hnot.1

/-- The text of an input is that of its value. -/
theorem get?_texts (inputs : Inputs) (id : String) :
    inputs.texts.get? id = (inputs.get? id).map Json.render := by
  have hlookup : ∀ l : List (String × Json),
      Table.lookup id (l.map fun e => (e.1, e.2.render)) = (Table.lookup id l).map Json.render := by
    intro l
    induction l with
    | nil => rfl
    | cons e l ih =>
      simp only [List.map_cons, Table.lookup, ih]
      split <;> rfl
  exact hlookup inputs.entries

/-- A value conflicts with the text of another exactly if they differ. -/
theorem conflict?_render {v : Json} (hv : v.Plain Json.nestingLimit) (input : Json) (id id' : String) :
    conflict? id input v.render = some id' ↔ id' = id ∧ v ≠ input := by
  have hsame := hv.same_iff input
  simp only [conflict?, hv.parse_render]
  by_cases heq : v = input
  · rw [if_pos (hsame.2 heq)]
    exact ⟨by rintro ⟨⟩, fun h => absurd heq h.2⟩
  · rw [if_neg fun h => heq (hsame.1 h)]
    constructor
    · rintro ⟨⟩
      exact ⟨rfl, heq⟩
    · rintro ⟨rfl, -⟩
      rfl

/-- **An input conflicts** with the recorded text of another exactly if its value differs. -/
theorem conflict_eq_some (hfirst : first.Plain) (e : String × Json) (id : String) :
    (first.texts.get? e.1).bind (conflict? e.1 e.2) = some id ↔
      id = e.1 ∧ ∃ v, first.get? e.1 = some v ∧ v ≠ e.2 := by
  rw [get?_texts]
  cases hv : first.get? e.1 with
  | none => simp
  | some v =>
    have hplain : v.Plain Json.nestingLimit := hfirst _ ((Table.get?_eq_some_iff first).1 hv)
    rw [Option.map_some, Option.bind_some, conflict?_render hplain]
    simp

/-- **The conflicts** with recorded inputs are the ids whose values differ. -/
theorem mem_conflicts (hfirst : first.Plain) (id : String) :
    id ∈ conflicts inputs first.texts ↔ first.Differs inputs id := by
  unfold conflicts
  rw [List.mem_filterMap]
  constructor
  · rintro ⟨e, he, hconflict⟩
    obtain ⟨rfl, v, hv, hne⟩ := (conflict_eq_some hfirst e id).1 hconflict
    exact ⟨v, e.2, hv, (Table.get?_eq_some_iff inputs).2 he, hne⟩
  · rintro ⟨v, v', hv, hv', hne⟩
    have hconflict := (conflict_eq_some hfirst (id, v') id).2 ⟨rfl, v, hv, hne⟩
    exact ⟨(id, v'), (Table.get?_eq_some_iff inputs).1 hv', hconflict⟩

/-- The conflicts are in ascending order. -/
theorem conflicts_ascending (hfirst : first.Plain) :
    (conflicts inputs first.texts).Pairwise fun a b => compare a b = .lt := by
  unfold conflicts
  rw [List.pairwise_filterMap]
  refine inputs.ordered.imp fun {e e'} hlt id hid id' hid' => ?_
  obtain ⟨rfl, -⟩ := (conflict_eq_some hfirst e id).1 hid
  obtain ⟨rfl, -⟩ := (conflict_eq_some hfirst e' id').1 hid'
  exact hlt

/-- Nothing conflicts with itself. -/
theorem conflicts_self (h : inputs.Plain) : conflicts inputs inputs.texts = [] := by
  refine List.eq_nil_iff_forall_not_mem.2 fun id hid => ?_
  obtain ⟨v, v', hv, hv', hne⟩ := (mem_conflicts h id).1 hid
  exact hne (Option.some.inj (hv.symm.trans hv'))

/-- **The format** in which inputs are recorded. -/
def format : Format (Table String String) where
  toCodec := codec
  undoes {t text} h := by
    cases h
    exact decode_recordOf t

end Inputs

/-! ## Requests -/

/-- **A request** to a handler: its key, its inputs, and its body. -/
structure Request (ε β α : Type) where
  key : Option String
  inputs : Inputs
  body : Context → Client ε β (Except β α)

/-- **A step outside of a kind of processes**: it leaves alone their records and locks, and the state of the
    context but for its properties. -/
structure Outside (records : Part ε MemoryStore) (locks : Part ε (LockTable RecordKey)) (process : String)
    (c : Context) (w w' : World ε) : Prop where
  ledger : ∀ key, records.ledger process key w' = records.ledger process key w
  row : ∀ key, locks.lockRow process key w' = locks.lockRow process key w
  length : w.contexts.length ≤ w'.contexts.length
  bare : c.id < w.contexts.length → (w'.context c.id).bare = (w.context c.id).bare

namespace Request

/-- The key of a request, unless that is empty. -/
def key? (r : Request ε β α) : Option String := r.key.filter (· ≠ "")

/-- The inputs that a request offers to be recorded for a key. -/
def offer (key : String) (r : Request ε β α) : Option Inputs :=
  if r.key? = some key ∧ r.inputs.Valid then some r.inputs else none

/-- **The inputs of the first request** with a key that has valid ids. -/
def firstInputs (key : String) (requests : List (Request ε β α)) : Option Inputs :=
  requests.findSome? (·.offer key)

theorem firstInputs_append (key : String) (requests later : List (Request ε β α)) :
    firstInputs key (requests ++ later) = (firstInputs key requests).or (firstInputs key later) :=
  List.findSome?_append

/-- **What a request may do and bring**: inputs that can be written and read again, and a body that keeps
    outside of the handler's processes but for the phases that it runs. -/
structure Fair (records : Part ε MemoryStore) (locks : Part ε (LockTable RecordKey)) (h : Handler)
    (r : Request ε β α) : Prop where
  plain : r.inputs.Plain
  within : ∀ c, (r.body c).Within (Outside records locks h.process c)

variable [EngineFailure β]

/-- **What a handler does** about a request. -/
def act (h : Handler) (p : Provider ε) (r : Request ε β α) : Action ε (Except β α) :=
  h.handle p r.key r.inputs fun c => (r.body c).act p.executor c

/-- What comes of a request once its inputs have been compared: an error, or what its body makes of it. -/
def resume (p : Provider ε) (r : Request ε β α) (c : Context) : Except Error Unit → Action ε (Except β α)
  | .error e => pure (.error (ofError e))
  | .ok () => (r.body c).act p.executor c

/-- What is run on the context of a request. -/
def program (p : Provider ε) (r : Request ε β α) (c : Context) : Action ε (Except β α) :=
  c.validateInputs p.executor r.inputs >>= r.resume p c

theorem act_eq (h : Handler) (p : Provider ε) (r : Request ε β α) :
    r.act h p = match r.key? with
      | none => pure (.error (ofError .missingKey))
      | some key => p.runProcess h.process key h.lockTimeout h.effectiveSettings (r.program p) := by
  unfold act Handler.handle key?
  cases r.key.filter (· ≠ "") with
  | none => rfl
  | some key =>
    refine congrArg (p.runProcess h.process key h.lockTimeout h.effectiveSettings) (funext fun c => ?_)
    refine bind_congr fun answer => ?_
    cases answer <;> rfl

/-- **A request that is refused**: whatever its body, the handler answers with the error. -/
def Refused (h : Handler) (p : Provider ε) (r : Request ε β α) (e : Error) (w w' : World ε) : Prop :=
  ∀ body : Context → Client ε β (Except β α),
    ({ r with body }.act h p).run w = (.value (.error (ofError e)), w')

/-- **A request that is turned away**: it is refused, makes no record, and leaves none of the handler's
    processes locked. -/
def TurnedAway (records : Part ε MemoryStore) (locks : Part ε (LockTable RecordKey)) (h : Handler)
    (p : Provider ε) (r : Request ε β α) (e : Error) (w : World ε) : Prop :=
  ∃ w', r.Refused h p e w w' ∧ records.get w'.env = records.get w.env ∧
    ∀ key, locks.lockRow h.process key w' = none

/-- **A request that is admitted**: its body is run on a context of its instance which has visited the phase
    of the inputs and nothing else, and the handler does what is to be done around it. -/
def Admitted (h : Handler) (p : Provider ε) (r : Request ε β α) (w : World ε) : Prop :=
  ∃ key c w', r.key? = some key ∧ c.process = h.process ∧ c.key = key ∧ c.Stands [Inputs.phaseId] false w' ∧
    ∀ body : Context → Client ε β (Except β α), ({ r with body }.act h p).run w =
      (p.conduct h.process key c fun c => (body c).act p.executor c).run w'

/-- The body of a request that is admitted makes a difference: where it crashes, nothing is answered. -/
theorem Admitted.not_refused {h : Handler} {p : Provider ε} {r : Request ε β α} {w : World ε}
    (hadmitted : r.Admitted h p w) {e : Error} {w' : World ε} : ¬ r.Refused h p e w w' := by
  intro hrefused
  obtain ⟨key, c, w₁, -, -, -, -, hrun⟩ := hadmitted
  have hconduct := (hrun fun _ => .crash "").symm.trans (hrefused fun _ => .crash "")
  obtain ⟨result, w₂, hresult, -⟩ := Process.run_bind_eq_value hconduct
  obtain ⟨answer, w₃, hbody, -⟩ := Process.run_bind_eq_value (Process.run_onCrash_eq_value hresult)
  cases hbody

end Request

/-! ## Uses and other instances -/

section

variable {records : Part ε MemoryStore} {stamps : Action ε Instant} {locks : Part ε (LockTable RecordKey)}
  {p : Provider ε} {process key : String} {c : Context} {w w' : World ε}

theorem Outside.refl (w : World ε) : Outside records locks process c w w :=
  ⟨fun _ => rfl, fun _ => rfl, Nat.le_refl _, fun _ => rfl⟩

/-- A context of that kind of processes is left alone by what keeps outside of it. -/
theorem Outside.foreign (hc : c.process = process) (h : Outside records locks process c w w') :
    Foreign locks records c w w' := by
  subst hc
  exact ⟨⟨(h.ledger c.key).symm, h.length, h.bare⟩, h.row c.key⟩

variable (records locks process key) in
/-- **A step that spares an instance**: it leaves alone its records and its lock. -/
structure Spares (w w' : World ε) : Prop where
  ledger : records.ledger process key w' = records.ledger process key w
  row : locks.lockRow process key w' = locks.lockRow process key w

theorem Spares.refl (w : World ε) : Spares records locks process key w w := ⟨rfl, rfl⟩

theorem Spares.trans {w w' w'' : World ε} (h : Spares records locks process key w w')
    (h' : Spares records locks process key w' w'') : Spares records locks process key w w'' :=
  ⟨h'.ledger.trans h.ledger, h'.row.trans h.row⟩

/-- A record of another instance. -/
theorem Part.ledger_store_other {process' key' id : String} (h : ¬ (process = process' ∧ key = key'))
    (r : StoredRecord) (w : World ε) :
    records.ledger process key (records.store ⟨process', key', id⟩ r w) = records.ledger process key w := by
  funext j
  have hkey : (⟨process, key, j⟩ : RecordKey) ≠ ⟨process', key', id⟩ :=
    fun heq => h ⟨congrArg (·.process) heq, congrArg (·.key) heq⟩
  simp only [ledger, store, World.modifyEnv, Part.get_set, MemoryStore.ledger, Table.get?_insert, if_neg hkey]

section

variable {S : World ε → World ε → Prop}

/-- **Recording** makes the record, or does nothing. -/
theorem MemoryStore.steps_record (hrefl : ∀ w, S w w) (hstamps : stamps.Steps S) {key : RecordKey}
    (hstore : ∀ w r, S w (records.store key r w)) (isFinal : Bool) (data : String) :
    (record records stamps key isFinal data).Steps S := by
  refine .bind (.look hrefl _) fun taken => ?_
  cases taken with
  | true => exact .pure _
  | false =>
    refine .bind hstamps fun createdAt => .atomically fun w => ?_
    cases hr : (records.get w.env).get? key with
    | some r =>
      have hsame : S w { w with env := records.set (records.get w.env) w.env } := by
        rw [Part.set_get]
        exact hrefl w
      rw [commit_taken hr]
      exact hsame
    | none =>
      rw [commit_free hr]
      exact hstore w _

/-- **The base executor in memory** hosts bodies, and makes records of the context's instance only. -/
theorem MemoryStore.hosts_base (hrefl : ∀ w, S w w)
    (htell : ∀ e, (Action.tell e : Action ε Unit).Steps S) (hstamps : stamps.Steps S)
    (hstore : ∀ id w r, S w (records.store ⟨c.process, c.key, id⟩ r w)) :
    (Executor.base (adapter records stamps)).Hosts S c := by
  have hget : ∀ key, ((adapter records stamps).get key).Steps S := fun _ => .look hrefl _
  refine ⟨fun phase body => ?_⟩
  rw [execute_adapter]
  refine .after_steps (.look hrefl _) fun found => ?_
  cases found with
  | some r => exact .never (.bind (htell _) fun _ => .pure _)
  | none =>
    cases c.recordedFinal with
    | some final => exact .never (.pure _)
    | none =>
      refine .body_bind fun answer => ?_
      obtain ⟨text, k⟩ := answer
      cases text with
      | error e => exact .bind (Executor.steps_resolve hget htell _ phase e) fun _ => .pure _
      | ok data =>
        refine .bind (steps_record hrefl hstamps (hstore _) _ _) fun result => ?_
        cases result with
        | error e => exact .bind (Executor.steps_resolve hget htell _ phase e) fun _ => .pure _
        | ok u => exact .pure _

end

namespace Provider.Bare

variable (hp : p.Bare records stamps locks)
include hp

/-- The executor of a context spares every other instance. -/
theorem hosts_spares (hother : ¬ (process = c.process ∧ key = c.key)) :
    p.executor.Hosts (Spares records locks process key) c := by
  have hrow : ∀ (w : World ε) s, locks.lockRow process key { w with env := records.set s w.env } =
      locks.lockRow process key w := by
    intro w s
    simp only [Part.lockRow, hp.apart.get_set_right]
  rw [hp.executor_eq]
  refine MemoryStore.hosts_base .refl (fun e => .change fun w => ⟨rfl, rfl⟩) ?_ fun id w r => ?_
  · refine (hp.quiet_stamps.steps.and hp.stamps_locks).mono fun w w' h => ?_
    exact ⟨h.1.ledger process key, by simp only [Part.lockRow, h.2]⟩
  · exact ⟨Part.ledger_store_other hother r w, hrow w _⟩

variable [EngineFailure β] {a : Action ε α}

/-- **A use of a context** from outside of its kind spares every other instance of the kind. -/
theorem uses_spares (hother : ¬ (process = c.process ∧ key = c.key))
    (ha : c.Uses p.executor (Outside records locks process c) a) :
    a.Steps (Spares records locks process key) :=
  ha.steps (hp.hosts_spares hother) .refl (fun _ _ _ _ => ⟨rfl, rfl⟩) (fun _ _ => ⟨rfl, rfl⟩)
    (fun _ h => h.elim) fun _ _ h => ⟨h.ledger key, h.row key⟩

/-- A use of a context from outside of its kind guards the context. -/
theorem uses_guards (hc : c.process = process) (ha : c.Uses p.executor (Outside records locks process c) a) :
    a.Steps (Guards locks c) := by
  refine ha.steps (hp.hosts_executor c) .refl (fun phase w s hs => guards_modifyContext ?_)
    (fun _ w => guards_modifyContext ⟨rfl, rfl⟩) (fun _ h => h.elim) fun _ _ h => (h.foreign hc).guards
  rw [(ContextState.enter_eq_ok hs).2.2.2]
  exact ⟨rfl, rfl⟩

omit [EngineFailure β] in
/-- **Starting an instance** spares every other one, whether it can be opened or not. -/
theorem start_spares {process' key' : String} (hother : ¬ (process = process' ∧ key = key'))
    (timeout : Duration) (settings : List Setting) :
    (p.start process' key' timeout settings).Steps (Spares records locks process key) := by
  have htell : ∀ e, (Action.tell e : Action ε Unit).Steps (Spares records locks process key) :=
    fun e => .change fun w => ⟨rfl, rfl⟩
  have hkey : RecordKey.lock process key ≠ RecordKey.lock process' key' :=
    fun h => hother ⟨congrArg (·.process) h, congrArg (·.key) h⟩
  unfold start
  split
  · exact .pure _
  · have hclock : p.clock.Steps (Spares records locks process key) := by
      refine (hp.quiet_clock.steps.and hp.clock_locks).mono fun w w' h => ?_
      exact ⟨h.1.ledger process key, by simp only [Part.lockRow, h.2]⟩
    have hobtain : ∀ now, (p.locks.obtain (RecordKey.lock process' key') timeout now).Steps
        (Spares records locks process key) := by
      intro now
      rw [hp.locking]
      refine .atomically fun w => ?_
      cases htake : (locks.get w.env).take (RecordKey.lock process' key') timeout now with
      | mk answer t =>
        have hrow : t.row? (RecordKey.lock process key) =
            (locks.get w.env).row? (RecordKey.lock process key) := by
          cases answer with
          | ok operation => exact (LockTable.row?_take htake _).trans (if_neg hkey)
          | error expiry => rw [LockTable.take_refused htake]
        constructor
        · simp only [Part.ledger, hp.apart.get_set_left]
        · cases answer <;> simp only [Part.lockRow, Part.get_set, htake, hrow]
    refine .bind hclock fun now => .bind (hobtain now) fun answer => ?_
    cases answer with
    | error e => exact .pure _
    | ok decision =>
      cases decision with
      | locked tryAt => exact .bind (htell _) fun _ => .pure _
      | obtained handle =>
        show (p.startLocked process' key' settings handle).Steps _
        rw [startLocked_adapter hp.store]
        refine .bind (.look .refl _) fun found => .bind (.atomically fun w => ⟨rfl, rfl⟩) fun c => ?_
        unfold introduce
        rw [hp.extensions]
        exact .pure _

omit [EngineFailure β] in
/-- **Opening an instance** spares every other one. -/
theorem opened_spares {key' : String} {timeout : Duration} {settings : List Setting}
    (h : p.Opened records process key' timeout settings w c w') (hother : key ≠ key') :
    Spares records locks process key w w' := by
  have hapart : ¬ (process = process ∧ key = key') := fun hsame => hother hsame.2
  have hstart := (hp.start_spares hapart timeout settings).run .refl .trans w
  rw [hp.start_run h] at hstart
  exact hstart

/-- **A whole attempt** spares every other instance, if its body does. -/
theorem conduct_steps_spares (hother : ¬ (process = c.process ∧ key = c.key)) (hholds : c.Holds locks w)
    {body : Context → Action ε (Except β α)} (hguards : (body c).Steps (Guards locks c))
    (hspares : (p.runBody c body).Steps (Spares records locks process key)) (process' key' : String) :
    Spares records locks process key w ((p.conduct process' key' c body).run w).2 := by
  have hreleases := hp.conduct_releases process' key' hholds hguards
  refine (hspares.run .refl .trans w).trans ⟨?_, hreleases.others process key hother⟩
  rw [Part.ledger, Part.ledger, hreleases.records]

/-- A whole attempt whose body keeps outside of all instances of the kind spares every other instance. -/
theorem conduct_spares (hother : ¬ (process = c.process ∧ key = c.key)) (hholds : c.Holds locks w)
    (hc : c.process = process) {body : Context → Action ε (Except β α)}
    (hbody : c.Uses p.executor (Outside records locks process c) (body c)) (process' key' : String) :
    Spares records locks process key w ((p.conduct process' key' c body).run w).2 :=
  hp.conduct_steps_spares hother hholds (hp.uses_guards hc hbody)
    (hp.uses_spares hother (hbody.runBody Outside.refl)) process' key'

end Provider.Bare

/-! ## The gate -/

/-- What comparing inputs with recorded ones comes to. -/
def Inputs.verdict (inputs : Inputs) (recorded : Table String String) : Except Error Unit :=
  match inputs.conflicts recorded with
  | [] => .ok ()
  | ids => .error (.inputConflict ids)

/-- **What the records of an instance begin with**: with the inputs of a first request, or there are none. -/
def Ledger.Begins (l : Ledger) : Option Inputs → Prop
  | none => ∀ id, l id = none
  | some first => l.Yields Inputs.phaseId Inputs.format first.texts

/-- **Recording a value**: where nothing is in its way, a body that has its text at once is recorded. -/
theorem MemoryStore.base_records (hstamps : Quiet records stamps) {phase : Phase} {body : Body ε κ}
    {data : String} {k : κ} (hfree : records.ledger c.process c.key w phase.id = none)
    (hfresh : c.recordedFinal = none) (hbody : body.run w = (.value (.ok data, k), w)) :
    ∃ w', ((Executor.base (adapter records stamps)).execute c phase body).run w =
      (.value (.ok (.executed data), some k), w') := by
  have hfree : (records.get w.env).get? ⟨c.process, c.key, phase.id⟩ = none := hfree
  obtain ⟨r, w₁, -, -, -, hrecord⟩ := record_free hstamps hfree phase.isFinal data
  refine ⟨records.store ⟨c.process, c.key, phase.id⟩ r w₁, ?_⟩
  rw [execute_adapter]
  simp [Action.look, hfree, hfresh, hbody, hrecord]

namespace Provider.Bare

variable (hp : p.Bare records stamps locks)
include hp

/-- **A phase without a record** returns the value of a body that has it at once, if it may be entered. -/
theorem run_encoded [EngineFailure β] {ph : Phase} {codec : Codec γ} {v : γ} {data : String}
    {visited : List String} (hcheck : Context.checkPhase ph = .ok ()) (hnew : ph.id ∉ visited)
    (hfree : records.ledger c.process c.key w ph.id = none) (hfresh : c.recordedFinal = none)
    (hencode : codec.encode v = .ok data) (hstands : c.Stands visited false w) :
    ∃ w', (p.runPhase c ph codec (pure (.ok v) : Action ε (Except β γ))).run w = (.value (.ok v), w') := by
  obtain ⟨rfl, hwas⟩ := And.intro hstands.visited_eq hstands.wasFinal_eq
  have hpermit := Context.permit_ok hcheck hwas hnew hstands.idle
  let entered : World ε := w.modifyContext c.id fun _ => { w.context c.id with
    visited := ph.id :: (w.context c.id).visited, active := some { phase := ph } }
  have hbody : (Context.erase ph codec (pure (.ok v) : Action ε (Except β γ))).run entered =
      (.value (.ok data, some (.ok v)), entered) := by
    rw [Context.run_erase, Process.run_pure]
    simp only [Context.erased, hencode]
  have hentered : records.ledger c.process c.key entered ph.id = none := hfree
  obtain ⟨w₁, hbase⟩ := MemoryStore.base_records hp.quiet_stamps hentered hfresh hbody
  refine ⟨w₁.modifyContext c.id (·.leave ph), ?_⟩
  unfold Provider.runPhase
  rw [Context.run_permitted _ _ _ hpermit, hp.executor_eq, hbase]
  rfl

/-- A phase without a record makes one that can be read from then on, if its body has a value at once. -/
theorem run_recorded [EngineFailure β] {ph : Phase} {format : Format γ} {v : γ} {data : String}
    {visited : List String} (hcheck : Context.checkPhase ph = .ok ()) (hnew : ph.id ∉ visited)
    (hfree : records.ledger c.process c.key w ph.id = none) (hfresh : c.recordedFinal = none)
    (hencode : format.encode v = .ok data) (hstands : c.Stands visited false w) :
    ∃ w', (p.runPhase c ph format.toCodec (pure (.ok v) : Action ε (Except β γ))).run w =
        (.value (.ok v), w') ∧
      c.Stands (ph.id :: visited) ph.isFinal w' ∧
      (records.ledger c.process c.key w').Yields ph.id format v := by
  obtain ⟨w', hrun⟩ := hp.run_encoded (β := β) hcheck hnew hfree hfresh hencode hstands
  have hclient : (Client.done (.ok v) : Client ε β (Except β γ)).Within (Foreign locks records c) := trivial
  have hcall := hp.called hclient hstands.toReady hrun
  obtain ⟨-, -, -, hthere, hstands'⟩ := hcall.answered Ledger.keeping_eq hstands
  exact ⟨w', hrun, hstands', hthere⟩

omit hp in
/-- **Comparing inputs** with those that their phase returns: whatever is told of added and removed ones
    shows in the trace alone. -/
theorem validateInputs_told {x : Executor ε} {inputs : Inputs} (hvalid : inputs.Valid)
    {recorded : Table String String} {w₁ : World ε}
    (hphase : (c.run x { id := Inputs.phaseId } Inputs.codec
      (pure (.ok inputs.texts) : Action ε (Except Error _))).run w = (.value (.ok recorded), w₁)) :
    ∃ t, (c.validateInputs x inputs).run w =
      (.value (inputs.verdict recorded), { w₁ with trace := t }) := by
  unfold Context.validateInputs
  rw [Inputs.Valid.checkIds_eq hvalid]
  simp only
  rw [Process.run_bind, hphase]
  simp only
  split <;> exact ⟨_, rfl⟩

omit hp in
theorem checkPhase_inputs : Context.checkPhase { id := Inputs.phaseId } = .ok () := by
  have hid : Identifier.isValid Inputs.phaseId = true := by decide +kernel
  rw [Context.checkPhase, Identifier.check, if_pos hid]
  rfl

/-- **The first comparing of inputs** records them, and compares them with themselves. -/
theorem validateInputs_first {inputs : Inputs} {visited : List String} (hvalid : inputs.Valid)
    (hstands : c.Stands visited false w) (hnew : Inputs.phaseId ∉ visited)
    (hfree : records.ledger c.process c.key w Inputs.phaseId = none) (hfresh : c.recordedFinal = none) :
    ∃ w', (c.validateInputs p.executor inputs).run w = (.value (inputs.verdict inputs.texts), w') ∧
      c.Stands (Inputs.phaseId :: visited) false w' ∧
      (records.ledger c.process c.key w').Yields Inputs.phaseId Inputs.format inputs.texts := by
  have hencode : Inputs.format.encode inputs.texts = .ok (Inputs.recordOf inputs.texts) := Inputs.encode_eq _
  obtain ⟨w₁, hrun, hstands₁, hthere⟩ :=
    hp.run_recorded (β := Error) checkPhase_inputs hnew hfree hfresh hencode hstands
  obtain ⟨t, htold⟩ := validateInputs_told hvalid hrun
  exact ⟨_, htold, ⟨⟨hstands₁.created, hstands₁.idle⟩, hstands₁.visited_eq, hstands₁.wasFinal_eq⟩, hthere⟩

/-- **Every later comparing of inputs** compares them with what has been recorded, and makes no record. -/
theorem validateInputs_later {inputs : Inputs} {recorded : Table String String} {visited : List String}
    (hvalid : inputs.Valid) (hstands : c.Stands visited false w) (hnew : Inputs.phaseId ∉ visited)
    (hthere : (records.ledger c.process c.key w).Yields Inputs.phaseId Inputs.format recorded) :
    ∃ w', (c.validateInputs p.executor inputs).run w = (.value (inputs.verdict recorded), w') ∧
      c.Stands (Inputs.phaseId :: visited) false w' ∧ records.get w'.env = records.get w.env := by
  obtain ⟨w₁, hrun, hstands₁, hsame⟩ := hp.run_replayed (β := Error) checkPhase_inputs hnew hthere hstands
  obtain ⟨t, htold⟩ := validateInputs_told hvalid (hrun _)
  exact ⟨_, htold, ⟨⟨hstands₁.created, hstands₁.idle⟩, hstands₁.visited_eq, hstands₁.wasFinal_eq⟩, hsame⟩

/-- **Comparing inputs** records them where there are none, and compares them with those of the first request
    otherwise; then no record is made. -/
theorem validateInputs_run {inputs : Inputs} {first? : Option Inputs} (hvalid : inputs.Valid)
    (hstands : c.Stands [] false w) (hbegins : (records.ledger c.process c.key w).Begins first?)
    (hfresh : first? = none → c.recordedFinal = none) :
    ∃ w', (c.validateInputs p.executor inputs).run w =
        (.value (inputs.verdict (first?.getD inputs).texts), w') ∧
      c.Stands [Inputs.phaseId] false w' ∧
      (records.ledger c.process c.key w').Begins (some (first?.getD inputs)) ∧
      (first? ≠ none → records.get w'.env = records.get w.env) := by
  cases first? with
  | none =>
    obtain ⟨w', hrun, hstands', hthere⟩ :=
      hp.validateInputs_first hvalid hstands List.not_mem_nil (hbegins _) (hfresh rfl)
    exact ⟨w', hrun, hstands', hthere, fun h => absurd rfl h⟩
  | some first =>
    obtain ⟨w', hrun, hstands', hsame⟩ :=
      hp.validateInputs_later hvalid hstands List.not_mem_nil hbegins
    refine ⟨w', hrun, hstands', ?_, fun _ => hsame⟩
    have hledger : records.ledger c.process c.key w' = records.ledger c.process c.key w := by
      rw [Part.ledger, Part.ledger, hsame]
    exact hledger ▸ hbegins

end Provider.Bare

/-! ## One request -/

/-- **A handler that can be used**: its process id is an identifier, and its settings do not conflict. -/
structure Handler.Usable (h : Handler) : Prop where
  process : Identifier.isValid h.process = true
  settings : Setting.firstConflict h.effectiveSettings = none

/-- **Between two requests** nothing of the handler's processes is locked, and every instance begins with the
    inputs of the first request that offered some. -/
structure Rests (records : Part ε MemoryStore) (locks : Part ε (LockTable RecordKey)) (h : Handler)
    (past : List (Request ε β α)) (w : World ε) : Prop where
  unlocked : ∀ key, locks.lockRow h.process key w = none
  begins : ∀ key, (records.ledger h.process key w).Begins (Request.firstInputs key past)

variable {h : Handler} {past : List (Request ε β α)} {r : Request ε β α}

theorem Request.key?_ne (hkey : r.key? = some key) : key ≠ "" := by
  simpa using (Option.filter_eq_some_iff.1 hkey).2

theorem Handler.Usable.checkStart (hh : h.Usable) (hkey : key ≠ "") :
    Provider.checkStart h.process key h.effectiveSettings = .ok () := by
  simp [Provider.checkStart, Identifier.check, hh.process, hkey, Setting.check, hh.settings, bind,
    Except.bind]

/-- Comparing inputs uses a context. -/
theorem Context.uses_validateInputs (x : Executor ε) (inputs : Inputs) :
    c.Uses x (Outside records locks process c) (c.validateInputs x inputs) := by
  have htell : ∀ e, (Action.tell e : Action ε Unit).Steps (Outside records locks process c) :=
    fun e => .change fun w => ⟨fun _ => rfl, fun _ => rfl, Nat.le_refl _, fun _ => rfl⟩
  unfold Context.validateInputs
  split
  · exact .done _
  · refine .bind (.run (.done _)) fun answer => ?_
    cases answer with
    | error e => exact .done _
    | ok recorded =>
      dsimp only
      split
      · exact .bind (.of_steps (htell _)) fun _ => .done _
      · exact .done _

namespace Request

variable [EngineFailure β]

/-- A request as a whole uses a context. -/
theorem Fair.uses (hr : r.Fair records locks h) (p : Provider ε) (c : Context) :
    c.Uses p.executor (Outside records locks h.process c) (r.program p c) := by
  refine .bind (c.uses_validateInputs p.executor r.inputs) fun verdict => ?_
  cases verdict with
  | error e => exact .done _
  | ok u => exact .client (hr.within c)

/-- **Opening the instance** of a request. -/
theorem opens (hp : p.Bare records stamps locks) (hh : h.Usable) (hrow : locks.lockRow h.process key w = none)
    (hkey : r.key? = some key) :
    ∃ c w₀, p.Opened records h.process key h.lockTimeout h.effectiveSettings w c w₀ ∧
      ∀ body : Context → Client ε β (Except β α), ({ r with body }.act h p).run w =
        (p.conduct h.process key c ({ r with body }.program p)).run w₀ := by
  obtain ⟨c, w₀, hstart, hopened⟩ := hp.start_opens hrow (hh.checkStart (key?_ne hkey)) h.lockTimeout
  refine ⟨c, w₀, hopened, fun body => ?_⟩
  have hkey' : ({ r with body } : Request ε β α).key? = some key := hkey
  rw [act_eq, hkey']
  show (p.runProcess _ _ _ _ _).run w = _
  rw [Provider.run_runProcess, hstart]

/-- **An attempt whose body fails** closes the context, makes no record and returns the error. -/
theorem conduct_failed (hp : p.Bare records stamps locks) (hholds : c.Holds locks w) (process key : String)
    (e : β) :
    ∃ w', Releases locks records c w w' ∧ ∀ (body : Context → Action ε (Except β α)) (w₀ : World ε),
      (body c).run w₀ = (.value (.error e), w) →
        (p.conduct process key c body).run w₀ = (.value (.error e), w') := by
  obtain ⟨w', hclose, hreleases⟩ := hp.close_unlocks hholds
  refine ⟨w', hreleases, fun body w₀ hbody => ?_⟩
  have hrun : (p.runBody c body).run w₀ = (.value (.error e), w) := Provider.runBody_error hbody
  simp only [Provider.conduct, Process.run_bind, Process.run_onCrash, hrun, hclose, Process.run_pure]

/-- What a request does once its inputs have been compared. -/
theorem program_run {verdict : Except Error Unit} {w' : World ε}
    (h : (c.validateInputs p.executor r.inputs).run w = (.value verdict, w')) :
    (r.program p c).run w = (r.resume p c verdict).run w' := by
  rw [program, Process.run_bind, h]

variable (hp : p.Bare records stamps locks) (hh : h.Usable)
include hp hh

omit hh in
/-- **An error of the comparison** refuses the request: no record is made then, and nothing stays locked. -/
theorem refused_of_verdict {w₀ w₁ : World ε}
    (hopened : p.Opened records h.process key h.lockTimeout h.effectiveSettings w c w₀)
    (hrun : ∀ body : Context → Client ε β (Except β α), ({ r with body }.act h p).run w =
      (p.conduct h.process key c ({ r with body }.program p)).run w₀) {e : Error}
    (hverdict : (c.validateInputs p.executor r.inputs).run w₀ = (.value (.error e), w₁))
    (hrecords : records.get w₁.env = records.get w₀.env) :
    ∃ w', r.Refused h p e w w' ∧ records.get w'.env = records.get w.env ∧
      locks.lockRow h.process key w' = none := by
  have huses : c.Uses p.executor (Outside records locks c.process c) (c.validateInputs p.executor r.inputs) :=
    c.uses_validateInputs p.executor r.inputs
  have hguards := (hp.uses_guards rfl huses).run .refl .trans w₀
  rw [hverdict] at hguards
  have hholds := (hp.opened_holds hopened).guarded hguards
  obtain ⟨w', hreleases, hfailed⟩ := conduct_failed (α := α) hp hholds h.process key (ofError e : β)
  refine ⟨w', fun body => ?_, ?_, ?_⟩
  · rw [hrun]
    exact hfailed _ w₀ (program_run (r := { r with body }) hverdict)
  · exact (hreleases.records.trans hrecords).trans (hopened.records_eq hp.toInMemory)
  · have hrow := hreleases.row
    rwa [hopened.process_eq, hopened.key_eq] at hrow

/-- **A request without valid ids** is refused. -/
theorem refused_of_not_valid (hrow : locks.lockRow h.process key w = none) (hkey : r.key? = some key)
    (hvalid : ¬ r.inputs.Valid) :
    ∃ id ∈ r.inputs.keys, Identifier.isValid id = false ∧ ∃ w',
      r.Refused h p (.assertion (.invalidIdentifier "inputId" id)) w w' ∧
      records.get w'.env = records.get w.env ∧ locks.lockRow h.process key w' = none := by
  obtain ⟨hvalid', -⟩ | ⟨-, id, hmem, hinvalid, hcheck⟩ := r.inputs.checkIds_cases
  · exact absurd hvalid' hvalid
  obtain ⟨c, w₀, hopened, hrun⟩ := opens hp hh hrow hkey
  refine ⟨id, hmem, hinvalid, refused_of_verdict hp hopened hrun ?_ rfl⟩
  rw [Context.validateInputs, hcheck]
  rfl

/-- **The gate**: a request with valid ids is compared with the first one, on a context of the instance. -/
theorem gate (hrow : locks.lockRow h.process key w = none) {first? : Option Inputs}
    (hbegins : (records.ledger h.process key w).Begins first?) (hkey : r.key? = some key)
    (hvalid : r.inputs.Valid) :
    ∃ c w₀ w₁, p.Opened records h.process key h.lockTimeout h.effectiveSettings w c w₀ ∧
      (∀ body : Context → Client ε β (Except β α), ({ r with body }.act h p).run w =
        (p.conduct h.process key c ({ r with body }.program p)).run w₀) ∧
      (c.validateInputs p.executor r.inputs).run w₀ =
        (.value (r.inputs.verdict (first?.getD r.inputs).texts), w₁) ∧
      c.Stands [Inputs.phaseId] false w₁ ∧
      (records.ledger h.process key w₁).Begins (some (first?.getD r.inputs)) ∧
      (first? ≠ none → records.get w₁.env = records.get w₀.env) := by
  obtain ⟨c, w₀, hopened, hrun⟩ := opens hp hh hrow hkey
  have hledger : records.ledger c.process c.key w₀ = records.ledger h.process key w := by
    rw [hopened.process_eq, hopened.key_eq]
    exact hopened.ledger_eq hp.toInMemory h.process key
  have hfresh : first? = none → c.recordedFinal = none := by
    rintro rfl
    refine Decidable.byContradiction fun hfinal => ?_
    obtain ⟨id, record, hrecord, -⟩ := (hopened.knows_iff hp.toInMemory).1 hfinal
    rw [hbegins id] at hrecord
    cases hrecord
  obtain ⟨w₁, hverdict, hstands, hbegins', hrecords⟩ :=
    hp.validateInputs_run hvalid hopened.stands (hledger ▸ hbegins) hfresh
  rw [hopened.process_eq, hopened.key_eq] at hbegins'
  exact ⟨c, w₀, w₁, hopened, hrun, hverdict, hstands, hbegins', hrecords⟩

/-- **A request with valid ids** is refused if values differ from those of the first one, and then all their
    ids are told, in ascending order; otherwise it is admitted. -/
theorem refused_or_admitted (hrow : locks.lockRow h.process key w = none) {first? : Option Inputs}
    (hbegins : (records.ledger h.process key w).Begins first?)
    (hfirst : ∀ first, first? = some first → first.Plain) (hkey : r.key? = some key)
    (hvalid : r.inputs.Valid) (hplain : r.inputs.Plain) :
    ∃ ids : List String, (ids.Pairwise fun a b => compare a b = .lt) ∧
      (∀ id, id ∈ ids ↔ ∃ first, first? = some first ∧ first.Differs r.inputs id) ∧
      (ids ≠ [] → ∃ w', r.Refused h p (.inputConflict ids) w w' ∧ records.get w'.env = records.get w.env ∧
        locks.lockRow h.process key w' = none) ∧
      (ids = [] → r.Admitted h p w) := by
  obtain ⟨c, w₀, w₁, hopened, hrun, hverdict, hstands, -, hrecords⟩ := gate hp hh hrow hbegins hkey hvalid
  have hfirstPlain : (first?.getD r.inputs).Plain := by
    cases first? with
    | none => exact hplain
    | some first => exact hfirst first rfl
  have hmem : ∀ id, id ∈ r.inputs.conflicts (first?.getD r.inputs).texts ↔
      ∃ first, first? = some first ∧ first.Differs r.inputs id := by
    intro id
    cases first? with
    | none => simp [Inputs.conflicts_self hplain]
    | some first => simp [Inputs.mem_conflicts (hfirst first rfl)]
  refine ⟨r.inputs.conflicts (first?.getD r.inputs).texts, Inputs.conflicts_ascending hfirstPlain, hmem,
    fun hids => ?_, fun hids => ?_⟩
  · have hsome : first? ≠ none := by
      rintro rfl
      exact hids (Inputs.conflicts_self hplain)
    have herror : r.inputs.verdict (first?.getD r.inputs).texts =
        .error (.inputConflict (r.inputs.conflicts (first?.getD r.inputs).texts)) := by
      unfold Inputs.verdict
      split
      · rename_i hnil
        exact absurd hnil hids
      · rfl
    rw [herror] at hverdict
    exact refused_of_verdict hp hopened hrun hverdict (hrecords hsome)
  · have hok : r.inputs.verdict (first?.getD r.inputs).texts = .ok () := by
      unfold Inputs.verdict
      rw [hids]
    rw [hok] at hverdict
    refine ⟨key, c, w₁, hkey, hopened.process_eq, hopened.key_eq, hstands, fun body => ?_⟩
    rw [hrun]
    exact p.conduct_congr h.process key (program_run (r := { r with body }) hverdict)

/-- **A request with valid ids** keeps what its instance begins with. -/
theorem begins_of_valid (hr : r.Fair records locks h) (hrow : locks.lockRow h.process key w = none)
    {first? : Option Inputs} (hbegins : (records.ledger h.process key w).Begins first?)
    (hkey : r.key? = some key) (hvalid : r.inputs.Valid) :
    (records.ledger h.process key ((r.act h p).run w).2).Begins (some (first?.getD r.inputs)) := by
  obtain ⟨c, w₀, w₁, hopened, hrun, hverdict, hstands, hbegins', -⟩ := gate hp hh hrow hbegins hkey hvalid
  have hcourse := course_grows records c Ledger.keeping_eq
  -- Once the inputs have been compared, records are only added.
  let rest : Context → Action ε (Except β α) :=
    fun c => r.resume p c (r.inputs.verdict (first?.getD r.inputs).texts)
  have hsame : (r.act h p).run w = (p.conduct h.process key c rest).run w₁ :=
    (hrun r.body).trans (p.conduct_congr h.process key (program_run hverdict))
  have hrest : (rest c).Preserves c.Ready fun w w' : World ε =>
      (records.ledger c.process c.key w).Grows (records.ledger c.process c.key w') := by
    cases hverdict' : r.inputs.verdict (first?.getD r.inputs).texts with
    | error e =>
      simp only [rest, hverdict']
      exact .pure hcourse.refl _
    | ok u =>
      simp only [rest, hverdict']
      exact hcourse.client hp.sound ((hr.within c).mono fun hw => (hw.foreign hopened.process_eq).toBeside)
  have hgrows := (hcourse.conduct hp.toInMemory h.process key rest hrest w₁ hstands.toReady).2
  rw [hopened.process_eq, hopened.key_eq] at hgrows
  rw [hsame]
  exact hgrows.yields hbegins'

/-- **A request spares every other instance.** -/
theorem spares (hr : r.Fair records locks h) (hrow : ∀ key, locks.lockRow h.process key w = none)
    (hother : r.key? ≠ some key) : Spares records locks h.process key w ((r.act h p).run w).2 := by
  cases hkey : r.key? with
  | none =>
    rw [act_eq, hkey]
    exact .refl w
  | some key' =>
    have hne : key ≠ key' := by
      rintro rfl
      exact hother hkey
    obtain ⟨c, w₀, hopened, hrun⟩ := opens hp hh (hrow key') hkey
    have hopening := hp.opened_spares hopened hne
    have hconducting := hp.conduct_spares (fun hsame => hne (hsame.2.trans hopened.key_eq))
      (hp.opened_holds hopened) hopened.process_eq (hr.uses p c) h.process key'
    have hact : (r.act h p).run w = _ := hrun r.body
    rw [hact]
    exact hopening.trans hconducting

/-- **A request leaves nothing locked.** -/
theorem unlocks (hr : r.Fair records locks h) (hrow : ∀ key, locks.lockRow h.process key w = none)
    (key : String) : locks.lockRow h.process key ((r.act h p).run w).2 = none := by
  by_cases hkey : r.key? = some key
  · obtain ⟨c, w₀, hopened, hrun⟩ := opens hp hh (hrow key) hkey
    have hguards := hp.uses_guards hopened.process_eq (hr.uses p c)
    have hunlocked :
        locks.lockRow c.process c.key ((p.conduct h.process key c (r.program p)).run w₀).2 = none :=
      hp.conduct_unlocks h.process key (hp.opened_holds hopened) hguards
    rw [hopened.process_eq, hopened.key_eq] at hunlocked
    have hact : (r.act h p).run w = _ := hrun r.body
    rw [hact]
    exact hunlocked
  · exact (spares hp hh hr hrow hkey).row.trans (hrow key)

/-- **From one request to the next**: what rests before a request rests after it. -/
theorem rests (hr : r.Fair records locks h) (hw : Rests records locks h past w) :
    Rests records locks h (past ++ [r]) ((r.act h p).run w).2 := by
  refine ⟨unlocks hp hh hr hw.unlocked, fun key => ?_⟩
  have hfirst : firstInputs key (past ++ [r]) = (firstInputs key past).or (r.offer key) := by
    simp [firstInputs]
  have hbegins := hw.begins key
  by_cases hkey : r.key? = some key
  · by_cases hvalid : r.inputs.Valid
    · have hoffer : r.offer key = some r.inputs := if_pos ⟨hkey, hvalid⟩
      have hsome :
          (firstInputs key past).or (some r.inputs) = some ((firstInputs key past).getD r.inputs) := by
        cases firstInputs key past <;> rfl
      rw [hfirst, hoffer, hsome]
      exact begins_of_valid hp hh hr (hw.unlocked key) hbegins hkey hvalid
    · have hoffer : r.offer key = none := if_neg fun h => hvalid h.2
      obtain ⟨id, -, -, w', hrefused, hrecords, -⟩ := refused_of_not_valid hp hh (hw.unlocked key) hkey hvalid
      have hact : (r.act h p).run w = _ := hrefused r.body
      rw [hfirst, hoffer, Option.or_none, hact, Part.ledger, hrecords]
      exact hbegins
  · have hoffer : r.offer key = none := if_neg fun h => hkey h.1
    rw [hfirst, hoffer, Option.or_none, (spares hp hh hr hw.unlocked hkey).ledger]
    exact hbegins

/-- **Request after request**: what rests before them rests after them. -/
theorem rests_inTurn {requests : List (Request ε β α)} (hrequests : ∀ r ∈ requests, r.Fair records locks h)
    (hw : Rests records locks h past w) :
    Rests records locks h (past ++ requests) (Process.inTurn (requests.map (·.act h p)) w) := by
  induction requests generalizing past w with
  | nil => rwa [List.append_nil]
  | cons r requests ih =>
    obtain ⟨hr, hrest⟩ := List.forall_mem_cons.1 hrequests
    have hnext := ih hrest (rests hp hh hr hw)
    rwa [List.append_assoc, List.singleton_append] at hnext

omit hp hh [EngineFailure β] in
/-- The inputs of a first request can be written and read again. -/
theorem plain_of_firstInputs {requests : List (Request ε β α)} {first : Inputs}
    (hrequests : ∀ r ∈ requests, r.Fair records locks h) (hfirst : firstInputs key requests = some first) :
    first.Plain := by
  obtain ⟨r, hr, hoffer⟩ := List.exists_of_findSome?_eq_some hfirst
  unfold offer at hoffer
  split at hoffer
  · cases hoffer
    exact (hrequests r hr).plain
  · cases hoffer

/-- Whoever is refused without a record is turned away. -/
theorem turnedAway (hr : r.Fair records locks h) (hrow : ∀ key, locks.lockRow h.process key w = none)
    {e : Error} {w' : World ε} (hrefused : r.Refused h p e w w')
    (hrecords : records.get w'.env = records.get w.env) : r.TurnedAway records locks h p e w := by
  refine ⟨w', hrefused, hrecords, fun key => ?_⟩
  have hact : (r.act h p).run w = _ := hrefused r.body
  have hunlocked := unlocks hp hh hr hrow key
  rwa [hact] at hunlocked

/-- **The gate of a handler.**  Let requests come one after the other, to instances that nobody else uses.

    1. Whatever has happened, the inputs that are recorded for a key are those of the first request with that
       key and valid ids, and so they are ever after.
    2. A further request reaches its body exactly if it has a key, valid ids, and no value that differs from
       the first one's under the same id.
    3. Otherwise it is turned away: without a key as such, with an id that is no identifier for that, and
       with values that differ for all their ids, which are told in ascending order. -/
theorem handle_gate {requests : List (Request ε β α)} {next : Request ε β α}
    (hrequests : ∀ r ∈ requests, r.Fair records locks h) (hnext : next.Fair records locks h) {w w' : World ε}
    (hempty : ∀ key id, records.ledger h.process key w id = none)
    (hunlocked : ∀ key, locks.lockRow h.process key w = none)
    (hw' : Process.inTurn (requests.map (·.act h p)) w = w') :
    (∀ key, (records.ledger h.process key w').Begins (firstInputs key requests) ∧
      ∀ (first : Inputs) (later : List (Request ε β α)), firstInputs key requests = some first →
        (∀ r ∈ later, r.Fair records locks h) →
        (records.ledger h.process key (Process.inTurn (later.map (·.act h p)) w')).Begins (some first)) ∧
    (next.Admitted h p w' ↔ ∃ key, next.key? = some key ∧ next.inputs.Valid ∧
      ∀ first, firstInputs key requests = some first → ∀ id, ¬ first.Differs next.inputs id) ∧
    (next.key? = none → next.TurnedAway records locks h p .missingKey w') ∧
    ∀ key, next.key? = some key →
      (¬ next.inputs.Valid → ∃ id ∈ next.inputs.keys, Identifier.isValid id = false ∧
        next.TurnedAway records locks h p (.assertion (.invalidIdentifier "inputId" id)) w') ∧
      (next.inputs.Valid → ∃ ids : List String, (ids.Pairwise fun a b => compare a b = .lt) ∧
        (∀ id, id ∈ ids ↔ ∃ first, firstInputs key requests = some first ∧ first.Differs next.inputs id) ∧
        (ids ≠ [] → next.TurnedAway records locks h p (.inputConflict ids) w')) := by
  subst hw'
  have hnothing : Rests records locks h ([] : List (Request ε β α)) w := ⟨hunlocked, hempty⟩
  have hrests : Rests records locks h requests (Process.inTurn (requests.map (·.act h p)) w) :=
    rests_inTurn hp hh hrequests hnothing
  generalize Process.inTurn (requests.map (·.act h p)) w = w' at hrests ⊢
  have hplain : ∀ key first, firstInputs key requests = some first → first.Plain :=
    fun key first => plain_of_firstInputs hrequests
  have hinvalid : ∀ key, next.key? = some key → ¬ next.inputs.Valid → _ :=
    fun key => refused_of_not_valid hp hh (hrests.unlocked key)
  have hvalid : ∀ key, next.key? = some key → next.inputs.Valid → _ := fun key hkey hids =>
    refused_or_admitted hp hh (hrests.unlocked key) (hrests.begins key) (hplain key) hkey hids hnext.plain
  refine ⟨fun key => ⟨hrests.begins key, fun first later hfirst hlater => ?_⟩, ⟨fun hadmitted => ?_, ?_⟩,
    fun hkey => ?_, fun key hkey => ⟨fun hids => ?_, fun hids => ?_⟩⟩
  · have hbegins := (rests_inTurn hp hh hlater hrests).begins key
    rwa [firstInputs_append, hfirst, Option.some_or] at hbegins
  · obtain ⟨key, _, _, hkey, -⟩ := id hadmitted
    have hids : next.inputs.Valid := by
      refine Decidable.byContradiction fun hids => ?_
      obtain ⟨_, -, -, _, hrefused, -⟩ := hinvalid key hkey hids
      exact hadmitted.not_refused hrefused
    obtain ⟨ids, -, hmem, hrefused, -⟩ := hvalid key hkey hids
    have hnone : ids = [] := by
      refine Decidable.byContradiction fun hsome => ?_
      obtain ⟨_, hrefused, -⟩ := hrefused hsome
      exact hadmitted.not_refused hrefused
    subst hnone
    refine ⟨key, hkey, hids, fun first hfirst id hdiffers => ?_⟩
    exact absurd ((hmem id).2 ⟨first, hfirst, hdiffers⟩) List.not_mem_nil
  · rintro ⟨key, hkey, hids, hsame⟩
    obtain ⟨ids, -, hmem, -, hadmitted⟩ := hvalid key hkey hids
    refine hadmitted (List.eq_nil_iff_forall_not_mem.2 fun id hid => ?_)
    obtain ⟨first, hfirst, hdiffers⟩ := (hmem id).1 hid
    exact hsame first hfirst id hdiffers
  · have hrefused : next.Refused h p .missingKey w' w' := by
      intro body
      have hkey' : ({ next with body } : Request ε β α).key? = none := hkey
      rw [act_eq, hkey']
      rfl
    exact turnedAway hp hh hnext hrests.unlocked hrefused rfl
  · obtain ⟨id, hmem, hid, _, hrefused, hrecords, -⟩ := hinvalid key hkey hids
    exact ⟨id, hmem, hid, turnedAway hp hh hnext hrests.unlocked hrefused hrecords⟩
  · obtain ⟨ids, hascending, hmem, hrefused, -⟩ := hvalid key hkey hids
    refine ⟨ids, hascending, hmem, fun hsome => ?_⟩
    obtain ⟨_, hrefused, hrecords, -⟩ := hrefused hsome
    exact turnedAway hp hh hnext hrests.unlocked hrefused hrecords

end Request

end

/-! ## An order, repeated and changed -/

namespace Desk

/-- A handler of orders. -/
def teller : Handler where
  process := "transfer"
  lockTimeout := .ofSeconds 5

/-- An order of an amount. -/
def order (amount : Int) : Request Desk Error Unit where
  key := some "req-9"
  inputs := Table.empty.insert "amount" (.integer amount)
  body _ := .done (.ok ())

theorem valid_order (amount : Int) : (order amount).inputs.Valid := by
  intro id hid
  obtain rfl : id = "amount" := List.mem_singleton.1 hid
  decide +kernel

theorem fair_order {amount : Int} (hleast : 0 ≤ amount) (hgreatest : amount < 100) :
    (order amount).Fair recordsPart locksPart teller where
  plain e he := by
    obtain rfl : e = ("amount", Json.integer amount) := List.mem_singleton.1 he
    have hlimit : (100 : Int) < Json.wordLimit := by decide
    exact .integer (by omega) (by omega)
  within _ := trivial

theorem usable_teller : teller.Usable := ⟨by decide +kernel, rfl⟩

end Desk

open Desk in
/-- An order of 10 is carried out.  When it comes again it is admitted; with an amount of 11 it is turned away, for
    the amount alone. -/
theorem handle_gate_order : ∃ w', Process.inTurn [(order 10).act teller plain] fresh = w' ∧
    (order 10).Admitted teller plain w' ∧ ∃ ids, (∀ id, id ∈ ids ↔ id = "amount") ∧
      (order 11).TurnedAway recordsPart locksPart teller plain (.inputConflict ids) w' := by
  have hrequests : ∀ r ∈ [order 10], r.Fair recordsPart locksPart teller := by
    intro r hr
    obtain rfl := List.mem_singleton.1 hr
    exact fair_order (by decide) (by decide)
  have hkey : ∀ amount, (order amount).key? = some "req-9" := fun _ => rfl
  have hfirst : Request.firstInputs "req-9" [order 10] = some (order 10).inputs := by
    have hoffer : (order 10).offer "req-9" = some (order 10).inputs := if_pos ⟨hkey 10, valid_order 10⟩
    simp [Request.firstInputs, hoffer]
  have hget : ∀ amount id,
      (order amount).inputs.get? id = if id = "amount" then some (.integer amount) else none := by
    intro amount id
    show (Table.insert _ _ _).get? id = _
    rw [Table.get?_insert, Table.get?_empty]
  have hempty : ∀ key id, recordsPart.ledger teller.process key fresh id = none := fun _ _ => rfl
  have hunlocked : ∀ key, locksPart.lockRow teller.process key fresh = none := fun _ => rfl
  have hrepeated : (order 10).Fair recordsPart locksPart teller := fair_order (by decide) (by decide)
  have hchanged : (order 11).Fair recordsPart locksPart teller := fair_order (by decide) (by decide)
  obtain ⟨-, hadmitted, -, -⟩ :=
    Request.handle_gate bare_plain usable_teller hrequests hrepeated hempty hunlocked rfl
  obtain ⟨-, -, -, hturned⟩ :=
    Request.handle_gate bare_plain usable_teller hrequests hchanged hempty hunlocked rfl
  obtain ⟨ids, -, hmem, hrefused⟩ := (hturned "req-9" (hkey 11)).2 (valid_order 11)
  have hids : ∀ id, id ∈ ids ↔ id = "amount" := by
    intro id
    rw [hmem, hfirst]
    constructor
    · rintro ⟨first, ⟨⟩, v, v', hv, -, -⟩
      rw [hget] at hv
      exact Decidable.byContradiction fun hne => by simp [hne] at hv
    · rintro rfl
      exact ⟨_, rfl, .integer 10, .integer 11, hget 10 _, hget 11 _, by simp⟩
  refine ⟨_, rfl, hadmitted.2 ⟨"req-9", hkey 10, valid_order 10, ?_⟩, ids, hids, hrefused ?_⟩
  · rw [hfirst]
    rintro first ⟨⟩ id ⟨v, v', hv, hv', hne⟩
    exact hne (Option.some.inj (hv.symm.trans hv'))
  · exact List.ne_nil_of_mem ((hids "amount").2 rfl)

end Idempotence
