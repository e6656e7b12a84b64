/-
  Repeated inputs — inputs that are compared with themselves.

  Already the first attempt compares its inputs with what it has recorded of them, and the record is a text.
  So inputs conflict with themselves where they do not outlast being written and read.

  1. **Inputs that last** — `Inputs.Lasting`: no value nests too deep, and every real is read back as it was.
     Modest ones do, whose reals are short (`Inputs.Modest.lasting`).

  2. **Inputs that agree** — the same ids, and values that are the same.  What is found of conflicts with a
     record is alike for inputs that agree (`Inputs.Agrees.verdict_eq`).

  3. **The result** — `Provider.Bare.validateInputs_repeated`: the first comparing accepts just the inputs that
     last, and every later one in the instance, with inputs that agree, comes to the same.  An amount for
     which that is no acceptance is in `amount_conflicts`.
-/
import Idempotence.Proofs.RequestGate
import Idempotence.Proofs.ShortReals

namespace Idempotence

namespace Inputs

variable {inputs inputs' : Inputs}

/-- **Well-formed inputs**: their ids are identifiers, and their values are well-formed documents with
    whatever reals. -/
structure Sound (inputs : Inputs) : Prop where
  valid : inputs.Valid
  values_sound : ∀ e ∈ inputs.entries, e.2.Sound fun _ => True

/-- **Inputs that last**: no value nests too deep, and their reals are read back as they were. -/
def Lasting (inputs : Inputs) : Prop := ∀ e ∈ inputs.entries, e.2.Lasts Json.nestingLimit

/-- **Modest inputs**: no value nests too deep, and their reals are short. -/
def Modest (inputs : Inputs) : Prop := ∀ e ∈ inputs.entries, e.2.Within Json.Short Json.nestingLimit

theorem Modest.lasting (h : inputs.Modest) : inputs.Lasting :=
  fun e he => (h e he).mono fun _ hshort => hshort.realLasts

/-- **Inputs that agree**: they have the same ids, and the values are the same. -/
def Agrees (inputs inputs' : Inputs) : Prop := Json.sameMembers inputs.entries inputs'.entries = true

instance (inputs inputs' : Inputs) : Decidable (inputs.Agrees inputs') :=
  inferInstanceAs (Decidable (_ = true))

/-! ## Conflicts -/

/-- There is no conflict where the recorded text is read as what is the same. -/
theorem conflict?_eq_none (id : String) (input : Json) (recorded : String) :
    conflict? id input recorded = none ↔ (Json.parse recorded).toOption.any (·.same input) = true := by
  unfold conflict?
  cases Json.parse recorded with
  | error fault => simp [Except.toOption]
  | ok document => cases hsame : document.same input <;> simp [Except.toOption, hsame]

/-- **Inputs do not conflict with themselves** exactly if they last. -/
theorem verdict_texts (h : inputs.Sound) : inputs.verdict inputs.texts = .ok () ↔ inputs.Lasting := by
  have hverdict : inputs.verdict inputs.texts = .ok () ↔ inputs.conflicts inputs.texts = [] := by
    unfold verdict
    cases inputs.conflicts inputs.texts <;> simp
  rw [hverdict, conflicts, List.filterMap_eq_nil_iff]
  refine forall₂_congr fun e he => ?_
  have hthere : inputs.texts.get? e.1 = some e.2.render := by
    rw [get?_texts, (Table.get?_eq_some_iff inputs).2 he, Option.map_some]
  show (inputs.texts.get? e.1).bind (conflict? e.1 e.2) = none ↔ _
  rw [hthere, Option.bind_some, conflict?_eq_none]
  exact (h.values_sound e he).any_same_parse

/-- A value conflicts as one does that is the same. -/
theorem conflict?_congr {input input' : Json} (h : input.same input' = true) (id recorded : String) :
    conflict? id input recorded = conflict? id input' recorded := by
  unfold conflict?
  cases Json.parse recorded with
  | error fault => rfl
  | ok document => simp only [Json.same_congr document h]

/-- Members that are the same have the same names. -/
theorem names_of_sameMembers {l l' : List (String × Json)} (h : Json.sameMembers l l' = true) :
    l'.map Prod.fst = l.map Prod.fst := by
  induction l generalizing l' with
  | nil =>
    cases l' with
    | nil => rfl
    | cons e l' => cases h
  | cons e l ih =>
    cases l' with
    | nil => cases h
    | cons e' l' =>
      simp only [Json.sameMembers, Bool.and_eq_true, beq_iff_eq] at h
      rw [List.map_cons, List.map_cons, ih h.2, h.1.1]

/-- What is found in members by their names and by whatever is alike for values that are the same. -/
theorem filterMap_congr {β : Type} {f : String × Json → Option β} {l l' : List (String × Json)}
    (hf : ∀ id {v v' : Json}, v.same v' = true → f (id, v) = f (id, v')) (h : Json.sameMembers l l' = true) :
    l.filterMap f = l'.filterMap f := by
  induction l generalizing l' with
  | nil =>
    cases l' with
    | nil => rfl
    | cons e l' => cases h
  | cons e l ih =>
    cases l' with
    | nil => cases h
    | cons e' l' =>
      obtain ⟨id, v⟩ := e
      obtain ⟨id', v'⟩ := e'
      simp only [Json.sameMembers, Bool.and_eq_true, beq_iff_eq] at h
      obtain ⟨⟨rfl, hv⟩, hl⟩ := h
      rw [List.filterMap_cons, List.filterMap_cons, hf id hv, ih hl]

namespace Agrees

variable (h : inputs.Agrees inputs')
include h

theorem valid (hvalid : inputs.Valid) : inputs'.Valid := by
  have hkeys : inputs'.keys = inputs.keys := names_of_sameMembers h
  unfold Valid
  rw [hkeys]
  exact hvalid

/-- **What comparing comes to** is alike for inputs that agree. -/
theorem verdict_eq (recorded : Table String String) : inputs'.verdict recorded = inputs.verdict recorded := by
  have hconflicts : inputs.conflicts recorded = inputs'.conflicts recorded :=
    filterMap_congr (fun id {_ _} hv => congrArg (recorded.get? id).bind (funext (conflict?_congr hv id))) h
  rw [verdict, verdict, hconflicts]

end Agrees

end Inputs

/-! ## Attempts -/

variable {ε : Type} {records : Part ε MemoryStore} {stamps : Action ε Instant}
  {locks : Part ε (LockTable RecordKey)} {p : Provider ε} {c : Context} {w : World ε}

/-- **Inputs that are compared again and again.**  Let a context of an instance without recorded inputs, and
    without a final record, compare inputs outside of its phases.
    * They are accepted exactly if they last, and modest inputs do.
    * Every later comparing in the instance with inputs that agree comes to the same, and makes no record. -/
theorem Provider.Bare.validateInputs_repeated (hp : p.Bare records stamps locks) {inputs : Inputs}
    {visited : List String} (hinputs : inputs.Sound) (hstands : c.Stands visited false w)
    (hnew : Inputs.phaseId ∉ visited) (hfree : records.ledger c.process c.key w Inputs.phaseId = none)
    (hfresh : c.recordedFinal = none) :
    ∃ verdict w', (c.validateInputs p.executor inputs).run w = (.value verdict, w') ∧
      (verdict = .ok () ↔ inputs.Lasting) ∧ (inputs.Modest → verdict = .ok ()) ∧
      ∀ {c' : Context} {visited' : List String} {inputs' : Inputs} {w₁ : World ε},
        c.Resumes records w' c' visited' w₁ → Inputs.phaseId ∉ visited' → inputs.Agrees inputs' →
        ∃ w₂, (c'.validateInputs p.executor inputs').run w₁ = (.value verdict, w₂) ∧
          records.get w₂.env = records.get w₁.env := by
  obtain ⟨w', hrun, -, hthere⟩ := hp.validateInputs_first hinputs.valid hstands hnew hfree hfresh
  have haccepted := Inputs.verdict_texts hinputs
  refine ⟨inputs.verdict inputs.texts, w', hrun, haccepted, fun hmodest => haccepted.2 hmodest.lasting, ?_⟩
  intro c' visited' inputs' w₁ hlater hnew' hagrees
  have hyields : (records.ledger c'.process c'.key w₁).Yields Inputs.phaseId Inputs.format inputs.texts := by
    rw [hlater.process_eq, hlater.key_eq]
    exact hlater.grows.yields hthere
  obtain ⟨w₂, hagain, -, hsame⟩ :=
    hp.validateInputs_later (hagrees.valid hinputs.valid) hlater.toStands hnew' hyields
  exact ⟨w₂, hagrees.verdict_eq inputs.texts ▸ hagain, hsame⟩

namespace Desk

/-- An amount, by its id. -/
def offer (amount : Double) : Inputs := Table.empty.insert "amount" (.real amount)

/-- 12.34. -/
def price : Double := ⟨false, 6946802425218990, -49⟩

/-- What `1.5e-30` is read as. -/
def trifle : Double := ⟨false, 8563486156235760, -152⟩

theorem sound_offer (amount : Double) : (offer amount).Sound where
  valid := by
    intro id hid
    obtain rfl := List.mem_singleton.1 hid
    exact (by decide +kernel : Identifier.isValid "amount" = true)
  values_sound := by
    intro e he
    obtain rfl := List.mem_singleton.1 he
    exact .real trivial

theorem modest_price : (offer price).Modest := by
  intro e he
  obtain rfl := List.mem_singleton.1 he
  refine .real (.inr ⟨⟨by decide, by decide, by decide, by decide⟩, ?_⟩)
  have hshortest : price.shortest = ⟨"1234".toList, 2⟩ := by decide +kernel
  rw [hshortest]
  exact ⟨by decide, by decide, by decide, by decide⟩

end Desk

open Desk in
/-- A price of 12.34 is accepted by the first attempt, and by the next one again. -/
theorem validateInputs_repeated_price : ∃ c w₀ w c' w₁ w₂,
    (plain.start "order" "req-42" (.ofSeconds 5) []).run fresh = (.value (.ok c), w₀) ∧
    (c.validateInputs plain.executor (offer price)).run w₀ = (.value (.ok ()), w) ∧
    (plain.start "order" "req-42" (.ofSeconds 5) []).run ((plain.close c).run w).2 = (.value (.ok c'), w₁) ∧
    (c'.validateInputs plain.executor (offer price)).run w₁ = (.value (.ok ()), w₂) := by
  obtain ⟨c, w₀, hstart, hprocess, hkey, hfresh, hstands, hholds, hnone⟩ := opens_order
  obtain ⟨verdict, w, hrun, -, hmodest, hagain⟩ := bare_plain.validateInputs_repeated (sound_offer price)
    hstands List.not_mem_nil (hnone _) hfresh
  obtain rfl := hmodest modest_price
  have hguards := bare_plain.uses_guards rfl (c.uses_validateInputs plain.executor (offer price))
  obtain ⟨c', w₁, hreopened, hresumes⟩ := reopens_order hprocess hkey hholds hguards hrun
  have hsame : (offer price).Agrees (offer price) := by decide +kernel
  obtain ⟨w₂, hlater, -⟩ := hagain hresumes List.not_mem_nil hsame
  exact ⟨c, w₀, w, c', w₁, w₂, hstart, hrun, hreopened, hlater⟩

/-- **An amount conflicts with itself**: the very first attempt that offers it is refused. -/
theorem amount_conflicts : ∃ c w₀ w,
    (Desk.offer Desk.trifle).Sound ∧
    (Desk.plain.start "order" "req-42" (.ofSeconds 5) []).run Desk.fresh = (.value (.ok c), w₀) ∧
    (∀ id, Desk.recordsPart.ledger c.process c.key w₀ id = none) ∧
    (c.validateInputs Desk.plain.executor (Desk.offer Desk.trifle)).run w₀ =
      (.value (.error (.inputConflict ["amount"])), w) := by
  obtain ⟨c, w₀, hstart, -, -, hfresh, hstands, -, hnone⟩ := Desk.opens_order
  obtain ⟨w, hrun, -⟩ := Desk.bare_plain.validateInputs_first (Desk.sound_offer Desk.trifle).valid hstands
    List.not_mem_nil (hnone _) hfresh
  have hconflicts : (Desk.offer Desk.trifle).conflicts (Desk.offer Desk.trifle).texts = ["amount"] := by
    decide +kernel
  rw [Inputs.verdict, hconflicts] at hrun
  exact ⟨c, w₀, w, Desk.sound_offer Desk.trifle, hstart, hnone, hrun⟩

end Idempotence
