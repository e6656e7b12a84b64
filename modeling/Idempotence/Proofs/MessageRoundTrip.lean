/-
  Messages, there and back — messages that are read from their texts.

  A phase may return a message, which is then stored as its text and read again on a retry.

  1. **Records** — a typed record is read from an object of its fields in any order, each once, if the
     values of the fields are (`Decoder.record_chars`).

  2. **Messages** — what is read from the text of a message is the message as it is KEPT: the payload `null`
     has become no payload at all, and everything else is as it was (`Message.ofText_toText`).

  3. **The result** — `Message.resent`: a retry gets the message as it is kept, which is the message itself
     unless its payload is `null`.  Then it is a tombstone that was none, and refused where the message is
     not (`Message.erased`).
-/
import Idempotence.Proofs.RequestGate

namespace Idempotence

variable {ε α β : Type}

/-! ## Records -/

namespace Json.Decoder

/-- A field of a record, as it is written: its name, its value, and what reading that makes of the record. -/
abbrev Written (α : Type) := String × (Json × (α → α))

/-- One more field, unless there has been one of its name. -/
def addField (acc : Partial α) (e : Written α) : Option (Partial α) :=
  if acc.2.contains e.1 then none else some (e.2.2 acc.1, e.1 :: acc.2)

/-- Fields of different names are all added. -/
theorem foldlM_addField {l : List (Written α)} (hdistinct : (l.map Prod.fst).Nodup) {acc : Partial α}
    (hnew : ∀ e ∈ l, e.1 ∉ acc.2) :
    l.foldlM addField acc =
      some (l.foldl (fun a e => e.2.2 a) acc.1, (l.map Prod.fst).reverse ++ acc.2) := by
  induction l generalizing acc with
  | nil => rfl
  | cons e l ih =>
    obtain ⟨he, hl⟩ := List.forall_mem_cons.1 hnew
    obtain ⟨hfirst, hrest⟩ := List.nodup_cons.1 hdistinct
    have hadd : addField acc e = some (e.2.2 acc.1, e.1 :: acc.2) := if_neg (by simpa using he)
    have hlater : ∀ e' ∈ l, e'.1 ∉ e.1 :: acc.2 := by
      intro e' he' hmem
      rcases List.mem_cons.1 hmem with heq | hmem
      · exact hfirst (heq ▸ List.mem_map_of_mem he')
      · exact hl e' he' hmem
    rw [List.foldlM_cons, hadd]
    show l.foldlM addField (e.2.2 acc.1, e.1 :: acc.2) = _
    rw [ih hrest hlater]
    simp

variable {fields : List (Field α)} {d : Nat}

theorem record_brace (fields : List (Field α)) (initial : α) (d : Nat) (cs : List Char) :
    record fields initial (d + 1) ('{' :: cs) = (do
      let ((a, seen), rest) ← foldMembers stringRest (fieldMember fields d) cs true (initial, []) cs
      if fields.all fun f => !f.required || seen.contains f.name then .ok (a, rest)
      else failAt .otherValue rest) := rfl

/-- **A record is read** from the object of its fields, if their values are. -/
theorem record_chars {l : List (Written α)} (hdistinct : (l.map Prod.fst).Nodup)
    (hfields : ∀ e ∈ l, ∃ f, fields.find? (·.name == e.1) = some f ∧
      ∀ rest, Stops rest → f.read d (e.2.1.chars ++ rest) = .ok (e.2.2, rest))
    (hall : ∀ f ∈ fields, f.required = true → f.name ∈ l.map Prod.fst) (initial : α) (rest : List Char) :
    record fields initial (d + 1) ((object (l.map fun e => (e.1, e.2.1))).chars ++ rest) =
      .ok (l.foldl (fun a e => e.2.2 a) initial, rest) := by
  have hmember : ∀ e ∈ l, ∀ acc rest, Stops rest →
      Reads (addField acc e) rest (fieldMember fields d acc e.1 (e.2.1.chars ++ rest)) := by
    intro e he acc rest hrest
    obtain ⟨f, hf, hread⟩ := hfields e he
    unfold fieldMember addField
    simp only [hf]
    split
    · exact ⟨_, rfl⟩
    · rw [hread rest hrest]
      rfl
  obtain ⟨text, htext, hmembers⟩ := foldMembers_chars Prod.fst hmember (initial, []) rest
  rw [foldlM_addField hdistinct (fun _ _ => List.not_mem_nil)] at hmembers
  have hcomplete : (fields.all fun f => !f.required || ((l.map Prod.fst).reverse ++ []).contains f.name) = true := by
    rw [List.all_eq_true]
    intro f hf
    cases hrequired : f.required with
    | false => rfl
    | true => simpa using hall f hf hrequired
  rw [htext, record_brace, show foldMembers _ _ _ _ _ _ = _ from hmembers]
  exact if_pos hcomplete

/-- Only `null` begins like `null`. -/
theorem head_chars {j : Json} (hplain : j.Plain d) (hnull : j ≠ .null) :
    ∃ c cs, j.chars = c :: cs ∧ c ≠ 'n' := by
  cases hplain with
  | null => exact absurd rfl hnull
  | bool b => cases b <;> exact ⟨_, _, rfl, by decide⟩
  | @integer _ n least greatest =>
    rw [chars, decimal]
    split
    · exact ⟨_, _, rfl, by decide⟩
    · obtain ⟨c, ds, hdigits, hc⟩ := toDigits_cons n.natAbs
      exact ⟨c, ds, hdigits, (digit_ne hc).2.1⟩
  | string s => exact ⟨_, _, rfl, by decide⟩
  | @array _ items items_plain =>
    cases items with
    | nil => exact ⟨_, _, rfl, by decide⟩
    | cons x xs => exact ⟨_, _, chars_array_cons x xs, by decide⟩
  | @object _ members ordered values_plain =>
    cases members with
    | nil => exact ⟨_, _, rfl, by decide⟩
    | cons e l => exact ⟨_, _, chars_object_cons e l, by decide⟩

end Json.Decoder

/-! ## Records of calls -/

section

variable {records : Part ε MemoryStore} {c : Context} {w w' : World ε}

/-- **The record of a call that answers** where there was none: its text is that of the answer. -/
theorem Context.Called.written [EngineFailure β] {ph : Phase} {codec : Codec α} {a : α}
    (h : c.Called Eq records ph codec w (.value (.ok a) : Outcome (Except β α)) w')
    (hfree : records.ledger c.process c.key w ph.id = none) :
    ∃ r, records.ledger c.process c.key w' ph.id = some r ∧ codec.encode a = .ok r.data := by
  generalize ho : (.value (.ok a) : Outcome (Except β α)) = o at h
  cases h with
  | refused permit => cases ho
  | failed permit steps failure => exact absurd ho.symm (failure a)
  | @reread s w₁ r permit steps there =>
    -- Nothing beside the context makes its records.
    have hsame : records.ledger c.process c.key w₁ = records.ledger c.process c.key w := steps.ledger.symm
    rw [hsame, hfree] at there
    cases there
  | @recorded s w₁ w₂ r u permit steps fresh free final written quiet =>
    cases ho
    refine ⟨r, ?_, written⟩
    show records.ledger c.process c.key w₂ ph.id = some r
    rw [quiet.ledger, Part.ledger_store, Ledger.put, if_pos rfl]

end

/-! ## Messages -/

namespace Message

open Json (Decoder)

/-- **A message as it is kept**: the payload `null` is none. -/
def kept (m : Message) : Message :=
  match m.payload with
  | some .null => { m with payload := none }
  | _ => m

/-- A message is kept as it is unless its payload is `null`. -/
theorem kept_eq_self (m : Message) : m.kept = m ↔ m.payload ≠ some .null := by
  unfold kept
  split
  · rename_i hnull
    simp only [hnull, ne_eq, not_true_eq_false, iff_false]
    intro heq
    rw [← heq] at hnull
    cases hnull
  · rename_i hnull
    exact ⟨fun _ => hnull, fun _ => rfl⟩

/-- What tells the messages apart is the payload alone. -/
theorem kept_eq (m : Message) : m.kept = { m with payload := m.kept.payload } := by
  unfold kept
  split <;> rfl

/-- **A message that is kept as a tombstone** is one, or its payload is `null`. -/
theorem isTombstone_kept (m : Message) :
    m.kept.isTombstone = true ↔ m.isTombstone = true ∨ m.payload = some .null := by
  unfold kept isTombstone
  split <;> simp_all

/-- **The payload `null`** may go to any topic, but it is kept as what may go to snapshots only. -/
theorem checkDestination_kept {m : Message} (h : m.payload = some .null) :
    m.checkDestination = .ok () ∧ m.kept.checkDestination =
      if isSnapshotTopic m.topic then .ok () else .error (.misplacedTombstone m.topic) := by
  unfold checkDestination kept isTombstone
  rw [h]
  cases hsnapshot : isSnapshotTopic m.topic <;> simp

/-- **A message that can be written**: its payload is a plain document, one level below. -/
def Plain (m : Message) : Prop := ∀ p, m.payload = some p → p.Plain (Json.nestingLimit - 1)

/-- The fields of a message, as they are written. -/
def fields (m : Message) : List (Decoder.Written Message) :=
  [("topic", .string m.topic, fun m' => { m' with topic := m.topic }),
    ("key", .string m.key, fun m' => { m' with key := m.key }),
    ("payload", m.payload.getD .null, fun m' => { m' with payload := m.kept.payload }),
    ("headers", m.headersJson, fun m' => { m' with headers := m.headers })]

theorem toText_eq (m : Message) : m.toText = (Json.object (m.fields.map fun e => (e.1, e.2.1))).render := rfl

/-- **A payload** is read as it is kept. -/
theorem payload_chars {m : Message} (h : m.Plain) {rest : List Char} (hrest : Json.Stops rest) :
    Decoder.option Decoder.document 126 ((m.payload.getD .null).chars ++ rest) =
      .ok (m.kept.payload, rest) := by
  by_cases hnull : m.payload = none ∨ m.payload = some .null
  · have hnone : m.payload.getD .null = .null ∧ m.kept.payload = none := by
      unfold kept
      rcases hnull with hpayload | hpayload <;> simp [hpayload]
    rw [hnone.1, hnone.2]
    rfl
  · obtain ⟨hsome, hkept⟩ := not_or.1 hnull
    obtain ⟨p, hpayload⟩ := Option.ne_none_iff_exists'.1 hsome
    have hp : p ≠ .null := by simpa [hpayload] using hkept
    have hplain : p.Plain 126 := h p hpayload
    obtain ⟨c, cs, hchars, hc⟩ := Decoder.head_chars hplain hp
    have hblanks : Json.skipBlanks (p.chars ++ rest) = p.chars ++ rest :=
      ((Json.starts_chars p).append rest).skipBlanks
    have hread : Json.value 126 (p.chars ++ rest) = .ok (p, rest) := hplain.value_chars hrest
    rw [(kept_eq_self m).2 hkept, hpayload, Option.getD_some, Decoder.option, hblanks]
    split
    · rename_i hn
      rw [hchars] at hn
      exact absurd (List.cons.inj hn).1 hc
    · rw [Decoder.map, Decoder.document, hread]
      rfl

/-- **The fields of a message** are those that its decoder reads. -/
theorem decoder_fields {m : Message} (h : m.Plain) : ∃ fields : List (Decoder.Field Message),
    decoder = Decoder.record fields default ∧
    (∀ e ∈ m.fields, ∃ f, fields.find? (·.name == e.1) = some f ∧
      ∀ rest, Json.Stops rest → f.read 126 (e.2.1.chars ++ rest) = .ok (e.2.2, rest)) ∧
    ∀ f ∈ fields, f.required = true → f.name ∈ m.fields.map Prod.fst := by
  have hheaders : ∀ rest, Decoder.table Decoder.string 126 (m.headersJson.chars ++ rest) =
      .ok (m.headers, rest) :=
    Decoder.table_chars (d := 125) (fun s rest _ => Decoder.string_chars 125 s rest) m.headers
  refine ⟨_, rfl, ?_, ?_⟩
  · simp only [fields, List.forall_mem_cons]
    refine ⟨⟨_, rfl, fun rest _ => ?_⟩, ⟨_, rfl, fun rest _ => ?_⟩, ⟨_, rfl, fun rest hrest => ?_⟩,
      ⟨_, rfl, fun rest _ => ?_⟩, fun _ hnone => nomatch hnone⟩
    · simp only [Decoder.map, Decoder.string_chars]
      rfl
    · simp only [Decoder.map, Decoder.string_chars]
      rfl
    · simp only [Decoder.map, payload_chars h hrest]
      rfl
    · simp only [Decoder.map, hheaders]
      rfl
  · simp [fields]

/-- **A message is read from its text** as it is kept. -/
theorem ofText_toText {m : Message} (h : m.Plain) : ofText m.toText = .ok m.kept := by
  obtain ⟨fields, hdecoder, hfields, hall⟩ := decoder_fields h
  have hdistinct : (m.fields.map Prod.fst).Nodup := by
    show ["topic", "key", "payload", "headers"].Nodup
    decide
  have hread := Decoder.record_chars hdistinct hfields hall default []
  rw [List.append_nil] at hread
  rw [ofText, hdecoder, toText_eq, Json.render]
  show (do Json.atEnd (← Decoder.record fields default 127 (String.ofList _).toList)) = _
  rw [String.toList_ofList, hread, kept_eq m]
  rfl

/-- How a phase that returns a message writes and reads it. -/
def codec : Codec Message where
  encode m := .ok m.toText
  decode := ofText

section

variable {records : Part ε MemoryStore} {stamps : Action ε Instant} {locks : Part ε (LockTable RecordKey)}
  {p : Provider ε} {c : Context} {w w' : World ε}

/-- **A call that has returned a message**: every later call of the phase returns the message as it is kept,
    whatever its body, and makes no record. -/
theorem called_again [EngineFailure β] (hp : p.Bare records stamps locks) {m : Message} (hm : m.Plain)
    {ph ph' : Phase} (hcalled : c.Called Eq records ph codec w (.value (.ok m) : Outcome (Except β Message)) w')
    (hfree : records.ledger c.process c.key w ph.id = none) {c' : Context} {visited : List String}
    {w₁ : World ε} (hlater : c.Resumes records w' c' visited w₁) (hid : ph'.id = ph.id)
    (hcheck : Context.checkPhase ph' = .ok ()) (hnew : ph'.id ∉ visited) :
    ∃ w₂, (∀ body : Action ε (Except β Message),
        (p.runPhase c' ph' codec body).run w₁ = (.value (.ok m.kept), w₂)) ∧
      records.get w₂.env = records.get w₁.env := by
  obtain ⟨r, hr, hdata⟩ := hcalled.written hfree
  have hdata : m.toText = r.data := Except.ok.inj hdata
  have hthere : records.ledger c'.process c'.key w₁ ph'.id = some r := by
    rw [hlater.process_eq, hlater.key_eq, hid]
    exact hlater.grows _ _ hr
  have hread : (Context.reread codec r.data : Except β Message) = .ok m.kept := by
    have hdecode : codec.decode r.data = .ok m.kept := hdata ▸ ofText_toText hm
    rw [Context.reread, hdecode]
  obtain ⟨w₂, hagain, hsame⟩ := hp.run_reread (β := β) codec hcheck hnew hthere hlater.toStands
  exact ⟨w₂, fun body => hread ▸ hagain body, hsame⟩

/-- **Messages that are written and read.**
    * What is read from the text of a message is the message as it is kept, which is the message itself
      unless its payload is `null`.
    * The payload `null` makes no tombstone, and may go to any topic, but it is kept as a tombstone, which
      may go to snapshots only.
    * Where a phase that had no record has returned the message, every later call of it in the instance
      returns the message as it is kept, whatever its body, and makes no record. -/
theorem resent [EngineFailure β] (hp : p.Bare records stamps locks) {m : Message} (hm : m.Plain) :
    ofText m.toText = .ok m.kept ∧
    (m.kept = m ↔ m.payload ≠ some .null) ∧
    (m.payload = some .null → m.isTombstone = false ∧ m.checkDestination = .ok () ∧
      m.kept.isTombstone = true ∧ m.kept.checkDestination =
        if isSnapshotTopic m.topic then .ok () else .error (.misplacedTombstone m.topic)) ∧
    ∀ {c : Context} {ph : Phase} {body : Client ε β (Except β Message)} {w w' : World ε},
      body.Within (Foreign locks records c) → c.Ready w →
      records.ledger c.process c.key w ph.id = none →
      (p.runPhase c ph codec (body.act p.executor c)).run w = (.value (.ok m), w') →
      ∀ {c' : Context} {ph' : Phase} {visited : List String} {w₁ : World ε},
        c.Resumes records w' c' visited w₁ → ph'.id = ph.id → Context.checkPhase ph' = .ok () →
        ph'.id ∉ visited → ∃ w₂, (∀ body' : Action ε (Except β Message),
            (p.runPhase c' ph' codec body').run w₁ = (.value (.ok m.kept), w₂)) ∧
          records.get w₂.env = records.get w₁.env := by
  refine ⟨ofText_toText hm, kept_eq_self m, fun hnull => ?_, ?_⟩
  · obtain ⟨haccepted, hkept⟩ := checkDestination_kept hnull
    have hno : m.isTombstone = false := by
      unfold isTombstone
      rw [hnull]
      rfl
    exact ⟨hno, haccepted, (isTombstone_kept m).2 (.inr hnull), hkept⟩
  · intro c ph body w w' hbody hready hfree hrun c' ph' visited w₁ hlater hid hcheck hnew
    exact called_again hp hm (hp.called hbody hready hrun) hfree hlater hid hcheck hnew

end

end Message

/-! ## A message that is kept, and one that is not -/

namespace Desk

/-- A message with a payload. -/
def greeting : Message := { topic := "orders", key := "req-42", payload := some (.string "hello") }

/-- A phase that returns a message. -/
def notify : Phase := { id := "notify" }

/-- A message with the payload `null`. -/
def void : Message := { greeting with payload := some .null }

end Desk

open Desk in
/-- A message with a payload is read back as it was written; a phase that has returned it returns it to the next
    attempt, whatever the body there. -/
theorem resent_greeting : ∃ c w₀ w c' w₁ w₂,
    Message.ofText greeting.toText = .ok greeting ∧
    (plain.start "order" "req-42" (.ofSeconds 5) []).run fresh = (.value (.ok c), w₀) ∧
    (plain.runPhase c notify Message.codec (pure (.ok greeting) : Action Desk (Except Error _))).run w₀ =
      (.value (.ok greeting), w) ∧
    (plain.start "order" "req-42" (.ofSeconds 5) []).run ((plain.close c).run w).2 = (.value (.ok c'), w₁) ∧
    ∀ body : Action Desk (Except Error Message),
      (plain.runPhase c' notify Message.codec body).run w₁ = (.value (.ok greeting), w₂) := by
  have hplain : greeting.Plain := by
    rintro p ⟨⟩
    exact .string _
  have hpayload : greeting.payload ≠ some .null := by
    rintro ⟨⟩
  obtain ⟨hread, hkept, -, hagain⟩ := Message.resent (β := Error) bare_plain hplain
  rw [hkept.2 hpayload] at hread hagain
  have hvalid : Context.checkPhase notify = .ok () := by
    have hid : Identifier.isValid "notify" = true := by decide +kernel
    rw [Context.checkPhase, Identifier.check, notify, if_pos hid]
    rfl
  obtain ⟨c, w₀, hstart, hprocess, hkey, hfresh, hstands, hholds, hnone⟩ := opens_order
  have hencode : Message.codec.encode greeting = .ok greeting.toText := rfl
  obtain ⟨w, hrun⟩ := bare_plain.run_encoded (β := Error) hvalid List.not_mem_nil (hnone notify.id) hfresh
    hencode hstands
  have hpure : (pure (.ok greeting) : Action Desk (Except Error Message)).Steps (Guards locksPart c) := .pure _
  obtain ⟨c', w₁, hreopened, hresumes⟩ :=
    reopens_order hprocess hkey hholds (bare_plain.steps_run notify Message.codec hpure) hrun
  have hbody : (Client.done (.ok greeting) : Client Desk Error (Except Error Message)).Within
      (Foreign locksPart recordsPart c) := trivial
  obtain ⟨w₂, hsame, -⟩ := hagain hbody hstands.toReady (hnone _) hrun hresumes rfl hvalid List.not_mem_nil
  exact ⟨c, w₀, w, c', w₁, w₂, hread, hstart, hrun, hreopened, hsame⟩

open Desk in
/-- **A message whose payload is `null`** is no tombstone, and is read from its text as one. -/
theorem null_payload_lost : void.Plain ∧ ∃ m, Message.ofText void.toText = .ok m ∧
    void.isTombstone = false ∧ m.isTombstone = true ∧
    void.checkDestination = .ok () ∧ m.checkDestination = .error (.misplacedTombstone "orders") := by
  have hplain : void.Plain := by
    rintro p ⟨⟩
    exact .null
  have hsnapshot : Message.isSnapshotTopic "orders" = false := by decide +kernel
  refine ⟨hplain, void.kept, Message.ofText_toText hplain, rfl, rfl, rfl, ?_⟩
  obtain ⟨-, hkept⟩ := Message.checkDestination_kept (m := void) rfl
  rw [hkept, show void.topic = "orders" from rfl, hsnapshot]
  rfl

end Idempotence
