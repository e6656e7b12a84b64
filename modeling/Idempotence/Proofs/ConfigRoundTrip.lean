/-
  Configurations, there and back — configurations that are written and read again.

  1. **Values of fields** — bounded numbers, named choices, and values that may be missing are read back from
     their texts (`Json.Decoder.ReadsBack`).

  2. **Sections** — so are the sections of a configuration, and they are what has been written.

  3. **The lock timeout** — a configuration is written in whole milliseconds, and no more of them than 64 bits
     hold.  What is read is the configuration with that timeout (`Config.decoder_readsBack`); it is refused
     if nothing is left of the timeout, and comes back from its own text if a millisecond is
     (`Config.comes_back`).
-/
import Idempotence.Proofs.MessageRoundTrip

namespace Idempotence

variable {α β : Type}

/-! ## Values of fields -/

namespace Json.Decoder

/-- **A reader that reads a document back** as a value, at a depth that is allowed. -/
def ReadsBack (r : Decoder α) (d : Nat) (j : Json) (a : α) : Prop :=
  ∀ rest, Stops rest → r d (j.chars ++ rest) = .ok (a, rest)

variable {r : Decoder α} {d : Nat} {j : Json} {a : α}

theorem ReadsBack.map (h : r.ReadsBack d j a) {f : α → β} {b : β} (hf : f a = b) :
    (Decoder.map f r).ReadsBack d j b := fun rest hrest => by
  rw [Decoder.map, h rest hrest, ← hf]
  rfl

theorem readsBack_string (d : Nat) (s : String) : string.ReadsBack d (.string s) s :=
  fun rest _ => string_chars d s rest

/-- Where a digit stands, an integer reads a number. -/
theorem integer_eq {c : Char} (h : c.isDigit = true) {cs rest : List Char} {n least greatest : Int}
    (hnumeral : numeral false (c :: cs) = .ok (.integer n, rest)) (hrange : least ≤ n ∧ n ≤ greatest) (d : Nat) :
    integer least greatest d (c :: cs) = .ok (n, rest) := by
  obtain ⟨hstarts, -, -, -, -, hminus, -, -⟩ := digit_ne h
  have hblanks : skipBlanks (c :: cs) = c :: cs := (hstarts.append cs).skipBlanks
  rw [integer, hblanks]
  split
  · next heq => cases heq
  · next heq => exact absurd (List.cons.inj heq).1 hminus
  · next c' cs' _ heq =>
    obtain ⟨rfl, rfl⟩ := List.cons.inj heq
    have hdigit : (digit? c).isSome = true := by rw [digit?_eq_some h]; rfl
    rw [if_pos hdigit, hnumeral]
    exact if_pos hrange

/-- **A number below its bound** is read back. -/
theorem readsBack_natBelow (d : Nat) {n bound : Nat} (hn : n < bound) (hbound : bound ≤ wordLimit) :
    (natBelow bound).ReadsBack d (.nat n) n := by
  intro rest hrest
  obtain ⟨c, ds, hdigits, hc⟩ := toDigits_cons n
  have hchars : (Json.nat n).chars = c :: ds := by
    rw [Json.nat, chars, decimal, if_neg (by omega), Int.natAbs_natCast, hdigits]
  have hnumeral := numeral_digits false (Nat.lt_of_lt_of_le hn hbound) hrest.not_digit
  rw [hrest.afterInteger, Bool.not_false, if_pos rfl, hdigits, List.cons_append] at hnumeral
  have hrange : (0 : Int) ≤ (n : Int) ∧ (n : Int) ≤ bound - 1 := by omega
  rw [natBelow, Decoder.map, hchars, List.cons_append, integer_eq hc hnumeral hrange]
  rfl

/-- **A named choice** is read back from its name. -/
theorem readsBack_choice {options : List (String × α)} {name : String} (h : options.lookup name = some a)
    (d : Nat) : (choice options).ReadsBack d (.string name) a := by
  intro rest _
  have hblanks : ∀ cs, skipBlanks ('"' :: cs) = '"' :: cs := fun _ => rfl
  rw [chars_string_append, choice, hblanks]
  split
  · next heq => cases heq
  · next text heq =>
    obtain ⟨-, rfl⟩ := List.cons.inj heq
    rw [stringRest_quoted]
    dsimp only [bind, Except.bind]
    rw [h]
  · next heq => exact absurd (List.cons.inj heq).1 (by decide)
  · next hquote _ => exact absurd rfl (hquote _)

/-- **A value that may be missing** is read back from its text, or is missing. -/
theorem readsBack_option {name : α → String} (h : ∀ a, r.ReadsBack d (.string (name a)) a) (a? : Option α) :
    (option r).ReadsBack d (a?.elim .null fun a => .string (name a)) a? := by
  intro rest hrest
  cases a? with
  | none => rfl
  | some a =>
    have hread := (h a).map (f := some) rfl rest hrest
    rw [Option.elim_some, chars_string_append]
    rw [chars_string_append] at hread
    exact hread

/-- A field is read back if its value is. -/
theorem readsBack_field {b : β} {r : Decoder β} (h : r.ReadsBack d j b) {name : String} {f : β → α → α}
    {g : α → α} {required inArray : Bool} (hf : f b = g) :
    (Field.mk name (Decoder.map f r) required inArray).read.ReadsBack d j g := h.map hf

/-- **A record** is read back from the object of its fields. -/
theorem readsBack_record {fields : List (Field α)} {l : List (Written α)}
    (hdistinct : (l.map Prod.fst).Nodup)
    (hfields : ∀ e ∈ l, ∃ f, fields.find? (·.name == e.1) = some f ∧ f.read.ReadsBack d e.2.1 e.2.2)
    (hall : ∀ f ∈ fields, f.required = true → f.name ∈ l.map Prod.fst) (initial : α) :
    (record fields initial).ReadsBack (d + 1) (.object (l.map fun e => (e.1, e.2.1)))
      (l.foldl (fun a e => e.2.2 a) initial) :=
  fun rest _ => record_chars hdistinct hfields hall initial rest

end Json.Decoder

open Json Json.Decoder

theorem PublishStrategy.readsBack (d : Nat) (s : PublishStrategy) :
    PublishStrategy.decoder.ReadsBack d (.string s.name) s :=
  readsBack_choice (by cases s <;> rfl) d

/-! ## Sections -/

namespace CleanupConfig

/-- The fields of the retention part, as they are written. -/
def fields (c : CleanupConfig) : List (Written CleanupConfig) :=
  [("retention_days", .nat c.retentionDays.toNat, fun c' => { c' with retentionDays := c.retentionDays }),
    ("max_records_to_remove", .nat c.maxRecords.toNat, fun c' => { c' with maxRecords := c.maxRecords }),
    ("batch_size", .nat c.batchSize.toNat, fun c' => { c' with batchSize := c.batchSize })]

/-- **The retention part** is read back. -/
theorem readsBack (c : CleanupConfig) (d : Nat) :
    decoder.ReadsBack (d + 1) (.object (c.fields.map fun e => (e.1, e.2.1))) c := by
  refine readsBack_record (l := c.fields) ?_ ?_ ?_ ({} : CleanupConfig)
  · show ["retention_days", "max_records_to_remove", "batch_size"].Nodup
    decide
  · simp only [fields, List.forall_mem_cons]
    refine ⟨⟨_, rfl, ?_⟩, ⟨_, rfl, ?_⟩, ⟨_, rfl, ?_⟩, fun _ hnone => absurd hnone List.not_mem_nil⟩
    · refine readsBack_field (readsBack_natBelow d c.retentionDays.toNat_lt (by decide)) ?_
      rw [UInt32.ofNat_toNat]
    · refine readsBack_field (readsBack_natBelow d c.maxRecords.toNat_lt (by decide)) ?_
      rw [UInt64.ofNat_toNat]
    · refine readsBack_field (readsBack_natBelow d c.batchSize.toNat_lt (by decide)) ?_
      rw [UInt64.ofNat_toNat]
  · simp [fields]

end CleanupConfig

namespace DurableConfig

/-- The fields of the part of the durable store, as they are written. -/
def fields (c : DurableConfig) : List (Written DurableConfig) :=
  [("path", .string c.path, fun c' => { c' with path := c.path }),
    ("map_size", .nat c.mapSize.toNat, fun c' => { c' with mapSize := c.mapSize }),
    ("max_readers", .nat c.maxReaders.toNat, fun c' => { c' with maxReaders := c.maxReaders })]

/-- **The part of the durable store** is read back. -/
theorem readsBack (c : DurableConfig) (d : Nat) :
    decoder.ReadsBack (d + 1) (.object (c.fields.map fun e => (e.1, e.2.1))) c := by
  refine readsBack_record (l := c.fields) ?_ ?_ ?_ ({} : DurableConfig)
  · show ["path", "map_size", "max_readers"].Nodup
    decide
  · simp only [fields, List.forall_mem_cons]
    refine ⟨⟨_, rfl, ?_⟩, ⟨_, rfl, ?_⟩, ⟨_, rfl, ?_⟩, fun _ hnone => absurd hnone List.not_mem_nil⟩
    · refine readsBack_field (readsBack_string d c.path) ?_
      rfl
    · refine readsBack_field (readsBack_natBelow d c.mapSize.toNat_lt (by decide)) ?_
      rw [UInt64.ofNat_toNat]
    · refine readsBack_field (readsBack_natBelow d c.maxReaders.toNat_lt (by decide)) ?_
      rw [UInt32.ofNat_toNat]
  · simp [fields]

end DurableConfig

/-! ## The lock timeout -/

namespace Config

/-- **A configuration as its text tells it**: its lock timeout is in whole milliseconds, rounded down, as many
    of them as 64 bits hold. -/
def told (c : Config) : Config := { c with lockTimeout := Duration.ofMillis (timeoutMillis c.lockTimeout) }

/-- The fields of a configuration, as they are written. -/
def fields (c : Config) : List (Written Config) :=
  [("default_lock_timeout", .nat (timeoutMillis c.lockTimeout),
      fun c' => { c' with lockTimeout := c.told.lockTimeout }),
    ("default_publishing", c.publishing.elim .null fun s => .string s.name,
      fun c' => { c' with publishing := c.publishing }),
    ("cleanup", .object (c.cleanup.fields.map fun e => (e.1, e.2.1)), fun c' => { c' with cleanup := c.cleanup }),
    ("lmdb", .object (c.durable.fields.map fun e => (e.1, e.2.1)), fun c' => { c' with durable := c.durable })]

theorem toText_eq (c : Config) : c.toText = (Json.object (c.fields.map fun e => (e.1, e.2.1))).render := by
  obtain ⟨timeout, publishing, cleanup, durable⟩ := c
  cases publishing <;> rfl

theorem timeoutMillis_lt (t : Duration) : timeoutMillis t < limit64 := by
  have hpos : 0 < limit64 := by decide
  have hmin := Nat.min_le_right t.millis (limit64 - 1)
  unfold timeoutMillis
  omega

/-- **A configuration** is read back as its text tells it. -/
theorem decoder_readsBack (c : Config) (d : Nat) :
    decoder.ReadsBack (d + 2) (.object (c.fields.map fun e => (e.1, e.2.1))) c.told := by
  refine readsBack_record (l := c.fields) ?_ ?_ ?_ ({} : Config)
  · show ["default_lock_timeout", "default_publishing", "cleanup", "lmdb"].Nodup
    decide
  · simp only [fields, List.forall_mem_cons]
    refine ⟨⟨_, rfl, ?_⟩, ⟨_, rfl, ?_⟩, ⟨_, rfl, ?_⟩, ⟨_, rfl, ?_⟩, fun _ hnone => absurd hnone List.not_mem_nil⟩
    · refine readsBack_field (readsBack_natBelow _ (timeoutMillis_lt c.lockTimeout) (by decide)) ?_
      rfl
    · refine readsBack_field (readsBack_option (PublishStrategy.readsBack _) c.publishing) ?_
      rfl
    · refine readsBack_field (c.cleanup.readsBack d) ?_
      rfl
    · refine readsBack_field (c.durable.readsBack d) ?_
      rfl
  · simp [fields]

/-- Reading a text is checking what it tells. -/
theorem ofText_toText_eq (c : Config) : ofText c.toText = (do
    c.told.check
    .ok c.told) := by
  have hread := c.decoder_readsBack 125 [] trivial
  rw [List.append_nil] at hread
  have hrun : decoder.run c.toText = .ok c.told := by
    rw [Decoder.run, toText_eq, Json.render, String.toList_ofList]
    show (do Json.atEnd (← decoder 127 _)) = _
    rw [hread]
    rfl
  rw [ofText, hrun]

/-- **A configuration is in order** if there is a lock timeout and both of its sections are in order. -/
theorem check_iff (c : Config) : c.check = .ok () ↔
    c.lockTimeout.nanos ≠ 0 ∧ c.cleanup.check = .ok () ∧ c.durable.check = .ok () := by
  unfold check
  by_cases hzero : c.lockTimeout.nanos = 0
  · rw [if_pos hzero]
    exact ⟨fun h => (by cases h), fun h => absurd hzero h.1⟩
  · rw [if_neg hzero]
    cases hcleanup : c.cleanup.check with
    | error e => exact ⟨fun h => (by cases h), fun h => (by cases h.2.1)⟩
    | ok => exact ⟨fun h => ⟨hzero, rfl, h⟩, fun h => h.2.2⟩

/-- **A configuration comes back from its text.**  One that is in order and whose lock timeout is a
    millisecond at least is written to a text that is read, and is in order; what is read is the same
    configuration, but for its lock timeout, which is in whole milliseconds: rounded down, and no more of
    them than 64 bits hold. -/
theorem comes_back {c : Config} (hc : c.check = .ok ()) (hmilli : 1000000 ≤ c.lockTimeout.nanos) :
    ofText c.toText = .ok
      { c with lockTimeout := Duration.ofMillis (min (c.lockTimeout.nanos / 1000000) (limit64 - 1)) } := by
  have hmillis : 0 < timeoutMillis c.lockTimeout := by
    have hone : 1 ≤ c.lockTimeout.millis := (Nat.one_le_div_iff (by decide)).mpr hmilli
    have hlimit : 1 ≤ limit64 - 1 := by decide
    exact Nat.le_min.mpr ⟨hone, hlimit⟩
  have htold : c.told.check = .ok () := by
    have hpositive : c.told.lockTimeout.nanos ≠ 0 := by
      show timeoutMillis c.lockTimeout * 1000000 ≠ 0
      omega
    exact (check_iff _).mpr ⟨hpositive, ((check_iff c).mp hc).2⟩
  rw [ofText_toText_eq, htold]
  rfl

/-- A store on a path of its own, and a lock timeout of one second and a half and a bit. -/
theorem comes_back_bit :
    let c : Config :=
      { lockTimeout := Duration.ofParts 1 500000001, publishing := some .inFinalPhase,
        cleanup := { batchSize := 1 }, durable := { path := "a \"b\" \\ c", maxReaders := 4294967295 } }
    (c.check = .ok () ∧ 1000000 ≤ c.lockTimeout.nanos) ∧
      ofText c.toText = .ok { c with lockTimeout := Duration.ofMillis 1500 } := by
  intro c
  have hc : c.check = .ok () := (check_iff c).mpr ⟨by decide, rfl, rfl⟩
  have hmilli : 1000000 ≤ c.lockTimeout.nanos := by decide
  have hmillis : min (c.lockTimeout.nanos / 1000000) (limit64 - 1) = 1500 := by decide
  refine ⟨⟨hc, hmilli⟩, ?_⟩
  rw [comes_back hc hmilli, hmillis]

/-- **At either end of the range** a configuration that is in order does not come back: a nanosecond is
    written as no time at all, which is refused, and what is more than 64 bits of milliseconds is written as
    the most that they hold. -/
theorem timeouts_lost :
    let brief : Config := { lockTimeout := ⟨1⟩ }
    let endless : Config := { lockTimeout := Duration.ofSeconds (limit64 - 1) }
    brief.check = .ok () ∧ ofText brief.toText = .error (.assertion .zeroLockTimeout) ∧
      endless.check = .ok () ∧ ofText endless.toText =
        .ok { endless with lockTimeout := Duration.ofMillis (limit64 - 1) } ∧
      Duration.ofMillis (limit64 - 1) ≠ Duration.ofMillis endless.lockTimeout.millis := by
  intro brief endless
  have hbrief : brief.check = .ok () := (check_iff brief).mpr ⟨by decide, rfl, rfl⟩
  have hendless : endless.check = .ok () := (check_iff endless).mpr ⟨by decide, rfl, rfl⟩
  have hnone : timeoutMillis brief.lockTimeout = 0 := by decide
  have hmillis : timeoutMillis endless.lockTimeout = limit64 - 1 := by decide
  have htold : endless.told.check = .ok () :=
    (check_iff endless.told).mpr ⟨by rw [told, hmillis]; decide, rfl, rfl⟩
  refine ⟨hbrief, ?_, hendless, ?_, by decide⟩
  · rw [ofText_toText_eq, told, hnone]
    rfl
  · rw [ofText_toText_eq, htold, told, hmillis]
    rfl

end Config

end Idempotence
