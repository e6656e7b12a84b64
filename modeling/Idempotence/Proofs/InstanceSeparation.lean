/-
  Separation of instances — the durable store keeps process instances apart.

  1. **Bytes** — texts are compared by their characters here and by their bytes on disk.  A character is
     encoded in sextets behind a first byte that tells how many there are, so both orders are the same
     (`bytes_lt_iff`).

  2. **Beginnings** — the code of an instance is the beginning of the codes of its own addresses and of no
     others (`ofInstance_beginning_iff`), whatever their texts contain.

  3. **The result** — `instances_separate`: the final record that is found for an instance is its own one
     with the smallest id, byte by byte, and none is found just if it has none.
-/
import Mathlib.Algebra.Group.Nat.Defs
import Idempotence.Proofs.DurableMirror

namespace Idempotence

variable {ε : Type}

/-! ## Bytes -/

namespace Text

/-- The bytes of a text. -/
def bytes (s : String) : List UInt8 := s.toUTF8.data.toList

theorem bytes_eq (s : String) : bytes s = s.toList.flatMap String.utf8EncodeChar := by
  unfold bytes
  conv => lhs; rw [← String.ofList_toList (s := s)]
  rw [String.toUTF8_eq_toByteArray, String.toByteArray_ofList, List.utf8Encode,
    List.toList_data_toByteArray]

/-- **A number in sextets**: the leading part behind a mark, then `n` sextets behind marks of their own. -/
def sextets (mark : Nat) : (n v : Nat) → List UInt8
  | 0, v => [UInt8.ofNat (v + mark)]
  | n + 1, v => sextets mark n (v / 64) ++ [UInt8.ofNat (v % 64 + 128)]

/-- The mark of the first byte, and how many sextets follow it. -/
def form (v : Nat) : Nat × Nat :=
  if v ≤ 127 then (0, 0) else if v ≤ 2047 then (192, 1) else if v ≤ 65535 then (224, 2) else (240, 3)

/-- The number of a character is below 2^20 + 2^16. -/
theorem toNat_lt (c : Char) : c.val.toNat < 1114112 := by
  have hvalid := c.valid
  unfold UInt32.isValidChar Nat.isValidChar at hvalid
  omega

/-- **A character is encoded in sextets.** -/
theorem utf8EncodeChar_eq (c : Char) :
    String.utf8EncodeChar c = sextets (form c.val.toNat).1 (form c.val.toNat).2 c.val.toNat := by
  have hlast := toNat_lt c
  unfold String.utf8EncodeChar form
  generalize c.val.toNat = v at *
  simp only
  split
  · rfl
  · split
    · have hlead : v / 64 % 32 = v / 64 := by omega
      rw [hlead]
      rfl
    · split
      · have hlead : v / 4096 % 16 = v / 64 / 64 := by omega
        rw [hlead]
        rfl
      · have hlead : v / 262144 % 8 = v / 64 / 64 / 64 := by omega
        have hsecond : v / 4096 % 64 = v / 64 / 64 % 64 := by omega
        rw [hlead, hsecond]
        rfl

/-- Bytes are compared as the numbers that they are made of. -/
theorem ofNat_cons_lt_iff {a b : Nat} (ha : a < 256) (hb : b < 256) {l m : List UInt8} :
    UInt8.ofNat a :: l < UInt8.ofNat b :: m ↔ a < b ∨ a = b ∧ l < m := by
  have ha : a < 2 ^ 8 := ha
  have hb : b < 2 ^ 8 := hb
  rw [List.cons_lt_cons_iff, UInt8.lt_iff_toNat_lt, ← UInt8.toNat_inj, UInt8.toNat_ofNat',
    UInt8.toNat_ofNat', Nat.mod_eq_of_lt ha, Nat.mod_eq_of_lt hb]

@[simp] theorem length_sextets (mark n v : Nat) : (sextets mark n v).length = n + 1 := by
  induction n generalizing v with
  | zero => rfl
  | succ n ih => rw [sextets, List.length_append, ih, List.length_singleton]

/-- The first byte has the mark and the leading part. -/
theorem sextets_head (mark n v : Nat) :
    ∃ rest, sextets mark n v = UInt8.ofNat (v / 64 ^ n + mark) :: rest := by
  induction n generalizing v with
  | zero => exact ⟨[], by rw [Nat.pow_zero, Nat.div_one]; rfl⟩
  | succ n ih =>
    obtain ⟨rest, hrest⟩ := ih (v / 64)
    refine ⟨rest ++ [UInt8.ofNat (v % 64 + 128)], ?_⟩
    rw [sextets, hrest, Nat.div_div_eq_div_mul, Nat.pow_succ', List.cons_append]

/-- **As many sextets are in the order of the numbers.** -/
theorem sextets_lt {mark n v w : Nat} (h : v < w) (hroom : w / 64 ^ n + mark < 256) :
    sextets mark n v < sextets mark n w := by
  induction n generalizing v w with
  | zero =>
    rw [Nat.pow_zero, Nat.div_one] at hroom
    rw [sextets, sextets, ofNat_cons_lt_iff (by omega) hroom]
    exact .inl (by omega)
  | succ n ih =>
    rw [Nat.pow_succ', ← Nat.div_div_eq_div_mul] at hroom
    rw [sextets, sextets]
    rcases Nat.lt_or_eq_of_le (show v / 64 ≤ w / 64 by omega) with hlt | heq
    · exact append_lt_append (by simp) (ih hlt hroom) _ _
    · rw [heq]
      apply List.append_left_lt
      rw [ofNat_cons_lt_iff (by omega) (by omega)]
      exact .inl (by omega)

/-- The four forms, by the numbers that they are for. -/
theorem form_cases (v : Nat) :
    form v = (0, 0) ∧ v ≤ 127 ∨ form v = (192, 1) ∧ 127 < v ∧ v ≤ 2047 ∨
      form v = (224, 2) ∧ 2047 < v ∧ v ≤ 65535 ∨ form v = (240, 3) ∧ 65535 < v := by
  unfold form
  split
  · exact .inl ⟨rfl, ‹_›⟩
  · split
    · exact .inr (.inl ⟨rfl, by omega, ‹_›⟩)
    · split
      · exact .inr (.inr (.inl ⟨rfl, by omega, ‹_›⟩))
      · exact .inr (.inr (.inr ⟨rfl, by omega⟩))

/-- The first byte, with its mark. -/
def firstByte (v : Nat) : Nat := v / 64 ^ (form v).2 + (form v).1

/-- **Larger numbers** are of the same form or have a larger first byte. -/
theorem firstByte_lt {v w : Nat} (h : v < w) (hlast : w < 1114112) :
    firstByte w < 256 ∧ (form v = form w ∨ firstByte v < firstByte w) := by
  have hsquare : 64 ^ 2 = 4096 := by decide
  have hcube : 64 ^ 3 = 262144 := by decide
  unfold firstByte
  rcases form_cases v with ⟨hv, hv'⟩ | ⟨hv, hv'⟩ | ⟨hv, hv'⟩ | ⟨hv, hv'⟩ <;>
    rcases form_cases w with ⟨hw, hw'⟩ | ⟨hw, hw'⟩ | ⟨hw, hw'⟩ | ⟨hw, hw'⟩ <;>
    simp only [hv, hw, Nat.pow_zero, Nat.pow_one, hsquare, hcube, true_or, and_true] <;>
    omega

/-- **A smaller character has a smaller encoding**, whatever follows. -/
theorem utf8EncodeChar_lt {c d : Char} (h : c < d) (l m : List UInt8) :
    String.utf8EncodeChar c ++ l < String.utf8EncodeChar d ++ m := by
  have hlt : c.val.toNat < d.val.toNat := h
  obtain ⟨hroom, hform | hfirst⟩ := firstByte_lt hlt (toNat_lt d)
  · rw [utf8EncodeChar_eq, utf8EncodeChar_eq, hform]
    exact append_lt_append (by simp) (sextets_lt hlt hroom) _ _
  · obtain ⟨rest, hrest⟩ := sextets_head (form c.val.toNat).1 (form c.val.toNat).2 c.val.toNat
    obtain ⟨rest', hrest'⟩ := sextets_head (form d.val.toNat).1 (form d.val.toNat).2 d.val.toNat
    rw [utf8EncodeChar_eq, utf8EncodeChar_eq, hrest, hrest', List.cons_append, List.cons_append]
    exact (ofNat_cons_lt_iff (Nat.lt_trans hfirst hroom) hroom).2 (.inl hfirst)

/-- Texts in order have their bytes in order. -/
theorem bytes_lt {s t : String} (h : s < t) : bytes s < bytes t := by
  have hlist : ∀ {l m : List Char}, l < m →
      l.flatMap String.utf8EncodeChar < m.flatMap String.utf8EncodeChar := by
    intro l
    induction l with
    | nil =>
      intro m hlt
      cases m with
      | nil => exact absurd hlt (List.not_lt_nil _)
      | cons d m =>
        obtain ⟨rest, hrest⟩ := sextets_head (form d.val.toNat).1 (form d.val.toNat).2 d.val.toNat
        rw [List.flatMap_cons, utf8EncodeChar_eq, hrest]
        exact List.nil_lt_cons ..
    | cons c l ih =>
      intro m hlt
      cases m with
      | nil => exact absurd hlt (List.not_lt_nil _)
      | cons d m =>
        rw [List.flatMap_cons, List.flatMap_cons]
        rcases List.cons_lt_cons_iff.1 hlt with hcd | ⟨rfl, hlm⟩
        · exact utf8EncodeChar_lt hcd _ _
        · exact List.append_left_lt (ih hlm)
  rw [bytes_eq, bytes_eq]
  exact hlist (String.lt_iff.1 h)

/-- **The order of texts is that of their bytes.** -/
theorem bytes_lt_iff {s t : String} : bytes s < bytes t ↔ s < t := by
  constructor
  · intro hbytes
    rcases Std.lt_trichotomy s t with hlt | rfl | hgt
    · exact hlt
    · exact absurd hbytes (List.lt_irrefl _)
    · exact absurd hbytes (List.lt_asymm (bytes_lt hgt))
  · exact bytes_lt

end Text

/-! ## Beginnings -/

namespace KeyCode

/-- **The code of an instance is the beginning** of the codes of its own addresses and of no others. -/
theorem ofInstance_beginning_iff {process key : String} {k : RecordKey} :
    (∃ rest, ofKey k = ofInstance process key ++ rest) ↔ k.process = process ∧ k.key = key := by
  constructor
  · rintro ⟨rest, hrest⟩
    simp only [ofKey, ofInstance, String.append_assoc] at hrest
    obtain ⟨hprocess, hmeasured⟩ := measured_append_inj hrest
    obtain ⟨hkey, -⟩ := measured_append_inj hmeasured
    exact ⟨hprocess, hkey⟩
  · rintro ⟨rfl, rfl⟩
    exact ⟨k.record, rfl⟩

end KeyCode

/-! ## Final records -/

namespace DurableStore

variable {s : DurableStore} {process key : String}

/-- **Writing** is seen under its own address only, and there just if the code fits. -/
theorem get?_write (s : DurableStore) (k j : RecordKey) (r : StoredRecord) :
    (s.write k r).2.get? j = if j = k ∧ KeyCode.fits (KeyCode.ofKey k) then some r else s.get? j := by
  have hcodes : KeyCode.ofKey j = KeyCode.ofKey k ↔ j = k := Table.Coded.ofKey_eq
  by_cases hcode : KeyCode.fits (KeyCode.ofKey k)
  · by_cases hentry : KeyCode.fits (indexKey r.createdAt (KeyCode.ofKey k))
    · rw [write_whole hcode hentry]
      simp [get?, hcodes, hcode]
    · rw [write_halfway hcode hentry]
      simp [get?, hcodes, hcode]
  · rw [write_overlong hcode, if_neg fun h => hcode h.2]

/-- The final record that is found has the smallest id, byte by byte. -/
theorem findFinal_eq_some_iff {record : String} : s.findFinal process key = some record ↔
    s.HasFinal ⟨process, key, record⟩ ∧
      ∀ other, s.HasFinal ⟨process, key, other⟩ → Text.bytes record ≤ Text.bytes other := by
  have hordered : (s.finals process key).Pairwise fun a b => compare a b = .lt := s.finals_ordered
  simp only [findFinal_eq_head, ← mem_finals]
  generalize s.finals process key = ids at hordered ⊢
  cases ids with
  | nil => simp
  | cons first rest =>
    obtain ⟨hfirst, -⟩ := List.pairwise_cons.1 hordered
    have hsmaller : ∀ other ∈ rest, Text.bytes first < Text.bytes other := by
      intro other hother
      exact Text.bytes_lt_iff.2 (compare_lt_iff.1 (hfirst other hother))
    rw [List.head?_cons, Option.some.injEq]
    constructor
    · rintro rfl
      refine ⟨List.mem_cons_self .., fun other hother => ?_⟩
      rcases List.mem_cons.1 hother with rfl | hother
      · exact List.le_refl _
      · exact List.le_of_lt (hsmaller other hother)
    · rintro ⟨hmem, hleast⟩
      rcases List.mem_cons.1 hmem with rfl | hmem
      · rfl
      · exact absurd (hsmaller record hmem) (List.not_lt.2 (hleast first (List.mem_cons_self ..)))

/-- No final record is found just if the instance has none. -/
theorem findFinal_eq_none_iff : s.findFinal process key = none ↔
    ∀ record, ¬ s.HasFinal ⟨process, key, record⟩ := by
  simp only [findFinal_eq_head, List.head?_eq_none_iff, ← mem_finals]
  exact List.eq_nil_iff_forall_not_mem

/-- **Process instances stay apart.**  Different addresses have different codes, and the code of an instance
    is the beginning of the codes of its own addresses and of no others, whatever texts they are made of.  So
    what is written under one address changes nothing under another; and in whatever records there are,
    looking for the final record of an instance answers the id of one, and of them the smallest, byte by
    byte, or none just if the instance has no final record. -/
theorem instances_separate (part : Part ε DurableStore) (clock : Action ε Instant) (w : World ε) :
    (∀ j k, KeyCode.ofKey j = KeyCode.ofKey k ↔ j = k) ∧
    (∀ process key k, (∃ rest, KeyCode.ofKey k = KeyCode.ofInstance process key ++ rest) ↔
      k.process = process ∧ k.key = key) ∧
    (∀ (s : DurableStore) k j r, (s.write k r).2.get? j =
      if j = k ∧ KeyCode.fits (KeyCode.ofKey k) then some r else s.get? j) ∧
    ∀ process key, ∃ found, ((adapter part clock).findFinal process key).run w = (.value (.ok found), w) ∧
      (∀ record, found = some record ↔ (part.get w.env).HasFinal ⟨process, key, record⟩ ∧
        ∀ other, (part.get w.env).HasFinal ⟨process, key, other⟩ →
          Text.bytes record ≤ Text.bytes other) ∧
      (found = none ↔ ∀ record, ¬ (part.get w.env).HasFinal ⟨process, key, record⟩) := by
  refine ⟨fun j k => Table.Coded.ofKey_eq, fun process key k => KeyCode.ofInstance_beginning_iff,
    get?_write, fun process key => ⟨_, rfl, ?_, ?_⟩⟩
  · intro record
    exact findFinal_eq_some_iff
  · exact findFinal_eq_none_iff

end DurableStore

end Idempotence
