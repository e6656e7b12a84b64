/-
  Texts of reals — how the texts of reals are read.

  A real is not always read back: its text is computed exactly, and reading it is quick.  So there is no
  saying what comes of the text of a real but that it is read, and this much the containers around it need:
  whatever it is that comes of it, it is the same wherever the text stands, and all of the text is consumed.

  1. **Fixed texts** — `Fixed f text` says that the reader `f` makes one thing of the text, be it a value or a
     fault, whatever follows, if that stops the text.

  2. **Literals** — digits, and what makes a real of them: a fraction, an exponent or both (`Fractional`).  Of
     each part the reader may drop digits or fail, but it does so by the digits alone
     (`Fractional.fixed_numeral`).

  3. **The results** — the text of every double is a literal (`magnitudeText_eq`), so a document without
     restrictions on its reals is read as its echo says, where the reals come back as they do on their own
     (`Sound.parse_render`).  It comes back as it was exactly if its reals do and it does not nest too deep
     (`Sound.any_same_parse`).
-/
import Idempotence.Proofs.DocumentRoundTrip

namespace Idempotence.Json

variable {α β : Type}

/-! ## Fixed texts -/

/-- **A text that is read alike wherever it stands**: as a value, all of it, or not at all. -/
def Fixed (f : List Char → Except Fault (Parsed α)) (text : List Char) : Prop :=
  ∃ a? : Option α, ∀ rest, Stops rest → Reads a? rest (f (text ++ rest))

/-- What fails is not read at all. -/
theorem Reads.failed {rest : List Char} (fault : Fault) :
    Reads (none : Option α) rest (.error fault) := ⟨fault, rfl⟩

namespace Fixed

variable {f g : List Char → Except Fault (Parsed α)} {text : List Char}

/-- Two readers that agree wherever the text stands. -/
theorem congr (h : Fixed f text) {text' : List Char}
    (hsame : ∀ rest, Stops rest → g (text' ++ rest) = f (text ++ rest)) : Fixed g text' := by
  obtain ⟨a?, ha⟩ := h
  exact ⟨a?, fun rest hrest => hsame rest hrest ▸ ha rest hrest⟩

theorem mapped (h : Fixed f text) (k : α → β) :
    Fixed (fun cs => (f cs).map fun (a, rest) => (k a, rest)) text := by
  obtain ⟨a?, ha⟩ := h
  refine ⟨a?.map k, fun rest hrest => ?_⟩
  have hbind : (f (text ++ rest)).map (fun (a, rest) => (k a, rest)) =
      f (text ++ rest) >>= fun p => .ok (k p.1, p.2) := by
    cases f (text ++ rest) <;> rfl
  dsimp only
  rw [hbind]
  exact (ha rest hrest).map k

/-- A text of which nothing can be made. -/
theorem failed (h : ∀ rest, Stops rest → ∃ fault, g (text ++ rest) = .error fault) : Fixed g text :=
  ⟨none, h⟩

end Fixed

/-! ## Digits -/

/-- A text of digits. -/
def Digits (ds : List Char) : Prop := ∀ c ∈ ds, c.isDigit = true

theorem Digits.append {ds es : List Char} (h : Digits ds) (h' : Digits es) : Digits (ds ++ es) :=
  fun c hc => (List.mem_append.1 hc).elim (h c) (h' c)

theorem digits_toDigits (n : Nat) : Digits (Nat.toDigits 10 n) :=
  fun _ hc => Nat.isDigit_of_mem_toDigits (by omega) (by omega) hc

theorem digits_zeros (n : Nat) : Digits (Double.zeros n) := by
  intro c hc
  obtain rfl := List.eq_of_mem_replicate hc
  rfl

theorem startsWithDigit_of {c : Char} (h : c.isDigit = true) (cs : List Char) :
    startsWithDigit (c :: cs) = true := by
  rw [startsWithDigit, digit?_eq_some h]
  rfl

/-- Digits that are passed over. -/
theorem skipDigits_append {ds rest : List Char} (h : Digits ds) (hrest : startsWithDigit rest = false) :
    skipDigits (ds ++ rest) = rest := by
  induction ds with
  | nil =>
    cases rest with
    | nil => rfl
    | cons c rest => simp [skipDigits, startsWithDigit_cons hrest]
  | cons d ds ih =>
    obtain ⟨hd, hds⟩ := List.forall_mem_cons.1 h
    rw [List.cons_append, skipDigits, List.dropWhile_cons, digit?_eq_some hd]
    exact ih hds

/-- **The digits of a fraction** yield the same whatever follows. -/
theorem fractionDigits_append {ds : List Char} (h : Digits ds) (significand count : Nat) :
    ∃ significand' count', ∀ rest, startsWithDigit rest = false →
      fractionDigits significand count (ds ++ rest) = (significand', count', rest) := by
  induction ds generalizing significand count with
  | nil =>
    refine ⟨significand, count, fun rest hrest => ?_⟩
    cases rest with
    | nil => rfl
    | cons c rest => simp only [List.nil_append, fractionDigits, startsWithDigit_cons hrest]
  | cons d ds ih =>
    obtain ⟨hd, hds⟩ := List.forall_mem_cons.1 h
    by_cases hfull : wordLimit ≤ significand * 10 + (d.toNat - '0'.toNat)
    · refine ⟨significand, count, fun rest hrest => ?_⟩
      rw [List.cons_append, fractionDigits, digit?_eq_some hd]
      simp only [if_pos hfull, skipDigits_append hds hrest]
    · obtain ⟨significand', count', hread⟩ := ih hds (significand * 10 + (d.toNat - '0'.toNat)) (count + 1)
      refine ⟨significand', count', fun rest hrest => ?_⟩
      rw [List.cons_append, fractionDigits, digit?_eq_some hd]
      simp only [if_neg hfull, hread rest hrest]

/-- **The digits of an exponent** yield the same whatever follows, and leave digits only if there are too
    many of them. -/
theorem exponentDigits_append {ds : List Char} (h : Digits ds) (e : Nat) :
    ∃ x? more, Digits more ∧ (x? ≠ none → more = []) ∧ ∀ rest, startsWithDigit rest = false →
      exponentDigits e (ds ++ rest) = (x?, more ++ rest) := by
  induction ds generalizing e with
  | nil =>
    refine ⟨some e, [], fun _ hc => absurd hc List.not_mem_nil, fun _ => rfl, fun rest hrest => ?_⟩
    cases rest with
    | nil => rfl
    | cons c rest => simp only [List.nil_append, exponentDigits, startsWithDigit_cons hrest]
  | cons d ds ih =>
    obtain ⟨hd, hds⟩ := List.forall_mem_cons.1 h
    by_cases hfull : exponentLimit < e * 10 + (d.toNat - '0'.toNat)
    · refine ⟨none, ds, hds, fun hnone => absurd rfl hnone, fun rest _ => ?_⟩
      rw [List.cons_append, exponentDigits, digit?_eq_some hd]
      simp only [if_pos hfull]
    · obtain ⟨x?, more, hmore, hall, hread⟩ := ih hds (e * 10 + (d.toNat - '0'.toNat))
      refine ⟨x?, more, hmore, hall, fun rest hrest => ?_⟩
      rw [List.cons_append, exponentDigits, digit?_eq_some hd]
      simp only [if_neg hfull, hread rest hrest]

/-! ## Literals -/

/-- Assembling a real takes nothing of the text. -/
theorem assemble_reads (negative : Bool) (significand : Nat) (e : Int) :
    ∃ x?, ∀ rest, Reads x? rest (assemble negative significand e rest) := by
  unfold assemble
  cases Double.ofNat significand >>= fun x => scaleByTen x 8 e with
  | none => exact ⟨none, fun rest => .failed _⟩
  | some x => exact ⟨some (if negative then x.negate else x), fun rest => rfl⟩

/-- **A text of an exponent**, from its letter on, or none at all. -/
inductive Exponent : List Char → Prop
  | none : Exponent []
  | some {sign d : Char} {ds : List Char} (signed : sign = '+' ∨ sign = '-') (digits : Digits (d :: ds)) :
      Exponent ('e' :: sign :: d :: ds)

theorem Exponent.not_digit {text : List Char} (h : Exponent text) {rest : List Char} (hrest : Stops rest) :
    startsWithDigit (text ++ rest) = false := by
  cases h with
  | none => exact hrest.not_digit
  | some => rfl

variable (negative : Bool)

/-- An exponent with its sign. -/
theorem fixed_exponentPart {sign d : Char} {ds : List Char} (hsign : sign = '+' ∨ sign = '-')
    (hdigits : Digits (d :: ds)) (significand : Nat) (e : Int) :
    Fixed (exponentPart negative significand e) (sign :: d :: ds) := by
  obtain ⟨hd, hds⟩ := List.forall_mem_cons.1 hdigits
  obtain ⟨x?, more, hmore, hall, hread⟩ := exponentDigits_append hds (d.toNat - '0'.toNat)
  cases x? with
  | some x =>
    obtain rfl := hall (by simp)
    have hpart : ∀ rest, Stops rest → exponentPart negative significand e (sign :: d :: ds ++ rest) =
        assemble negative significand (clampExponent (if sign = '-' then e - x else e + x)) rest := by
      intro rest hrest
      rcases hsign with rfl | rfl
      · simp only [List.cons_append, exponentPart, digit?_eq_some hd, hread rest hrest.not_digit]
        rfl
      · simp only [List.cons_append, exponentPart, digit?_eq_some hd, hread rest hrest.not_digit]
        rfl
    obtain ⟨a?, ha⟩ := assemble_reads negative significand
      (clampExponent (if sign = '-' then e - x else e + x))
    exact ⟨a?, fun rest hrest => (hpart rest hrest).symm ▸ ha rest⟩
  | none =>
    have hpart : ∀ rest, Stops rest → exponentPart negative significand e (sign :: d :: ds ++ rest) =
        if significand ≠ 0 ∧ !(sign == '-') then failAt .numberOutOfRange (more ++ rest)
        else .ok (Double.zero negative, rest) := by
      intro rest hrest
      rcases hsign with rfl | rfl
      · simp only [List.cons_append, exponentPart, digit?_eq_some hd, hread rest hrest.not_digit,
          skipDigits_append hmore hrest.not_digit]
        rfl
      · simp only [List.cons_append, exponentPart, digit?_eq_some hd, hread rest hrest.not_digit,
          skipDigits_append hmore hrest.not_digit]
        rfl
    by_cases hlarge : significand ≠ 0 ∧ !(sign == '-')
    · exact .failed fun rest hrest => ⟨_, (hpart rest hrest).trans (if_pos hlarge)⟩
    · exact ⟨some (Double.zero negative), fun rest hrest => (hpart rest hrest).trans (if_neg hlarge)⟩

/-- What may follow the digits. -/
theorem Exponent.fixed_afterDigits {text : List Char} (h : Exponent text) (significand : Nat) (e : Int) :
    Fixed (afterDigits negative significand e) text := by
  cases h with
  | none =>
    obtain ⟨x?, hx⟩ := assemble_reads negative significand e
    refine ⟨x?, fun rest hrest => ?_⟩
    have hafter : afterDigits negative significand e rest = assemble negative significand e rest := by
      cases rest with
      | nil => rfl
      | cons c rest => rcases hrest with rfl | rfl | rfl <;> rfl
    exact hafter ▸ hx rest
  | some signed digits => exact (fixed_exponentPart negative signed digits significand e).congr fun _ _ => rfl

/-- **A fraction**, and an exponent behind it. -/
theorem fixed_fractionPart {d : Char} {ds exponent : List Char} (hdigits : Digits (d :: ds))
    (hexponent : Exponent exponent) (significand : Nat) (e : Int) :
    Fixed (fractionPart negative significand e) (d :: ds ++ exponent) := by
  obtain ⟨hd, -⟩ := List.forall_mem_cons.1 hdigits
  obtain ⟨significand', count', hread⟩ := fractionDigits_append hdigits significand 0
  have hafter : Fixed (afterDigits negative significand' (e - count')) exponent :=
    hexponent.fixed_afterDigits negative significand' (e - count')
  refine hafter.congr fun rest hrest => ?_
  have hstarts : startsWithDigit (d :: ds ++ exponent ++ rest) = true := startsWithDigit_of hd _
  rw [fractionPart, if_pos hstarts, List.append_assoc, hread _ (hexponent.not_digit hrest)]

/-- A fraction behind its point, unless it has no digits. -/
def pointed (fraction : List Char) : List Char := if fraction = [] then [] else '.' :: fraction

/-- **What makes a real of digits**: a fraction, an exponent, or both. -/
inductive Fractional : List Char → Prop
  | fraction {d : Char} {ds exponent : List Char} (digits : Digits (d :: ds)) (exponent_ok : Exponent exponent) :
    Fractional ('.' :: (d :: ds ++ exponent))
  | exponent {sign d : Char} {ds : List Char} (signed : sign = '+' ∨ sign = '-') (digits : Digits (d :: ds)) :
    Fractional ('e' :: sign :: d :: ds)

namespace Fractional

variable {text : List Char} (h : Fractional text)
include h

theorem not_digit (rest : List Char) : startsWithDigit (text ++ rest) = false := by
  cases h <;> rfl

/-- What makes a real of digits is read in full behind an integer that fits. -/
theorem fixed_afterInteger (n : Nat) : Fixed (afterInteger negative n) text := by
  cases h with
  | fraction digits exponent_ok =>
    exact ((fixed_fractionPart negative digits exponent_ok n 0).mapped Numeral.real).congr fun _ _ => rfl
  | exponent signed digits =>
    exact ((fixed_exponentPart negative signed digits n 0).mapped Numeral.real).congr fun _ _ => rfl

/-- What makes a real of digits is read in full behind the digits of an integer that does not fit. -/
theorem fixed_longInteger {ds : List Char} (hdigits : Digits ds) (n : Nat) (e : Int) :
    Fixed (longInteger negative n e) (ds ++ text) := by
  induction ds generalizing e with
  | nil =>
    cases h with
    | fraction digits exponent_ok => exact (fixed_fractionPart negative digits exponent_ok n e).congr fun _ _ => rfl
    | exponent signed digits => exact (fixed_exponentPart negative signed digits n e).congr fun _ _ => rfl
  | cons d ds ih =>
    obtain ⟨hd, hds⟩ := List.forall_mem_cons.1 hdigits
    refine (ih hds (e + 1)).congr fun rest _ => ?_
    have hpoint : d ≠ '.' := by
      rintro rfl
      cases hd
    simp only [List.cons_append, longInteger, digit?_eq_some hd]

/-- The digits of an integer, and what follows them. -/
theorem fixed_integerDigits {ds : List Char} (hdigits : Digits ds) (n : Nat) :
    Fixed (integerDigits negative n) (ds ++ text) := by
  induction ds generalizing n with
  | nil =>
    refine (h.fixed_afterInteger negative n).congr fun rest _ => ?_
    cases h <;> rfl
  | cons d ds ih =>
    obtain ⟨hd, hds⟩ := List.forall_mem_cons.1 hdigits
    by_cases hfull : wordLimit ≤ n * 10 + (d.toNat - '0'.toNat)
    · refine ((h.fixed_longInteger negative hdigits n 0).mapped Numeral.real).congr fun rest _ => ?_
      rw [List.cons_append, List.cons_append, integerDigits, digit?_eq_some hd]
      simp only [if_pos hfull]
    · refine (ih hds (n * 10 + (d.toNat - '0'.toNat))).congr fun rest _ => ?_
      rw [List.cons_append, List.cons_append, integerDigits, digit?_eq_some hd]
      simp only [if_neg hfull]

/-- **A literal**, behind its sign: it is read, unless a zero is followed by other digits. -/
theorem fixed_numeral {whole : List Char} (hdigits : Digits whole) :
    Fixed (numeral negative) (whole ++ text) := by
  cases whole with
  | nil =>
    refine .failed fun rest _ => ?_
    cases h <;> exact ⟨_, rfl⟩
  | cons d ds =>
    obtain ⟨hd, hds⟩ := List.forall_mem_cons.1 hdigits
    by_cases hzero : d = '0'
    · subst hzero
      cases ds with
      | nil =>
        refine (h.fixed_afterInteger negative 0).congr fun rest _ => ?_
        rw [List.singleton_append, List.cons_append, numeral, h.not_digit]
        rfl
      | cons d' ds =>
        refine .failed fun rest _ => ?_
        have hstarts : startsWithDigit (d' :: ds ++ text ++ rest) = true :=
          startsWithDigit_of (hds d' (List.mem_cons_self ..)) _
        exact ⟨_, if_pos hstarts⟩
    · refine (h.fixed_integerDigits negative hds (d.toNat - '0'.toNat)).congr fun rest _ => ?_
      rw [List.cons_append, List.cons_append, numeral, digit?_eq_some hd]
      exact fun heq => hzero heq

/-- **A value** that is a literal, with its sign or without. -/
theorem fixed_valueIn {whole : List Char} (hdigits : Digits whole) :
    (∃ a?, ∀ inner rest, Stops rest → Reads a? rest (valueIn inner (whole ++ text ++ rest))) ∧
      ∃ a?, ∀ inner rest, Stops rest → Reads a? rest (valueIn inner ('-' :: (whole ++ text ++ rest))) := by
  constructor
  · cases whole with
    | nil =>
      refine ⟨none, fun inner rest _ => ?_⟩
      cases h <;> exact ⟨_, rfl⟩
    | cons d ds =>
      obtain ⟨a?, ha⟩ := h.fixed_numeral false hdigits
      refine ⟨a?.map ofNumeral, fun inner rest hrest => ?_⟩
      rw [List.cons_append, List.cons_append, valueIn_digit (hdigits d (List.mem_cons_self ..))]
      exact (ha rest hrest).map ofNumeral
  · obtain ⟨a?, ha⟩ := h.fixed_numeral true hdigits
    refine ⟨a?.map ofNumeral, fun inner rest hrest => ?_⟩
    rw [valueIn_minus]
    exact (ha rest hrest).map ofNumeral

end Fractional

/-! ## Texts of doubles -/

theorem digits_shortest (x : Double) : Digits x.shortest.digits := fun _ hc => isDigit_of_mem_shortest hc

theorem Digits.drop {ds : List Char} (h : Digits ds) (n : Nat) : Digits (ds.drop n) :=
  fun c hc => h c (List.mem_of_mem_drop hc)

theorem Digits.take {ds : List Char} (h : Digits ds) (n : Nat) : Digits (ds.take n) :=
  fun c hc => h c (List.mem_of_mem_take hc)

/-- A fraction, and an exponent behind it. -/
theorem Fractional.of_ne_nil {ds exponent : List Char} (h : Digits ds) (hne : ds ≠ [])
    (hexponent : Exponent exponent) : Fractional ('.' :: (ds ++ exponent)) := by
  cases ds with
  | nil => exact absurd rfl hne
  | cons d ds => exact .fraction h hexponent

/-- An exponent that is written. -/
theorem exponent_toDigits (down : Prop) [Decidable down] (n : Nat) :
    ∃ sign d ds, (sign = '+' ∨ sign = '-') ∧ Digits (d :: ds) ∧
      'e' :: (if down then '-' else '+') :: Nat.toDigits 10 n = 'e' :: sign :: d :: ds := by
  obtain ⟨d, ds, hdigits, -⟩ := toDigits_cons n
  refine ⟨if down then '-' else '+', d, ds, ?_, hdigits ▸ digits_toDigits n, by rw [hdigits]⟩
  split
  · exact .inr rfl
  · exact .inl rfl

/-- **The text of a double** is a literal, but for its sign. -/
theorem magnitudeText_eq (x : Double) :
    ∃ whole behind, Digits whole ∧ Fractional behind ∧ magnitudeText x = whole ++ behind := by
  have hdigits := digits_shortest x
  have hzero : Digits ['0'] := by simp [Digits]
  unfold magnitudeText
  split
  · unfold Double.positional
    split
    · have hfraction : Digits (Double.zeros x.shortest.point.natAbs ++
          if x.shortest.digits = [] then ['0'] else x.shortest.digits) :=
        (digits_zeros _).append (by split <;> assumption)
      refine ⟨['0'], _, hzero, ?_, rfl⟩
      rw [← List.append_nil (Double.zeros _ ++ _)]
      exact .of_ne_nil hfraction (by split <;> simp [*]) .none
    · have hfraction : Digits (if x.shortest.digits.drop x.shortest.point.toNat = [] then ['0'] else
          x.shortest.digits.drop x.shortest.point.toNat) := by
        split
        · exact hzero
        · exact hdigits.drop _
      refine ⟨_, _, (hdigits.take _).append (digits_zeros _), ?_, rfl⟩
      rw [← List.append_nil (ite _ _ _)]
      exact .of_ne_nil hfraction (by split <;> simp [*]) .none
  · unfold Double.exponential
    obtain ⟨sign, d, ds, hsign, hds, htext⟩ :=
      exponent_toDigits (x.shortest.point - 1 < 0) (x.shortest.point - 1).natAbs
    refine ⟨x.shortest.digits.take 1, _, hdigits.take 1, ?_, List.append_assoc ..⟩
    rw [htext]
    split
    · exact .exponent hsign hds
    · exact .of_ne_nil (hdigits.drop 1) ‹_› (.some hsign hds)

/-- **The text of a double is read alike wherever it stands.** -/
theorem fixed_decimalText (x : Double) :
    ∃ a?, ∀ inner rest, Stops rest → Reads a? rest (valueIn inner (x.decimalText ++ rest)) := by
  obtain ⟨whole, behind, hwhole, hbehind, htext⟩ := magnitudeText_eq x
  obtain ⟨hpositive, hnegative⟩ := hbehind.fixed_valueIn hwhole
  rw [decimalText_eq, htext]
  split
  · exact hnegative
  · exact hpositive

/-! ## Documents -/

/-- **What comes back of a real** that is written by itself. -/
def restored (x : Double) : Option Json := (parse (real x).render).toOption

/-- What is read from a whole text. -/
theorem parse_of_reads {j : Json} {a? : Option Json}
    (h : Reads a? [] (value nestingLimit (j.chars ++ []))) : (parse j.render).toOption = a? := by
  rw [List.append_nil] at h
  rw [parse, render, String.toList_ofList]
  cases a? with
  | some a =>
    have hread : value nestingLimit j.chars = .ok (a, []) := h
    rw [hread]
    rfl
  | none =>
    obtain ⟨fault, hread⟩ := h
    rw [hread]
    rfl

/-- **A real within a text** comes back as it does by itself. -/
theorem restored_reads (x : Double) (inner : Option (List Char → Except Fault (Parsed Json)))
    {rest : List Char} (hrest : Stops rest) : Reads (restored x) rest (valueIn inner (x.decimalText ++ rest)) := by
  obtain ⟨a?, ha⟩ := fixed_decimalText x
  have halone : Reads a? [] (value nestingLimit ((real x).chars ++ [])) := ha _ [] trivial
  rw [restored, parse_of_reads halone]
  exact ha inner rest hrest

/-- **A document is read as its echo says**, where reals come back as they do by themselves. -/
theorem Sound.parse_render {P : Double → Prop} {j : Json} (h : Sound P j) :
    (parse j.render).toOption = echo restored nestingLimit j :=
  parse_of_reads (h.value_chars (fun x _ inner _ hrest => restored_reads x inner hrest) nestingLimit trivial)

/-! ## Documents that last -/

/-- **Whether a real lasts**: what comes back of it is the same. -/
def realLasts (x : Double) : Bool := (restored x).any (·.same (real x))

/-- **A document within limits**: it nests at most `depth` deep, and its reals are as they should be. -/
inductive Within (P : Double → Prop) : (depth : Nat) → Json → Prop
  | null {d : Nat} : Within P d .null
  | bool {d : Nat} (b : Bool) : Within P d (.bool b)
  | integer {d : Nat} (n : Int) : Within P d (.integer n)
  | real {d : Nat} {x : Double} (real_within : P x) : Within P d (.real x)
  | string {d : Nat} (s : String) : Within P d (.string s)
  | array {d : Nat} {items : List Json} (items_within : ∀ x ∈ items, Within P d x) : Within P (d + 1) (.array items)
  | object {d : Nat} {members : List (String × Json)} (values_within : ∀ e ∈ members, Within P d e.2) :
    Within P (d + 1) (.object members)

theorem Within.mono {P Q : Double → Prop} (hreals : ∀ x, P x → Q x) {d : Nat} {j : Json} (h : Within P d j) :
    Within Q d j := by
  induction h with
  | null => exact .null
  | bool b => exact .bool b
  | integer n => exact .integer n
  | real real_within => exact .real (hreals _ real_within)
  | string s => exact .string s
  | array items_within ih => exact .array ih
  | object values_within ih => exact .object ih

/-- **A document that lasts** nests not too deep, and its reals last. -/
abbrev Lasts : (depth : Nat) → Json → Prop := Within fun x => realLasts x = true

/-- What comes back of items is the same exactly if it is so item by item. -/
theorem any_sameItems (back : Json → Option Json) (items : List Json) :
    (items.mapM back).any (sameItems · items) = items.all fun x => (back x).any (·.same x) := by
  induction items with
  | nil => rfl
  | cons x items ih =>
    rw [List.mapM_cons, List.all_cons, ← ih]
    cases back x with
    | none => rfl
    | some y => cases items.mapM back <;> simp [sameItems]

/-- What comes back of members is the same exactly if it is so member by member. -/
theorem any_sameMembers (back : Json → Option Json) (members : List (String × Json)) :
    (members.mapM fun e => (back e.2).map (e.1, ·)).any (sameMembers · members) =
      members.all fun e => (back e.2).any (·.same e.2) := by
  induction members with
  | nil => rfl
  | cons e members ih =>
    rw [List.mapM_cons, List.all_cons, ← ih]
    cases back e.2 with
    | none => rfl
    | some y => cases members.mapM (fun e => (back e.2).map (e.1, ·)) <;> simp [sameMembers]

/-- **What comes back of a document is the same** exactly if the document lasts. -/
theorem Sound.any_same_echo {P : Double → Prop} {j : Json} (h : Sound P j) (d : Nat) :
    (echo restored d j).any (·.same j) = true ↔ Lasts d j := by
  induction h generalizing d with
  | null => cases d <;> exact ⟨fun _ => .null, fun _ => rfl⟩
  | bool b => cases d <;> exact ⟨fun _ => .bool b, fun _ => by simp [echo, same]⟩
  | @integer n least greatest => cases d <;> exact ⟨fun _ => .integer n, fun _ => by simp [echo, same]⟩
  | @real x real_sound => cases d <;> exact ⟨fun hsame => .real hsame, fun hlasts => by cases hlasts; assumption⟩
  | string s => cases d <;> exact ⟨fun _ => .string s, fun _ => by simp [echo, same]⟩
  | @array items items_sound ih =>
    cases d with
    | zero => exact ⟨fun hnone => (Bool.false_ne_true hnone).elim, fun hlasts => by cases hlasts⟩
    | succ d =>
      have hsame : (echo restored (d + 1) (.array items)).any (·.same (.array items)) =
          (items.mapM (echo restored d)).any (sameItems · items) := by
        rw [echo, Option.any_map]
        rfl
      rw [hsame, any_sameItems, List.all_eq_true]
      refine ⟨fun hall => .array fun x hx => (ih x hx d).1 (hall x hx), fun hlasts x hx => (ih x hx d).2 ?_⟩
      cases hlasts with
      | array items_within => exact items_within x hx
  | @object members ordered values_sound ih =>
    cases d with
    | zero => exact ⟨fun hnone => (Bool.false_ne_true hnone).elim, fun hlasts => by cases hlasts⟩
    | succ d =>
      have hsame : (echo restored (d + 1) (.object members)).any (·.same (.object members)) =
          (members.mapM fun e => (echo restored d e.2).map (e.1, ·)).any (sameMembers · members) := by
        rw [echo, Option.any_map]
        rfl
      rw [hsame, any_sameMembers, List.all_eq_true]
      refine ⟨fun hall => .object fun e he => (ih e he d).1 (hall e he), fun hlasts e he => (ih e he d).2 ?_⟩
      cases hlasts with
      | object values_within => exact values_within e he

/-- **A document that is written and read is the same** exactly if it lasts. -/
theorem Sound.any_same_parse {P : Double → Prop} {j : Json} (h : Sound P j) :
    (parse j.render).toOption.any (·.same j) = true ↔ Lasts nestingLimit j := by
  rw [h.parse_render]
  exact h.any_same_echo nestingLimit

/-! ## Agreement -/

/-- Doubles that agree, agree with the same doubles. -/
theorem same_congr_real {x y : Double} (h : x.same y = true) (z : Double) : z.same x = z.same y := by
  have hzero : ∀ x y : Double, x.isZero = true → y.isZero = false → (x == y) = false := by
    rintro x y hx hy
    refine beq_eq_false_iff_ne.2 ?_
    rintro rfl
    rw [hx] at hy
    cases hy
  unfold Double.same at h ⊢
  rcases Bool.or_eq_true_iff.1 h with hzeros | heq
  · obtain ⟨hx, hy⟩ := Bool.and_eq_true_iff.1 hzeros
    cases hz : z.isZero with
    | true => simp [hx, hy]
    | false =>
      have hne : ∀ u : Double, u.isZero = true → (z == u) = false := fun u hu => by
        rw [BEq.comm]
        exact hzero u z hu hz
      simp [hx, hy, hne]
  · rw [eq_of_beq heq]

mutual

/-- **Documents that agree, agree with the same documents.** -/
theorem same_congr : ∀ (z : Json) {x y : Json}, same x y = true → same z x = same z y
  | null, x, y, h => by cases x <;> cases y <;> simp_all [same]
  | bool b, x, y, h => by cases x <;> cases y <;> simp_all [same]
  | integer n, x, y, h => by cases x <;> cases y <;> simp_all [same]
  | string s, x, y, h => by cases x <;> cases y <;> simp_all [same]
  | real u, x, y, h => by
    cases x <;> cases y <;> simp only [same, Bool.false_eq_true] at h ⊢
    exact same_congr_real h u
  | array zs, x, y, h => by
    cases x <;> cases y <;> simp only [same, Bool.false_eq_true] at h ⊢
    exact sameItems_congr zs h
  | object zs, x, y, h => by
    cases x <;> cases y <;> simp only [same, Bool.false_eq_true] at h ⊢
    exact sameMembers_congr zs h

/-- Lists of the same items compare alike with a third. -/
theorem sameItems_congr : ∀ (zs : List Json) {xs ys : List Json}, sameItems xs ys = true →
    sameItems zs xs = sameItems zs ys
  | [], xs, ys, h => by cases xs <;> cases ys <;> simp_all [sameItems]
  | z :: zs, xs, ys, h => by
    cases xs <;> cases ys <;> simp only [sameItems, Bool.and_eq_true, Bool.false_eq_true] at h ⊢
    rw [same_congr z h.1, sameItems_congr zs h.2]

/-- Lists of the same members compare alike with a third. -/
theorem sameMembers_congr : ∀ (zs : List (String × Json)) {xs ys : List (String × Json)},
    sameMembers xs ys = true → sameMembers zs xs = sameMembers zs ys
  | [], xs, ys, h => by cases xs <;> cases ys <;> simp_all [sameMembers]
  | (s, z) :: zs, xs, ys, h => by
    rcases xs with _ | ⟨⟨t, x⟩, xs⟩ <;> rcases ys with _ | ⟨⟨u, y⟩, ys⟩ <;>
      simp only [sameMembers, Bool.and_eq_true, beq_iff_eq, Bool.false_eq_true] at h ⊢
    rw [h.1.1, same_congr z h.1.2, sameMembers_congr zs h.2]

end

end Idempotence.Json
