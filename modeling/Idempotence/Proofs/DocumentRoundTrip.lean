/-
  Documents, there and back — a document that is written comes back when it is read.

  1. **Plain documents** — `Plain d` says which documents the law is about: their numbers are integers
     that fit, the members of their objects are in order, and they nest at most `d` deep.  Of two plain
     documents `Json.same` says whether they are one (`Plain.same_iff`).

  2. **Scalars** — a string is read back character by character, whatever had to be escaped
     (`stringRest_quoted`), and an integer digit by digit (`numeral_digits`).  A number ends only where
     something stops it, so the law of values is about texts behind which there is nothing, a comma or a
     closing bracket (`Stops`).

  3. **Containers** — the readers of arrays and objects go by fuel, and the text itself is fuel enough:
     every item and every member takes at least one character.  Both laws leave open how an item or the
     value of a member is read, so they serve the reader of values as well as typed ones
     (`readItems_chars`, `foldMembers_chars`).

  4. **The results** — `Reads` says what a reader makes of a text, before whatever follows.  By induction on a
     document, of its text `value` makes what the document's `echo` says, and that depends on what is made of
     its reals (`Sound.value_chars`).  Plain documents echo themselves, so `parse` reads them back
     (`Plain.parse_render`).  The texts that a process records of its inputs are read back, too
     (`Inputs.decode_recordOf`).
-/
import Idempotence.Input

namespace Idempotence

/-! ## Tables from ordered lists -/

namespace Table

variable {κ α : Type} [Ord κ]

/-- A table is its entries. -/
theorem ext_entries {s t : Table κ α} (h : s.entries = t.entries) : s = t := by
  cases s
  cases t
  cases h
  rfl

/-- What comes last is placed last. -/
theorem place_last {k : κ} {a : α} {l : List (κ × α)} [Std.OrientedOrd κ]
    (h : ∀ e ∈ l, compare e.1 k = .lt) : place k a l = l ++ [(k, a)] := by
  induction l with
  | nil => rfl
  | cons e l ih =>
    obtain ⟨j, b⟩ := e
    obtain ⟨hj, hl⟩ := List.forall_mem_cons.1 h
    have hgt : compare k j = .gt := Std.OrientedCmp.gt_of_lt hj
    rw [place, hgt, ih hl]
    rfl

variable [Std.TransOrd κ] [Std.LawfulEqOrd κ]

/-- Inserting entries in order puts them behind those that are there. -/
theorem foldl_insert {t : Table κ α} {l : List (κ × α)}
    (h : (t.entries ++ l).Pairwise fun a b => compare a.1 b.1 = .lt) :
    (l.foldl (fun t e => t.insert e.1 e.2) t).entries = t.entries ++ l := by
  induction l generalizing t with
  | nil => simp
  | cons e l ih =>
    have hlast : (t.insert e.1 e.2).entries = t.entries ++ [e] :=
      place_last fun a ha => (List.pairwise_append.1 h).2.2 a ha e (List.mem_cons_self ..)
    rw [List.foldl_cons, ih (by rw [hlast]; simpa using h), hlast, List.append_assoc]
    rfl

/-- **A table is the table of its entries.** -/
theorem ofList_entries (t : Table κ α) : ofList t.entries = t := by
  apply ext_entries
  rw [ofList, foldl_insert (by simpa using t.ordered)]
  rfl

end Table

namespace Json

/-! ## Plain documents -/

/-- **A document that can be written and read again**: its numbers are integers that fit, the members of
    its objects are in the order of their names, and it nests at most `depth` deep. -/
inductive Plain : (depth : Nat) → Json → Prop
  | null {d : Nat} : Plain d .null
  | bool {d : Nat} (b : Bool) : Plain d (.bool b)
  | integer {d : Nat} {n : Int} (least : -(twoTo 63 : Int) ≤ n) (greatest : n < wordLimit) :
      Plain d (.integer n)
  | string {d : Nat} (s : String) : Plain d (.string s)
  | array {d : Nat} {items : List Json} (items_plain : ∀ x ∈ items, Plain d x) : Plain (d + 1) (.array items)
  | object {d : Nat} {members : List (String × Json)}
      (ordered : members.Pairwise fun a b => compare a.1 b.1 = .lt)
      (values_plain : ∀ e ∈ members, Plain d e.2) : Plain (d + 1) (.object members)

/-- Items agree where they are the same. -/
theorem sameItems_iff {xs ys : List Json} (h : ∀ x ∈ xs, ∀ y, same x y = true ↔ x = y) :
    sameItems xs ys = true ↔ xs = ys := by
  induction xs generalizing ys with
  | nil => cases ys <;> simp [sameItems]
  | cons x xs ih =>
    obtain ⟨hx, hxs⟩ := List.forall_mem_cons.1 h
    cases ys with
    | nil => simp [sameItems]
    | cons y ys => simp [sameItems, hx, ih hxs]

/-- Members agree where they are the same. -/
theorem sameMembers_iff {xs ys : List (String × Json)} (h : ∀ e ∈ xs, ∀ y, same e.2 y = true ↔ e.2 = y) :
    sameMembers xs ys = true ↔ xs = ys := by
  induction xs generalizing ys with
  | nil => cases ys <;> simp [sameMembers]
  | cons e xs ih =>
    obtain ⟨s, x⟩ := e
    obtain ⟨hx, hxs⟩ := List.forall_mem_cons.1 h
    cases ys with
    | nil => simp [sameMembers]
    | cons f ys =>
      obtain ⟨t, y⟩ := f
      simp [sameMembers, hx, ih hxs]

/-- **A plain document agrees with itself alone.** -/
theorem Plain.same_iff {d : Nat} {x : Json} (h : Plain d x) (y : Json) : same x y = true ↔ x = y := by
  induction h generalizing y with
  | null => cases y <;> simp [same]
  | bool b => cases y <;> simp [same]
  | integer least greatest => cases y <;> simp [same]
  | string s => cases y <;> simp [same]
  | array items_plain ih =>
    cases y with
    | array ys => simp [same, sameItems_iff ih]
    | _ => simp [same]
  | object ordered values_plain ih =>
    cases y with
    | object ys => simp [same, sameMembers_iff ih]
    | _ => simp [same]

/-! ## Where texts begin and end -/

/-- A text that begins with neither a blank nor the end of an array. -/
def Starts : List Char → Prop
  | [] => False
  | c :: _ => c ≠ ' ' ∧ c ≠ '\t' ∧ c ≠ '\n' ∧ c ≠ '\r' ∧ c ≠ ']'

/-- A text at whose beginning a value that stands before it ends. -/
def Stops : List Char → Prop
  | [] => True
  | c :: _ => c = ',' ∨ c = ']' ∨ c = '}'

/-- **What a reader makes of a text** that stands before `rest`: it yields `a` and stops there, or fails. -/
def Reads {α : Type} (a? : Option α) (rest : List Char) (r : Except Fault (Parsed α)) : Prop :=
  match a? with
  | some a => r = .ok (a, rest)
  | none => ∃ fault, r = .error fault

/-- Reading goes through sequencing: the second reader goes on where the first one stops. -/
theorem Reads.bind {α β : Type} {a? : Option α} {b : α → Option β} {rest behind : List Char}
    {r : Except Fault (Parsed α)} {f : Parsed α → Except Fault (Parsed β)} (h : Reads a? rest r)
    (hf : ∀ a, a? = some a → Reads (b a) behind (f (a, rest))) : Reads (a? >>= b) behind (r >>= f) := by
  cases a? with
  | some a =>
    obtain rfl : r = .ok (a, rest) := h
    exact hf a rfl
  | none =>
    obtain ⟨fault, rfl⟩ := h
    exact ⟨fault, rfl⟩

/-- What is made of what has been read. -/
theorem Reads.map {α β : Type} {a? : Option α} {rest : List Char} {r : Except Fault (Parsed α)}
    (h : Reads a? rest r) (f : α → β) :
    Reads (a?.map f) rest (r >>= fun p => .ok (f p.1, p.2)) := by
  cases a? with
  | some a =>
    obtain rfl : r = .ok (a, rest) := h
    rfl
  | none =>
    obtain ⟨fault, rfl⟩ := h
    exact ⟨fault, rfl⟩

theorem Starts.append {cs : List Char} (h : Starts cs) (rest : List Char) : Starts (cs ++ rest) := by
  cases cs with
  | nil => exact h.elim
  | cons c cs => exact h

theorem Starts.length_pos {cs : List Char} (h : Starts cs) : 0 < cs.length := by
  cases cs with
  | nil => exact h.elim
  | cons c cs => simp

/-- Before a text that starts a value there are no blanks to be skipped. -/
theorem Starts.skipBlanks {cs : List Char} (h : Starts cs) : skipBlanks cs = cs := by
  cases cs with
  | nil => exact h.elim
  | cons c cs =>
    obtain ⟨h₁, h₂, h₃, h₄, -⟩ := h
    simp [Json.skipBlanks, h₁, h₂, h₃, h₄]

/-! ## Strings -/

/-- A hexadecimal digit that is written is read back. -/
theorem hexValue_hexDigit {n : Nat} (h : n < 16) : hexValue (hexDigit n) = some n := by
  have hall : ∀ n : Fin 16, hexValue (hexDigit n) = some n.val := by decide
  exact hall ⟨n, h⟩

/-- An escaped control character is read back. -/
theorem escape_control {c : Char} (h : c.toNat < 0x20) (rest : List Char) :
    escape ('u' :: '0' :: '0' :: hexDigit (c.toNat / 16) :: hexDigit (c.toNat % 16) :: rest) =
      .ok (c, rest) := by
  have hzero : hexValue '0' = some 0 := by decide
  have hcode : ((0 * 16 + 0) * 16 + c.toNat / 16) * 16 + c.toNat % 16 = c.toNat := by omega
  have htrailing : isTrailing c.toNat = false := by
    simp only [isTrailing, Bool.and_eq_false_imp, decide_eq_true_eq]
    omega
  have hleading : isLeading c.toNat = false := by
    simp only [isLeading, Bool.and_eq_false_imp, decide_eq_true_eq]
    omega
  have hread : hexEscape ('0' :: '0' :: hexDigit (c.toNat / 16) :: hexDigit (c.toNat % 16) :: rest) =
      .ok (c.toNat, rest) := by
    simp only [hexEscape, hzero, hexValue_hexDigit (Nat.div_lt_of_lt_mul (by omega : c.toNat < 16 * 16)),
      hexValue_hexDigit (Nat.mod_lt c.toNat (by omega : 16 > 0)), hcode]
  simp only [escape, hread, bind, Except.bind, htrailing, hleading, Char.ofNat_toNat]
  rfl

/-- **One character**, escaped or not, is read back. -/
theorem stringBody_escaped (c f : Char) (fuel rest : List Char) :
    stringBody (f :: fuel) (escaped c ++ rest) = (do
      let (cs, rest) ← stringBody fuel rest
      .ok (c :: cs, rest)) := by
  unfold escaped
  split
  · subst c; rfl
  split
  · subst c; rfl
  split
  · subst c; rfl
  split
  · subst c; rfl
  split
  · subst c; rfl
  split
  · subst c; rfl
  split
  · subst c; rfl
  split
  · rename_i hcontrol
    simp only [List.cons_append, List.nil_append, stringBody, escape_control hcontrol, bind, Except.bind]
  · rename_i hquote hbackslash _ _ _ _ _ hcontrol
    simp only [List.cons_append, List.nil_append]
    rw [stringBody, if_neg hcontrol]
    · exact fun h => hquote h
    · exact fun h => hbackslash h

/-- The characters of a string are read back. -/
theorem stringBody_flatMap {s fuel : List Char} (h : s.length < fuel.length) (rest : List Char) :
    stringBody fuel (s.flatMap escaped ++ '"' :: rest) = .ok (s, rest) := by
  induction s generalizing fuel with
  | nil =>
    cases fuel with
    | nil => simp at h
    | cons f fuel => rfl
  | cons c s ih =>
    cases fuel with
    | nil => simp at h
    | cons f fuel =>
      rw [List.flatMap_cons, List.append_assoc, stringBody_escaped, ih (by simpa using h)]
      rfl

/-- A character takes at least one. -/
theorem length_escaped_pos (c : Char) : 0 < (escaped c).length := by
  unfold escaped
  repeat' split
  all_goals simp

theorem length_le_flatMap (s : List Char) : s.length ≤ (s.flatMap escaped).length := by
  induction s with
  | nil => simp
  | cons c s ih =>
    have hpos := length_escaped_pos c
    rw [List.flatMap_cons, List.length_append, List.length_cons]
    omega

/-- **A string** is read back. -/
theorem stringRest_quoted (s : String) (rest : List Char) :
    stringRest (s.toList.flatMap escaped ++ '"' :: rest) = .ok (s, rest) := by
  have hlength := length_le_flatMap s.toList
  have hfuel : s.toList.length < (s.toList.flatMap escaped ++ '"' :: rest).length := by
    rw [List.length_append, List.length_cons]
    omega
  rw [stringRest, stringBody_flatMap hfuel]
  simp [bind, Except.bind]

/-! ## Integers -/

/-- A digit has the value that its code says. -/
theorem digit?_eq_some {c : Char} (h : c.isDigit = true) : digit? c = some (c.toNat - '0'.toNat) := by
  have hrange : '0' ≤ c ∧ c ≤ '9' := by
    simpa only [Char.isDigit, Bool.and_eq_true, decide_eq_true_eq, Char.le_def] using h
  rw [digit?, if_pos hrange]

/-- A text does not go on with a digit if its first character is none. -/
theorem startsWithDigit_cons {c : Char} {rest : List Char} (h : startsWithDigit (c :: rest) = false) :
    digit? c = none := by
  simpa [startsWithDigit] using h

/-- What stops a value is no digit. -/
theorem Stops.not_digit {rest : List Char} (h : Stops rest) : startsWithDigit rest = false := by
  cases rest with
  | nil => rfl
  | cons c rest => rcases h with rfl | rfl | rfl <;> rfl

/-- An integer ends where it is stopped. -/
theorem Stops.afterInteger {rest : List Char} (h : Stops rest) (negative : Bool) (n : Nat) :
    afterInteger negative n rest =
      if !negative then .ok (.integer n, rest)
      else if n = 0 ∨ twoTo 63 < n then (assemble true n 0 rest).map fun (x, rest) => (.real x, rest)
      else .ok (.integer (-n), rest) := by
  cases rest with
  | nil => rfl
  | cons c rest => rcases h with rfl | rfl | rfl <;> rfl

/-- Further digits make a number no smaller. -/
theorem le_ofDigitChars (ds : List Char) (n : Nat) : n ≤ Nat.ofDigitChars 10 ds n := by
  induction ds generalizing n with
  | nil => exact Nat.le_refl n
  | cons c ds ih =>
    have hrest := ih (10 * n + (c.toNat - '0'.toNat))
    rw [Nat.ofDigitChars_cons]
    omega

/-- Digits are gathered up to where there are no more of them. -/
theorem integerDigits_append {ds rest : List Char} {n : Nat} (negative : Bool)
    (hdigits : ∀ c ∈ ds, c.isDigit = true) (hlimit : Nat.ofDigitChars 10 ds n < wordLimit)
    (hrest : startsWithDigit rest = false) :
    integerDigits negative n (ds ++ rest) = afterInteger negative (Nat.ofDigitChars 10 ds n) rest := by
  induction ds generalizing n with
  | nil =>
    cases rest with
    | nil => rfl
    | cons c rest => simp only [List.nil_append, integerDigits, startsWithDigit_cons hrest, Nat.ofDigitChars_nil]
  | cons c ds ih =>
    obtain ⟨hc, hds⟩ := List.forall_mem_cons.1 hdigits
    rw [Nat.ofDigitChars_cons] at hlimit ⊢
    have hfits : ¬ wordLimit ≤ n * 10 + (c.toNat - '0'.toNat) := by
      have hle := le_ofDigitChars ds (10 * n + (c.toNat - '0'.toNat))
      omega
    rw [List.cons_append, integerDigits, digit?_eq_some hc, Nat.mul_comm 10 n]
    simp only [if_neg hfits]
    exact ih hds (by rwa [Nat.mul_comm 10 n] at hlimit)

/-- **Digits** are read, unless a zero is followed by others. -/
theorem numeral_append {c : Char} {ds rest : List Char} (negative : Bool)
    (hdigits : ∀ d ∈ c :: ds, d.isDigit = true) (hzero : c = '0' → ds = [])
    (hlimit : Nat.ofDigitChars 10 (c :: ds) 0 < wordLimit) (hrest : startsWithDigit rest = false) :
    numeral negative (c :: ds ++ rest) = afterInteger negative (Nat.ofDigitChars 10 (c :: ds) 0) rest := by
  obtain ⟨hc, hds⟩ := List.forall_mem_cons.1 hdigits
  rw [Nat.ofDigitChars_cons, Nat.mul_zero, Nat.zero_add] at hlimit ⊢
  by_cases h : c = '0'
  · obtain rfl := h
    obtain rfl := hzero rfl
    rw [List.singleton_append, numeral, if_neg (by simp [hrest])]
    rfl
  · rw [List.cons_append, numeral, digit?_eq_some hc]
    · exact integerDigits_append negative hds hlimit hrest
    · exact fun heq => h heq

/-- A number that is not zero does not begin with a zero. -/
theorem toDigits_head {n : Nat} (h : 0 < n) : ∃ c ds, Nat.toDigits 10 n = c :: ds ∧ c ≠ '0' := by
  induction n using Nat.strongRecOn with
  | ind n ih =>
    rcases Nat.lt_or_ge n 10 with hsmall | hlarge
    · refine ⟨Nat.digitChar n, [], Nat.toDigits_of_lt_base hsmall, ?_⟩
      have hall : ∀ n : Fin 10, 0 < n.val → Nat.digitChar n.val ≠ '0' := by decide
      exact hall ⟨n, hsmall⟩ h
    · obtain ⟨c, ds, hhead, hc⟩ := ih (n / 10) (by omega) (by omega)
      refine ⟨c, ds ++ [Nat.digitChar (n % 10)], ?_, hc⟩
      rw [Nat.toDigits_of_base_le (by omega) hlarge, hhead, List.cons_append]

/-- **The digits of a number** are read back. -/
theorem numeral_digits {n : Nat} {rest : List Char} (negative : Bool) (hlimit : n < wordLimit)
    (hrest : startsWithDigit rest = false) :
    numeral negative (Nat.toDigits 10 n ++ rest) = afterInteger negative n rest := by
  have hvalue : Nat.ofDigitChars 10 (Nat.toDigits 10 n) 0 = n :=
    Nat.ofDigitChars_toDigits (by omega) (by omega)
  have hdigits : ∀ d ∈ Nat.toDigits 10 n, d.isDigit = true :=
    fun d hd => Nat.isDigit_of_mem_toDigits (by omega) (by omega) hd
  have hhead : ∃ c ds, Nat.toDigits 10 n = c :: ds ∧ (c = '0' → ds = []) := by
    rcases Nat.eq_zero_or_pos n with rfl | hpos
    · exact ⟨'0', [], Nat.toDigits_zero .., fun _ => rfl⟩
    · obtain ⟨c, ds, hhead, hc⟩ := toDigits_head hpos
      exact ⟨c, ds, hhead, fun h => absurd h hc⟩
  obtain ⟨c, ds, hhead, hzero⟩ := hhead
  rw [hhead] at hvalue hdigits ⊢
  rw [numeral_append negative hdigits hzero (by rwa [hvalue]) hrest, hvalue]

/-! ## Arrays and objects -/

theorem chars_string_append (s : String) (rest : List Char) :
    (string s).chars ++ rest = '"' :: (s.toList.flatMap escaped ++ '"' :: rest) := by
  simp [chars, quoted]

theorem chars_array_cons (x : Json) (xs : List Json) :
    (array (x :: xs)).chars = '[' :: (x.chars ++ itemChars xs) := by
  simp [chars]

theorem chars_object_cons (e : String × Json) (l : List (String × Json)) :
    (object (e :: l)).chars =
      '{' :: '"' :: (e.1.toList.flatMap escaped ++ '"' :: ':' :: (e.2.chars ++ memberChars l)) := by
  simp [chars, quoted]

theorem itemChars_cons (x : Json) (xs : List Json) :
    itemChars (x :: xs) = ',' :: (x.chars ++ itemChars xs) := by
  simp [itemChars]

theorem memberChars_cons (e : String × Json) (l : List (String × Json)) :
    memberChars (e :: l) =
      ',' :: '"' :: (e.1.toList.flatMap escaped ++ '"' :: ':' :: (e.2.chars ++ memberChars l)) := by
  simp [memberChars, quoted]

/-- The text behind an item stops the reading of that item. -/
theorem stops_itemChars (xs : List Json) (rest : List Char) : Stops (itemChars xs ++ rest) := by
  cases xs with
  | nil => exact .inr (.inl rfl)
  | cons x xs =>
    rw [itemChars_cons]
    exact .inl rfl

/-- The text behind a member stops the reading of its value. -/
theorem stops_memberChars (l : List (String × Json)) (rest : List Char) : Stops (memberChars l ++ rest) := by
  cases l with
  | nil => exact .inr (.inr rfl)
  | cons e l =>
    rw [memberChars_cons]
    exact .inl rfl

/-- Every item takes at least one character. -/
theorem length_lt_itemChars (xs : List Json) : xs.length < (itemChars xs).length := by
  induction xs with
  | nil => simp [itemChars]
  | cons x xs ih =>
    simp only [itemChars_cons, List.length_cons, List.length_append]
    omega

/-- Every member takes at least one character. -/
theorem length_lt_memberChars (l : List (String × Json)) : l.length < (memberChars l).length := by
  induction l with
  | nil => simp [memberChars]
  | cons e l ih =>
    simp only [memberChars_cons, List.length_cons, List.length_append]
    omega

/-- The first item is read where it starts. -/
theorem nextItem_first {cs : List Char} (h : Starts cs) : nextItem true cs = .ok (.item cs) := by
  unfold nextItem
  rw [h.skipBlanks]
  cases cs with
  | nil => exact h.elim
  | cons c cs =>
    obtain ⟨_, _, _, _, hclosed⟩ := h
    simp

/-- Behind a comma there must be one. -/
theorem nextItem_behind (cs : List Char) : nextItem false (',' :: cs) =
    match skipBlanks cs with
    | [] => failPeeking .endInValue []
    | ']' :: rest => failPeeking .trailingComma (']' :: rest)
    | rest => .ok (.item rest) := rfl

/-- A further item is read behind a comma. -/
theorem nextItem_comma {cs : List Char} (h : Starts cs) : nextItem false (',' :: cs) = .ok (.item cs) := by
  rw [nextItem_behind, h.skipBlanks]
  cases cs with
  | nil => exact h.elim
  | cons c cs =>
    obtain ⟨_, _, _, _, hclosed⟩ := h
    simp [hclosed]

/-- The first member is read up to its value. -/
theorem nextMember_first (s : String) (cs : List Char) :
    nextMember stringRest true ('"' :: (s.toList.flatMap escaped ++ '"' :: ':' :: cs)) =
      .ok (.member s cs) := by
  show memberAt stringRest (s.toList.flatMap escaped ++ '"' :: ':' :: cs) = _
  rw [memberAt, stringRest_quoted]
  rfl

/-- A further member is read up to its value behind a comma. -/
theorem nextMember_comma (s : String) (cs : List Char) :
    nextMember stringRest false (',' :: '"' :: (s.toList.flatMap escaped ++ '"' :: ':' :: cs)) =
      .ok (.member s cs) :=
  nextMember_first s cs

section

variable {α β : Type}

/-- The further items of an array are read, if each of them is. -/
theorem readItems_itemChars {item : List Char → Except Fault (Parsed α)} {back : Json → Option α}
    {xs : List Json} (hstarts : ∀ x ∈ xs, Starts x.chars)
    (hitem : ∀ x ∈ xs, ∀ rest, Stops rest → Reads (back x) rest (item (x.chars ++ rest)))
    {fuel : List Char} (hfuel : xs.length < fuel.length) (rest : List Char) :
    Reads (xs.mapM back) rest (readItems item fuel false (itemChars xs ++ rest)) := by
  induction xs generalizing fuel with
  | nil =>
    cases fuel with
    | nil => simp at hfuel
    | cons f fuel => rfl
  | cons x xs ih =>
    obtain ⟨hx, hxs⟩ := List.forall_mem_cons.1 hstarts
    obtain ⟨hread, hreads⟩ := List.forall_mem_cons.1 hitem
    cases fuel with
    | nil => simp at hfuel
    | cons f fuel =>
      have hnext := nextItem_comma (hx.append (itemChars xs ++ rest))
      rw [itemChars_cons, List.cons_append, List.append_assoc, readItems, hnext, List.mapM_cons]
      refine (hread _ (stops_itemChars xs rest)).bind fun a _ => ?_
      exact (ih hxs hreads (by simpa using hfuel)).bind fun as _ => rfl

/-- All items of an array that has any are read, if each of them is. -/
theorem readItems_cons {item : List Char → Except Fault (Parsed α)} {back : Json → Option α} {x : Json}
    {xs : List Json} (hstarts : ∀ y ∈ x :: xs, Starts y.chars)
    (hitem : ∀ y ∈ x :: xs, ∀ rest, Stops rest → Reads (back y) rest (item (y.chars ++ rest)))
    {fuel : List Char} (hfuel : xs.length + 1 < fuel.length) (rest : List Char) :
    Reads ((x :: xs).mapM back) rest (readItems item fuel true (x.chars ++ (itemChars xs ++ rest))) := by
  obtain ⟨hx, hxs⟩ := List.forall_mem_cons.1 hstarts
  obtain ⟨hread, hreads⟩ := List.forall_mem_cons.1 hitem
  cases fuel with
  | nil => simp at hfuel
  | cons f fuel =>
    rw [readItems, nextItem_first (hx.append _), List.mapM_cons]
    refine (hread _ (stops_itemChars xs rest)).bind fun a _ => ?_
    exact (readItems_itemChars hxs hreads (by simpa using hfuel) rest).bind fun as _ => rfl

/-- **An array** is read behind its bracket as its items are. -/
theorem readItems_chars {item : List Char → Except Fault (Parsed α)} {back : Json → Option α}
    {items : List Json} (hstarts : ∀ x ∈ items, Starts x.chars)
    (hitem : ∀ x ∈ items, ∀ rest, Stops rest → Reads (back x) rest (item (x.chars ++ rest)))
    (rest : List Char) :
    ∃ text, (array items).chars ++ rest = '[' :: text ∧
      Reads (items.mapM back) rest (readItems item text true text) := by
  cases items with
  | nil => exact ⟨']' :: rest, by simp [chars], rfl⟩
  | cons x xs =>
    refine ⟨x.chars ++ (itemChars xs ++ rest), by simp [chars_array_cons],
      readItems_cons hstarts hitem ?_ rest⟩
    have hfirst := (hstarts x (List.mem_cons_self ..)).length_pos
    have hitems := length_lt_itemChars xs
    simp only [List.length_append]
    omega

variable {γ : Type} {doc : γ → Json} {member : α → String → List Char → Except Fault (Parsed α)}
  {fold : α → String × γ → Option α} {l : List (String × γ)}

/-- The further members of an object are read and folded, if each of their values is read. -/
theorem foldMembers_memberChars
    (hmember : ∀ e ∈ l, ∀ acc rest, Stops rest →
      Reads (fold acc e) rest (member acc e.1 ((doc e.2).chars ++ rest)))
    {fuel : List Char} (hfuel : l.length < fuel.length) (acc : α) (rest : List Char) :
    Reads (l.foldlM fold acc) rest
      (foldMembers stringRest member fuel false acc (memberChars (l.map fun e => (e.1, doc e.2)) ++ rest)) := by
  induction l generalizing fuel acc with
  | nil =>
    cases fuel with
    | nil => simp at hfuel
    | cons f fuel => rfl
  | cons e l ih =>
    obtain ⟨hread, hreads⟩ := List.forall_mem_cons.1 hmember
    cases fuel with
    | nil => simp at hfuel
    | cons f fuel =>
      rw [List.foldlM_cons]
      simp only [List.map_cons, memberChars_cons, List.cons_append, List.append_assoc, foldMembers,
        nextMember_comma]
      exact (hread acc _ (stops_memberChars _ rest)).bind fun acc _ => ih hreads (by simpa using hfuel) acc

variable (doc) in
/-- **An object** is read behind its bracket as the values of its members are. -/
theorem foldMembers_chars
    (hmember : ∀ e ∈ l, ∀ acc rest, Stops rest →
      Reads (fold acc e) rest (member acc e.1 ((doc e.2).chars ++ rest))) (acc : α) (rest : List Char) :
    ∃ text, (object (l.map fun e => (e.1, doc e.2))).chars ++ rest = '{' :: text ∧
      Reads (l.foldlM fold acc) rest (foldMembers stringRest member text true acc text) := by
  cases l with
  | nil => exact ⟨'}' :: rest, by simp [chars], rfl⟩
  | cons e l =>
    obtain ⟨hread, hreads⟩ := List.forall_mem_cons.1 hmember
    let others := memberChars (l.map fun e => (e.1, doc e.2)) ++ rest
    refine ⟨'"' :: (e.1.toList.flatMap escaped ++ '"' :: ':' :: ((doc e.2).chars ++ others)),
      by simp [chars_object_cons, others], ?_⟩
    rw [foldMembers, nextMember_first, List.foldlM_cons]
    refine (hread acc _ (stops_memberChars _ rest)).bind fun acc _ => ?_
    refine foldMembers_memberChars hreads ?_ acc rest
    have hmembers := length_lt_memberChars (l.map fun e => (e.1, doc e.2))
    simp only [others, List.length_append, List.length_cons, List.length_map] at hmembers ⊢
    omega

end

/-! ## Values -/

/-- Members in order make the object that lists them. -/
theorem ofMembers_eq {members : List (String × Json)}
    (h : members.Pairwise fun a b => compare a.1 b.1 = .lt) : ofMembers members = object members := by
  have htable : Table.ofList members = ⟨members, h⟩ := Table.ofList_entries ⟨members, h⟩
  rw [ofMembers, htable]

/-- A digit begins nothing but a number. -/
theorem digit_ne {c : Char} (h : c.isDigit = true) :
    Starts [c] ∧ c ≠ 'n' ∧ c ≠ 't' ∧ c ≠ 'f' ∧ c ≠ '"' ∧ c ≠ '-' ∧ c ≠ '[' ∧ c ≠ '{' := by
  have hne : ∀ d : Char, d.isDigit = false → c ≠ d := by
    rintro d hd rfl
    rw [h] at hd
    cases hd
  exact ⟨⟨hne _ rfl, hne _ rfl, hne _ rfl, hne _ rfl, hne _ rfl⟩, hne _ rfl, hne _ rfl, hne _ rfl, hne _ rfl,
    hne _ rfl, hne _ rfl, hne _ rfl⟩

/-- The first digit of a number. -/
theorem toDigits_cons (n : Nat) : ∃ c ds, Nat.toDigits 10 n = c :: ds ∧ c.isDigit = true := by
  cases hn : Nat.toDigits 10 n with
  | nil => exact absurd hn Nat.toDigits_ne_nil
  | cons c ds =>
    refine ⟨c, ds, rfl, Nat.isDigit_of_mem_toDigits (b := 10) (n := n) (by omega) (by omega) ?_⟩
    rw [hn]
    exact List.mem_cons_self ..

/-- The decimal that a search comes to: its digits as a natural, and how many they were to be. -/
def found (magnitude : Int) (result : Nat × Nat) : Decimal where
  digits := ((Nat.toDigits 10 result.1).reverse.dropWhile (· == '0')).reverse
  point := magnitude + ((Nat.toDigits 10 result.1).length - result.2)

theorem found_eq (magnitude : Int) (result : Nat × Nat) :
    (match result with
      | (n, count) =>
        let digits := Nat.toDigits 10 n
        ({ digits := (digits.reverse.dropWhile (· == '0')).reverse
           point := magnitude + (digits.length - count) } : Decimal)) = found magnitude result := rfl

/-- **The shortest decimal** of a double is what is searched for. -/
theorem shortest_eq {x : Double} (h : ¬ x.isZero = true) :
    x.shortest = found x.interval.magnitude (x.interval.search x.interval.magnitude 17 1) :=
  -- Nothing else may look at the search: it would be run.
  (if_neg h).trans (found_eq x.interval.magnitude (x.interval.search x.interval.magnitude 17 1))

/-- The digits of a double are digits. -/
theorem isDigit_of_mem_shortest {x : Double} {c : Char} (h : c ∈ x.shortest.digits) : c.isDigit = true := by
  by_cases hzero : x.isZero = true
  · rw [Double.shortest, if_pos hzero] at h
    cases h
  · rw [shortest_eq hzero] at h
    exact Nat.isDigit_of_mem_toDigits (by omega) (by omega)
      (List.mem_reverse.1 ((List.dropWhile_sublist _).subset (List.mem_reverse.1 h)))

/-- The text of the magnitude of a double. -/
def magnitudeText (x : Double) : List Char :=
  if -5 < x.shortest.point ∧ x.shortest.point ≤ 16 then Double.positional x.shortest
  else Double.exponential x.shortest

theorem decimalText_eq (x : Double) :
    x.decimalText = if x.negative then '-' :: magnitudeText x else magnitudeText x := rfl

/-- The text of a double begins with a sign, a digit, or, if there are no digits, with what follows them. -/
theorem starts_decimalText (x : Double) : Starts x.decimalText := by
  have hdigits : ∀ {c ds}, x.shortest.digits = c :: ds → ∀ cs, Starts (c :: cs) := fun {c ds} heq cs =>
    (digit_ne (isDigit_of_mem_shortest (x := x) (heq ▸ List.mem_cons_self ..))).1.append cs
  rw [decimalText_eq]
  split
  · simp [Starts]
  unfold magnitudeText
  split
  · unfold Double.positional
    split
    · simp [Starts]
    · rename_i hpoint
      obtain ⟨whole, hwhole⟩ : ∃ n, x.shortest.point.toNat = n + 1 := ⟨x.shortest.point.toNat - 1, by omega⟩
      cases heq : x.shortest.digits with
      | nil => simp [hwhole, Double.zeros, List.replicate_succ, Starts]
      | cons c ds => simpa [hwhole] using hdigits heq _
  · unfold Double.exponential
    cases heq : x.shortest.digits with
    | nil => simp [Starts]
    | cons c ds => simpa using hdigits heq _

/-- **The text of a document** begins with neither a blank nor the end of an array. -/
theorem starts_chars (j : Json) : Starts j.chars := by
  cases j with
  | null => simp [chars, Starts]
  | bool b => cases b <;> simp [chars, Starts]
  | integer n =>
    rw [chars, decimal]
    split
    · simp [Starts]
    · obtain ⟨c, ds, hdigits, hc⟩ := toDigits_cons n.natAbs
      rw [hdigits]
      exact (digit_ne hc).1.append ds
  | real x => exact starts_decimalText x
  | string s => simp [chars, quoted, Starts]
  | array items => cases items <;> simp [chars, Starts]
  | object members => cases members <;> simp [chars, Starts]

/-- Behind a digit there is a number. -/
theorem valueIn_digit {c : Char} (h : c.isDigit = true)
    (inner : Option (List Char → Except Fault (Parsed Json))) (cs : List Char) :
    valueIn inner (c :: cs) = (do
      let (n, rest) ← numeral false (c :: cs)
      .ok (ofNumeral n, rest)) := by
  obtain ⟨hstarts, h₁, h₂, h₃, h₄, h₅, h₆, h₇⟩ := digit_ne h
  have hblanks : skipBlanks (c :: cs) = c :: cs := (hstarts.append cs).skipBlanks
  unfold valueIn
  rw [hblanks]
  split <;> simp_all [digit?_eq_some]

/-- Behind a minus there is a number. -/
theorem valueIn_minus (inner : Option (List Char → Except Fault (Parsed Json))) (cs : List Char) :
    valueIn inner ('-' :: cs) = (do
      let (n, rest) ← numeral true cs
      .ok (ofNumeral n, rest)) := rfl

/-- **An integer** is read back. -/
theorem valueIn_decimal {n : Int} (hleast : -(twoTo 63 : Int) ≤ n) (hgreatest : n < wordLimit)
    (inner : Option (List Char → Except Fault (Parsed Json))) {rest : List Char} (hrest : Stops rest) :
    valueIn inner (decimal n ++ rest) = .ok (.integer n, rest) := by
  have hlimits : twoTo 63 < wordLimit := by decide
  unfold decimal
  split
  · rename_i hnegative
    have hnumeral := numeral_digits (n := n.natAbs) true (by omega) hrest.not_digit
    rw [hrest.afterInteger, if_neg (by simp), if_neg (by omega)] at hnumeral
    rw [List.cons_append, valueIn_minus, hnumeral]
    simp only [bind, Except.bind, ofNumeral]
    congr 3
    omega
  · rename_i hnatural
    have hnumeral := numeral_digits (n := n.natAbs) false (by omega) hrest.not_digit
    rw [hrest.afterInteger, Bool.not_false, if_pos rfl] at hnumeral
    obtain ⟨c, ds, hdigits, hc⟩ := toDigits_cons n.natAbs
    rw [hdigits, List.cons_append] at hnumeral ⊢
    rw [valueIn_digit hc, hnumeral]
    simp only [bind, Except.bind, ofNumeral]
    congr 3
    omega

/-- Behind a quotation mark there is a string. -/
theorem valueIn_quote (inner : Option (List Char → Except Fault (Parsed Json))) (cs : List Char) :
    valueIn inner ('"' :: cs) = (do
      let (s, rest) ← stringRest cs
      .ok (.string s, rest)) := rfl

/-- Behind a bracket there are items. -/
theorem value_bracket (d : Nat) (cs : List Char) :
    value (d + 1) ('[' :: cs) = (do
      let (xs, rest) ← readItems (value d) cs true cs
      .ok (.array xs, rest)) := rfl

/-- Reads the value of a member, and puts the member before those that have been read. -/
def gather (d : Nat) (acc : List (String × Json)) (name : String) (text : List Char) :
    Except Fault (Parsed (List (String × Json))) := do
  let (x, rest) ← value d text
  .ok ((name, x) :: acc, rest)

/-- Behind a brace there are members, which are gathered in reverse. -/
theorem value_brace (d : Nat) (cs : List Char) :
    value (d + 1) ('{' :: cs) = (do
      let (gathered, rest) ← foldMembers stringRest (gather d) cs true [] cs
      .ok (ofMembers gathered.reverse, rest)) := rfl

/-- Where no nesting is allowed there is none. -/
theorem value_zero (c : Char) (h : c = '[' ∨ c = '{') (cs : List Char) :
    value 0 (c :: cs) = failPeeking .tooDeep (c :: cs) := by
  rcases h with rfl | rfl <;> rfl

/-- Gathering members in reverse. -/
theorem foldlM_gather {γ δ : Type} (f : γ → Option δ) (l : List γ) (acc : List δ) :
    l.foldlM (fun acc e => (f e).map (· :: acc)) acc = (l.mapM f).map fun l' => l'.reverse ++ acc := by
  induction l generalizing acc with
  | nil => rfl
  | cons e l ih =>
    rw [List.foldlM_cons, List.mapM_cons]
    cases f e with
    | none => rfl
    | some x =>
      show l.foldlM _ (x :: acc) = ((l.mapM f).bind fun l' => some (x :: l')).map _
      rw [ih]
      cases l.mapM f <;> simp

/-- Changing the values of members leaves their names. -/
theorem names_of_mapM {γ δ : Type} {f : γ → Option δ} {l : List (String × γ)} {l' : List (String × δ)}
    (h : l.mapM (fun e => (f e.2).map (e.1, ·)) = some l') : l'.map Prod.fst = l.map Prod.fst := by
  induction l generalizing l' with
  | nil =>
    cases h
    rfl
  | cons e l ih =>
    rw [List.mapM_cons] at h
    obtain ⟨x, hx, h⟩ := Option.bind_eq_some_iff.1 h
    obtain ⟨xs, hxs, ⟨⟩⟩ := Option.bind_eq_some_iff.1 h
    obtain ⟨y, -, rfl⟩ := Option.map_eq_some_iff.1 hx
    rw [List.map_cons, List.map_cons, ih hxs]

/-- What comes back as it is, item by item. -/
theorem mapM_eq_self {γ : Type} {f : γ → Option γ} {l : List γ} (h : ∀ x ∈ l, f x = some x) :
    l.mapM f = some l := by
  induction l with
  | nil => rfl
  | cons x l ih =>
    obtain ⟨hx, hl⟩ := List.forall_mem_cons.1 h
    rw [List.mapM_cons, hx, ih hl]
    rfl

/-- **What becomes of a document** that is written, and read by whoever may read so deep, if `back` is what
    becomes of a real. -/
def echo (back : Double → Option Json) : (depth : Nat) → Json → Option Json
  | _, .real x => back x
  | 0, .array _ => none
  | 0, .object _ => none
  | d + 1, .array items => (items.mapM (echo back d)).map .array
  | d + 1, .object members => (members.mapM fun e => (echo back d e.2).map (e.1, ·)).map .object
  | _, j => some j

/-- **A well-formed document**: its integers fit, its reals are such as `P` says, and the members of its
    objects are in the order of their names. -/
inductive Sound (P : Double → Prop) : Json → Prop
  | null : Sound P .null
  | bool (b : Bool) : Sound P (.bool b)
  | integer {n : Int} (least : -(twoTo 63 : Int) ≤ n) (greatest : n < wordLimit) : Sound P (.integer n)
  | real {x : Double} (real_sound : P x) : Sound P (.real x)
  | string (s : String) : Sound P (.string s)
  | array {items : List Json} (items_sound : ∀ x ∈ items, Sound P x) : Sound P (.array items)
  | object {members : List (String × Json)} (ordered : members.Pairwise fun a b => compare a.1 b.1 = .lt)
      (values_sound : ∀ e ∈ members, Sound P e.2) : Sound P (.object members)

/-- **A document** is read as its echo says, if its reals are. -/
theorem Sound.value_chars {P : Double → Prop} {back : Double → Option Json}
    (hreals : ∀ x, P x → ∀ inner rest, Stops rest → Reads (back x) rest (valueIn inner (x.decimalText ++ rest)))
    {j : Json} (h : Sound P j) (d : Nat) {rest : List Char} (hrest : Stops rest) :
    Reads (echo back d j) rest (value d (j.chars ++ rest)) := by
  have hscalar : ∀ d : Nat, ∃ inner, value d = valueIn inner := by
    intro d
    cases d <;> exact ⟨_, rfl⟩
  induction h generalizing d rest with
  | null =>
    obtain ⟨inner, hvalue⟩ := hscalar d
    rw [hvalue]
    cases d <;> rfl
  | bool b =>
    obtain ⟨inner, hvalue⟩ := hscalar d
    rw [hvalue]
    cases d <;> cases b <;> rfl
  | @integer n least greatest =>
    obtain ⟨inner, hvalue⟩ := hscalar d
    have hread : Reads (some (.integer n)) rest (valueIn inner (decimal n ++ rest)) :=
      valueIn_decimal least greatest inner hrest
    rw [hvalue]
    cases d <;> exact hread
  | @real x real_sound =>
    obtain ⟨inner, hvalue⟩ := hscalar d
    have hread := hreals x real_sound inner rest hrest
    rw [hvalue]
    cases d <;> exact hread
  | string s =>
    obtain ⟨inner, hvalue⟩ := hscalar d
    rw [hvalue, chars_string_append, valueIn_quote, stringRest_quoted]
    cases d <;> rfl
  | @array items items_sound ih =>
    cases d with
    | zero =>
      have hitems : ∀ x ∈ items, ∀ rest, Stops rest → Reads (echo back 0 x) rest (value 0 (x.chars ++ rest)) :=
        fun x hx _ => ih x hx 0
      obtain ⟨text, htext, -⟩ := readItems_chars (fun x _ => starts_chars x) hitems rest
      rw [htext, value_zero _ (.inl rfl)]
      exact ⟨_, rfl⟩
    | succ d =>
      obtain ⟨text, htext, hitems⟩ :=
        readItems_chars (fun x _ => starts_chars x) (fun x hx _ => ih x hx d) rest
      rw [htext, value_bracket]
      exact hitems.map _
  | @object members ordered values_sound ih =>
    have hgather : ∀ d, ∀ e ∈ members, ∀ acc rest, Stops rest →
        Reads (((echo back d e.2).map (e.1, ·)).map (· :: acc)) rest (gather d acc e.1 (e.2.chars ++ rest)) := by
      intro d e he acc rest hrest
      rw [Option.map_map]
      exact (ih e he d hrest).map _
    cases d with
    | zero =>
      obtain ⟨text, htext, -⟩ := foldMembers_chars (fun x => x) (hgather 0) [] rest
      rw [List.map_id'] at htext
      rw [htext, value_zero _ (.inr rfl)]
      exact ⟨_, rfl⟩
    | succ d =>
      obtain ⟨text, htext, hmembers⟩ := foldMembers_chars (fun x => x) (hgather d) [] rest
      rw [List.map_id'] at htext
      rw [foldlM_gather] at hmembers
      rw [htext, value_brace]
      refine Eq.mp ?_ (hmembers.map fun gathered => ofMembers gathered.reverse)
      congr 1
      rw [echo]
      cases hnames : members.mapM fun e => (echo back d e.2).map (e.1, ·) with
      | none => rfl
      | some members' =>
        have hordered : (members'.map Prod.fst).Pairwise fun a b => compare a b = .lt := by
          rw [names_of_mapM hnames]
          exact List.pairwise_map.2 ordered
        simp [ofMembers_eq (List.pairwise_map.1 hordered)]

namespace Plain

variable {d : Nat} {j : Json}

/-- **A plain document** is well-formed without reals. -/
theorem sound (h : Plain d j) : Sound (fun _ => False) j := by
  induction h with
  | null => exact .null
  | bool b => exact .bool b
  | integer least greatest => exact .integer least greatest
  | string s => exact .string s
  | array _ ih => exact .array ih
  | object ordered _ ih => exact .object ordered ih

/-- The echo of a plain document is itself. -/
theorem echo_eq (h : Plain d j) (back : Double → Option Json) : echo back d j = some j := by
  induction h with
  | @null d => cases d <;> rfl
  | @bool d b => cases d <;> rfl
  | @integer d n least greatest => cases d <;> rfl
  | @string d s => cases d <;> rfl
  | array _ ih => rw [echo, mapM_eq_self ih, Option.map_some]
  | object _ _ ih =>
    rw [echo, mapM_eq_self fun e he => by rw [ih e he, Option.map_some], Option.map_some]

/-- **A plain document** is read back by whoever may read as deep as it nests. -/
theorem value_chars (h : Plain d j) {rest : List Char} (hrest : Stops rest) :
    value d (j.chars ++ rest) = .ok (j, rest) := by
  have hreals : ∀ x, False → ∀ inner rest, Stops rest →
      Reads none rest (valueIn inner (Double.decimalText x ++ rest)) := fun _ hnone => hnone.elim
  have hread := h.sound.value_chars hreals d hrest
  rw [h.echo_eq] at hread
  exact hread

/-- **A plain document is what its text says.** -/
theorem parse_render (h : Plain nestingLimit j) : parse j.render = .ok j := by
  have hread : value nestingLimit (j.chars ++ []) = .ok (j, []) := h.value_chars trivial
  rw [List.append_nil] at hread
  rw [parse, render, String.toList_ofList, hread]
  rfl

end Plain

namespace Decoder

/-- The reader of strings. -/
theorem string_chars (d : Nat) (s : String) (rest : List Char) :
    Decoder.string d ((Json.string s).chars ++ rest) = .ok (s, rest) := by
  rw [chars_string_append]
  show stringRest (s.toList.flatMap escaped ++ '"' :: rest) = _
  exact stringRest_quoted s rest

/-- Reads the value of a member, and puts it into a table. -/
def insertNext {α : Type} (decoder : Decoder α) (d : Nat) (t : Table String α) (name : String)
    (text : List Char) : Except Fault (Parsed (Table String α)) := do
  let (a, rest) ← decoder d text
  .ok (t.insert name a, rest)

theorem table_brace {α : Type} (decoder : Decoder α) (d : Nat) (cs : List Char) :
    table decoder (d + 1) ('{' :: cs) =
      foldMembers stringRest (insertNext decoder d) cs true Table.empty cs := rfl

/-- **A table is read back** from its object, if its values are. -/
theorem table_chars {α : Type} {decoder : Decoder α} {doc : α → Json} {d : Nat}
    (h : ∀ a rest, Stops rest → decoder d ((doc a).chars ++ rest) = .ok (a, rest)) (t : Table String α)
    (rest : List Char) :
    table decoder (d + 1) ((object (t.entries.map fun e => (e.1, doc e.2))).chars ++ rest) =
      .ok (t, rest) := by
  have hinsert : ∀ e ∈ t.entries, ∀ (acc : Table String α) rest, Stops rest →
      Reads (some (acc.insert e.1 e.2)) rest (insertNext decoder d acc e.1 ((doc e.2).chars ++ rest)) := by
    intro e _ acc rest hrest
    simp only [insertNext, h e.2 rest hrest, bind, Except.bind, Reads]
  obtain ⟨text, htext, hmembers⟩ := foldMembers_chars doc hinsert Table.empty rest
  have hall : t.entries.foldlM (fun (acc : Table String α) e => some (acc.insert e.1 e.2)) Table.empty =
      some t := by
    have hfold := List.foldlM_pure (m := Option) (l := t.entries) (b := Table.empty)
      (f := fun (acc : Table String α) e => acc.insert e.1 e.2)
    exact hfold.trans (congrArg some (Table.ofList_entries t))
  rw [hall] at hmembers
  rw [htext, table_brace]
  exact hmembers

end Decoder

end Json

/-! ## Recorded inputs -/

namespace Inputs

/-- The text under which texts of inputs are recorded. -/
def recordOf (t : Table String String) : String :=
  (Json.object (t.entries.map fun e => (e.1, .string e.2))).render

theorem encode_eq (t : Table String String) : codec.encode t = .ok (recordOf t) := rfl

/-- **What is recorded of inputs** is read back. -/
theorem decode_recordOf (t : Table String String) : codec.decode (recordOf t) = .ok t := by
  have hread :=
    Json.Decoder.table_chars (d := 126) (fun s rest _ => Json.Decoder.string_chars 126 s rest) t []
  rw [List.append_nil] at hread
  show (do Json.atEnd (← Json.Decoder.table Json.Decoder.string 127 (recordOf t).toList)) = _
  rw [recordOf, Json.render, String.toList_ofList, hread]
  rfl

end Inputs

end Idempotence
