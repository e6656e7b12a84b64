/-
  Codes of addresses — the code of an address gives the address back.

  A measured text tells where it ends: its length comes first, and the digits of a length contain no
  colon.  So texts that begin with measured texts are equal only if those are equal, and what follows
  them too (`measured_append_inj`).  The code of an address begins with two of them, hence different
  addresses have different codes (`ofKey_inj`).
-/
import Idempotence.Store.KeyCode

namespace Idempotence

namespace KeyCode

/-- A measured text as characters. -/
theorem toList_measured (s : String) :
    (measured s).toList = (Nat.repr s.utf8ByteSize).toList ++ ':' :: s.toList := by
  have h : measured s = Nat.repr s.utf8ByteSize ++ ":" ++ s := rfl
  simp [h]

/-- Lengths have no colon. -/
theorem colon_not_mem_repr (n : Nat) : ':' ∉ (Nat.repr n).toList := by
  rw [Nat.toList_repr]
  intro h
  exact absurd (Nat.isDigit_of_mem_toDigits (by decide) (by decide) h) (by decide)

/-- Different lengths are written differently. -/
theorem repr_inj {m n : Nat} (h : (Nat.repr m).toList = (Nat.repr n).toList) : m = n := by
  rw [Nat.toList_repr, Nat.toList_repr] at h
  have hread := congrArg (Nat.ofDigitChars 10 · 0) h
  simpa using hread

/-- What stands before the first mark, and what stands behind it. -/
theorem split_at_mark {mark : Char} {l m : List Char} (hl : mark ∉ l) (hm : mark ∉ m) {r s : List Char}
    (h : l ++ mark :: r = m ++ mark :: s) : l = m ∧ r = s := by
  induction l generalizing m with
  | nil =>
    cases m with
    | nil => exact ⟨rfl, (List.cons.inj h).2⟩
    | cons x m => exact absurd (List.mem_cons.2 (.inl (List.cons.inj h).1)) hm
  | cons x l ih =>
    cases m with
    | nil => exact absurd (List.mem_cons.2 (.inl (List.cons.inj h).1.symm)) hl
    | cons y m =>
      obtain ⟨rfl, hrest⟩ := List.cons.inj h
      obtain ⟨rfl, hrs⟩ := ih (fun h => hl (.tail _ h)) (fun h => hm (.tail _ h)) hrest
      exact ⟨rfl, hrs⟩

/-- A text that begins with a text of the same length is that text. -/
theorem eq_of_toList_append {s t : String} {l : List Char} (hsize : s.utf8ByteSize = t.utf8ByteSize)
    (h : s.toList = t.toList ++ l) : s = t := by
  have hs : s = t ++ String.ofList l := String.toList_injective (by rw [h]; simp)
  have hl : String.ofList l = "" := by
    rw [hs, String.utf8ByteSize_append] at hsize
    exact String.utf8ByteSize_eq_zero_iff.1 (by omega)
  rw [hs, hl, String.append_empty]

/-- **Measured texts end where they say.** -/
theorem measured_append_inj {s t a b : String} (h : measured s ++ a = measured t ++ b) :
    s = t ∧ a = b := by
  have hlist := congrArg String.toList h
  simp only [String.toList_append, toList_measured, List.append_assoc, List.cons_append] at hlist
  obtain ⟨hrepr, hrest⟩ := split_at_mark (colon_not_mem_repr _) (colon_not_mem_repr _) hlist
  have hsize : s.utf8ByteSize = t.utf8ByteSize := repr_inj hrepr
  have hst : s = t := by
    rcases List.append_eq_append_iff.1 hrest with ⟨l, ht, -⟩ | ⟨l, hs, -⟩
    · exact (eq_of_toList_append hsize.symm ht).symm
    · exact eq_of_toList_append hsize hs
  subst hst
  exact ⟨rfl, String.toList_injective (List.append_cancel_left hrest)⟩

/-- **Different addresses have different codes.** -/
theorem ofKey_inj {j k : RecordKey} (h : ofKey j = ofKey k) : j = k := by
  simp only [ofKey, ofInstance, String.append_assoc] at h
  obtain ⟨hprocess, hrest⟩ := measured_append_inj h
  obtain ⟨hkey, hrecord⟩ := measured_append_inj hrest
  cases j
  cases k
  cases hprocess
  cases hkey
  cases hrecord
  rfl

end KeyCode

end Idempotence
