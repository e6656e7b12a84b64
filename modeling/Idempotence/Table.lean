/-
  Tables — finite maps that list their entries in the order of the keys.

  The order is part of what a table promises: the first final record of a process instance, the
  oldest entries of an index and the text of a JSON object all depend on it.  It is kept as a field
  of the type, so every table is ordered, and two tables with the same look-ups are equal (`ext_get?`).

  Looking up is the view that the laws speak about: `get?_insert`, `get?_erase`, `get?_filter`.
-/

namespace Idempotence

open Std (TransOrd LawfulEqOrd)

/-- **A finite map from `κ` to `α`**, its entries strictly increasing in the key. -/
structure Table (κ α : Type) [Ord κ] where
  entries : List (κ × α)
  ordered : entries.Pairwise fun a b => compare a.1 b.1 = .lt

namespace Table

variable {κ α : Type} [Ord κ]

instance : Inhabited (Table κ α) := ⟨⟨[], .nil⟩⟩

/-- The table without entries. -/
def empty : Table κ α := ⟨[], .nil⟩

/-- Number of entries. -/
def size (t : Table κ α) : Nat := t.entries.length

/-- The keys, in increasing order. -/
def keys (t : Table κ α) : List κ := t.entries.map Prod.fst

@[simp] theorem entries_empty : (empty : Table κ α).entries = [] := rfl

/-! ## Inserting -/

/-- Puts the entry at its place, over an entry of the same key. -/
def place (k : κ) (a : α) : List (κ × α) → List (κ × α)
  | [] => [(k, a)]
  | (j, b) :: rest => match compare k j with
    | .lt => (k, a) :: (j, b) :: rest
    | .eq => (k, a) :: rest
    | .gt => (j, b) :: place k a rest

/-- Placing adds no key but the placed one. -/
theorem mem_place {k : κ} {a : α} {e : κ × α} {l : List (κ × α)} (h : e ∈ place k a l) :
    e = (k, a) ∨ e ∈ l := by
  induction l with
  | nil => simpa [place] using h
  | cons x rest ih =>
    obtain ⟨j, b⟩ := x
    rw [place] at h
    split at h
    · simpa using h
    · rcases List.mem_cons.1 h with h | h
      · exact .inl h
      · exact .inr (List.mem_cons_of_mem _ h)
    · rcases List.mem_cons.1 h with h | h
      · exact .inr (h ▸ List.mem_cons_self ..)
      · rcases ih h with h | h
        · exact .inl h
        · exact .inr (List.mem_cons_of_mem _ h)

/-- Placing keeps the order. -/
theorem ordered_place [TransOrd κ] [LawfulEqOrd κ] (k : κ) (a : α) {l : List (κ × α)}
    (h : l.Pairwise fun a b => compare a.1 b.1 = .lt) :
    (place k a l).Pairwise fun a b => compare a.1 b.1 = .lt := by
  induction l with
  | nil => exact .cons (by simp) .nil
  | cons x rest ih =>
    obtain ⟨j, b⟩ := x
    obtain ⟨hj, hrest⟩ := List.pairwise_cons.1 h
    rw [place]
    split <;> rename_i hc
    · refine .cons (fun e he => ?_) h
      rcases List.mem_cons.1 he with rfl | he
      · exact hc
      · exact Std.TransCmp.lt_trans hc (hj e he)
    · obtain rfl := Std.LawfulEqCmp.eq_of_compare hc
      exact .cons hj hrest
    · refine .cons (fun e he => ?_) (ih hrest)
      rcases mem_place he with rfl | he
      · exact Std.OrientedCmp.lt_of_gt hc
      · exact hj e he

/-- The table with `a` under `k`; an earlier value of `k` is replaced. -/
def insert [TransOrd κ] [LawfulEqOrd κ] (t : Table κ α) (k : κ) (a : α) : Table κ α :=
  ⟨place k a t.entries, ordered_place k a t.ordered⟩

/-- The table of the pairs; of two pairs with one key the later wins. -/
def ofList [TransOrd κ] [LawfulEqOrd κ] (l : List (κ × α)) : Table κ α :=
  l.foldl (fun t e => t.insert e.1 e.2) empty

/-! ## Looking up -/

variable [DecidableEq κ]

/-- The value next to the first occurrence of the key. -/
def lookup (k : κ) : List (κ × α) → Option α
  | [] => none
  | (j, a) :: rest => if k = j then some a else lookup k rest

/-- The value stored under `k`. -/
def get? (t : Table κ α) (k : κ) : Option α := lookup k t.entries

/-- Whether something is stored under `k`. -/
def contains (t : Table κ α) (k : κ) : Bool := (t.get? k).isSome

@[simp] theorem get?_empty (k : κ) : (empty : Table κ α).get? k = none := rfl

/-! ## Keeping entries: `filter` and `erase` -/

/-- The entries that pass the test. -/
def filter (keep : κ → α → Bool) (t : Table κ α) : Table κ α :=
  ⟨t.entries.filter fun e => keep e.1 e.2, t.ordered.filter _⟩

/-- The table without `k`. -/
def erase (t : Table κ α) (k : κ) : Table κ α := t.filter fun j _ => decide (j ≠ k)

variable [LawfulEqOrd κ]

/-! ## Laws -/

theorem lookup_place (k j : κ) (a : α) (l : List (κ × α)) :
    lookup j (place k a l) = if j = k then some a else lookup j l := by
  induction l with
  | nil => simp [place, lookup]
  | cons x rest ih =>
    obtain ⟨i, b⟩ := x
    rw [place]
    split <;> rename_i hc
    · simp [lookup]
    · obtain rfl := Std.LawfulEqCmp.eq_of_compare hc
      by_cases h : j = k <;> simp [lookup, h]
    · by_cases h : j = i
      · subst h
        have : j ≠ k := by
          rintro rfl
          simp at hc
        simp [lookup, this]
      · simp [lookup, h, ih]

/-- **Inserting** changes the look-up of its own key only. -/
@[simp] theorem get?_insert [TransOrd κ] (t : Table κ α) (k j : κ) (a : α) :
    (t.insert k a).get? j = if j = k then some a else t.get? j :=
  lookup_place k j a t.entries

theorem lookup_eq_some {k : κ} {a : α} {l : List (κ × α)}
    (h : l.Pairwise fun a b => compare a.1 b.1 = .lt) :
    lookup k l = some a ↔ (k, a) ∈ l := by
  induction l with
  | nil => simp [lookup]
  | cons x rest ih =>
    obtain ⟨j, b⟩ := x
    obtain ⟨hj, hrest⟩ := List.pairwise_cons.1 h
    by_cases hk : k = j
    · subst hk
      simp only [lookup, if_true, Option.some.injEq, List.mem_cons, Prod.mk.injEq, true_and]
      constructor
      · exact fun h => .inl h.symm
      · rintro (h | h)
        · exact h.symm
        · exact absurd (hj _ h) (by simp)
    · simp [lookup, hk, ih hrest]

/-- **Membership**: an entry is listed exactly when looking its key up finds it. -/
theorem get?_eq_some_iff (t : Table κ α) {k : κ} {a : α} :
    t.get? k = some a ↔ (k, a) ∈ t.entries :=
  lookup_eq_some t.ordered

/-- **Filtering** keeps exactly the look-ups that pass. -/
theorem get?_filter (t : Table κ α) (keep : κ → α → Bool) (k : κ) :
    (t.filter keep).get? k = (t.get? k).filter (keep k) := by
  apply Option.ext
  intro a
  rw [get?_eq_some_iff, filter, List.mem_filter, ← get?_eq_some_iff, Option.filter_eq_some_iff]

/-- **Erasing** empties the look-up of its own key only. -/
@[simp] theorem get?_erase (t : Table κ α) (k j : κ) :
    (t.erase k).get? j = if j = k then none else t.get? j := by
  rw [erase, get?_filter]
  by_cases h : j = k
  · subst h
    simp
  · cases t.get? j <;> simp [h]

/-- **Extensionality**: a table is its look-ups. -/
theorem ext_get? [TransOrd κ] {s t : Table κ α} (h : ∀ k, s.get? k = t.get? k) : s = t := by
  have mem : ∀ e, e ∈ s.entries ↔ e ∈ t.entries := fun ⟨k, a⟩ => by
    rw [← get?_eq_some_iff, ← get?_eq_some_iff, h]
  obtain ⟨l, hl⟩ := s
  obtain ⟨m, hm⟩ := t
  have : l = m := by
    clear h
    induction l generalizing m with
    | nil =>
      cases m with
      | nil => rfl
      | cons y _ => exact absurd ((mem y).2 (List.mem_cons_self ..)) (by simp)
    | cons x l ih =>
      cases m with
      | nil => exact absurd ((mem x).1 (List.mem_cons_self ..)) (by simp)
      | cons y m =>
        obtain ⟨hx, hl'⟩ := List.pairwise_cons.1 hl
        obtain ⟨hy, hm'⟩ := List.pairwise_cons.1 hm
        have hxy : x = y := by
          rcases List.mem_cons.1 ((mem x).1 (List.mem_cons_self ..)) with h | h
          · exact h
          · rcases List.mem_cons.1 ((mem y).2 (List.mem_cons_self ..)) with h' | h'
            · exact h'.symm
            · have := Std.TransCmp.lt_trans (hx y h') (hy x h)
              simp at this
        subst hxy
        congr 1
        refine ih hl' m hm' fun e => ⟨fun he => ?_, fun he => ?_⟩
        · rcases List.mem_cons.1 ((mem e).1 (List.mem_cons_of_mem _ he)) with h | h
          · subst h
            have := hx _ he
            simp at this
          · exact h
        · rcases List.mem_cons.1 ((mem e).2 (List.mem_cons_of_mem _ he)) with h | h
          · subst h
            have := hy _ he
            simp at this
          · exact h
  subst this
  rfl

end Table

end Idempotence
