/-
  Property bags — typed state that extensions attach to a context or a phase.

  A property key names a slot by namespace, name and TYPE, so two keys of one name and different types
  never meet.  A bag is used in a state monad, because an initialiser may itself use the bag: it runs
  between two looks at the slot, and what it put there meanwhile wins over its own result.  The state
  stands over any monad `m`, in which an initialiser may have effects of its own.

  The types are the codes of a universe `Value : τ → Type` that the user of the bag chooses.
-/
import Idempotence.Text.Quoted

namespace Idempotence

/-- **A typed property key.** -/
structure PropertyKey {τ : Type} (type : τ) where
  scope : String
  name : String
  deriving DecidableEq, Repr

/-- The name of the slot: namespace and name, separated by a dot. -/
def PropertyKey.qualifiedName {τ : Type} {type : τ} (key : PropertyKey type) : String :=
  s!"{key.scope}.{key.name}"

/-- The text for developers. -/
def PropertyKey.debugText {τ : Type} {type : τ} (key : PropertyKey type) : String :=
  s!"PropertyKey({key.qualifiedName})"

/-- One slot of a bag. -/
structure PropertySlot {τ : Type} (Value : τ → Type) where
  name : String
  type : τ
  value : Value type

/-- **A bag of typed properties**, at most one slot for a name and a type. -/
structure PropertyBag {τ : Type} (Value : τ → Type) where
  slots : List (PropertySlot Value)

namespace PropertyBag

variable {τ : Type} {Value : τ → Type} [DecidableEq τ] {t : τ} {β ε : Type} {m : Type → Type} [Monad m]

instance : Inhabited (PropertyBag Value) := ⟨⟨[]⟩⟩

/-- The value of the slot of that name and type. -/
def find (name : String) (t : τ) : List (PropertySlot Value) → Option (Value t)
  | [] => none
  | s :: rest =>
    if s.name = name then
      if h : s.type = t then some (h ▸ s.value) else find name t rest
    else find name t rest

/-- The slots with the value put into the slot of that name and type. -/
def put (name : String) (t : τ) (v : Value t) : List (PropertySlot Value) → List (PropertySlot Value)
  | [] => [⟨name, t, v⟩]
  | s :: rest => if s.name = name ∧ s.type = t then ⟨name, t, v⟩ :: rest else s :: put name t v rest

/-- The slots without the slot of that name and type. -/
def drop (name : String) (t : τ) (slots : List (PropertySlot Value)) : List (PropertySlot Value) :=
  slots.filter fun s => !(s.name = name ∧ s.type = t)

/-- The value under a key, if there is one. -/
def get? (bag : PropertyBag Value) (key : PropertyKey t) : Option (Value t) :=
  find key.qualifiedName t bag.slots

/-- Whether there is a value under a key. -/
def contains (bag : PropertyBag Value) (key : PropertyKey t) : Bool := (bag.get? key).isSome

/-- The bag with the value under the key. -/
def set (bag : PropertyBag Value) (key : PropertyKey t) (v : Value t) : PropertyBag Value :=
  ⟨put key.qualifiedName t v bag.slots⟩

/-- The bag without a value under the key. -/
def erase (bag : PropertyBag Value) (key : PropertyKey t) : PropertyBag Value :=
  ⟨drop key.qualifiedName t bag.slots⟩

/-- The names of the slots. -/
def names (bag : PropertyBag Value) : List String := bag.slots.map (·.name)

/-- The text for developers. -/
def debugText (bag : PropertyBag Value) : String :=
  "PropertyBag \x7b keys: " ++ Text.bracketed (bag.names.map Text.quote) ++ " \x7d"

/-! ## Using a bag -/

/-- **Changes the value under a key**, initialising it first where there is none.  Should the
    initialiser fill the slot itself, its result is dropped and the slot's value is changed. -/
def update (key : PropertyKey t) (init : StateT (PropertyBag Value) m (Value t))
    (f : Value t → β × Value t) : StateT (PropertyBag Value) m β := do
  match (← get).get? key with
  | some v =>
    let (b, v) := f v
    modify (·.set key v)
    return b
  | none =>
    let fresh ← init
    let (b, v) := f (((← get).get? key).getD fresh)
    modify (·.set key v)
    return b

/-- The value under a key, initialised on first use. -/
def getOrInit (key : PropertyKey t) (init : StateT (PropertyBag Value) m (Value t)) :
    StateT (PropertyBag Value) m (Value t) :=
  update key init fun v => (v, v)

/-- The value under a key, initialised on first use unless the initialiser fails. -/
def tryGetOrInit (key : PropertyKey t) (init : StateT (PropertyBag Value) m (Except ε (Value t))) :
    StateT (PropertyBag Value) m (Except ε (Value t)) := do
  match (← get).get? key with
  | some v => return .ok v
  | none => match ← init with
    | .error e => return .error e
    | .ok v => return .ok (← update key (pure v) fun v => (v, v))

/-- Takes the value under a key out of the bag. -/
def remove (key : PropertyKey t) : StateT (PropertyBag Value) m (Option (Value t)) := do
  let v := (← get).get? key
  modify (·.erase key)
  return v

/-! ## Laws -/

theorem find_put_self (name : String) (t : τ) (v : Value t) (slots : List (PropertySlot Value)) :
    find name t (put name t v slots) = some v := by
  induction slots with
  | nil => simp [put, find]
  | cons s rest ih =>
    rw [put]
    split
    · simp [find]
    · rename_i h
      by_cases hn : s.name = name
      · have ht : ¬s.type = t := fun ht => h ⟨hn, ht⟩
        simp [find, ht, ih]
      · simp [find, hn, ih]

theorem find_put_ne {name name' : String} {t t' : τ} (h : name ≠ name' ∨ t ≠ t') (v : Value t)
    (slots : List (PropertySlot Value)) : find name' t' (put name t v slots) = find name' t' slots := by
  induction slots with
  | nil =>
    by_cases hn : name = name'
    · have ht : t ≠ t' := h.resolve_left fun h => h hn
      simp [put, find, ht]
    · simp [put, find, hn]
  | cons s rest ih =>
    rw [put]
    split
    · rename_i hs
      obtain ⟨rfl, rfl⟩ := hs
      by_cases hn : s.name = name'
      · have ht : s.type ≠ t' := h.resolve_left fun h => h hn
        simp [find, hn, ht]
      · simp [find, hn]
    · simp only [find, ih]

/-- **Setting** a property and then looking finds what was set. -/
@[simp] theorem get?_set_self (bag : PropertyBag Value) (key : PropertyKey t) (v : Value t) :
    (bag.set key v).get? key = some v := find_put_self ..

/-- A property of another type is as it was. -/
theorem get?_set_of_ne (bag : PropertyBag Value) {t' : τ} (h : t ≠ t') (key : PropertyKey t)
    (key' : PropertyKey t') (v : Value t) : (bag.set key v).get? key' = bag.get? key' :=
  find_put_ne (.inr h) v bag.slots

/-- **Changing** a property that has a plain initial value. -/
theorem run_update [LawfulMonad m] (key : PropertyKey t) (fresh : Value t) (f : Value t → β × Value t)
    (bag : PropertyBag Value) : (update key (pure fresh) f : StateT (PropertyBag Value) m β).run bag =
      pure ((f ((bag.get? key).getD fresh)).1, bag.set key (f ((bag.get? key).getD fresh)).2) := by
  unfold update
  cases h : bag.get? key <;> simp [h]

end PropertyBag

end Idempotence
