/-
  Initialisers of properties — what calls with initialisers make of the slots of a bag, whatever the initialisers do.

  A slot is looked up, let go of while the initialiser runs, and looked up again.  Meanwhile the initialiser
  may fill the slot, change it, empty it or initialise it, and so may the initialisers that it calls for.

  1. **Deeds** — a run in which everyone notes what they do: an initialiser that it is asked and what it
     offers, a call what its function was given and what it made of it (`BagUse.noted`).

  2. **The law of calls** — how a use of a bag must go, call by call (`BagUse.Runs`).  Every run goes like
     this, and noting changes none (`BagUse.exists_tells`).

  3. **No update is lost** — a slot that is neither set nor emptied, and that every update makes longer by
     one, ends as long as the first value that was in it and as many updates as there were
     (`BagUse.no_update_lost`).
-/
import Idempotence.Proofs.PropertyNames

namespace Idempotence

variable {τ : Type} {t t' : τ} {Value : τ → Type} {α β ε : Type}

/-! ## Deeds -/

/-- **What is done at a slot**, by a call or by its initialiser. -/
inductive SlotDeed (Value : τ → Type) where
  | set {t : τ} (key : PropertyKey t) (v : Value t)
  | removed {t : τ} (key : PropertyKey t)
  /-- An initialiser begins. -/
  | asked {t : τ} (key : PropertyKey t)
  /-- An initialiser has come to a value. -/
  | offered {t : τ} (key : PropertyKey t) (v : Value t)
  /-- An initialiser has failed. -/
  | refused {t : τ} (key : PropertyKey t)
  /-- A call that initialises answers with a value. -/
  | found {t : τ} (key : PropertyKey t) (x : Value t)
  /-- The function of an update is given one value and makes it another. -/
  | updated {t : τ} (key : PropertyKey t) (x y : Value t)

/-- Uses of a bag whose deeds are noted. -/
abbrev Journaled (Value : τ → Type) := StateT (PropertyBag Value) (StateM (List (SlotDeed Value)))

namespace SlotDeed

/-- Notes a deed. -/
def note (d : SlotDeed Value) : Journaled Value Unit := StateT.lift (modify (· ++ [d]))

/-- An initialiser that notes when it begins and what it comes to. -/
def asking (key : PropertyKey t) (init : Journaled Value (Value t)) : Journaled Value (Value t) := do
  note (.asked key)
  let v ← init
  note (.offered key v)
  return v

/-- **Asking an initialiser** that may fail. -/
def tryAsking (key : PropertyKey t) (init : Journaled Value (Except ε (Value t))) :
    Journaled Value (Except ε (Value t)) := do
  note (.asked key)
  match ← init with
  | .error e =>
    note (.refused key)
    return .error e
  | .ok v =>
    note (.offered key v)
    return .ok v

/-- A run goes on from what its first part has come to. -/
theorem run_bind_of_eq {first : Journaled Value α} {next : α → Journaled Value β}
    {bag bag' : PropertyBag Value} {log log' : List (SlotDeed Value)} {a : α}
    (h : (first.run bag).run log = ((a, bag'), log')) :
    ((first >>= next).run bag).run log = ((next a).run bag').run log' := by
  rw [StateT.run_bind, StateT.run_bind, h]
  rfl

theorem run_note (d : SlotDeed Value) (bag : PropertyBag Value) (log : List (SlotDeed Value)) :
    ((note d).run bag).run log = (((), bag), log ++ [d]) := rfl

section

variable {key : PropertyKey t} {bag mid : PropertyBag Value} {log during : List (SlotDeed Value)}

/-- What an initialiser notes stands between its own two notes. -/
theorem run_asking {init : Journaled Value (Value t)} {fresh : Value t}
    (h : (init.run bag).run (log ++ [.asked key]) = ((fresh, mid), log ++ [.asked key] ++ during)) :
    ((asking key init).run bag).run log =
      ((fresh, mid), log ++ (.asked key :: during ++ [.offered key fresh])) := by
  rw [asking, run_bind_of_eq (run_note _ bag log), run_bind_of_eq h, run_bind_of_eq (run_note _ mid _)]
  simp [StateT.run_pure]
  rfl

theorem run_tryAsking_ok {init : Journaled Value (Except ε (Value t))} {fresh : Value t}
    (h : (init.run bag).run (log ++ [.asked key]) = ((.ok fresh, mid), log ++ [.asked key] ++ during)) :
    ((tryAsking key init).run bag).run log =
      ((.ok fresh, mid), log ++ (.asked key :: during ++ [.offered key fresh])) := by
  rw [tryAsking, run_bind_of_eq (run_note _ bag log), run_bind_of_eq h, run_bind_of_eq (run_note _ mid _)]
  simp [StateT.run_pure]
  rfl

theorem run_tryAsking_error {init : Journaled Value (Except ε (Value t))} {e : ε}
    (h : (init.run bag).run (log ++ [.asked key]) = ((.error e, mid), log ++ [.asked key] ++ during)) :
    ((tryAsking key init).run bag).run log =
      ((.error e, mid), log ++ (.asked key :: during ++ [.refused key])) := by
  rw [tryAsking, run_bind_of_eq (run_note _ bag log), run_bind_of_eq h, run_bind_of_eq (run_note _ mid _)]
  simp [StateT.run_pure]
  rfl

end

end SlotDeed

namespace BagUse

variable [DecidableEq τ]

/-- **What is done to the bag, and noted.**  The function of an update answers what it was given, too. -/
def noted {α : Type} : BagUse Value α → Journaled Value α
  | done a => pure a
  | get key resume => do (resume ((← MonadState.get).get? key)).noted
  | contains key resume => do (resume ((← MonadState.get).contains key)).noted
  | set key v resume => do
    modify (·.set key v)
    SlotDeed.note (.set key v)
    resume.noted
  | remove key resume => do
    let v ← PropertyBag.remove key
    SlotDeed.note (.removed key)
    (resume v).noted
  | update key init f resume => do
    let (x, b, y) ← PropertyBag.update key (SlotDeed.asking key init.noted) fun x => ((x, f x), (f x).2)
    SlotDeed.note (.updated key x y)
    (resume b).noted
  | getOrInit key init resume => do
    let x ← PropertyBag.getOrInit key (SlotDeed.asking key init.noted)
    SlotDeed.note (.found key x)
    (resume x).noted
  | tryGetOrInit key init resume => do
    match ← PropertyBag.tryGetOrInit key (SlotDeed.tryAsking key init.noted) with
    | .error e => (resume (.error e)).noted
    | .ok x =>
      SlotDeed.note (.found key x)
      (resume (.ok x)).noted

/-! ## The law of calls -/

/-- **How a use of a bag goes** from one bag to another, by which deeds and to which answer.

    The function of a call is applied once: to what is in the slot when the call begins or, if there is
    nothing, to what is there when the initialiser is done or, if there still is nothing, to what the
    initialiser offers.  An initialiser runs in a call that finds its slot empty, and once.  If it fails,
    the call does nothing more. -/
inductive Runs : {α : Type} → BagUse Value α → PropertyBag Value → List (SlotDeed Value) → α →
    PropertyBag Value → Prop
  | done {α : Type} (a : α) (bag : PropertyBag Value) : Runs (.done a) bag [] a bag
  | get {α : Type} {t : τ} {key : PropertyKey t} {resume : Option (Value t) → BagUse Value α}
      {bag bag' : PropertyBag Value} {deeds : List (SlotDeed Value)} {a : α}
      (hrest : Runs (resume (bag.get? key)) bag deeds a bag') : Runs (.get key resume) bag deeds a bag'
  | contains {α : Type} {t : τ} {key : PropertyKey t} {resume : Bool → BagUse Value α}
      {bag bag' : PropertyBag Value} {deeds : List (SlotDeed Value)} {a : α}
      (hrest : Runs (resume (bag.get? key).isSome) bag deeds a bag') :
      Runs (.contains key resume) bag deeds a bag'
  | set {α : Type} {t : τ} {key : PropertyKey t} {v : Value t} {resume : BagUse Value α}
      {bag bag' : PropertyBag Value} {deeds : List (SlotDeed Value)} {a : α}
      (hrest : Runs resume (bag.set key v) deeds a bag') :
      Runs (.set key v resume) bag (.set key v :: deeds) a bag'
  | remove {α : Type} {t : τ} {key : PropertyKey t} {resume : Option (Value t) → BagUse Value α}
      {bag bag' : PropertyBag Value} {deeds : List (SlotDeed Value)} {a : α}
      (hrest : Runs (resume (bag.get? key)) (bag.erase key) deeds a bag') :
      Runs (.remove key resume) bag (.removed key :: deeds) a bag'
  | update_filled {α β : Type} {t : τ} {key : PropertyKey t} {init : BagUse Value (Value t)}
      {f : Value t → β × Value t} {resume : β → BagUse Value α} {bag bag' : PropertyBag Value}
      {deeds : List (SlotDeed Value)} {a : α} {x : Value t} (hslot : bag.get? key = some x)
      (hrest : Runs (resume (f x).1) (bag.set key (f x).2) deeds a bag') :
      Runs (.update key init f resume) bag (.updated key x (f x).2 :: deeds) a bag'
  | update_empty {α β : Type} {t : τ} {key : PropertyKey t} {init : BagUse Value (Value t)}
      {f : Value t → β × Value t} {resume : β → BagUse Value α} {bag mid bag' : PropertyBag Value}
      {during deeds : List (SlotDeed Value)} {a : α} {fresh x : Value t} (hslot : bag.get? key = none)
      (hinit : Runs init bag during fresh mid) (hx : x = (mid.get? key).getD fresh)
      (hrest : Runs (resume (f x).1) (mid.set key (f x).2) deeds a bag') :
      Runs (.update key init f resume) bag
        (.asked key :: during ++ .offered key fresh :: .updated key x (f x).2 :: deeds) a bag'
  | getOrInit_filled {α : Type} {t : τ} {key : PropertyKey t} {init : BagUse Value (Value t)}
      {resume : Value t → BagUse Value α} {bag bag' : PropertyBag Value} {deeds : List (SlotDeed Value)} {a : α}
      {x : Value t} (hslot : bag.get? key = some x) (hrest : Runs (resume x) bag deeds a bag') :
      Runs (.getOrInit key init resume) bag (.found key x :: deeds) a bag'
  | getOrInit_empty {α : Type} {t : τ} {key : PropertyKey t} {init : BagUse Value (Value t)}
      {resume : Value t → BagUse Value α} {bag mid bag' : PropertyBag Value}
      {during deeds : List (SlotDeed Value)} {a : α} {fresh x : Value t} (hslot : bag.get? key = none)
      (hinit : Runs init bag during fresh mid) (hx : x = (mid.get? key).getD fresh)
      (hrest : Runs (resume x) (mid.set key x) deeds a bag') :
      Runs (.getOrInit key init resume) bag
        (.asked key :: during ++ .offered key fresh :: .found key x :: deeds) a bag'
  | tryGetOrInit_filled {α ε : Type} {t : τ} {key : PropertyKey t}
      {init : BagUse Value (Except ε (Value t))} {resume : Except ε (Value t) → BagUse Value α}
      {bag bag' : PropertyBag Value} {deeds : List (SlotDeed Value)} {a : α} {x : Value t}
      (hslot : bag.get? key = some x) (hrest : Runs (resume (.ok x)) bag deeds a bag') :
      Runs (.tryGetOrInit key init resume) bag (.found key x :: deeds) a bag'
  | tryGetOrInit_empty {α ε : Type} {t : τ} {key : PropertyKey t}
      {init : BagUse Value (Except ε (Value t))} {resume : Except ε (Value t) → BagUse Value α}
      {bag mid bag' : PropertyBag Value} {during deeds : List (SlotDeed Value)} {a : α} {fresh x : Value t}
      (hslot : bag.get? key = none) (hinit : Runs init bag during (.ok fresh) mid)
      (hx : x = (mid.get? key).getD fresh) (hrest : Runs (resume (.ok x)) (mid.set key x) deeds a bag') :
      Runs (.tryGetOrInit key init resume) bag
        (.asked key :: during ++ .offered key fresh :: .found key x :: deeds) a bag'
  | tryGetOrInit_failed {α ε : Type} {t : τ} {key : PropertyKey t}
      {init : BagUse Value (Except ε (Value t))} {resume : Except ε (Value t) → BagUse Value α}
      {bag mid bag' : PropertyBag Value} {during deeds : List (SlotDeed Value)} {a : α} {e : ε}
      (hslot : bag.get? key = none) (hinit : Runs init bag during (.error e) mid)
      (hrest : Runs (resume (.error e)) mid deeds a bag') :
      Runs (.tryGetOrInit key init resume) bag (.asked key :: during ++ .refused key :: deeds) a bag'

end BagUse

/-! ## Every run goes by the law -/

namespace PropertyBag

variable [DecidableEq τ]

/-- Putting a value where it is changes nothing. -/
theorem put_of_find {name : String} {v : Value t} {slots : List (PropertySlot Value)}
    (h : find name t slots = some v) : put name t v slots = slots := by
  induction slots with
  | nil => cases h
  | cons s rest ih =>
    rw [find] at h
    rw [put]
    split at h
    · next hname =>
      split at h
      · next htype =>
        obtain ⟨sname, stype, sval⟩ := s
        obtain rfl : sname = name := hname
        obtain rfl : stype = t := htype
        obtain rfl : sval = v := Option.some.inj h
        rw [if_pos ⟨rfl, rfl⟩]
      · next htype => rw [if_neg fun hs => htype hs.2, ih h]
    · next hname => rw [if_neg fun hs => hname hs.1, ih h]

theorem set_of_get? {key : PropertyKey t} {bag : PropertyBag Value} {v : Value t}
    (h : bag.get? key = some v) : bag.set key v = bag := by
  rw [set, put_of_find h]

end PropertyBag

namespace BagUse

variable [DecidableEq τ]

/-- **A use that goes by the law**, noted or not, with one answer and one bag in the end. -/
structure Tells (use : BagUse Value α) (bag : PropertyBag Value) (deeds : List (SlotDeed Value)) (a : α)
    (bag' : PropertyBag Value) : Prop where
  act : use.act.run bag = (a, bag')
  noted : ∀ log, (use.noted.run bag).run log = ((a, bag'), log ++ deeds)
  runs : use.Runs bag deeds a bag'

namespace Tells

variable {key : PropertyKey t} {bag mid bag' : PropertyBag Value} {during deeds : List (SlotDeed Value)} {a : α}
  {fresh x : Value t}

theorem set {v : Value t} {resume : BagUse Value α} (hrest : resume.Tells (bag.set key v) deeds a bag') :
    (BagUse.set key v resume).Tells bag (.set key v :: deeds) a bag' where
  act := hrest.act
  noted log := (hrest.noted _).trans (by rw [List.append_assoc]; rfl)
  runs := .set hrest.runs

theorem remove {resume : Option (Value t) → BagUse Value α}
    (hrest : (resume (bag.get? key)).Tells (bag.erase key) deeds a bag') :
    (BagUse.remove key resume).Tells bag (.removed key :: deeds) a bag' where
  act := hrest.act
  noted log := (hrest.noted _).trans (by rw [List.append_assoc]; rfl)
  runs := .remove hrest.runs

section

variable {init : BagUse Value (Value t)}

/-- Looking again, once the initialiser has offered a value. -/
theorem run_update_asking {f : Value t → β × Value t} (hslot : bag.get? key = none)
    (hinit : init.Tells bag during fresh mid) (hx : x = (mid.get? key).getD fresh)
    (log : List (SlotDeed Value)) :
    ((PropertyBag.update key (SlotDeed.asking key init.noted) f).run bag).run log =
      (((f x).1, mid.set key (f x).2), log ++ (.asked key :: during ++ [.offered key fresh])) := by
  rw [PropertyBag.run_update_of_none key _ f hslot, StateT.run_bind, SlotDeed.run_asking (hinit.noted _), hx]
  rfl

theorem update_filled {f : Value t → β × Value t} {resume : β → BagUse Value α}
    (hslot : bag.get? key = some x) (hrest : (resume (f x).1).Tells (bag.set key (f x).2) deeds a bag') :
    (BagUse.update key init f resume).Tells bag (.updated key x (f x).2 :: deeds) a bag' where
  act := by
    rw [BagUse.act, StateT.run_bind, PropertyBag.run_update_of_some key init.act f hslot]
    exact hrest.act
  noted log := by
    rw [BagUse.noted, StateT.run_bind, PropertyBag.run_update_of_some key _ _ hslot, pure_bind,
      SlotDeed.run_bind_of_eq (SlotDeed.run_note _ _ log), hrest.noted, List.append_assoc]
    rfl
  runs := .update_filled hslot hrest.runs

theorem update_empty {f : Value t → β × Value t} {resume : β → BagUse Value α}
    (hslot : bag.get? key = none) (hinit : init.Tells bag during fresh mid)
    (hx : x = (mid.get? key).getD fresh)
    (hrest : (resume (f x).1).Tells (mid.set key (f x).2) deeds a bag') :
    (BagUse.update key init f resume).Tells bag
      (.asked key :: during ++ .offered key fresh :: .updated key x (f x).2 :: deeds) a bag' where
  act := by
    rw [BagUse.act, StateT.run_bind, PropertyBag.run_update_of_none key init.act f hslot, hinit.act]
    subst hx
    exact hrest.act
  noted log := by
    rw [BagUse.noted, SlotDeed.run_bind_of_eq (run_update_asking hslot hinit hx log),
      SlotDeed.run_bind_of_eq (SlotDeed.run_note _ _ _), hrest.noted]
    simp
  runs := .update_empty hslot hinit.runs hx hrest.runs

theorem getOrInit_filled {resume : Value t → BagUse Value α} (hslot : bag.get? key = some x)
    (hrest : (resume x).Tells bag deeds a bag') :
    (BagUse.getOrInit key init resume).Tells bag (.found key x :: deeds) a bag' where
  act := by
    rw [BagUse.act, PropertyBag.getOrInit, StateT.run_bind,
      PropertyBag.run_update_of_some key init.act _ hslot, PropertyBag.set_of_get? hslot]
    exact hrest.act
  noted log := by
    rw [BagUse.noted, PropertyBag.getOrInit, StateT.run_bind, PropertyBag.run_update_of_some key _ _ hslot,
      pure_bind, PropertyBag.set_of_get? hslot, SlotDeed.run_bind_of_eq (SlotDeed.run_note _ _ log), hrest.noted,
      List.append_assoc]
    rfl
  runs := .getOrInit_filled hslot hrest.runs

theorem getOrInit_empty {resume : Value t → BagUse Value α} (hslot : bag.get? key = none)
    (hinit : init.Tells bag during fresh mid) (hx : x = (mid.get? key).getD fresh)
    (hrest : (resume x).Tells (mid.set key x) deeds a bag') :
    (BagUse.getOrInit key init resume).Tells bag
      (.asked key :: during ++ .offered key fresh :: .found key x :: deeds) a bag' where
  act := by
    rw [BagUse.act, PropertyBag.getOrInit, StateT.run_bind,
      PropertyBag.run_update_of_none key init.act _ hslot, hinit.act]
    subst hx
    exact hrest.act
  noted log := by
    rw [BagUse.noted, PropertyBag.getOrInit, SlotDeed.run_bind_of_eq (run_update_asking hslot hinit hx log),
      SlotDeed.run_bind_of_eq (SlotDeed.run_note _ _ _), hrest.noted]
    simp
  runs := .getOrInit_empty hslot hinit.runs hx hrest.runs

end

section

variable {init : BagUse Value (Except ε (Value t))} {resume : Except ε (Value t) → BagUse Value α}

theorem tryGetOrInit_filled (hslot : bag.get? key = some x)
    (hrest : (resume (.ok x)).Tells bag deeds a bag') :
    (BagUse.tryGetOrInit key init resume).Tells bag (.found key x :: deeds) a bag' where
  act := by
    rw [BagUse.act, StateT.run_bind, PropertyBag.run_tryGetOrInit_of_some key init.act hslot]
    exact hrest.act
  noted log := by
    rw [BagUse.noted, StateT.run_bind, PropertyBag.run_tryGetOrInit_of_some key _ hslot, pure_bind]
    refine (SlotDeed.run_bind_of_eq (SlotDeed.run_note _ _ log)).trans ?_
    rw [hrest.noted, List.append_assoc]
    rfl
  runs := .tryGetOrInit_filled hslot hrest.runs

theorem tryGetOrInit_empty (hslot : bag.get? key = none) (hinit : init.Tells bag during (.ok fresh) mid)
    (hx : x = (mid.get? key).getD fresh) (hrest : (resume (.ok x)).Tells (mid.set key x) deeds a bag') :
    (BagUse.tryGetOrInit key init resume).Tells bag
      (.asked key :: during ++ .offered key fresh :: .found key x :: deeds) a bag' where
  act := by
    rw [BagUse.act, StateT.run_bind, PropertyBag.run_tryGetOrInit_of_none key init.act hslot, hinit.act]
    subst hx
    exact hrest.act
  noted log := by
    have hcall : ((PropertyBag.tryGetOrInit key (SlotDeed.tryAsking key init.noted)).run bag).run log =
        ((.ok x, mid.set key x), log ++ (.asked key :: during ++ [.offered key fresh])) := by
      rw [PropertyBag.run_tryGetOrInit_of_none key _ hslot, StateT.run_bind,
        SlotDeed.run_tryAsking_ok (hinit.noted _), hx]
      rfl
    rw [BagUse.noted, SlotDeed.run_bind_of_eq hcall]
    refine (SlotDeed.run_bind_of_eq (SlotDeed.run_note _ _ _)).trans ?_
    rw [hrest.noted]
    simp
  runs := .tryGetOrInit_empty hslot hinit.runs hx hrest.runs

theorem tryGetOrInit_failed {e : ε} (hslot : bag.get? key = none)
    (hinit : init.Tells bag during (.error e) mid) (hrest : (resume (.error e)).Tells mid deeds a bag') :
    (BagUse.tryGetOrInit key init resume).Tells bag (.asked key :: during ++ .refused key :: deeds) a
      bag' where
  act := by
    rw [BagUse.act, StateT.run_bind, PropertyBag.run_tryGetOrInit_of_none key init.act hslot, hinit.act]
    exact hrest.act
  noted log := by
    have hcall : ((PropertyBag.tryGetOrInit key (SlotDeed.tryAsking key init.noted)).run bag).run log =
        ((.error e, mid), log ++ (.asked key :: during ++ [.refused key])) := by
      rw [PropertyBag.run_tryGetOrInit_of_none key _ hslot, StateT.run_bind,
        SlotDeed.run_tryAsking_error (hinit.noted _)]
      rfl
    rw [BagUse.noted, SlotDeed.run_bind_of_eq hcall]
    refine (hrest.noted _).trans ?_
    simp
  runs := .tryGetOrInit_failed hslot hinit.runs hrest.runs

end

end Tells

/-- **Every use of every bag** goes by the law. -/
theorem exists_tells (use : BagUse Value α) (bag : PropertyBag Value) :
    ∃ deeds a bag', use.Tells bag deeds a bag' := by
  -- Initialisers are uses, too, so a call comes with a hypothesis for its initialiser.
  induction use generalizing bag with
  | done a => exact ⟨[], a, bag, rfl, fun log => by rw [List.append_nil]; rfl, .done a bag⟩
  | get key resume ih =>
    obtain ⟨deeds, a, bag', h⟩ := ih (bag.get? key) bag
    exact ⟨deeds, a, bag', h.act, h.noted, .get h.runs⟩
  | contains key resume ih =>
    obtain ⟨deeds, a, bag', h⟩ := ih (bag.contains key) bag
    exact ⟨deeds, a, bag', h.act, h.noted, .contains h.runs⟩
  | set key v resume ih =>
    obtain ⟨deeds, a, bag', h⟩ := ih (bag.set key v)
    exact ⟨_, a, bag', .set h⟩
  | remove key resume ih =>
    obtain ⟨deeds, a, bag', h⟩ := ih (bag.get? key) (bag.erase key)
    exact ⟨_, a, bag', .remove h⟩
  | update key init f resume ihinit ih =>
    cases hslot : bag.get? key with
    | some x =>
      obtain ⟨deeds, a, bag', h⟩ := ih (f x).1 (bag.set key (f x).2)
      exact ⟨_, a, bag', .update_filled hslot h⟩
    | none =>
      obtain ⟨during, fresh, mid, hinit⟩ := ihinit bag
      obtain ⟨deeds, a, bag', h⟩ := ih (f _).1 (mid.set key (f ((mid.get? key).getD fresh)).2)
      exact ⟨_, a, bag', .update_empty hslot hinit rfl h⟩
  | getOrInit key init resume ihinit ih =>
    cases hslot : bag.get? key with
    | some x =>
      obtain ⟨deeds, a, bag', h⟩ := ih x bag
      exact ⟨_, a, bag', .getOrInit_filled hslot h⟩
    | none =>
      obtain ⟨during, fresh, mid, hinit⟩ := ihinit bag
      obtain ⟨deeds, a, bag', h⟩ := ih _ (mid.set key ((mid.get? key).getD fresh))
      exact ⟨_, a, bag', .getOrInit_empty hslot hinit rfl h⟩
  | tryGetOrInit key init resume ihinit ih =>
    cases hslot : bag.get? key with
    | some x =>
      obtain ⟨deeds, a, bag', h⟩ := ih (.ok x) bag
      exact ⟨_, a, bag', .tryGetOrInit_filled hslot h⟩
    | none =>
      obtain ⟨during, result, mid, hinit⟩ := ihinit bag
      cases result with
      | error e =>
        obtain ⟨deeds, a, bag', h⟩ := ih (.error e) mid
        exact ⟨_, a, bag', .tryGetOrInit_failed hslot hinit h⟩
      | ok fresh =>
        obtain ⟨deeds, a, bag', h⟩ := ih (.ok _) (mid.set key ((mid.get? key).getD fresh))
        exact ⟨_, a, bag', .tryGetOrInit_empty hslot hinit rfl h⟩

end BagUse

/-! ## No update is lost -/

section

variable [DecidableEq τ]

/-- A value that is reached through one key, if that leads to the slot of another. -/
def PropertyKey.value? (key : PropertyKey t) (other : PropertyKey t') (x : Value t') : Option (Value t) :=
  if h : t' = t ∧ other.qualifiedName = key.qualifiedName then some (h.1 ▸ x) else none

theorem PropertyKey.value?_of_apart {key : PropertyKey t} {other : PropertyKey t'} (h : other.Apart key)
    (x : Value t') : key.value? other x = none :=
  dif_neg fun hsame => h.elim (· hsame.1) (· hsame.2)

theorem PropertyKey.value?_of_name_eq {key other : PropertyKey t}
    (h : other.qualifiedName = key.qualifiedName) (x : Value t) : key.value? other x = some x :=
  dif_pos ⟨rfl, h⟩

/-- Two keys lead to separate slots, or they are of one type and slot name. -/
theorem PropertyKey.apart_or_same (other : PropertyKey t') (key : PropertyKey t) :
    other.Apart key ∨ (t' = t ∧ other.qualifiedName = key.qualifiedName) := by
  by_cases htype : t' = t
  · by_cases hname : other.qualifiedName = key.qualifiedName
    · exact .inr ⟨htype, hname⟩
    · exact .inl (.inr hname)
  · exact .inl (.inl htype)

namespace SlotDeed

/-- What a call has taken for the value of a slot. -/
def taken (key : PropertyKey t) : SlotDeed Value → Option (Value t)
  | .found other x => key.value? other x
  | .updated other x _ => key.value? other x
  | _ => none

/-- Whether a deed is an update of a slot. -/
def updates (key : PropertyKey t) : SlotDeed Value → Bool
  | .updated other x _ => (key.value? other x).isSome
  | _ => false

/-- **A deed that at most makes what is in a slot longer by one**: the slot is neither set nor emptied, and
    an update adds an element. -/
def Lengthens (key : PropertyKey t) (len : Value t → Nat) : SlotDeed Value → Prop
  | .set other _ => other.Apart key
  | .removed other => other.Apart key
  | .updated other x y => (key.value? other y).map len = (key.value? other x).map (len · + 1)
  | _ => True

instance (key : PropertyKey t) (len : Value t → Nat) : (d : SlotDeed Value) → Decidable (d.Lengthens key len)
  | .set other _ => inferInstanceAs (Decidable (other.Apart key))
  | .removed other => inferInstanceAs (Decidable (other.Apart key))
  | .updated other x y =>
    inferInstanceAs (Decidable ((key.value? other y).map len = (key.value? other x).map (len · + 1)))
  | .asked _ => isTrue trivial
  | .offered _ _ => isTrue trivial
  | .refused _ => isTrue trivial
  | .found _ _ => isTrue trivial

/-- The first value that calls have taken for that of a slot. -/
def first (key : PropertyKey t) (deeds : List (SlotDeed Value)) : Option (Value t) := deeds.findSome? (·.taken key)

/-- How many updates of a slot there were. -/
def pushes (key : PropertyKey t) (deeds : List (SlotDeed Value)) : Nat := deeds.countP (·.updates key)

/-- **Deeds that account for the length** of what is in a slot: it is that of the first value in the slot and
    of one element for each update. -/
def Accounts (key : PropertyKey t) (len : Value t → Nat) (bag : PropertyBag Value)
    (deeds : List (SlotDeed Value)) (bag' : PropertyBag Value) : Prop :=
  (bag'.get? key).map len = ((bag.get? key).or (first key deeds)).map (len · + pushes key deeds)

/-- Whoever updates a slot has taken a value for its own. -/
theorem pushes_of_first {key : PropertyKey t} {deeds : List (SlotDeed Value)} (h : first key deeds = none) :
    pushes key deeds = 0 := by
  refine List.countP_eq_zero.mpr fun d hd hup => ?_
  have htaken := List.findSome?_eq_none_iff.mp h d hd
  cases d with
  | updated other x y => rw [updates, show key.value? other x = none from htaken] at hup; cases hup
  | _ => cases hup

namespace Accounts

variable {key : PropertyKey t} {len : Value t → Nat} {bag mid bag' : PropertyBag Value}
  {deeds more : List (SlotDeed Value)}

theorem nil (bag : PropertyBag Value) : Accounts key len bag [] bag := by
  simp [Accounts, first, pushes]

/-- One account after the other is an account. -/
theorem append (h : Accounts key len bag deeds mid) (h' : Accounts key len mid more bag') :
    Accounts key len bag (deeds ++ more) bag' := by
  unfold Accounts at h h' ⊢
  have hfirst : first key (deeds ++ more) = (first key deeds).or (first key more) := List.findSome?_append
  have hpushes : pushes key (deeds ++ more) = pushes key deeds + pushes key more := List.countP_append
  rw [hfirst, hpushes, ← Option.or_assoc]
  cases hold : (bag.get? key).or (first key deeds) with
  | none =>
    rw [hold, Option.map_none, Option.map_eq_none_iff] at h
    rw [h'.trans (by rw [h]), pushes_of_first (Option.or_eq_none_iff.mp hold).2, Nat.zero_add]
  | some u =>
    rw [hold, Option.map_some, Option.map_eq_some_iff] at h
    obtain ⟨w, hmid, hlen⟩ := h
    rw [h', hmid, Option.some_or, Option.some_or, Option.map_some, Option.map_some, hlen, Nat.add_assoc]

/-- What an initialiser notes of itself concerns no slot. -/
theorem quiet {d : SlotDeed Value} (htaken : d.taken key = none) (bag : PropertyBag Value) :
    Accounts key len bag [d] bag := by
  have hfirst : first key [d] = none := by rw [first, List.findSome?_cons, htaken]; rfl
  rw [Accounts, pushes_of_first hfirst, hfirst, Option.or_none]
  rfl

/-- A deed at another slot leaves this one. -/
theorem elsewhere {d : SlotDeed Value} (htaken : d.taken key = none) (hget : bag'.get? key = bag.get? key) :
    Accounts key len bag [d] bag' := by
  have h : Accounts key len bag [d] bag := quiet htaken bag
  rw [Accounts] at h ⊢
  rw [hget]
  exact h

variable {other : PropertyKey t'} {x y : Value t'}

/-- **An update** of what is in the slot, or of what has been offered for it. -/
theorem updated (hx : ∀ u, bag.get? other = some u → u = x)
    (hd : (SlotDeed.updated other x y).Lengthens key len) :
    Accounts key len bag [.updated other x y] (bag.set other y) := by
  rcases other.apart_or_same key with hapart | ⟨rfl, hname⟩
  · exact elsewhere (PropertyKey.value?_of_apart hapart x) (PropertyBag.get?_set_of_apart hapart bag y)
  · have hy : (bag.set other y).get? key = some y := by
      rw [PropertyBag.get?, ← hname]
      exact PropertyBag.get?_set_self bag other y
    have hold : (bag.get? key).or (some x) = some x := by
      cases hget : bag.get? key with
      | none => rfl
      | some u => rw [hx u (by rw [PropertyBag.get?, hname]; exact hget)]; rfl
    have hvalue : ∀ v : Value t', key.value? other v = some v := PropertyKey.value?_of_name_eq hname
    rw [Lengthens, hvalue, hvalue] at hd
    rw [Accounts, hy, hd]
    simp [first, taken, pushes, updates, hvalue, hold]

/-- **A value that is found** in the slot, or put into it as it has been offered. -/
theorem found (hx : ∀ u, bag.get? other = some u → u = x) :
    Accounts key len bag [.found other x] (bag.set other x) := by
  rcases other.apart_or_same key with hapart | ⟨rfl, hname⟩
  · exact elsewhere (PropertyKey.value?_of_apart hapart x) (PropertyBag.get?_set_of_apart hapart bag x)
  · have hnow : (bag.set other x).get? key = some x := by
      rw [PropertyBag.get?, ← hname]
      exact PropertyBag.get?_set_self bag other x
    have hold : (bag.get? key).or (some x) = some x := by
      cases hget : bag.get? key with
      | none => rfl
      | some u => rw [hx u (by rw [PropertyBag.get?, hname]; exact hget)]; rfl
    rw [Accounts, hnow]
    simp [first, taken, pushes, updates, PropertyKey.value?_of_name_eq hname, hold]

variable {mid' : PropertyBag Value} {during : List (SlotDeed Value)} {d : SlotDeed Value} {v : Value t'}

/-- A call that runs its initialiser, and then does one deed. -/
theorem initialised (hinit : Accounts key len bag during mid) (hdeed : Accounts key len mid [d] mid')
    (hrest : Accounts key len mid' deeds bag') :
    Accounts key len bag (.asked other :: during ++ .offered other v :: d :: deeds) bag' :=
  (quiet rfl bag).append (hinit.append ((quiet rfl mid).append (hdeed.append hrest)))

end Accounts

/-- Whatever is in a slot now, or has been offered for it, is what is taken. -/
theorem eq_of_get?_eq_some {other : PropertyKey t'} {bag : PropertyBag Value} {fresh x : Value t'}
    (hx : x = (bag.get? other).getD fresh) : ∀ u, bag.get? other = some u → u = x := by
  intro u hu
  rw [hx, hu, Option.getD_some]

end SlotDeed

namespace BagUse

open SlotDeed

variable {key : PropertyKey t} {len : Value t → Nat} {bag bag' : PropertyBag Value}
  {deeds : List (SlotDeed Value)} {a : α}

/-- **A use that goes by the law** accounts for the length of what is in a slot. -/
theorem Runs.accounts {use : BagUse Value α} (h : use.Runs bag deeds a bag')
    (hdeeds : ∀ d ∈ deeds, d.Lengthens key len) : Accounts key len bag deeds bag' := by
  induction h with
  | done a bag => exact .nil bag
  | get _ ih => exact ih hdeeds
  | contains _ ih => exact ih hdeeds
  | set _ ih =>
    have ⟨hfirst, hrest⟩ := List.forall_mem_cons.mp hdeeds
    exact (Accounts.elsewhere rfl (PropertyBag.get?_set_of_apart hfirst _ _)).append (ih hrest)
  | remove _ ih =>
    have ⟨hfirst, hrest⟩ := List.forall_mem_cons.mp hdeeds
    exact (Accounts.elsewhere rfl (PropertyBag.get?_erase_of_apart hfirst _)).append (ih hrest)
  | update_filled hslot _ ih =>
    have ⟨hfirst, hrest⟩ := List.forall_mem_cons.mp hdeeds
    exact (Accounts.updated (fun u hu => Option.some.inj (hu.symm.trans hslot)) hfirst).append (ih hrest)
  | update_empty _ _ hx _ ihinit ih =>
    have ⟨hbefore, hafter⟩ := List.forall_mem_append.mp hdeeds
    have ⟨hdeed, hrest⟩ := List.forall_mem_cons.mp (List.forall_mem_cons.mp hafter).2
    exact .initialised (ihinit (List.forall_mem_cons.mp hbefore).2)
      (.updated (eq_of_get?_eq_some hx) hdeed) (ih hrest)
  | getOrInit_filled hslot _ ih =>
    have hfound : Accounts key len _ [.found _ _] _ :=
      Accounts.found fun u hu => Option.some.inj (hu.symm.trans hslot)
    rw [PropertyBag.set_of_get? hslot] at hfound
    exact hfound.append (ih (List.forall_mem_cons.mp hdeeds).2)
  | getOrInit_empty _ _ hx _ ihinit ih =>
    have ⟨hbefore, hafter⟩ := List.forall_mem_append.mp hdeeds
    exact .initialised (ihinit (List.forall_mem_cons.mp hbefore).2) (.found (eq_of_get?_eq_some hx))
      (ih (List.forall_mem_cons.mp (List.forall_mem_cons.mp hafter).2).2)
  | tryGetOrInit_filled hslot _ ih =>
    have hfound : Accounts key len _ [.found _ _] _ :=
      Accounts.found fun u hu => Option.some.inj (hu.symm.trans hslot)
    rw [PropertyBag.set_of_get? hslot] at hfound
    exact hfound.append (ih (List.forall_mem_cons.mp hdeeds).2)
  | tryGetOrInit_empty _ _ hx _ ihinit ih =>
    have ⟨hbefore, hafter⟩ := List.forall_mem_append.mp hdeeds
    exact .initialised (ihinit (List.forall_mem_cons.mp hbefore).2) (.found (eq_of_get?_eq_some hx))
      (ih (List.forall_mem_cons.mp (List.forall_mem_cons.mp hafter).2).2)
  | tryGetOrInit_failed _ _ _ ihinit ih =>
    have ⟨hbefore, hafter⟩ := List.forall_mem_append.mp hdeeds
    exact (Accounts.quiet rfl _).append ((ihinit (List.forall_mem_cons.mp hbefore).2).append
      ((Accounts.quiet rfl _).append (ih (List.forall_mem_cons.mp hafter).2)))

/-- **No update is lost.**  From every bag, every use goes by the law of calls, by the deeds that are noted on
    the way.  So if a slot is neither set nor emptied and every update of it adds one element, it ends with
    the elements of the first value that was in it and one more for each update. -/
theorem no_update_lost (use : BagUse Value α) (bag : PropertyBag Value) :
    ((use.noted.run bag).run []).1 = use.act.run bag ∧
      use.Runs bag ((use.noted.run bag).run []).2 (use.act.run bag).1 (use.act.run bag).2 ∧
      ∀ {t : τ} (key : PropertyKey t) (len : Value t → Nat),
        (∀ d ∈ ((use.noted.run bag).run []).2, d.Lengthens key len) →
          Accounts key len bag ((use.noted.run bag).run []).2 (use.act.run bag).2 := by
  obtain ⟨deeds, a, bag', htells⟩ := exists_tells use bag
  have hnoted : (use.noted.run bag).run [] = ((a, bag'), deeds) := htells.noted []
  rw [hnoted, htells.act]
  exact ⟨rfl, htells.runs, fun key len hdeeds => htells.runs.accounts hdeeds⟩

/-- A list whose update runs an initialiser that fills the list, adds to it and offers another one. -/
theorem no_update_lost_nested :
    let key : PropertyKey PropertyType.texts := ⟨"app", "items"⟩
    let len (l : PropertyType.texts.Value) : Nat := l.length
    let push (s : String) (l : List String) : Unit × List String := ((), l ++ [s])
    let use : BagUse PropertyType.Value Unit :=
      .update key (.tryGetOrInit key (.done (.error "none")) fun _ : Except String (List String) =>
        .update key (.getOrInit key (.done ["a", "b"]) .done) (push "c") fun _ => .done ["lost"])
        (push "d") fun _ => .done ()
    let deeds := ((use.noted.run default).run []).2
    (∀ d ∈ deeds, d.Lengthens key len) ∧ first key deeds = some ["a", "b"] ∧
      pushes key deeds = 2 ∧ (use.act.run default).2.get? key = some ["a", "b", "c", "d"] ∧
      Accounts key len default deeds (use.act.run default).2 := by
  intro key len push use deeds
  have hdeeds : ∀ d ∈ deeds, d.Lengthens key len := by decide +kernel
  exact ⟨hdeeds, by decide +kernel, by decide +kernel, by decide +kernel,
    (no_update_lost use default).2.2 key len hdeeds⟩

end BagUse

end

end Idempotence
