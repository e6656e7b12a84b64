/-
  Names of properties — which keys lead to which slot of a property bag.

  1. **Names of slots** — the name of a slot joins a namespace and a name with a dot, which either of them may
     contain.  So two keys share a slot name if they are one key, or if the namespace of one goes on where
     that of the other ends (`PropertyKey.qualifiedName_eq_iff`).  A difference in the namespace alone, or
     in the name alone, always tells.

  2. **Uses of a bag** — a tree of calls on one bag.  The initialisers in it are trees themselves, so they may
     read, fill, change, empty and initialise any slot, that which they are run for included.

  3. **Separate slots** — a use that changes things through keys of other slot names or of other types leaves
     what a key finds as it was (`BagUse.get?_run_of_spares`).
-/
import Idempotence.Proofs.BodyHosts

namespace Idempotence

variable {τ : Type} {t t' : τ}

/-! ## Names of slots -/

/-- A text that has a dot at two places ends before one of them or goes on beyond it. -/
theorem join_eq_join_iff {front front' back back' : List Char} :
    front ++ '.' :: back = front' ++ '.' :: back' ↔
      (front = front' ∧ back = back') ∨
        (∃ mid, front = front' ++ '.' :: mid ∧ back' = mid ++ '.' :: back) ∨
          ∃ mid, front' = front ++ '.' :: mid ∧ back = mid ++ '.' :: back' := by
  constructor
  · intro h
    rcases List.append_eq_append_iff.mp h with ⟨more, hfront, hback⟩ | ⟨more, hfront, hback⟩
    · rcases List.cons_eq_append_iff.mp hback with ⟨rfl, hrest⟩ | ⟨mid, rfl, hrest⟩
      · rw [List.append_nil] at hfront
        exact .inl ⟨hfront.symm, (List.cons.inj hrest).2.symm⟩
      · exact .inr (.inr ⟨mid, hfront, hrest⟩)
    · rcases List.cons_eq_append_iff.mp hback with ⟨rfl, hrest⟩ | ⟨mid, rfl, hrest⟩
      · rw [List.append_nil] at hfront
        exact .inl ⟨hfront, (List.cons.inj hrest).2⟩
      · exact .inr (.inl ⟨mid, hfront, hrest⟩)
  · rintro (⟨rfl, rfl⟩ | ⟨mid, rfl, rfl⟩ | ⟨mid, rfl, rfl⟩) <;> simp

namespace PropertyKey

theorem toList_qualifiedName (a : PropertyKey t) :
    a.qualifiedName.toList = a.scope.toList ++ '.' :: a.name.toList := by
  simp [qualifiedName, String.toList_append, toString]

/-- **Where the namespace of one key goes on beyond that of the other**, the name of the other begins with
    the rest of it. -/
def Overlaps (a : PropertyKey t) (b : PropertyKey t') : Prop :=
  ∃ mid, a.scope = b.scope ++ "." ++ mid ∧ b.name = mid ++ "." ++ a.name

theorem overlaps_iff (a : PropertyKey t) (b : PropertyKey t') :
    a.Overlaps b ↔ ∃ mid, a.scope.toList = b.scope.toList ++ '.' :: mid ∧
      b.name.toList = mid ++ '.' :: a.name.toList := by
  constructor
  · rintro ⟨mid, hscope, hname⟩
    exact ⟨mid.toList, by simp [hscope, String.toList_append], by simp [hname, String.toList_append]⟩
  · rintro ⟨mid, hscope, hname⟩
    refine ⟨String.ofList mid, String.toList_inj.mp ?_, String.toList_inj.mp ?_⟩
    · simpa [String.toList_append] using hscope
    · simpa [String.toList_append] using hname

/-- **Keys of one slot name** are one key, or their namespaces and names overlap. -/
theorem qualifiedName_eq_iff (a : PropertyKey t) (b : PropertyKey t') :
    a.qualifiedName = b.qualifiedName ↔
      (a.scope = b.scope ∧ a.name = b.name) ∨ a.Overlaps b ∨ b.Overlaps a := by
  rw [← String.toList_inj, toList_qualifiedName, toList_qualifiedName, join_eq_join_iff, String.toList_inj,
    String.toList_inj, overlaps_iff, overlaps_iff]

/-- Keys that overlap differ in both of their parts. -/
theorem Overlaps.ne {a : PropertyKey t} {b : PropertyKey t'} (h : a.Overlaps b) :
    a.scope ≠ b.scope ∧ a.name ≠ b.name := by
  obtain ⟨mid, hscope, hname⟩ := (overlaps_iff a b).mp h
  constructor
  · intro heq
    have hlength := congrArg List.length hscope
    rw [heq, List.length_append, List.length_cons] at hlength
    omega
  · intro heq
    have hlength := congrArg List.length hname
    rw [heq, List.length_append, List.length_cons] at hlength
    omega

/-- **Keys of separate slots**: their types differ, or the names of their slots. -/
def Apart (a : PropertyKey t) (b : PropertyKey t') : Prop := t ≠ t' ∨ a.qualifiedName ≠ b.qualifiedName

instance [DecidableEq τ] (a : PropertyKey t) (b : PropertyKey t') : Decidable (a.Apart b) :=
  inferInstanceAs (Decidable (_ ∨ _))

/-- A difference in the namespace alone, or in the name alone, makes for separate slots. -/
theorem apart_of_ne {a : PropertyKey t} {b : PropertyKey t'} (hne : a.scope ≠ b.scope ∨ a.name ≠ b.name)
    (hsame : a.scope = b.scope ∨ a.name = b.name) : a.Apart b := by
  refine .inr fun h => ?_
  rcases (qualifiedName_eq_iff a b).mp h with ⟨hscope, hname⟩ | hover | hover
  · exact hne.elim (· hscope) (· hname)
  · exact hsame.elim hover.ne.1 hover.ne.2
  · exact hsame.elim (hover.ne.1 ·.symm) (hover.ne.2 ·.symm)

end PropertyKey

/-! ## Uses of a bag -/

variable {Value : τ → Type} {α β ε : Type}

/-- **A use of a bag.**  It goes on from what each call answers, and its initialisers are uses of the same
    bag. -/
inductive BagUse (Value : τ → Type) : Type → Type 1 where
  | done {α : Type} (a : α) : BagUse Value α
  | get {α : Type} {t : τ} (key : PropertyKey t) (resume : Option (Value t) → BagUse Value α) :
      BagUse Value α
  | contains {α : Type} {t : τ} (key : PropertyKey t) (resume : Bool → BagUse Value α) : BagUse Value α
  | set {α : Type} {t : τ} (key : PropertyKey t) (v : Value t) (resume : BagUse Value α) : BagUse Value α
  | remove {α : Type} {t : τ} (key : PropertyKey t) (resume : Option (Value t) → BagUse Value α) :
      BagUse Value α
  | update {α β : Type} {t : τ} (key : PropertyKey t) (init : BagUse Value (Value t))
      (f : Value t → β × Value t) (resume : β → BagUse Value α) : BagUse Value α
  | getOrInit {α : Type} {t : τ} (key : PropertyKey t) (init : BagUse Value (Value t))
      (resume : Value t → BagUse Value α) : BagUse Value α
  | tryGetOrInit {α ε : Type} {t : τ} (key : PropertyKey t) (init : BagUse Value (Except ε (Value t)))
      (resume : Except ε (Value t) → BagUse Value α) : BagUse Value α

namespace BagUse

/-- **A use that spares the slot of a key**: it changes things through keys of separate slots only, in its
    initialisers, too.  It may look at any slot. -/
def Spares (key : PropertyKey t) {α : Type} : BagUse Value α → Prop
  | done _ => True
  | get _ resume => ∀ v, (resume v).Spares key
  | contains _ resume => ∀ v, (resume v).Spares key
  | set other _ resume => other.Apart key ∧ resume.Spares key
  | remove other resume => other.Apart key ∧ ∀ v, (resume v).Spares key
  | update other init _ resume => other.Apart key ∧ init.Spares key ∧ ∀ b, (resume b).Spares key
  | getOrInit other init resume => other.Apart key ∧ init.Spares key ∧ ∀ v, (resume v).Spares key
  | tryGetOrInit other init resume => other.Apart key ∧ init.Spares key ∧ ∀ r, (resume r).Spares key

variable [DecidableEq τ]

/-- **What is done to the bag.** -/
def act {α : Type} : BagUse Value α → StateM (PropertyBag Value) α
  | done a => pure a
  | get key resume => do (resume ((← MonadState.get).get? key)).act
  | contains key resume => do (resume ((← MonadState.get).contains key)).act
  | set key v resume => do
    modify (·.set key v)
    resume.act
  | remove key resume => do (resume (← PropertyBag.remove key)).act
  | update key init f resume => do (resume (← PropertyBag.update key init.act f)).act
  | getOrInit key init resume => do (resume (← PropertyBag.getOrInit key init.act)).act
  | tryGetOrInit key init resume => do (resume (← PropertyBag.tryGetOrInit key init.act)).act

end BagUse

/-! ## The calls one by one -/

namespace PropertyBag

variable [DecidableEq τ] {m : Type → Type} [Monad m] [LawfulMonad m] (key : PropertyKey t)
  {bag : PropertyBag Value}

/-- **Changing what is there** leaves the initialiser alone. -/
theorem run_update_of_some (init : StateT (PropertyBag Value) m (Value t)) (f : Value t → β × Value t)
    {x : Value t} (h : bag.get? key = some x) :
    (update key init f).run bag = pure ((f x).1, bag.set key (f x).2) := by
  simp [update, h]

/-- **Changing an empty slot** runs the initialiser, and changes its value unless it has filled the slot. -/
theorem run_update_of_none (init : StateT (PropertyBag Value) m (Value t)) (f : Value t → β × Value t)
    (h : bag.get? key = none) :
    (update key init f).run bag = init.run bag >>= fun (fresh, bag') =>
      pure ((f ((bag'.get? key).getD fresh)).1, bag'.set key (f ((bag'.get? key).getD fresh)).2) := by
  simp [update, h]

/-- **What is there** is answered as it is. -/
theorem run_tryGetOrInit_of_some (init : StateT (PropertyBag Value) m (Except ε (Value t))) {x : Value t}
    (h : bag.get? key = some x) : (tryGetOrInit key init).run bag = pure (.ok x, bag) := by
  simp [tryGetOrInit, h]

/-- **What a call that fills a slot comes to** when its initialiser has ended.  Should that have failed, its
    error is all there is. -/
def filled : Except ε (Value t) × PropertyBag Value → Except ε (Value t) × PropertyBag Value
  | (.error e, bag) => (.error e, bag)
  | (.ok fresh, bag) => (.ok ((bag.get? key).getD fresh), bag.set key ((bag.get? key).getD fresh))

/-- **Filling an empty slot** runs the initialiser. -/
theorem run_tryGetOrInit_of_none (init : StateT (PropertyBag Value) m (Except ε (Value t)))
    (h : bag.get? key = none) :
    (tryGetOrInit key init).run bag = init.run bag >>= fun ended => pure (filled key ended) := by
  simp only [tryGetOrInit, StateT.run_bind, StateT.run_get, pure_bind, h]
  refine bind_congr fun ended => ?_
  obtain ⟨result, bag'⟩ := ended
  cases result with
  | error e => rfl
  | ok fresh => simp [run_update, filled]

end PropertyBag

/-! ## Separate slots -/

namespace PropertyBag

variable [DecidableEq τ] {key : PropertyKey t} {other : PropertyKey t'}

theorem get?_set_of_apart (h : other.Apart key) (bag : PropertyBag Value) (v : Value t') :
    (bag.set other v).get? key = bag.get? key :=
  agreesBut_set other bag v _ _ h.symm

theorem get?_erase_of_apart (h : other.Apart key) (bag : PropertyBag Value) :
    (bag.erase other).get? key = bag.get? key :=
  agreesBut_erase other bag _ _ h.symm

/-- Changing one slot leaves another as the initialiser does. -/
theorem get?_update_of_apart (h : other.Apart key) {init : StateM (PropertyBag Value) (Value t')}
    (f : Value t' → β × Value t') {bag : PropertyBag Value}
    (hinit : (init.run bag).2.get? key = bag.get? key) :
    ((update other init f).run bag).2.get? key = bag.get? key := by
  cases hslot : bag.get? other with
  | some x =>
    rw [run_update_of_some other init f hslot]
    exact get?_set_of_apart h bag _
  | none =>
    rw [run_update_of_none other init f hslot]
    exact (get?_set_of_apart h _ _).trans hinit

/-- Filling one slot leaves another as the initialiser does. -/
theorem get?_tryGetOrInit_of_apart (h : other.Apart key)
    {init : StateM (PropertyBag Value) (Except ε (Value t'))} {bag : PropertyBag Value}
    (hinit : (init.run bag).2.get? key = bag.get? key) :
    ((tryGetOrInit other init).run bag).2.get? key = bag.get? key := by
  cases hslot : bag.get? other with
  | some x => rw [run_tryGetOrInit_of_some other init hslot]; rfl
  | none =>
    rw [run_tryGetOrInit_of_none other init hslot]
    rcases hrun : init.run bag with ⟨result, bag'⟩
    rw [hrun] at hinit
    cases result with
    | error e => exact hinit
    | ok fresh => exact (get?_set_of_apart h bag' _).trans hinit

end PropertyBag

namespace BagUse

variable [DecidableEq τ] {key : PropertyKey t} {use : BagUse Value α}

/-- **A use that spares a slot** leaves what its key finds. -/
theorem get?_run_of_spares (h : use.Spares key) (bag : PropertyBag Value) :
    (use.act.run bag).2.get? key = bag.get? key := by
  -- Initialisers are uses, too: each call that has one comes with a hypothesis for it.
  induction use generalizing bag with
  | done a => rfl
  | get other resume ih => exact ih _ (h _) bag
  | contains other resume ih => exact ih _ (h _) bag
  | set other v resume ih => exact (ih h.2 _).trans (PropertyBag.get?_set_of_apart h.1 bag v)
  | remove other resume ih => exact (ih _ (h.2 _) _).trans (PropertyBag.get?_erase_of_apart h.1 bag)
  | update other init f resume ihinit ih =>
    exact (ih _ (h.2.2 _) _).trans (PropertyBag.get?_update_of_apart h.1 f (ihinit h.2.1 bag))
  | getOrInit other init resume ihinit ih =>
    exact (ih _ (h.2.2 _) _).trans (PropertyBag.get?_update_of_apart h.1 (fun v => (v, v)) (ihinit h.2.1 bag))
  | tryGetOrInit other init resume ihinit ih =>
    exact (ih _ (h.2.2 _) _).trans (PropertyBag.get?_tryGetOrInit_of_apart h.1 (ihinit h.2.1 bag))

/-- **Keys lead to separate slots** unless they have one type and one slot name.  No use of other slots
    changes what `get` and `contains` answer through a key, whatever its initialisers do.  Keys share a slot
    if they are of one type and are one key but for where a dot of the slot name ends the namespace; what is
    set through one of them is found through the other. -/
theorem keeps_separate_slots (key : PropertyKey t) (use : BagUse Value α) (h : use.Spares key)
    (bag : PropertyBag Value) :
    ((use.act.run bag).2.get? key = bag.get? key ∧ (use.act.run bag).2.contains key = bag.contains key) ∧
      (∀ {t' : τ} (other : PropertyKey t'), ¬other.Apart key ↔ t' = t ∧
        ((other.scope = key.scope ∧ other.name = key.name) ∨ other.Overlaps key ∨ key.Overlaps other)) ∧
      ∀ other : PropertyKey t, ¬other.Apart key → ∀ v : Value t, (bag.set other v).get? key = some v := by
  have hget := get?_run_of_spares h bag
  refine ⟨⟨hget, congrArg Option.isSome hget⟩, fun other => ?_, fun other hmeet v => ?_⟩
  · rw [PropertyKey.Apart, not_or, ne_eq, ne_eq, Classical.not_not, Classical.not_not,
      PropertyKey.qualifiedName_eq_iff]
  · have hname : other.qualifiedName = key.qualifiedName :=
      Classical.not_not.mp (not_or.mp hmeet).2
    rw [PropertyBag.get?, ← hname]
    exact PropertyBag.get?_set_self bag other v

/-- A list of texts that is filled while a number of the same name is set and another list is filled within
    the initialiser. -/
theorem keeps_separate_slots_nested :
    let key : PropertyKey PropertyType.texts := ⟨"app", "items"⟩
    let number : PropertyKey PropertyType.number := ⟨"app", "items"⟩
    let drafts : PropertyKey PropertyType.texts := ⟨"app", "drafts"⟩
    let use : BagUse PropertyType.Value Unit :=
      .update drafts (.set number 7 (.getOrInit drafts (.done ["a"]) fun l => .done (l ++ ["b"])))
        (fun l => ((), l ++ ["c"])) fun _ => .remove number fun _ => .done ()
    let bag : Properties := PropertyBag.set default key ["x"]
    use.Spares key ∧ (use.act.run bag).2.get? drafts = some ["a", "c"] ∧
      (use.act.run bag).2.get? key = bag.get? key ∧ (use.act.run bag).2.contains key = bag.contains key := by
  intro key number drafts use bag
  have hspares : use.Spares key := by
    have hdrafts : drafts.Apart key := PropertyKey.apart_of_ne (.inr (by decide)) (.inl rfl)
    have hnumber : number.Apart key := .inl (by decide)
    exact ⟨hdrafts, ⟨hnumber, hdrafts, trivial, fun _ => trivial⟩, fun _ => ⟨hnumber, fun _ => trivial⟩⟩
  exact ⟨hspares, by decide +kernel, (keeps_separate_slots key use hspares bag).1⟩

/-- **Where a dot may end either namespace**, two keys that differ in both of their parts have one slot: what
    is set through one changes what is found through the other. -/
theorem dotted_keys_meet :
    let key : PropertyKey PropertyType.number := ⟨"a", "b.c"⟩
    let other : PropertyKey PropertyType.number := ⟨"a.b", "c"⟩
    let use : BagUse PropertyType.Value Unit := .set other 1 (.done ())
    let bag : Properties := default
    (other.scope ≠ key.scope ∧ other.name ≠ key.name) ∧
      ¬((use.act.run bag).2.get? key = bag.get? key ∧
        (use.act.run bag).2.contains key = bag.contains key) := by
  decide +kernel

end BagUse

end Idempotence
