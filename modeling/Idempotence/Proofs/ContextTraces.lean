/-
  Traces of contexts — closing and starting contexts is accounted for, and so are whole processes.

  1. **Rest** — between operations every context is at rest: closed and without a span, or known to all
     extensions and with one.  Those that are LENT, to the body of a phase or of a whole process, go on
     standing as they do.  In the midst of an operation one context may stand otherwise (`RestBut`).

  2. **Closing** — those extensions that know of a context learn of its end in reverse: the later ones while
     its span is still there, then the one that traces, which tells of the end, and then the earlier ones.

  3. **Starting** — the other way round.  A start that fails on the way closes its context, which is told of
     then if it had been told of before.

  4. **Whole processes** — the context is lent to the body and comes back as it was, whether the body answers
     or crashes.
-/
import Idempotence.Proofs.ExecutionTraces

namespace Idempotence

variable {ε α β γ : Type}

/-! ## Rest -/

/-- **A context at rest**: closed and without a span, or known to all extensions and with one. -/
structure Footing.AtRest (total : Nat) (f : Footing) : Prop where
  closed : f.closed = true → f.span = none
  known : f.closed = false → f.notified = total
  live : f.closed = false → f.span ≠ none

/-- **A context that can be closed**: while it is open, it has a span if the extension that traces, before
    which there are so many, knows of it. -/
structure Footing.Closable (place : Nat) (f : Footing) : Prop where
  closed : f.closed = true → f.span = none
  live : f.closed = false → (f.span ≠ none ↔ place < f.notified)

theorem Footing.AtRest.closable {place total : Nat} {f : Footing} (h : f.AtRest total) (hplace : place < total) :
    f.Closable place :=
  ⟨h.closed, fun hopen => ⟨fun _ => h.known hopen ▸ hplace, fun _ => h.live hopen⟩⟩

section

variable (total : Nat) (lent : List (Nat × Footing))

/-- **All contexts are at rest**, and those that are lent stand as they should. -/
structure AllRest (l : List Footing) : Prop where
  rest : ∀ f ∈ l, f.AtRest total
  lent : ∀ x ∈ lent, l[x.1]? = some x.2

/-- **All contexts but one are at rest**; that one is not lent. -/
structure RestBut (id : Nat) (f : Footing) (l : List Footing) : Prop where
  one : l[id]? = some f
  others : ∀ j g, l[j]? = some g → j = id ∨ g.AtRest total
  lent : ∀ x ∈ lent, x.1 ≠ id ∧ l[x.1]? = some x.2

/-- **A context has been opened**: it is open, and it can be lent, as it is not lent yet. -/
def JustOpened (id : Nat) (l : List Footing) : Prop :=
  ∃ f : Footing, (f.closed = false ∧ ∀ x ∈ lent, x.1 ≠ id) ∧ AllRest total ((id, f) :: lent) l

end

section

variable {total id : Nat} {lent : List (Nat × Footing)} {f : Footing} {l : List Footing}

theorem AllRest.but (h : AllRest total lent l) (hone : l[id]? = some f) (hlent : ∀ x ∈ lent, x.1 ≠ id) :
    RestBut total lent id f l where
  one := hone
  others _ g hg := .inr (h.rest g (List.mem_of_getElem? hg))
  lent x hx := ⟨hlent x hx, h.lent x hx⟩

theorem RestBut.rest (h : RestBut total lent id f l) (hf : f.AtRest total) : AllRest total lent l where
  rest g hg := by
    obtain ⟨j, hj⟩ := List.mem_iff_getElem?.1 hg
    rcases h.others j g hj with rfl | hrest
    · exact Option.some.inj (hj.symm.trans h.one) ▸ hf
    · exact hrest
  lent x hx := (h.lent x hx).2

/-- A context may be lent as it stands. -/
theorem AllRest.lend (h : AllRest total lent l) (hone : l[id]? = some f) : AllRest total ((id, f) :: lent) l :=
  ⟨h.rest, List.forall_mem_cons.2 ⟨hone, h.lent⟩⟩

/-- A context that was lent comes back as it was. -/
theorem AllRest.return (h : AllRest total ((id, f) :: lent) l) : AllRest total lent l ∧ l[id]? = some f :=
  have hlent := List.forall_mem_cons.1 h.lent
  ⟨⟨h.rest, hlent.2⟩, hlent.1⟩

/-- The context that is excepted has changed. -/
theorem RestBut.modify (h : RestBut total lent id f l) (m : Footing → Footing) :
    RestBut total lent id (m f) (l.modify id m) where
  one := by rw [List.getElem?_modify_eq, h.one]; rfl
  others j g hg := by
    by_cases hj : id = j
    · exact .inl hj.symm
    · rw [List.getElem?_modify_ne m l hj] at hg
      exact h.others j g hg
  lent x hx := by
    obtain ⟨hne, hlent⟩ := h.lent x hx
    refine ⟨hne, ?_⟩
    rw [List.getElem?_modify_ne m l hne.symm]
    exact hlent

/-- Beside a new context, all the others rest as they did. -/
theorem AllRest.append (h : AllRest total lent l) (f : Footing) : RestBut total lent l.length f (l ++ [f]) where
  one := by simp
  others j g hg := by
    rcases Nat.lt_trichotomy j l.length with hj | hj | hj
    · rw [List.getElem?_append_left hj] at hg
      exact .inr (h.rest g (List.mem_of_getElem? hg))
    · exact .inl hj
    · rw [List.getElem?_eq_none (by simp; omega)] at hg
      cases hg
  lent x hx := by
    have hlent := h.lent x hx
    have hthere := (List.getElem?_eq_some_iff.1 hlent).1
    exact ⟨Nat.ne_of_lt hthere, by rw [List.getElem?_append_left hthere, hlent]⟩

theorem RestBut.getD (h : RestBut total lent id f l) : l.getD id {} = f := by
  rw [List.getD_eq_getElem?_getD, h.one]
  rfl

end

variable {place total : Nat} {inner : Executor ε} {since w v : World ε} {lent : List (Nat × Footing)}

/-- How a context stands that is there. -/
theorem World.getElem?_footings {id : Nat} (h : id < w.contexts.length) :
    w.footings[id]? = some (w.context id).footing := by
  simp [World.footings, World.context, List.getD_eq_getElem?_getD, h]

theorem RestBut.footing {id : Nat} {f : Footing} (h : RestBut total lent id f w.footings) :
    (w.context id).footing = f := by rw [World.footing_context, h.getD]

theorem RestBut.there {id : Nat} {f : Footing} (h : RestBut total lent id f w.footings) :
    id < w.contexts.length := by
  have hthere := (List.getElem?_eq_some_iff.1 h.one).1
  rwa [World.footings, List.length_map] at hthere

/-- What is brought about however the excepted context stands needs no knowledge of how it stands. -/
theorem brings_whichever {A : Footing → Prop} {Q : Footing → List Footing → Prop} {a : Action ε α}
    {R : α → World ε → Prop} {D : World ε → Prop}
    (h : ∀ f, A f → a.Brings (Recounted place inner since (Q f)) R D) :
    a.Brings (Recounted place inner since fun l => ∃ f, A f ∧ Q f l) R D :=
  fun w ⟨⟨f, hf, hl⟩, haccount⟩ => h f hf w ⟨hl, haccount⟩

/-- Looking at a context answers how it stands, and leaves everything as it is. -/
theorem Context.brings_look (c : Context) {f : Footing} {see : ContextState → β} (view : Footing → β)
    (hsee : ∀ s, see s = view s.footing) {D : World ε → Prop} :
    (c.look see : Action ε β).Brings (Recounted place inner since (RestBut total lent c.id f))
      (fun answer w => answer = view f ∧ Recounted place inner since (RestBut total lent c.id f) w) D :=
  .look fun _ hw => ⟨(hsee _).trans (congrArg view hw.1.footing), hw⟩

/-- **A change that is not told of** in how one context stands. -/
theorem Recounted.changeContext {id : Nat} {f : Footing} (h : Recounted place inner since (RestBut total lent id f) w)
    {t : ContextState → ContextState} (m : Footing → Footing) (htm : ∀ s, (t s).footing = m s.footing)
    (hpasses : f.Passes place (m f)) :
    Recounted place inner since (RestBut total lent id (m f)) (w.modifyContext id t) := by
  have hfootings : (w.modifyContext id t).footings = w.footings.modify id m :=
    World.see_modifyContext ContextState.footing htm id w
  have hpassing : Passing place w (w.modifyContext id t) := by
    refine ⟨fun j => ?_, rfl, rfl, Nat.le_refl _⟩
    rw [World.footing_modify hfootings h.1.there]
    split
    · next hj =>
      rw [← hj, h.1.footing]
      exact hpasses
    · exact .refl _
  exact h.append (.passing hpassing) (hfootings ▸ h.1.modify m)

/-- One more extension knows of the context. -/
theorem Context.brings_learnt (c : Context) {notified : Nat} {span : Option Span}
    (hspan : notified ≤ place → place < notified + 1 → span ≠ none) {D : World ε → Prop} :
    (c.change fun s => { s with notified := s.notified + 1 } : Action ε Unit).Brings
      (Recounted place inner since (RestBut total lent c.id ⟨false, notified, span⟩))
      (fun _ => Recounted place inner since (RestBut total lent c.id ⟨false, notified + 1, span⟩)) D := by
  refine .change fun w hw => hw.changeContext (fun f => { f with notified := f.notified + 1 }) (fun _ => rfl) ?_
  exact ⟨rfl, fun hclosed => hclosed, Nat.le_succ _, hspan⟩

section

variable {p : Provider ε} {before after : List (Interceptor ε)}

/-- What has happened since a world is accounted for in the trace of the provider, and contexts stand so. -/
abbrev Provider.Traced.Stands (_ : p.Traced before after) (since : World ε) (P : List Footing → Prop) :
    World ε → Prop :=
  Recounted before.length (p.below after) since P

end

/-! ## Closing -/

/-- **Telling of the end** of a context. -/
theorem Monitoring.brings_closed {c : Context} {notified : Nat} (hknown : place < notified) (x : Executor ε)
    (s : Span) {D : World ε → Prop} :
    (interceptor.closed x c).Brings (Recounted place inner since (RestBut total lent c.id ⟨true, notified, some s⟩))
      (fun _ => Recounted place inner since (RestBut total lent c.id ⟨true, notified, none⟩)) D := by
  intro w hw
  have hclosing := hw.1.footing
  obtain ⟨v, hrun, -, hfootings⟩ := run_closed x (congrArg Footing.span hclosing :)
  rw [hrun]
  exact hw.append (.closed hclosing hknown hrun) (hfootings ▸ hw.1.modify fun f => { f with span := none })

/-- **Telling of a new context.** -/
theorem Monitoring.brings_created (c : Context) (x : Executor ε) {D : World ε → Prop} :
    (interceptor.created x c).Brings (Recounted place inner since (RestBut total lent c.id ⟨false, place, none⟩))
      (fun answer w => answer = .ok () ∧
        ∃ s, Recounted place inner since (RestBut total lent c.id ⟨false, place, some s⟩) w) D := by
  intro w hw
  have hunknown := hw.1.footing
  obtain ⟨v, hrun, -, hfootings⟩ := run_created x (congrArg Footing.span hunknown :)
  rw [hrun]
  exact ⟨rfl, processSpan c w, hw.append (.created hw.1.there hunknown hrun)
    (hfootings ▸ hw.1.modify fun f => { f with span := some (processSpan c w) })⟩

namespace Provider.Traced

variable {p : Provider ε} {before after : List (Interceptor ε)} (hp : p.Traced before after)
include hp

/-- While a context has its span, its phases are accounted for. -/
theorem carries_live (c : Context) (closed : Bool) (notified : Nat) (s : Span) :
    p.executor.Carries (fun a => a.Tells before.length (p.below after) False
      (RestBut total lent c.id ⟨closed, notified, some s⟩)) c :=
  hp.carries ⟨s, fun _ hl => congrArg Footing.span hl.getD⟩

/-- **The closing hooks** of those that know of the context, in reverse. -/
theorem brings_runClosed (c : Context) {notified : Nat} {span : Option Span}
    (hspan : span ≠ none ↔ before.length < notified) {D : World ε → Prop} :
    (runClosed p.executor c (p.interceptors.take notified).reverse).Brings
      (hp.Stands since (RestBut total lent c.id ⟨true, notified, span⟩))
      (fun _ => hp.Stands since (RestBut total lent c.id ⟨true, notified, none⟩)) D := by
  have hcalm : ∀ l : List (Interceptor ε), (∀ i ∈ l, i ∈ before) → (runClosed p.executor c l).Calm := fun l hl =>
    Process.Calm.pervades.hereditary.runClosed fun i hi => (hp.before i (hl i hi)).closed _ c
  cases span with
  | none =>
    -- The one that traces does not know of it, and neither does any that comes later.
    have hle : notified ≤ before.length := Nat.le_of_not_lt fun hlt => hspan.2 hlt rfl
    rw [hp.interceptors, List.take_append_of_le_length hle]
    refine (hcalm _ fun i hi => ?_).brings
    exact List.mem_of_mem_take (List.mem_reverse.1 hi)
  | some s =>
    have hknown : before.length < notified := hspan.1 (Option.some_ne_none s)
    obtain ⟨more, rfl⟩ : ∃ more, notified = before.length + (more + 1) := ⟨notified - before.length - 1, by omega⟩
    have htake : (p.interceptors.take (before.length + (more + 1))).reverse =
        (after.take more).reverse ++ (Monitoring.interceptor :: before.reverse) := by
      rw [hp.interceptors, List.take_length_add_append, List.take_succ_cons]
      simp
    have hlater : (runClosed p.executor c (after.take more).reverse).Tells before.length (p.below after) False
        (RestBut total lent c.id ⟨true, before.length + (more + 1), some s⟩) :=
      Process.Tells.pervades.hereditary.runClosed fun i hi =>
        (hp.after i (List.mem_of_mem_take (List.mem_reverse.1 hi))).closed Process.Tells.pervades
          (hp.carries_live c ..)
    have hearlier := hcalm before.reverse fun i hi => List.mem_reverse.1 hi
    rw [htake, runClosed_append]
    refine hlater.brings.bind fun errors => ?_
    refine Process.Brings.bind ?_ fun more => .done fun _ hw => hw
    refine (Monitoring.brings_closed hknown _ s).bind fun answer => ?_
    refine hearlier.brings.bind fun errors => ?_
    cases answer <;> exact .done fun _ hw => hw

theorem calm_releaseLock (c : Context) : (p.releaseLock c).Calm := by
  refine Process.Calm.pervades.hereditary.releaseLock (fun _ => .tell rfl) ?_ hp.release
  exact .atomically fun _ => World.offstage_modifyContext rfl

/-- **Closing a context** leaves all at rest. -/
theorem brings_close (c : Context) {f : Footing} (hf : f.Closable before.length) {D : World ε → Prop} :
    (p.close c).Brings (hp.Stands since (RestBut total lent c.id f))
      (fun _ => hp.Stands since (AllRest total lent)) D := by
  have hmark : (markClosed c : Action ε Bool).Brings (hp.Stands since (RestBut total lent c.id f))
      (fun answer w => answer = f.closed ∧
        hp.Stands since (RestBut total lent c.id { f with closed := true }) w) D := by
    refine .atomically fun w hw => ⟨congrArg Footing.closed hw.1.footing, ?_⟩
    refine hw.changeContext (fun f => { f with closed := true }) (fun _ => rfl) ?_
    exact ⟨rfl, fun _ => rfl, Nat.le_refl _, fun hle hlt => absurd hlt (Nat.not_lt.2 hle)⟩
  have hover : ∀ n, Footing.AtRest total ⟨true, n, none⟩ := fun n => ⟨fun _ => rfl, nofun, nofun⟩
  refine hmark.bind fun answer => .knowing ?_
  rintro rfl
  obtain ⟨closed, notified, span⟩ := f
  cases closed with
  | true =>
    obtain rfl : span = none := hf.closed rfl
    exact .done fun _ hw => hw.mono fun hl => hl.rest (hover _)
  | false =>
    refine (c.brings_look Footing.notified fun _ => rfl).bind fun answer => .knowing ?_
    rintro rfl
    refine (hp.brings_runClosed c (hf.live rfl)).bind fun errors => ?_
    refine (hp.calm_releaseLock c).brings.bind fun _ => ?_
    exact .done fun _ hw => hw.mono fun hl => hl.rest (hover _)

/-- Closing a context and telling of a failure to do so, as dropping it does, leaves all contexts at rest. -/
theorem brings_closing (c : Context) {f : Footing} (hf : f.Closable before.length) {D : World ε → Prop} :
    (do
      match ← p.close c with
      | .ok () => return ()
      | .error e => Action.tell (.closingDroppedFailed c.process c.key e) : Action ε Unit).Brings
      (hp.Stands since (RestBut total lent c.id f)) (fun _ => hp.Stands since (AllRest total lent)) D := by
  refine (hp.brings_close c hf).bind fun answer => ?_
  cases answer with
  | ok u => exact .done fun _ hw => hw
  | error e => exact (Process.Calm.tell rfl).brings

/-- **Dropping a context** leaves all contexts at rest, whether it has been closed before or not. -/
theorem brings_drop (c : Context) {f : Footing} (hf : f.Closable before.length) {D : World ε → Prop} :
    (p.drop c).Brings (hp.Stands since (RestBut total lent c.id f))
      (fun _ => hp.Stands since (AllRest total lent)) D := by
  refine (c.brings_look Footing.closed fun _ => rfl).bind fun answer => .knowing ?_
  rintro rfl
  cases hclosed : f.closed with
  | true =>
    refine .done fun _ hw => hw.mono fun hl => hl.rest ?_
    exact ⟨hf.closed, fun hopen => absurd hclosed (Bool.eq_false_iff.1 hopen),
      fun hopen => absurd hclosed (Bool.eq_false_iff.1 hopen)⟩
  | false =>
    refine (Process.Calm.look _).brings.bind fun notified => ?_
    dsimp only
    split
    · exact (Process.Calm.tell rfl).brings.bind fun _ => hp.brings_closing c hf
    · exact hp.brings_closing c hf

end Provider.Traced

/-! ## Starting -/

section

variable (place total : Nat) (lent : List (Nat × Footing)) (id : Nat)

/-- **How contexts stand behind creating hooks**: as they should, or so that the new one can be closed. -/
def BehindCreating (Q : List Footing → Prop) : Except Error Unit → List Footing → Prop
  | .ok () => Q
  | .error _ => fun l => ∃ f : Footing, f.Closable place ∧ RestBut total lent id f l

/-- **How contexts stand behind a start**: a new one has been opened, or there is none. -/
def BehindStart : Except Error Context → List Footing → Prop
  | .ok c => JustOpened total lent c.id
  | .error _ => AllRest total lent

end

/-- **Creating hooks** of extensions that come all before the one that traces or all behind it. -/
theorem brings_runCreated {x : Executor ε} {c : Context} {l : List (Interceptor ε)} {notified : Nat}
    {span : Option Span}
    (hside : span = none ∧ notified + l.length ≤ place ∨ span ≠ none ∧ place < notified)
    (hhooks : ∀ i ∈ l, ∀ n, (i.created x c).Tells place inner False (RestBut total lent c.id ⟨false, n, span⟩))
    {D : World ε → Prop} :
    (Provider.runCreated x c l).Brings (Recounted place inner since (RestBut total lent c.id ⟨false, notified, span⟩))
      (fun answer => Recounted place inner since (BehindCreating place total lent c.id
        (RestBut total lent c.id ⟨false, notified + l.length, span⟩) answer)) D := by
  induction l generalizing notified with
  | nil => exact .done fun _ hw => hw
  | cons i l ih =>
    obtain ⟨hi, hrest⟩ := List.forall_mem_cons.1 hhooks
    rw [List.length_cons, ← Nat.add_assoc, Nat.add_right_comm] at hside ⊢
    refine (hi notified).brings.bind fun answer => ?_
    cases answer with
    | error e =>
      have hlive : span ≠ none ↔ place < notified := by
        constructor
        · exact fun hspan => (hside.resolve_left fun h => hspan h.1).2
        · exact fun hlt => (hside.resolve_left fun h => by omega).1
      exact .done fun _ hw => hw.mono fun hl => ⟨⟨false, notified, span⟩, ⟨nofun, fun _ => hlive⟩, hl⟩
    | ok u =>
      have hspan : notified ≤ place → place < notified + 1 → span ≠ none := fun _ hlt =>
        (hside.resolve_left fun h => by omega).1
      exact (c.brings_learnt hspan).bind fun _ => ih (hside.imp_right fun h => ⟨h.1, Nat.lt_succ_of_lt h.2⟩) hrest

/-- A new context stands as one that is not there. -/
theorem World.footing_append (w : World ε) {s : ContextState} (hs : s.footing = {}) (id : Nat) :
    (World.context { w with contexts := w.contexts ++ [s] } id).footing = (w.context id).footing := by
  rw [World.footing_context, World.footing_context, World.footings, List.map_append, List.map_singleton, hs,
    World.footings]
  simp only [List.getD_eq_getElem?_getD, List.getElem?_append]
  split
  · rfl
  · next hout =>
    rw [List.getElem?_eq_none (Nat.le_of_not_lt hout)]
    cases id - (w.contexts.map (·.footing)).length <;> rfl

namespace Provider.Traced

variable {p : Provider ε} {before after : List (Interceptor ε)} (hp : p.Traced before after)
include hp

/-- **All creating hooks**, in order. -/
theorem brings_created (c : Context) {D : World ε → Prop} :
    (runCreated p.executor c p.interceptors).Brings
      (hp.Stands since (RestBut p.interceptors.length lent c.id ⟨false, 0, none⟩))
      (fun answer => hp.Stands since (BehindCreating before.length p.interceptors.length lent c.id
        (JustOpened p.interceptors.length lent c.id) answer)) D := by
  have hearlier : (runCreated p.executor c before).Brings
      (hp.Stands since (RestBut p.interceptors.length lent c.id ⟨false, 0, none⟩))
      (fun answer => hp.Stands since
        (BehindCreating before.length p.interceptors.length lent c.id
          (RestBut p.interceptors.length lent c.id ⟨false, 0 + before.length, none⟩) answer)) D :=
    brings_runCreated (.inl ⟨rfl, Nat.le_of_eq (Nat.zero_add _)⟩)
      fun i hi _ => Process.Tells.pervades.calm ((hp.before i hi).created _ c)
  have hlater : ∀ s, (runCreated p.executor c after).Brings
      (hp.Stands since (RestBut p.interceptors.length lent c.id ⟨false, before.length + 1, some s⟩))
      (fun answer => hp.Stands since
        (BehindCreating before.length p.interceptors.length lent c.id
          (RestBut p.interceptors.length lent c.id ⟨false, before.length + 1 + after.length, some s⟩) answer)) D :=
    fun s => brings_runCreated (.inr ⟨Option.some_ne_none s, Nat.lt_succ_self _⟩)
      fun i hi _ => (hp.after i hi).created Process.Tells.pervades (hp.carries_live c ..)
  have htotal : p.interceptors.length = before.length + 1 + after.length := by
    rw [hp.interceptors, List.length_append, List.length_cons]
    omega
  rw [Nat.zero_add] at hearlier
  have hall : runCreated p.executor c p.interceptors =
      runCreated p.executor c (before ++ Monitoring.interceptor :: after) := by rw [← hp.interceptors]
  rw [hall, runCreated_append]
  refine hearlier.bind fun answer => ?_
  cases answer with
  | error e => exact .done fun _ hw => hw
  | ok u =>
    refine (Monitoring.brings_created c _).bind fun answer => .knowing ?_
    rintro rfl
    refine .given fun s => (c.brings_learnt fun _ _ => Option.some_ne_none s).bind fun _ => ?_
    refine (hlater s).mono (fun _ hw => hw) (fun answer w hw => ?_) fun _ hw => hw
    cases answer with
    | error e => exact hw
    | ok u =>
      refine hw.mono fun hl => ⟨_, ⟨rfl, fun x hx => (hl.lent x hx).1⟩, (hl.rest ?_).lend hl.one⟩
      exact ⟨nofun, fun _ => htotal.symm, fun _ => Option.some_ne_none s⟩

/-- **A new context** is open, and no extension knows of it. -/
theorem brings_newContext (process key : String) (settings : List Setting) (recordedFinal : Option String)
    (handle : LockHandle) {D : World ε → Prop} :
    (newContext process key settings recordedFinal handle : Action ε Context).Brings
      (hp.Stands since (AllRest p.interceptors.length lent))
      (fun c => hp.Stands since (RestBut p.interceptors.length lent c.id ⟨false, 0, none⟩)) D := by
  refine .atomically fun w hw => ?_
  have hfootings : ({ w with contexts := w.contexts ++ [{ lock := some handle }] } : World ε).footings =
      w.footings ++ [⟨false, 0, none⟩] := by
    simp only [World.footings, List.map_append]
    rfl
  have hlength : w.footings.length = w.contexts.length := List.length_map _
  have hpassing : Passing before.length w { w with contexts := w.contexts ++ [{ lock := some handle }] } := by
    refine ⟨fun j => ?_, rfl, rfl, Nat.le_refl _⟩
    rw [World.footing_append w (s := { lock := some handle }) rfl]
    exact .refl _
  refine hw.append (.passing hpassing) ?_
  rw [hfootings, ← hlength]
  exact hw.1.append _

/-- **Starting an instance** whose lock has been obtained. -/
theorem brings_startLocked (process key : String) (settings : List Setting) (handle : LockHandle)
    {D : World ε → Prop} :
    (p.startLocked process key settings handle).Brings
      (hp.Stands since (AllRest p.interceptors.length lent))
      (fun answer => hp.Stands since (BehindStart p.interceptors.length lent answer)) D := by
  refine (hp.findFinal process key).brings.bind fun found => ?_
  cases found with
  | error e =>
    refine (hp.release handle).brings.bind fun answer => ?_
    cases answer with
    | ok u => exact .done fun _ hw => hw
    | error r => exact (Process.Calm.tell rfl).brings.bind fun _ => .done fun _ hw => hw
  | ok recordedFinal =>
    refine (hp.brings_newContext process key settings recordedFinal handle).bind fun c => ?_
    refine .bind (.onCrash (hp.brings_created c) fun _ hw => False.elim hw) fun answer => ?_
    cases answer with
    | ok u => exact .done fun _ hw => hw
    | error e =>
      exact brings_whichever fun f hf => (hp.brings_drop c hf).bind fun _ => .done fun _ hw => hw

theorem brings_start (process key : String) (timeout : Duration) (settings : List Setting) {D : World ε → Prop} :
    (p.start process key timeout settings).Brings
      (hp.Stands since (AllRest p.interceptors.length lent))
      (fun answer => hp.Stands since (BehindStart p.interceptors.length lent answer)) D := by
  unfold Provider.start
  split
  · exact .done fun _ hw => hw
  · refine hp.clock.brings.bind fun now => (hp.obtain ..).brings.bind fun answer => ?_
    cases answer with
    | error e => exact .done fun _ hw => hw
    | ok decision =>
      cases decision with
      | locked tryAt => exact (Process.Calm.tell rfl).brings.bind fun _ => .done fun _ hw => hw
      | obtained handle => exact hp.brings_startLocked process key settings handle

/-! ## Whole processes -/

/-- **A call of a phase** of a context that is lent. -/
theorem tells_runPhase [EngineFailure β] {c : Context} {f : Footing} (hopen : f.closed = false)
    (hlent : (c.id, f) ∈ lent) (phase : Phase) (codec : Codec γ) {body : Action ε (Except β γ)}
    (hbody : body.Tells before.length (p.below after) C (AllRest p.interceptors.length lent)) :
    (p.runPhase c phase codec body).Tells before.length (p.below after) C (AllRest p.interceptors.length lent) := by
  have hlive : ∃ s, ∀ l, AllRest p.interceptors.length lent l → (l.getD c.id {}).span = some s := by
    refine ⟨f.span.getD [], fun l hl => ?_⟩
    have hone := hl.lent _ hlent
    obtain ⟨s, hspan⟩ := Option.ne_none_iff_exists'.1 ((hl.rest f (List.mem_of_getElem? hone)).live hopen)
    rw [List.getD_eq_getElem?_getD, hone, hspan]
    exact hspan
  exact Executor.Carries.run Process.Tells.pervades (hp.carries hlive) phase codec hbody

/-- **What is lent comes back** as it was, and can be closed in one way or another. -/
theorem brings_back {c : Context} {f : Footing} (hne : ∀ x ∈ lent, x.1 ≠ c.id) {a : Action ε α} {D : World ε → Prop}
    (ha : f.Closable before.length → a.Brings (hp.Stands since (RestBut p.interceptors.length lent c.id f))
      (fun _ => hp.Stands since (AllRest p.interceptors.length lent)) D) :
    a.Brings (hp.Stands since (AllRest p.interceptors.length ((c.id, f) :: lent)))
      (fun _ => hp.Stands since (AllRest p.interceptors.length lent)) D := by
  intro w hw
  have hrest : f.AtRest p.interceptors.length := hw.1.rest f (List.mem_of_getElem? hw.1.return.2)
  exact ha (hrest.closable (by simp [hp.interceptors])) w (hw.mono fun hl => hl.return.1.but hl.return.2 hne)

/-- **A whole process**, where the context is lent to the body. -/
theorem tells_runProcess [EngineFailure β] (process key : String) (timeout : Duration) (settings : List Setting)
    {body : Context → Action ε (Except β α)}
    (hbody : ∀ c f, (body c).Tells before.length (p.below after) True
      (AllRest p.interceptors.length ((c.id, f) :: lent))) :
    (p.runProcess process key timeout settings body).Tells before.length (p.below after) True
      (AllRest p.interceptors.length lent) := by
  intro since
  refine (hp.brings_start process key timeout settings).bind fun started => ?_
  cases started with
  | error e => exact .done fun _ hw => hw
  | ok c =>
    refine brings_whichever fun f ⟨hopen, hne⟩ => ?_
    have hrunBody : (p.runBody c body).Tells before.length (p.below after) True
        (AllRest p.interceptors.length ((c.id, f) :: lent)) := by
      refine @Process.Sequential.runBody _ _ _ _ Process.Tells.pervades.hereditary.toSequential _ p p c
        (Process.Tells.pervades.calm (.look _)) ?_ body body (hbody c f)
      exact hp.tells_runPhase hopen (List.mem_cons_self ..) _ .unit (Process.Tells.pervades.calm (.pure _))
    -- The context comes back from the body whether the body has answered or crashed.
    have hclose : (p.close c).Brings
        (hp.Stands since (AllRest p.interceptors.length ((c.id, f) :: lent)))
        (fun _ => hp.Stands since (AllRest p.interceptors.length lent))
        fun w => True ∧ hp.Stands since (AllRest p.interceptors.length lent) w :=
      hp.brings_back hne fun hf => hp.brings_close c hf
    have hdrop : (p.drop c).Brings
        (fun w => True ∧ hp.Stands since (AllRest p.interceptors.length ((c.id, f) :: lent)) w)
        (fun _ w => True ∧ hp.Stands since (AllRest p.interceptors.length lent) w)
        fun w => True ∧ hp.Stands since (AllRest p.interceptors.length lent) w :=
      (hp.brings_back hne fun hf => hp.brings_drop c hf).mono (fun _ h => h.2) (fun _ _ h => ⟨trivial, h⟩)
        fun _ h => h
    refine Process.Brings.bind ((hrunBody since).onCrash hdrop) fun result => hclose.bind fun closing => ?_
    cases result with
    | ok a => cases closing <;> exact .done fun _ hw => hw
    | error e =>
      cases closing with
      | ok u => exact .done fun _ hw => hw
      | error closing => exact (Process.Calm.tell rfl).brings.bind fun _ => .done fun _ hw => hw

end Provider.Traced

end Idempotence
