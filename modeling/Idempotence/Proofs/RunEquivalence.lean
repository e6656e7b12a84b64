/-
  Equivalence of runs — runs that differ in nothing that can be seen.

  1. **Two runs** — two processes AGREE, as far as a view of the state shows, if they come to the same end
     wherever they start in states that look alike (`Process.Agrees`).  A process is PLAIN if it agrees
     with itself, and HIDDEN if it answers and nothing is seen of it; hidden processes may stand on either
     side of an agreement, and at any place.

  2. **Sights** — what is seen of a world is what is shown of its environment, and of its contexts all but
     their spans and how many extensions have learnt of them (`World.sight`).

  3. **Executions** — over a plain store the base executor agrees with itself on bodies that agree
     (`Executor.agrees_base`), and phases are entered and left in plain steps.
-/
import Idempotence.Proofs.EngineRelations
import Idempotence.Proofs.Extensions

namespace Idempotence

variable {σ τ ε η α β γ κ : Type}

/-! ## Two runs -/

namespace Process

/-- **Processes that agree**, as far as `V` shows: from states that look alike they come to the same end, in
    states that look alike. -/
structure Agrees (V : σ → τ) (p q : Process σ α) : Prop where
  ends : ∀ {s t}, V s = V t → (p.run s).1 = (q.run t).1 ∧ V (p.run s).2 = V (q.run t).2

/-- **A plain process** can tell nothing that does not show. -/
abbrev Plain (V : σ → τ) (p : Process σ α) : Prop := p.Agrees V p

/-- **A hidden process** answers, and nothing is seen of it. -/
def Hidden (V : σ → τ) (p : Process σ α) : Prop := ∀ s, ∃ a t, p.run s = (.value a, t) ∧ V t = V s

variable {V : σ → τ}

namespace Agrees

theorem done (a : α) : Plain V (.done a : Process σ α) := ⟨fun h => ⟨rfl, h⟩⟩

theorem crash (m : String) : Plain V (.crash m : Process σ α) := ⟨fun h => ⟨rfl, h⟩⟩

theorem look {f : σ → α} (hf : ∀ s t, V s = V t → f s = f t) : Plain V (Process.look f) :=
  ⟨fun h => ⟨congrArg Outcome.value (hf _ _ h), h⟩⟩

theorem change {f g : σ → σ} (hfg : ∀ s t, V s = V t → V (f s) = V (g t)) :
    (Process.change f).Agrees V (Process.change g) := ⟨fun h => ⟨rfl, hfg _ _ h⟩⟩

theorem atomically {f g : σ → α × σ}
    (hfg : ∀ s t, V s = V t → (f s).1 = (g t).1 ∧ V (f s).2 = V (g t).2) :
    (Process.atomically f).Agrees V (Process.atomically g) := by
  refine ⟨fun {s t} h => ?_⟩
  obtain ⟨hanswer, hview⟩ := hfg s t h
  exact ⟨congrArg Outcome.value hanswer, hview⟩

/-- Agreeing goes through sequencing. -/
theorem bind {p q : Process σ α} {f g : α → Process σ β} (hp : p.Agrees V q)
    (hf : ∀ a, (f a).Agrees V (g a)) : (p >>= f).Agrees V (q >>= g) := by
  refine ⟨fun {s t} h => ?_⟩
  obtain ⟨hend, hview⟩ := hp.ends h
  rw [run_bind, run_bind]
  rcases hps : p.run s with ⟨o, s'⟩
  rcases hqt : q.run t with ⟨o', t'⟩
  rw [hps, hqt] at hend hview
  -- They come to the same end, so both go on, and from the same value, or neither does.
  cases hend
  cases o with
  | value a => exact (hf a).ends hview
  | crashed m => exact ⟨rfl, hview⟩

/-- Agreeing goes through catching crashes. -/
theorem caught {p q : Process σ α} (hp : p.Agrees V q) : p.caught.Agrees V q.caught := by
  refine ⟨fun {s t} h => ?_⟩
  obtain ⟨hend, hview⟩ := hp.ends h
  rw [run_caught, run_caught]
  exact ⟨congrArg Outcome.value hend, hview⟩

/-- Agreement goes through what runs on the way out. -/
theorem onExit {p q : Process σ α} {last last' : Process σ Unit} (hp : p.Agrees V q)
    (hlast : last.Agrees V last') : (p.onExit last).Agrees V (q.onExit last') := by
  refine ⟨fun {s t} h => ?_⟩
  obtain ⟨hend, hview⟩ := hp.ends h
  obtain ⟨hend', hview'⟩ := hlast.ends hview
  rw [run_onExit, run_onExit]
  rcases hps : last.run (p.run s).2 with ⟨o, s'⟩
  rcases hqt : last'.run (q.run t).2 with ⟨o', t'⟩
  rw [hps, hqt] at hend' hview'
  cases hend'
  cases o with
  | value u => exact ⟨hend, hview'⟩
  | crashed m => exact ⟨rfl, hview'⟩

/-- Agreement goes through what runs on a crash. -/
theorem onCrash {p q : Process σ α} {last last' : Process σ Unit} (hp : p.Agrees V q)
    (hlast : last.Agrees V last') : (p.onCrash last).Agrees V (q.onCrash last') := by
  refine ⟨fun {s t} h => ?_⟩
  obtain ⟨hend, hview⟩ := hp.ends h
  rw [run_onCrash, run_onCrash]
  rcases hps : p.run s with ⟨o, s'⟩
  rcases hqt : q.run t with ⟨o', t'⟩
  rw [hps, hqt] at hend hview
  cases hend
  cases o with
  | value a => exact ⟨rfl, hview⟩
  | crashed m =>
    obtain ⟨hend', hview'⟩ := hlast.ends hview
    dsimp only
    rcases hls : last.run s' with ⟨o, s''⟩
    rcases hlt : last'.run t' with ⟨o', t''⟩
    rw [hls, hlt] at hend' hview'
    cases hend'
    cases o <;> exact ⟨rfl, hview'⟩

/-- What agrees with an answer may come first. -/
theorem answering {p : Process σ β} {b : β} {f : β → Process σ α} {q : Process σ α}
    (hp : p.Agrees V (.done b)) (hf : (f b).Agrees V q) : (p >>= f).Agrees V q := by
  refine ⟨fun {s t} h => ?_⟩
  obtain ⟨hend, hview⟩ := hp.ends h
  rw [run_bind]
  rcases hps : p.run s with ⟨o, s'⟩
  rw [hps] at hend hview
  cases hend
  exact hf.ends hview

/-- Something hidden may come first on the one side. -/
theorem after {p : Process σ β} {f : β → Process σ α} {q : Process σ α} (hp : p.Hidden V)
    (hf : ∀ b, (f b).Agrees V q) : (p >>= f).Agrees V q := by
  refine ⟨fun {s t} h => ?_⟩
  obtain ⟨b, s', hrun, hview⟩ := hp s
  rw [run_bind, hrun]
  exact (hf b).ends (hview.trans h)

/-- Something hidden may come first on the other side. -/
theorem after_right {p : Process σ α} {q : Process σ β} {g : β → Process σ α} (hq : q.Hidden V)
    (hg : ∀ b, p.Agrees V (g b)) : p.Agrees V (q >>= g) := by
  refine ⟨fun {s t} h => ?_⟩
  obtain ⟨b, t', hrun, hview⟩ := hq t
  rw [run_bind, hrun]
  exact (hg b).ends (h.trans hview.symm)

end Agrees

namespace Hidden

theorem of_steps {p : Process σ α} (hsteps : p.Steps fun s t => V t = V s) (hsafe : p.Safe) :
    p.Hidden V := by
  intro s
  obtain ⟨a, t, hrun⟩ := hsafe.run s
  have hview : V (p.run s).2 = V s := hsteps.run (fun _ => rfl) (fun h h' => h'.trans h) s
  rw [hrun] at hview
  exact ⟨a, t, hrun, hview⟩

theorem look (f : σ → α) : Hidden V (Process.look f) := fun s => ⟨f s, s, rfl, rfl⟩

theorem change {f : σ → σ} (h : ∀ s, V (f s) = V s) : Hidden V (Process.change f) :=
  fun s => ⟨(), f s, rfl, h s⟩

end Hidden

end Process

/-- To agree goes through all that processes are built with. -/
theorem Process.Agrees.congruent {V : σ → τ} :
    Process.Congruent fun a a' : Process σ _ => a.Agrees V a' where
  done := .done
  crash := .crash
  bind := .bind
  caught := .caught
  onExit := .onExit
  onCrash := .onCrash

/-! ## Sights -/

/-- **What is seen of a context**: all but its span, and how many extensions have learnt of it. -/
structure Appearance where
  wasFinal : Bool
  visited : List String
  active : Option ActivePhase
  lock : Option LockHandle
  closed : Bool
  property : (name : String) → (type : PropertyType) → Option type.Value

namespace ContextState

/-- How a context looks. -/
def appearance (s : ContextState) : Appearance where
  wasFinal := s.wasFinal
  visited := s.visited
  active := s.active
  lock := s.lock
  closed := s.closed
  property name type :=
    if Monitoring.spanKey.qualifiedName = name ∧ .span = type then none
    else PropertyBag.find name type s.properties.slots

/-- Spans are not seen. -/
theorem appearance_span {s : ContextState} {bag : Properties}
    (h : PropertyBag.AgreesBut Monitoring.spanKey s.properties bag) :
    { s with properties := bag }.appearance = s.appearance := by
  have hproperty : { s with properties := bag }.appearance.property = s.appearance.property := by
    funext name type
    show (if Monitoring.spanKey.qualifiedName = name ∧ .span = type then none
      else PropertyBag.find name type bag.slots) = if Monitoring.spanKey.qualifiedName = name ∧ .span = type
        then none else PropertyBag.find name type s.properties.slots
    by_cases hspan : Monitoring.spanKey.qualifiedName = name ∧ .span = type
    · rw [if_pos hspan, if_pos hspan]
    · rw [if_neg hspan, if_neg hspan]
      exact h name type (Decidable.not_and_iff_or_not.1 hspan)
  exact congrArg (fun f => { s.appearance with property := f }) hproperty

/-- Contexts that look alike are entered alike. -/
theorem enter_alike {s t : ContextState} (h : s.appearance = t.appearance) (process : String)
    (phase : Phase) :
    (∃ e, s.enter process phase = .error e ∧ t.enter process phase = .error e) ∨
      ∃ s' t', s.enter process phase = .ok s' ∧ t.enter process phase = .ok t' ∧
        s'.appearance = t'.appearance := by
  have hfinal : s.wasFinal = t.wasFinal := congrArg Appearance.wasFinal h
  have hvisited : s.visited = t.visited := congrArg Appearance.visited h
  have hactive : s.active = t.active := congrArg Appearance.active h
  unfold enter
  rw [hfinal, hvisited, hactive]
  split
  · exact .inl ⟨_, rfl, rfl⟩
  · split
    · exact .inl ⟨_, rfl, rfl⟩
    · split
      · exact .inl ⟨_, rfl, rfl⟩
      · refine .inr ⟨_, _, rfl, rfl, ?_⟩
        exact congrArg (fun a : Appearance =>
          { a with wasFinal := t.wasFinal, visited := phase.id :: t.visited, active := some { phase } }) h

/-! ### Lists of contexts -/

section

variable {χ : Type} {look : ContextState → χ} {l m : List ContextState} (h : l.map look = m.map look)
include h

/-- In lists that look alike each context does. -/
theorem look_getD (id : Nat) : look (l.getD id default) = look (m.getD id default) := by
  have hview := congrArg (·[id]?) h
  simp only [List.getElem?_map] at hview
  rw [List.getD_eq_getElem?_getD, List.getD_eq_getElem?_getD]
  cases hl : l[id]? with
  | none =>
    rw [hl] at hview
    rw [Option.map_eq_none_iff.1 hview.symm]
  | some s =>
    rw [hl] at hview
    obtain ⟨t, hm, hst⟩ := Option.map_eq_some_iff.1 hview.symm
    rw [hm]
    exact hst.symm

/-- Lists that look alike go on doing so if a context is changed alike in both. -/
theorem map_modify {id : Nat} {f g : ContextState → ContextState}
    (hfg : look (f (l.getD id default)) = look (g (m.getD id default))) :
    (l.modify id f).map look = (m.modify id g).map look := by
  refine List.ext_getElem? fun j => ?_
  have hview := congrArg (·[j]?) h
  simp only [List.getElem?_map, List.getElem?_modify] at hview ⊢
  by_cases hj : id = j
  · subst hj
    rw [List.getD_eq_getElem?_getD, List.getD_eq_getElem?_getD] at hfg
    cases hl : l[id]? with
    | none =>
      rw [hl] at hview
      rw [Option.map_eq_none_iff.1 hview.symm]
      rfl
    | some s =>
      rw [hl] at hview hfg
      obtain ⟨t, hm, -⟩ := Option.map_eq_some_iff.1 hview.symm
      rw [hm] at hfg ⊢
      simpa using hfg
  · simpa [hj] using hview

end

end ContextState

namespace World

variable (shown : ε → η)

/-- **What is seen of a world**: what is shown of its environment, and how its contexts look. -/
def sight (w : World ε) : η × List Appearance := (shown w.env, w.contexts.map (·.appearance))

variable {shown} {w v : World ε}

theorem shown_eq (h : w.sight shown = v.sight shown) : shown w.env = shown v.env := congrArg Prod.fst h

theorem length_eq (h : w.sight shown = v.sight shown) : w.contexts.length = v.contexts.length := by
  have hlength := congrArg (fun view => view.2.length) h
  simpa only [sight, List.length_map] using hlength

/-- Where two worlds look alike, so does each of their contexts. -/
theorem appearance_eq (h : w.sight shown = v.sight shown) (id : Nat) :
    (w.context id).appearance = (v.context id).appearance :=
  ContextState.look_getD (congrArg Prod.snd h) id

/-- Changes of a context that look alike. -/
theorem sight_modifyContext (h : w.sight shown = v.sight shown) {id : Nat}
    {f g : ContextState → ContextState}
    (hfg : (f (w.context id)).appearance = (g (v.context id)).appearance) :
    (w.modifyContext id f).sight shown = (v.modifyContext id g).sight shown :=
  Prod.ext (shown_eq h :) (ContextState.map_modify (congrArg Prod.snd h) hfg)

/-- A change that is not seen. -/
theorem sight_modifyContext_self {id : Nat} {f : ContextState → ContextState}
    (hf : (f (w.context id)).appearance = (w.context id).appearance) :
    (w.modifyContext id f).sight shown = w.sight shown := by
  have hsame : w.modifyContext id (fun s => s) = w := modifyContext_eq_self rfl
  have hsight : (w.modifyContext id f).sight shown = (w.modifyContext id fun s => s).sight shown :=
    sight_modifyContext rfl hf
  rwa [hsame] at hsight

/-- A new context is seen. -/
theorem sight_append (h : w.sight shown = v.sight shown) (s : ContextState) :
    ({ w with contexts := w.contexts ++ [s] } : World ε).sight shown =
      ({ v with contexts := v.contexts ++ [s] } : World ε).sight shown := by
  refine Prod.ext (shown_eq h :) ?_
  have hcontexts : w.contexts.map (·.appearance) = v.contexts.map (·.appearance) := congrArg Prod.snd h
  simp only [sight, List.map_append, hcontexts]

/-- A change of the environment that is not seen. -/
theorem sight_env {e : ε} (h : shown e = shown w.env) :
    ({ w with env := e } : World ε).sight shown = w.sight shown :=
  Prod.ext h rfl

/-- The trace and the spans of contexts are not seen. -/
theorem overlooksSpans_sight : OverlooksSpans fun w w' : World ε => w'.sight shown = w.sight shown where
  trace _ _ := rfl
  spans _ _ _ h := sight_modifyContext_self (ContextState.appearance_span h)

end World

/-! ## What is shown of parts -/

/-- **A part that is shown**: it is the same in environments that look alike, and they go on looking alike
    if it is changed. -/
structure Part.Shown (part : Part ε α) (shown : ε → η) : Prop where
  get : ∀ e e', shown e = shown e' → part.get e = part.get e'
  set : ∀ a e e', shown e = shown e' → shown (part.set a e) = shown (part.set a e')

/-- **A part that is not shown.** -/
def Part.Unshown (part : Part ε α) (shown : ε → η) : Prop := ∀ a e, shown (part.set a e) = shown e

namespace Part.Shown

variable {part : Part ε α} {shown : ε → η} (hpart : part.Shown shown)
include hpart

/-- What uses parts that are shown is plain. -/
theorem plain_look (f : α → β) : (Action.look part f).Plain (World.sight shown) :=
  .look fun _ _ h => congrArg f (hpart.get _ _ (World.shown_eq h))

theorem plain_on (f : α → β × α) : (Action.on part f).Plain (World.sight shown) := by
  refine .atomically fun w v h => ?_
  have hget : part.get w.env = part.get v.env := hpart.get _ _ (World.shown_eq h)
  have hcontexts : w.contexts.map (·.appearance) = v.contexts.map (·.appearance) := congrArg Prod.snd h
  refine ⟨congrArg (fun a => (f a).1) hget, Prod.ext ?_ hcontexts⟩
  show shown (part.set (f (part.get w.env)).2 w.env) = shown (part.set (f (part.get v.env)).2 v.env)
  rw [hget]
  exact hpart.set _ _ _ (World.shown_eq h)

end Part.Shown

/-! ## Stores and locks -/

/-- **A plain store.** -/
structure StoreAdapter.Plain (V : World ε → τ) (store : StoreAdapter ε) : Prop where
  get : ∀ key, (store.get key).Plain V
  begin : store.begin.Plain V
  insert : ∀ key data isFinal txn, ((store.insert key data isFinal).run txn).Plain V
  conclude : ∀ txn answer, (store.conclude txn answer).Plain V
  findFinal : ∀ process key, (store.findFinal process key).Plain V

/-- **Plain locks.** -/
structure LockAdapter.Plain (V : World ε → τ) (locks : LockAdapter ε) : Prop where
  obtain : ∀ key timeout now, (locks.obtain key timeout now).Plain V
  release : ∀ handle, (locks.release handle).Plain V

section

variable {V : World ε → τ}

/-- **Records in memory** make a plain store if what uses them is plain. -/
theorem MemoryStore.plain_of_part {records : Part ε MemoryStore} {stamps : Action ε Instant}
    (hlook : ∀ {β : Type} (f : MemoryStore → β), (Action.look records f).Plain V)
    (hon : ∀ {β : Type} (f : MemoryStore → β × MemoryStore), (Action.on records f).Plain V)
    (hstamps : stamps.Plain V) : (MemoryStore.adapter records stamps).Plain V where
  get key := by
    dsimp only [adapter]
    exact hlook _
  begin := .done _
  insert key data isFinal pending := by
    refine .bind (hlook _) fun taken => ?_
    split
    · exact .done _
    · exact hstamps.bind fun _ => .done _
  conclude pending answer := by
    cases answer with
    | error e => exact .done _
    | ok u => exact hon (commit pending)
  findFinal process key := by
    dsimp only [adapter]
    exact hlook _

/-- **Locks in memory** are plain if what uses them is. -/
theorem LockTable.plain_of_part {locks : Part ε (LockTable RecordKey)}
    (hon : ∀ {β : Type} (f : LockTable RecordKey → β × LockTable RecordKey), (Action.on locks f).Plain V) :
    (LockTable.adapter locks).Plain V where
  obtain _ _ _ := by
    dsimp only [adapter]
    exact hon _
  release _ := by
    dsimp only [adapter]
    exact hon _

end

/-- Records in memory make a plain store if they are shown. -/
theorem MemoryStore.plain_adapter {shown : ε → η} {records : Part ε MemoryStore} {stamps : Action ε Instant}
    (hrecords : records.Shown shown) (hstamps : stamps.Plain (World.sight shown)) :
    (MemoryStore.adapter records stamps).Plain (World.sight shown) :=
  plain_of_part hrecords.plain_look hrecords.plain_on hstamps

theorem LockTable.plain_adapter {shown : ε → η} {locks : Part ε (LockTable RecordKey)}
    (hlocks : locks.Shown shown) : (LockTable.adapter locks).Plain (World.sight shown) :=
  plain_of_part hlocks.plain_on

/-! ## Executions -/

/-- **Executors that agree** on bodies that agree. -/
structure Executor.Agrees (V : World ε → τ) (x y : Executor ε) : Prop where
  execute : ∀ {κ : Type} (c : Context) (phase : Phase) {body body' : Body ε κ}, body.Agrees V body' →
    (x.execute c phase body).Agrees V (y.execute c phase body')

namespace Executor

variable {V : World ε → τ} {store : StoreAdapter ε} (hstore : store.Plain V)
include hstore

/-- **The base executor** over a plain store, where telling is not seen. -/
theorem agrees_base (htell : ∀ e, (Action.tell e : Action ε Unit).Plain V) :
    (base store).Agrees V (base store) :=
  ⟨fun c phase _ _ hbody => Process.Agrees.congruent.base
    ⟨hstore.get, hstore.begin, hstore.insert, hstore.conclude⟩ (fun _ => htell _) (fun _ => htell _) c phase hbody⟩

end Executor

/-! ## Calls -/

section

variable {shown : ε → η}

theorem Action.plain_tell (e : Event) : (Action.tell e : Action ε Unit).Plain (World.sight shown) :=
  .change fun _ _ h => h

namespace Context

/-- Whatever is seen of a context may be looked at. -/
theorem plain_look (c : Context) {f : ContextState → α}
    (hf : ∀ s t : ContextState, s.appearance = t.appearance → f s = f t) :
    (c.look f : Action ε α).Plain (World.sight shown) :=
  .look fun _ _ h => hf _ _ (World.appearance_eq h c.id)

/-- Changes of a context that are seen. -/
theorem plain_change (c : Context) {f : ContextState → ContextState}
    (hf : ∀ s t : ContextState, s.appearance = t.appearance → (f s).appearance = (f t).appearance) :
    (c.change f : Action ε Unit).Plain (World.sight shown) :=
  .change fun _ _ h => World.sight_modifyContext h (hf _ _ (World.appearance_eq h c.id))

theorem plain_enter (c : Context) (phase : Phase) :
    (c.enter phase : Action ε (Except Error Unit)).Plain (World.sight shown) := by
  refine .atomically fun w v h => ?_
  rcases ContextState.enter_alike (World.appearance_eq h c.id) c.process phase with
    ⟨e, hw, hv⟩ | ⟨s, t, hw, hv, hst⟩
  · rw [hw, hv]
    exact ⟨rfl, h⟩
  · rw [hw, hv]
    exact ⟨rfl, World.sight_modifyContext h hst⟩

theorem plain_leave (c : Context) (phase : Phase) :
    (c.leave phase : Action ε Unit).Plain (World.sight shown) := by
  refine c.plain_change fun s t h => ?_
  exact congrArg (fun a : Appearance =>
    { a with wasFinal := a.wasFinal || phase.isFinal, active := none }) h

end Context

end

end Idempotence
