import Bindery.Proofs.Integration.Targets
import Bindery.Proofs.Run.Books

/-! # Plans of steps

A plan says what a step comes to whatever is booked before it: a result and the deliveries that are
made on the way, or nothing if the step is bound to fail. A step follows plans if it carries out one
of them, and if nothing but a clash with what is booked can keep it from that. A step of a run that
may stop early has several plans, and any other step has one.
-/

namespace Bindery

/-- What a step comes to. -/
abbrev Plan (α : Type) := Option (α × List Delivery)

/-- The books agree on deliveries, and candidates that are kept are those of the table. -/
structure Session.InOrder (t : SymbolTable) (s : Session MemoryStore) (l : List Delivery) : Prop
    extends s.Booked l where
  cached : s.CacheValid t

theorem Session.inOrder_start (t : SymbolTable) (notes : List Note) :
    ({ store := MemoryStore.empty, notes } : Session MemoryStore).InOrder t [] where
  units := .refl _
  emitted := rfl
  named := by simp
  claimed := .refl _
  cached _ hFound := nomatch hFound

/-- A change to what is not in the books keeps a session in order. -/
theorem Session.InOrder.of_quiet {t : SymbolTable} {s s' : Session MemoryStore} {l : List Delivery}
    (h : s.InOrder t l) (hStore : s'.store = s.store) (hNames : s'.names = s.names)
    (hEmitted : s'.journal.emitted = s.journal.emitted) (hCached : s'.CacheValid t) :
    s'.InOrder t l where
  units := hStore ▸ h.units
  emitted := hEmitted ▸ h.emitted
  named := h.named
  claimed := hNames ▸ h.claimed
  cached := hCached

namespace Plan

variable {α β : Type}

/-- A plan and then one for its result; nothing comes behind a failure. -/
def andThen (plans : Plan α → Prop) (later : α → Plan β → Prop) (plan : Plan β) : Prop :=
  (plans none ∧ plan = none) ∨ ∃ a l next, plans (some (a, l)) ∧ later a next ∧
    plan = next.map fun (b, l') => (b, l ++ l')

end Plan

namespace Run

variable {α β : Type} {t : SymbolTable}

/-- The step carries out one of the plans or is kept from it by a clash. -/
def Follows (t : SymbolTable) (m : Run MemoryStore α) (plans : Plan α → Prop) : Prop :=
  ∀ s l, s.InOrder t l →
    (∃ a s' new, m.Gives s a s' ∧ s'.InOrder t (l ++ new) ∧ plans (some (a, new))) ∨
    ∃ fault s', m.Fails s fault s' ∧
      (plans none ∨ fault.IsClash ∧ ∃ a new, plans (some (a, new)) ∧ ¬ Compatible (l ++ new))

namespace Follows

variable {m : Run MemoryStore α} {f : α → Run MemoryStore β} {plans plans' : Plan α → Prop}
  {later : α → Plan β → Prop} {s s' : Session MemoryStore} {l : List Delivery}

theorem of_gives (h : m.Follows t plans) (hStart : s.InOrder t l) {a : α}
    (hGives : m.Gives s a s') : ∃ new, s'.InOrder t (l ++ new) ∧ plans (some (a, new)) := by
  rcases h s l hStart with ⟨b, s₁, new, hOther, hEnd, hPlan⟩ | ⟨fault, s₁, hFails, _⟩
  · obtain ⟨rfl, rfl⟩ := hGives.unique hOther
    exact ⟨new, hEnd, hPlan⟩
  · exact absurd hFails hGives.not_fails

theorem of_fails (h : m.Follows t plans) (hStart : s.InOrder t l) {fault : Fault}
    (hFails : m.Fails s fault s') :
    plans none ∨ fault.IsClash ∧ ∃ a new, plans (some (a, new)) ∧ ¬ Compatible (l ++ new) := by
  rcases h s l hStart with ⟨a, s₁, new, hGives, _⟩ | ⟨other, s₁, hOther, hPlan⟩
  · exact absurd hFails hGives.not_fails
  · have hSame := hFails.symm.trans hOther
    simp only [Prod.mk.injEq, Except.error.injEq] at hSame
    rwa [hSame.1]

/-- There is always a plan. -/
theorem exists_plan (h : m.Follows t plans) (hStart : s.InOrder t l) : ∃ plan, plans plan := by
  rcases h s l hStart with ⟨a, _, new, _, _, hPlan⟩ | ⟨_, _, _, hPlan | ⟨_, a, new, hPlan, _⟩⟩
  · exact ⟨_, hPlan⟩
  · exact ⟨_, hPlan⟩
  · exact ⟨_, hPlan⟩

theorem mono (h : m.Follows t plans) (hImp : ∀ plan, plans plan → plans' plan) :
    m.Follows t plans' := by
  intro s l hStart
  rcases h s l hStart with ⟨a, s', new, hGives, hEnd, hPlan⟩ | ⟨fault, s', hFails, hPlan⟩
  · exact .inl ⟨a, s', new, hGives, hEnd, hImp _ hPlan⟩
  · refine .inr ⟨fault, s', hFails, hPlan.imp (hImp _) ?_⟩
    rintro ⟨hClash, a, new, hPlan, hTwice⟩
    exact ⟨hClash, a, new, hImp _ hPlan, hTwice⟩

theorem bind (h : m.Follows t plans)
    (hThen : ∀ a l, plans (some (a, l)) → (f a).Follows t (later a)) :
    (m >>= f).Follows t (Plan.andThen plans later) := by
  intro s l hStart
  rcases h s l hStart with ⟨a, s₁, new, hGives, hMiddle, hPlan⟩ | ⟨fault, s₁, hFails, hPlan⟩
  · rcases hThen a new hPlan s₁ _ hMiddle with ⟨b, s₂, new', hNext, hEnd, hLater⟩ |
      ⟨fault, s₂, hFails, hLater⟩
    · refine .inl ⟨b, s₂, new ++ new', gives_bind.mpr ⟨a, s₁, hGives, hNext⟩, ?_, ?_⟩
      · rwa [← List.append_assoc]
      · exact .inr ⟨a, new, _, hPlan, hLater, rfl⟩
    · refine .inr ⟨fault, s₂, fails_bind.mpr (.inr ⟨a, s₁, hGives, hFails⟩), ?_⟩
      rcases hLater with hNone | ⟨hClash, b, new', hLater, hTwice⟩
      · exact .inl (.inr ⟨a, new, none, hPlan, hNone, rfl⟩)
      · refine .inr ⟨hClash, b, new ++ new', .inr ⟨a, new, _, hPlan, hLater, rfl⟩, ?_⟩
        rwa [← List.append_assoc]
  · refine .inr ⟨fault, s₁, fails_bind.mpr (.inl hFails), ?_⟩
    rcases hPlan with hNone | ⟨hClash, a, new, hPlan, hTwice⟩
    · exact .inl (.inl ⟨hNone, rfl⟩)
    -- the second step is never reached here, but what it would have come to is part of the plan
    · obtain ⟨next, hNext⟩ := (hThen a new hPlan).exists_plan hStart
      cases next with
      | none => exact .inl (.inr ⟨a, new, none, hPlan, hNext, rfl⟩)
      | some outcome =>
        obtain ⟨b, new'⟩ := outcome
        refine .inr ⟨hClash, b, new ++ new', .inr ⟨a, new, _, hPlan, hNext, rfl⟩, fun hFit => ?_⟩
        rw [← List.append_assoc] at hFit
        exact hTwice hFit.left

/-- Steps with a single plan each deliver one after the other. -/
theorem bind_single {a : α} {b : β} {own behind : List Delivery}
    (h : m.Follows t (· = some (a, own))) (hThen : (f a).Follows t (· = some (b, behind))) :
    (m >>= f).Follows t (· = some (b, own ++ behind)) := by
  have hBoth : (m >>= f).Follows t
      (Plan.andThen (· = some (a, own)) fun _ => (· = some (b, behind))) := by
    refine h.bind fun c l hPlan => ?_
    obtain ⟨rfl, rfl⟩ := Prod.mk.inj (Option.some.inj hPlan)
    exact hThen
  refine hBoth.mono ?_
  rintro _ (⟨hNone, _⟩ | ⟨c, l, _, hPlan, rfl, rfl⟩)
  · cases hNone
  · obtain ⟨rfl, rfl⟩ := Prod.mk.inj (Option.some.inj hPlan)
    rfl

/-- A step that delivers nothing does not change the plans of what comes behind it. -/
theorem behind {a : α} (h : m.Follows t (· = some (a, []))) {plans : Plan β → Prop}
    (hThen : (f a).Follows t plans) : (m >>= f).Follows t plans := by
  have hBoth : (m >>= f).Follows t (Plan.andThen (· = some (a, [])) fun _ => plans) := by
    refine h.bind fun b l hPlan => ?_
    obtain ⟨rfl, rfl⟩ := Prod.mk.inj (Option.some.inj hPlan)
    exact hThen
  refine hBoth.mono ?_
  rintro _ (⟨hNone, _⟩ | ⟨b, l, plan, hPlan, hLater, rfl⟩)
  · cases hNone
  · obtain ⟨rfl, rfl⟩ := Prod.mk.inj (Option.some.inj hPlan)
    cases plan <;> exact hLater

theorem during {stretch : Stretch} (h : m.Follows t plans) :
    (during stretch m).Follows t plans := by
  intro s l hStart
  rcases (Run.during stretch m).gives_or_fails s with ⟨a, s', hGives⟩ | ⟨fault, s', hFails⟩
  · obtain ⟨s₁, notes, hStep, rfl⟩ := gives_of_during hGives
    obtain ⟨new, hEnd, hPlan⟩ := h.of_gives hStart hStep
    exact .inl ⟨a, _, new, hGives, hEnd.of_quiet rfl rfl rfl hEnd.cached, hPlan⟩
  · obtain ⟨s₁, notes, hStep, rfl⟩ := fails_of_during hFails
    exact .inr ⟨fault, _, hFails, h.of_fails hStart hStep⟩

end Follows

/-! ## Steps that deliver nothing -/

theorem follows_of_gives {m : Run MemoryStore α} {a : α}
    {f : Session MemoryStore → Session MemoryStore} (hGives : ∀ s, m.Gives s a (f s))
    (hOrder : ∀ s l, s.InOrder t l → (f s).InOrder t l) : m.Follows t (· = some (a, [])) := by
  intro s l hStart
  refine .inl ⟨a, f s, [], hGives s, ?_, rfl⟩
  rw [List.append_nil]
  exact hOrder s l hStart

theorem follows_pure (a : α) : (pure a : Run MemoryStore α).Follows t (· = some (a, [])) :=
  follows_of_gives (fun _ => gives_pure.mpr ⟨rfl, rfl⟩) fun _ _ h => h

theorem follows_modify {f : Session MemoryStore → Session MemoryStore}
    (hOrder : ∀ s l, s.InOrder t l → (f s).InOrder t l) :
    (modify f : Run MemoryStore PUnit).Follows t (· = some ((), [])) :=
  follows_of_gives (fun _ => gives_modify.mpr rfl) hOrder

theorem follows_note (n : Note) : (note n : Run MemoryStore Unit).Follows t (· = some ((), [])) :=
  follows_modify fun _ _ h => h.of_quiet rfl rfl rfl h.cached

theorem follows_ofExcept (r : Except Fault α) :
    (Run.ofExcept r : Run MemoryStore α).Follows t (· = r.toOption.map fun a => (a, [])) := by
  intro s l hStart
  cases r with
  | ok a => exact .inl ⟨a, s, [], gives_ofExcept.mpr ⟨rfl, rfl⟩, by simpa using hStart, rfl⟩
  | error fault => exact .inr ⟨fault, s, rfl, .inl rfl⟩

/-- A step that looks at the session follows plans if it does so for every session. -/
theorem follows_get_bind {f : Session MemoryStore → Run MemoryStore α} {plans : Plan α → Prop}
    (h : ∀ s l, s.InOrder t l → (f s).Follows t plans) : (get >>= f).Follows t plans := by
  intro s l hStart
  have hGet : (get : Run MemoryStore (Session MemoryStore)).Gives s s s := gives_get.mpr ⟨rfl, rfl⟩
  rcases h s l hStart s l hStart with ⟨a, s', new, hGives, hEnd⟩ | ⟨fault, s', hFails, hPlan⟩
  · exact .inl ⟨a, s', new, gives_bind.mpr ⟨s, s, hGet, hGives⟩, hEnd⟩
  · exact .inr ⟨fault, s', fails_bind.mpr (.inr ⟨s, s, hGet, hFails⟩), hPlan⟩

/-- The answer is known beforehand if the run collects diagnostics. -/
theorem follows_shouldStop (ctx : Context) : (ctx.shouldStop : Run MemoryStore Bool).Follows t
    fun plan => ∃ b, plan = some (b, []) ∧ (ctx.failFast = false → b = false) := by
  intro s l hStart
  let stop := ctx.failFast && !s.journal.diagnostics.isEmpty
  refine .inl ⟨stop, s, [], ?_, by simpa using hStart, stop, rfl, fun hCollect => ?_⟩
  · exact gives_bind.mpr ⟨s, s, gives_get.mpr ⟨rfl, rfl⟩, gives_pure.mpr ⟨rfl, rfl⟩⟩
  · simp [stop, hCollect]

/-! ## Emitting -/

/-- The delivery is the whole plan, unless a type of the file cannot be named. -/
theorem follows_emit (ctx : Context) (d : Delivery) :
    (ctx.emit d.generator d.file d.origin : Run MemoryStore Unit).Follows t
      (· = d.file.topLevelNames.toOption.map fun _ => ((), [d])) := by
  intro s l hStart
  cases hNames : d.file.topLevelNames with
  | error fault =>
    refine .inr ⟨Fault.ofDomain fault, s, fails_bind.mpr (.inl ?_), .inl rfl⟩
    rw [hNames]
    rfl
  | ok names =>
    have hNamed : d.file.topLevelNames = .ok d.names := by
      rw [Delivery.names, hNames]
      rfl
    rcases Context.emit_outcome hStart.toBooked hNamed with ⟨_, s', hGives, hBooked, hSame⟩ |
      ⟨hTwice, fault, s', hFails, hClash, _⟩
    · refine .inl ⟨(), s', [d], hGives, ⟨hBooked, fun found hFound => ?_⟩, rfl⟩
      rw [hSame] at hFound
      exact hStart.cached found hFound
    · exact .inr ⟨fault, s', hFails, .inr ⟨hClash, (), [d], rfl, hTwice⟩⟩

end Run

/-! ## Steps of a context -/

namespace Context

open Run

/-- The graph is the one that the table configures, and its links form a forest. -/
structure Sound (ctx : Context) : Prop where
  graph : ctx.graph = (ScopeGraph.build ctx.table).1
  forest : ctx.graph.validate = .ok ()

/-- What plans of a step have in common: the result and the deliveries are as wanted, and the step
is not bound to fail in a sound context. -/
structure Allows {α : Type} (ctx : Context) (mine : Delivery → Prop) (post : α → Prop)
    (plan : Plan α) : Prop where
  made : ∀ a l, plan = some (a, l) → post a ∧ ∀ d ∈ l, mine d
  sound : ctx.Sound → plan ≠ none

/-- The step follows plans as wanted, and a single one if the run collects diagnostics. -/
def Performs {α : Type} (ctx : Context) (mine : Delivery → Prop) (m : Run MemoryStore α)
    (post : α → Prop) : Prop :=
  ∃ plans : Plan α → Prop, m.Follows ctx.table plans ∧
    (∀ plan, plans plan → ctx.Allows mine post plan) ∧
    (ctx.failFast = false → ∀ plan plan', plans plan → plans plan' → plan = plan')

variable {α β : Type} {ctx : Context} {mine mine' : Delivery → Prop} {m : Run MemoryStore α}
  {f : α → Run MemoryStore β} {post post' : α → Prop} {later : β → Prop}

theorem performs_of_plan {plan : Plan α} (h : m.Follows ctx.table (· = plan))
    (hAllows : ctx.Allows mine post plan) : ctx.Performs mine m post :=
  ⟨_, h, fun _ hPlan => hPlan ▸ hAllows, fun _ _ _ hPlan hPlan' => hPlan.trans hPlan'.symm⟩

/-- A step that delivers nothing and does not fail. -/
theorem performs_of_quiet {a : α} (h : m.Follows ctx.table (· = some (a, []))) (hPost : post a) :
    ctx.Performs mine m post := by
  refine performs_of_plan h ⟨fun b l hPlan => ?_, nofun⟩
  obtain ⟨rfl, rfl⟩ := Prod.mk.inj (Option.some.inj hPlan)
  exact ⟨hPost, by simp⟩

theorem performs_pure {a : α} (hPost : post a) :
    ctx.Performs mine (pure a : Run MemoryStore α) post :=
  performs_of_quiet (follows_pure a) hPost

theorem performs_ofExcept {r : Except Fault α} (hPost : ∀ a, r = .ok a → post a)
    (hSound : ctx.Sound → ∃ a, r = .ok a) :
    ctx.Performs mine (Run.ofExcept r : Run MemoryStore α) post := by
  refine performs_of_plan (follows_ofExcept r) ⟨fun b l hPlan => ?_, fun hFine hNone => ?_⟩
  · obtain ⟨a, hOk, hPair⟩ := Option.map_eq_some_iff.mp hPlan
    obtain ⟨rfl, rfl⟩ := Prod.mk.inj hPair
    cases r with
    | ok c => exact ⟨hPost a (congrArg _ (Option.some.inj hOk)), by simp⟩
    | error fault => cases hOk
  · obtain ⟨a, rfl⟩ := hSound hFine
    cases hNone

theorem Performs.mono (h : ctx.Performs mine m post) (hMine : ∀ d, mine d → mine' d)
    (hPost : ∀ a, post a → post' a) : ctx.Performs mine' m post' := by
  obtain ⟨plans, hFollows, hAllows, hSingle⟩ := h
  refine ⟨plans, hFollows, fun plan hPlan => ⟨fun a l hSome => ?_, (hAllows plan hPlan).sound⟩,
    hSingle⟩
  obtain ⟨hResult, hMade⟩ := (hAllows plan hPlan).made a l hSome
  exact ⟨hPost a hResult, fun d hMem => hMine d (hMade d hMem)⟩

theorem Performs.bind (h : ctx.Performs mine m post)
    (hThen : ∀ a, post a → ctx.Performs mine (f a) later) : ctx.Performs mine (m >>= f) later := by
  obtain ⟨plans, hFollows, hAllows, hSingle⟩ := h
  have hPost {a : α} {l : List Delivery} (hPlan : plans (some (a, l))) : post a :=
    ((hAllows _ hPlan).made a l rfl).1
  choose next hNext hNextAllows hNextSingle using hThen
  let nextOf (a : α) (plan : Plan β) : Prop := ∃ hResult, next a hResult plan
  refine ⟨Plan.andThen plans nextOf, hFollows.bind fun a l hPlan => ?_, ?_, ?_⟩
  · exact (hNext a (hPost hPlan)).mono fun _ hNextPlan => ⟨hPost hPlan, hNextPlan⟩
  · rintro _ (⟨hNone, rfl⟩ | ⟨a, l, plan, hPlan, ⟨hResult, hNextPlan⟩, rfl⟩)
    · exact ⟨nofun, fun hSound => absurd rfl ((hAllows none hNone).sound hSound)⟩
    · obtain ⟨hMade, hSound⟩ := hNextAllows a hResult plan hNextPlan
      refine ⟨fun b l' hSome => ?_, fun hFine hNone => ?_⟩
      · obtain ⟨⟨b', l''⟩, rfl, hPair⟩ := Option.map_eq_some_iff.mp hSome
        obtain ⟨rfl, rfl⟩ := Prod.mk.inj hPair
        obtain ⟨hLater, hBehind⟩ := hMade b' l'' rfl
        exact ⟨hLater, List.forall_mem_append.mpr ⟨((hAllows _ hPlan).made a l rfl).2, hBehind⟩⟩
      · exact hSound hFine (Option.map_eq_none_iff.mp hNone)
  · rintro hCollect _ _ (⟨hNone, rfl⟩ | ⟨a, l, plan, hPlan, ⟨hResult, hNextPlan⟩, rfl⟩)
      (⟨hNone', rfl⟩ | ⟨a', l', plan', hPlan', ⟨hResult', hNextPlan'⟩, rfl⟩)
    · rfl
    · cases hSingle hCollect _ _ hNone hPlan'
    · cases hSingle hCollect _ _ hNone' hPlan
    · obtain ⟨rfl, rfl⟩ := Prod.mk.inj (Option.some.inj (hSingle hCollect _ _ hPlan hPlan'))
      rw [hNextSingle a hResult hCollect _ _ hNextPlan hNextPlan']

/-- A step that delivers nothing does not change how what comes behind it performs. -/
theorem performs_behind {a : α} (h : m.Follows ctx.table (· = some (a, [])))
    (hThen : ctx.Performs mine (f a) later) : ctx.Performs mine (m >>= f) later := by
  obtain ⟨plans, hFollows, hRest⟩ := hThen
  exact ⟨plans, h.behind hFollows, hRest⟩

theorem Performs.during {stretch : Stretch} (h : ctx.Performs mine m post) :
    ctx.Performs mine (Run.during stretch m) post := by
  obtain ⟨plans, hFollows, hRest⟩ := h
  exact ⟨plans, hFollows.during, hRest⟩

theorem performs_shouldStop :
    ctx.Performs mine (ctx.shouldStop : Run MemoryStore Bool) fun _ => True := by
  refine ⟨_, follows_shouldStop ctx, ?_, ?_⟩
  · rintro _ ⟨b, rfl, _⟩
    refine ⟨fun a l hPlan => ?_, nofun⟩
    obtain ⟨rfl, rfl⟩ := Prod.mk.inj (Option.some.inj hPlan)
    exact ⟨trivial, by simp⟩
  · rintro hCollect _ _ ⟨b, rfl, hb⟩ ⟨b', rfl, hb'⟩
    rw [hb hCollect, hb' hCollect]

/-- Both ways of going on have to be as wanted. -/
theorem performs_unless_stopped {stopped : Run MemoryStore α}
    (hStopped : ctx.Performs mine stopped post) (h : ctx.Performs mine m post) :
    ctx.Performs mine (ctx.shouldStop >>= fun b => if b = true then stopped else m) post := by
  refine performs_shouldStop.bind fun b _ => ?_
  cases b with
  | true => exact hStopped
  | false => exact h

theorem performs_emit {d : Delivery} (hMine : mine d)
    (hSound : ctx.Sound → ∃ names, d.file.topLevelNames = .ok names) :
    ctx.Performs mine (ctx.emit d.generator d.file d.origin) fun _ => True := by
  refine performs_of_plan (follows_emit ctx d) ⟨fun a l hPlan => ?_, fun hFine hNone => ?_⟩
  · obtain ⟨_, _, hPair⟩ := Option.map_eq_some_iff.mp hPlan
    obtain ⟨rfl, rfl⟩ := Prod.mk.inj hPair
    exact ⟨trivial, by simpa using hMine⟩
  · obtain ⟨names, hNames⟩ := hSound hFine
    rw [hNames] at hNone
    cases hNone

/-- What is known about the result of a step that always succeeds may be added to its plans. -/
theorem Performs.of_yields (h : ctx.Performs mine m fun _ => True)
    (hYields : ∀ s : Session MemoryStore, s.CacheValid ctx.table →
      ∃ a acc, m.Yields s a acc ∧ post a) : ctx.Performs mine m post := by
  obtain ⟨plans, hFollows, hAllows, hSingle⟩ := h
  refine ⟨fun plan => plans plan ∧ ∀ a l, plan = some (a, l) → post a, ?_, ?_, ?_⟩
  · intro s l hStart
    obtain ⟨a, acc, ⟨s', hGives, _⟩, hPost⟩ := hYields s hStart.cached
    obtain ⟨new, hEnd, hPlan⟩ := hFollows.of_gives hStart hGives
    refine .inl ⟨a, s', new, hGives, hEnd, hPlan, fun b l hSame => ?_⟩
    obtain ⟨rfl, _⟩ := Prod.mk.inj (Option.some.inj hSame)
    exact hPost
  · rintro plan ⟨hPlan, hResult⟩
    obtain ⟨hMade, hSound⟩ := hAllows plan hPlan
    exact ⟨fun a l hSome => ⟨hResult a l hSome, (hMade a l hSome).2⟩, hSound⟩
  · rintro hCollect plan plan' ⟨hPlan, _⟩ ⟨hPlan', _⟩
    exact hSingle hCollect plan plan' hPlan hPlan'

end Context

end Bindery
