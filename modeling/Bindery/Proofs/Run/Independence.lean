import Bindery.Proofs.Run.Faults

/-! # Generators do not influence one another

In a run that collects diagnostics every generator has a single plan, which depends neither on the
generators before it nor on who resolved the candidates first. What a list of generators stores is
therefore the union of what each one stores alone, and a list that can run as a whole can run in
part and in any order.
-/

namespace Bindery

open Run

namespace Context

/-- The units that generators leave in a store that was empty. -/
def unitsOf (ctx : Context) (l : List Generator) : Except Fault (List GeneratedUnit) :=
  let (result, s) := (runGenerators ctx l).outcome { store := MemoryStore.empty }
  result.map fun _ => s.store.units

variable {ctx : Context} {l : List Generator} {units : List GeneratedUnit}

theorem unitsOf_eq_ok_iff : ctx.unitsOf l = .ok units ↔ ∃ s,
    (runGenerators ctx l).Gives { store := MemoryStore.empty } () s ∧ s.store.units = units := by
  unfold unitsOf Gives
  cases (runGenerators ctx l).outcome { store := MemoryStore.empty } with
  | mk result s => cases result <;> simp [Except.map]

/-- The generator delivers just these files, whatever is booked before its turn. -/
structure Delivers (ctx : Context) (g : Generator) (made : List Delivery) : Prop where
  follows : (g.generate ctx : Run MemoryStore Unit).Follows ctx.table (· = some ((), made))
  signed : ∀ d ∈ made, d.generator = g.id

theorem delivers_of_gives (hCollect : ctx.failFast = false) {g : Generator}
    (hMem : g ∈ Pipeline.builtIn) {s s' : Session MemoryStore} {booked : List Delivery}
    (hStart : s.InOrder ctx.table booked) (hGives : (g.generate ctx).Gives s () s') :
    ∃ made, ctx.Delivers g made := by
  obtain ⟨plans, hFollows, hAllows, hSingle⟩ := performs_of_mem_builtIn ctx hMem
  obtain ⟨made, _, hPlan⟩ := hFollows.of_gives hStart hGives
  refine ⟨made, ?_, fun d hMade => ?_⟩
  · exact hFollows.mono fun plan hOther => hSingle hCollect _ _ hOther hPlan
  · exact (((hAllows _ hPlan).made () made rfl).2 d hMade).1

theorem follows_goOn (hCollect : ctx.failFast = false) {t : SymbolTable} :
    (ctx.shouldStop : Run MemoryStore Bool).Follows t (· = some (false, [])) := by
  refine (follows_shouldStop ctx).mono ?_
  rintro _ ⟨b, rfl, hb⟩
  rw [hb hCollect]

/-- Generators that take their turns one after the other deliver what each of them delivers. -/
theorem follows_runGenerators (hCollect : ctx.failFast = false)
    {made : Generator → List Delivery} (h : ∀ g ∈ l, ctx.Delivers g (made g)) :
    (runGenerators ctx l).Follows ctx.table (· = some ((), l.flatMap made)) := by
  induction l with
  | nil => exact follows_pure ()
  | cons g rest ih =>
    obtain ⟨hFirst, hRest⟩ := List.forall_mem_cons.mp h
    exact (follows_goOn hCollect).behind (hFirst.follows.during.bind_single (ih hRest))

theorem delivers_of_runGenerators (hCollect : ctx.failFast = false)
    (hBuiltIn : ∀ g ∈ l, g ∈ Pipeline.builtIn) {s s' : Session MemoryStore}
    {booked : List Delivery} (hStart : s.InOrder ctx.table booked)
    (hGives : (runGenerators ctx l).Gives s () s') : ∀ g ∈ l, ∃ made, ctx.Delivers g made := by
  induction l generalizing s booked with
  | nil => simp
  | cons g rest ih =>
    obtain ⟨hFirst, hRest⟩ := List.forall_mem_cons.mp hBuiltIn
    obtain ⟨s₁, notes, hTurn, hLater⟩ := gives_runGenerators_cons hCollect hGives
    obtain ⟨made, hDelivers⟩ := delivers_of_gives hCollect hFirst hStart hTurn
    obtain ⟨new, hMiddle, _⟩ := hDelivers.follows.of_gives hStart hTurn
    have hNoted : ({ s₁ with notes } : Session MemoryStore).InOrder ctx.table (booked ++ new) :=
      hMiddle.of_quiet rfl rfl rfl hMiddle.cached
    exact List.forall_mem_cons.mpr ⟨⟨made, hDelivers⟩, ih hRest hNoted hLater⟩

section Parts

variable {made : Generator → List Delivery}

theorem units_of_delivers (hCollect : ctx.failFast = false)
    (h : ∀ g ∈ l, ctx.Delivers g (made g)) (hUnits : ctx.unitsOf l = .ok units) :
    Compatible (l.flatMap made) ∧ units.Perm ((l.flatMap made).map Delivery.unit) := by
  obtain ⟨s, hGives, rfl⟩ := unitsOf_eq_ok_iff.mp hUnits
  obtain ⟨new, hEnd, hPlan⟩ :=
    (follows_runGenerators hCollect h).of_gives (Session.inOrder_start ctx.table []) hGives
  obtain ⟨_, rfl⟩ := Prod.mk.inj (Option.some.inj hPlan)
  exact ⟨hEnd.compatible, hEnd.units⟩

/-- Generators whose deliveries are compatible run to their end. -/
theorem exists_units (hCollect : ctx.failFast = false) (h : ∀ g ∈ l, ctx.Delivers g (made g))
    (hFit : Compatible (l.flatMap made)) : ∃ units, ctx.unitsOf l = .ok units := by
  rcases follows_runGenerators hCollect h _ [] (Session.inOrder_start ctx.table []) with
    ⟨_, s, _, hGives, _⟩ | ⟨_, _, _, hNone | ⟨_, _, new, hPlan, hTwice⟩⟩
  · exact ⟨s.store.units, unitsOf_eq_ok_iff.mpr ⟨s, hGives, rfl⟩⟩
  · cases hNone
  · obtain ⟨_, rfl⟩ := Prod.mk.inj (Option.some.inj hPlan)
    exact absurd hFit hTwice

theorem subperm_flatMap {part : List Generator} (hNodup : part.Nodup) (hPart : part ⊆ l) :
    (part.flatMap made).Subperm (l.flatMap made) := by
  obtain ⟨part', hPerm, hSublist⟩ := List.subperm_of_subset hNodup hPart
  exact ⟨part'.flatMap made, hPerm.flatMap_right made, hSublist.flatMap made⟩

/-- Units are told apart by the features of the generators that made them. -/
theorem filter_units {alone : Generator → List GeneratedUnit} {p : Feature → Bool}
    (hSigned : ∀ g ∈ l, ∀ u ∈ alone g, Pipeline.generator? u.generator = some g) :
    (l.flatMap alone).filter (fun u => (Pipeline.generator? u.generator).any fun g => p g.feature) =
      (l.filter fun g => p g.feature).flatMap alone := by
  induction l with
  | nil => rfl
  | cons g rest ih =>
    obtain ⟨hFirst, hRest⟩ := List.forall_mem_cons.mp hSigned
    rw [List.flatMap_cons, List.filter_append, ih hRest, List.filter_cons]
    cases hFeature : p g.feature with
    | true =>
      rw [if_pos rfl, List.flatMap_cons]
      congr 1
      refine List.filter_eq_self.mpr fun u hMem => ?_
      rw [hFirst u hMem, Option.any_some, hFeature]
    | false =>
      rw [if_neg Bool.false_ne_true, List.filter_eq_nil_iff.mpr, List.nil_append]
      intro u hMem
      rw [hFirst u hMem, Option.any_some, hFeature]
      exact Bool.false_ne_true

end Parts

theorem generator?_id {g : Generator} (hMem : g ∈ Pipeline.builtIn) :
    Pipeline.generator? g.id = some g := by
  rw [Pipeline.generator?, ← List.head?_filter, builtIn_filter_id g hMem]
  rfl

/-- Generators that can run together can run in part and in any order, and what they store is the
disjoint union of what each of them stores alone. In particular a run of the generators of some
features stores just what the whole run stores for these features. -/
theorem unitsOf_disjoint_union (ctx : Context) (l : List Generator)
    (whole : List GeneratedUnit) (hCollect : ctx.failFast = false) (hNodup : l.Nodup)
    (hBuiltIn : ∀ g ∈ l, g ∈ Pipeline.builtIn) (hWhole : ctx.unitsOf l = .ok whole) :
    ∃ alone : Generator → List GeneratedUnit, (∀ g ∈ l, ctx.unitsOf [g] = .ok (alone g)) ∧
      (∀ part : List Generator, part.Nodup → part ⊆ l → ∃ units, ctx.unitsOf part = .ok units ∧
        units.Perm (part.flatMap alone) ∧
        ((part.flatMap alone).map GeneratedUnit.key).Nodup) ∧
      ∀ p : Feature → Bool, ∃ units,
        ctx.unitsOf (l.filter fun g => p g.feature) = .ok units ∧
        units.Perm (whole.filter fun u =>
          (Pipeline.generator? u.generator).any fun g => p g.feature) := by
  obtain ⟨s, hGives, _⟩ := unitsOf_eq_ok_iff.mp hWhole
  choose! made hMade using
    delivers_of_runGenerators hCollect hBuiltIn (Session.inOrder_start ctx.table []) hGives
  obtain ⟨hFit, hStored⟩ := units_of_delivers hCollect hMade hWhole
  have hParts {part : List Generator} (hOnce : part.Nodup) (hPart : part ⊆ l) :
      ∃ units, ctx.unitsOf part = .ok units ∧
        Compatible (part.flatMap made) ∧ units.Perm ((part.flatMap made).map Delivery.unit) := by
    have hMadePart : ∀ g ∈ part, ctx.Delivers g (made g) := fun g hMem => hMade g (hPart hMem)
    obtain ⟨units, hUnits⟩ := exists_units hCollect hMadePart
      (hFit.of_subperm (subperm_flatMap hOnce hPart))
    exact ⟨units, hUnits, units_of_delivers hCollect hMadePart hUnits⟩
  have hEach : ∀ g ∈ l, ∃ own, ctx.unitsOf [g] = .ok own ∧
      own.Perm ((made g).map Delivery.unit) := by
    intro g hMem
    obtain ⟨own, hOwn, _, hPerm⟩ := hParts (List.nodup_singleton g) (by simpa using hMem)
    exact ⟨own, hOwn, by simpa using hPerm⟩
  choose! alone hAlone hAlonePerm using hEach
  have hUnion {part : List Generator} (hPart : part ⊆ l) :
      (part.flatMap alone).Perm ((part.flatMap made).map Delivery.unit) := by
    rw [List.map_flatMap]
    exact List.Perm.flatMap_left part fun g hMem => hAlonePerm g (hPart hMem)
  have hUnionUnits {part : List Generator} (hOnce : part.Nodup) (hPart : part ⊆ l) :
      ∃ units, ctx.unitsOf part = .ok units ∧ units.Perm (part.flatMap alone) ∧
        ((part.flatMap alone).map GeneratedUnit.key).Nodup := by
    obtain ⟨units, hUnits, hPartFit, hPerm⟩ := hParts hOnce hPart
    refine ⟨units, hUnits, hPerm.trans (hUnion hPart).symm, ?_⟩
    rw [((hUnion hPart).map GeneratedUnit.key).nodup_iff, List.map_map]
    exact hPartFit.keys_nodup
  refine ⟨alone, hAlone, fun part => hUnionUnits, fun p => ?_⟩
  obtain ⟨units, hUnits, hPerm, _⟩ :=
    hUnionUnits (hNodup.filter _) List.filter_sublist.subset
  refine ⟨units, hUnits, hPerm.trans ?_⟩
  rw [← filter_units]
  · exact ((hStored.trans (hUnion (List.Subset.refl l)).symm).filter _).symm
  · intro g hMem u hUnit
    obtain ⟨d, hDelivery, rfl⟩ := List.mem_map.mp ((hAlonePerm g hMem).mem_iff.mp hUnit)
    rw [show d.unit.generator = g.id from (hMade g hMem).signed d hDelivery]
    exact generator?_id (hBuiltIn g hMem)

end Context

/-! ## Two integrations on their own -/

open Context Sample in
/-- Two generators that ask for the same candidates, in one order and in the other. -/
theorem unitsOf_rivals : ∃ (whole : List GeneratedUnit) (alone : Generator → List GeneratedUnit),
    rivalsContext.unitsOf [Work.integration, Fragment.integration] = .ok whole ∧
    rivalsContext.unitsOf [Work.integration] = .ok (alone Work.integration) ∧
    rivalsContext.unitsOf [Fragment.integration] = .ok (alone Fragment.integration) ∧
    ∃ units, rivalsContext.unitsOf [Fragment.integration, Work.integration] = .ok units ∧
      units.Perm (alone Fragment.integration ++ alone Work.integration) := by
  have hOk : (rivalsContext.unitsOf [Work.integration, Fragment.integration]).isOk = true := by
    decide +kernel
  cases hWhole : rivalsContext.unitsOf [Work.integration, Fragment.integration] with
  | error fault =>
    rw [hWhole] at hOk
    cases hOk
  | ok whole =>
    have hBuiltIn : ∀ g ∈ [Work.integration, Fragment.integration], g ∈ Pipeline.builtIn := by
      intro g hMem
      rcases List.mem_pair.mp hMem with rfl | rfl
      · exact Feature.integration_mem_builtIn .work
      · exact Feature.integration_mem_builtIn .fragment
    obtain ⟨alone, hAlone, hPart, _⟩ := unitsOf_disjoint_union rivalsContext
      [Work.integration, Fragment.integration] whole rfl (.of_map Generator.id (by decide))
      hBuiltIn hWhole
    obtain ⟨units, hUnits, hPerm, _⟩ := hPart [Fragment.integration, Work.integration]
      (.of_map Generator.id (by decide)) (by simp)
    refine ⟨whole, alone, rfl, hAlone _ (by simp), hAlone _ (by simp), units, hUnits, ?_⟩
    simpa using hPerm

/-! ## Runs with fewer features -/

namespace Pipeline

open Context

variable {settings : Settings} {t : SymbolTable} {made : Generator → List Delivery}

theorem follows_steps {p : Pipeline} {ctx : Context} {faults : List Fault}
    (hCollect : ctx.failFast = false) (hNotFatal : ∀ fault ∈ faults, fault.isFatal = false)
    (hMade : ∀ g ∈ p.generators, ctx.Delivers g (made g)) :
    (p.steps ctx faults).Follows ctx.table (· = some ((), p.generators.flatMap made)) := by
  refine (follows_note _).behind ((follows_diagnoseAll hNotFatal scopeGraphId).behind
    ((follows_goOn hCollect).behind ?_))
  rw [← List.append_nil (p.generators.flatMap made)]
  exact (follows_runGenerators hCollect hMade).bind_single
    (follows_finish.behind (follows_note _))

theorem delivers_of_steps (settings : Settings) {ctx : Context} {faults : List Fault}
    (hCollect : ctx.failFast = false) (hNotFatal : ∀ fault ∈ faults, fault.isFatal = false)
    {s s' : Session MemoryStore}
    {booked : List Delivery} (hStart : s.InOrder ctx.table booked)
    (hGives : ((build settings []).steps ctx faults).Gives s () s') :
    ∀ g ∈ (build settings []).generators, ∃ made, ctx.Delivers g made := by
  obtain ⟨_, s₁, hNote, hGives⟩ := gives_bind.mp hGives
  obtain ⟨new, hNoted, _⟩ := (follows_note _).of_gives hStart hNote
  obtain ⟨_, s₂, hFaults, hGives⟩ := gives_bind.mp hGives
  obtain ⟨new', hRecorded, _⟩ :=
    (follows_diagnoseAll hNotFatal scopeGraphId).of_gives hNoted hFaults
  obtain ⟨_, _, hStop, hGives⟩ := gives_bind.mp hGives
  obtain ⟨rfl, rfl⟩ := (gives_shouldStop hCollect).mp hStop
  obtain ⟨_, s₃, hTurns, _⟩ := gives_bind.mp hGives
  exact delivers_of_runGenerators hCollect (fun g => mem_builtIn_of_mem_generators) hRecorded hTurns

/-- A run whose deliveries are compatible succeeds and stores them. -/
theorem run_of_delivers (hCollect : settings.failFast = false)
    (hForest : (ScopeGraph.build t).1.validate = .ok ())
    (hMade : ∀ g ∈ (build settings []).generators,
      ((build settings []).context t).Delivers g (made g))
    (hFit : Compatible ((build settings []).generators.flatMap made)) :
    ((build settings []).run t MemoryStore.empty).result.isOk = true ∧
    ((build settings []).run t MemoryStore.empty).store.units.Perm
      (((build settings []).generators.flatMap made).map Delivery.unit) := by
  have hNotFatal : ∀ fault ∈ (ScopeGraph.build t).2, fault.isFatal = false :=
    fun _ => ScopeGraph.not_fatal_of_mem_build
  have hFollows := follows_steps hCollect hNotFatal hMade
  rw [run_of_forest MemoryStore.empty hForest]
  rcases hFollows (begin t MemoryStore.empty) [] (Session.inOrder_start t _) with
    ⟨_, s, _, hGives, hEnd, hPlan⟩ | ⟨_, _, _, hNone | ⟨_, _, new, hPlan, hTwice⟩⟩
  · obtain ⟨_, rfl⟩ := Prod.mk.inj (Option.some.inj hPlan)
    rw [show _ = _ from hGives]
    exact ⟨rfl, hEnd.units⟩
  · cases hNone
  · obtain ⟨_, rfl⟩ := Prod.mk.inj (Option.some.inj hPlan)
    exact absurd hFit hTwice

theorem delivers_of_run {report : Report} (hCollect : settings.failFast = false)
    (hRun : ((build settings []).run t MemoryStore.empty).result = .ok report) :
    ∃ made : Generator → List Delivery, (∀ g ∈ (build settings []).generators,
      ((build settings []).context t).Delivers g (made g)) ∧
      Compatible ((build settings []).generators.flatMap made) := by
  rw [run_of_forest MemoryStore.empty (forest_of_run hRun)] at hRun
  have hNotFatal : ∀ fault ∈ (ScopeGraph.build t).2, fault.isFatal = false :=
    fun _ => ScopeGraph.not_fatal_of_mem_build
  cases hSteps : ((build settings []).steps ((build settings []).context t)
      (ScopeGraph.build t).2).outcome (begin t MemoryStore.empty) with
  | mk result s =>
    rw [hSteps] at hRun
    cases result with
    | error fault => cases hRun
    | ok =>
      choose! made hMade using
        delivers_of_steps settings hCollect hNotFatal (Session.inOrder_start t _) hSteps
      obtain ⟨new, hEnd, hPlan⟩ :=
        (follows_steps hCollect hNotFatal hMade).of_gives (Session.inOrder_start t _) hSteps
      obtain ⟨_, rfl⟩ := Prod.mk.inj (Option.some.inj hPlan)
      exact ⟨made, hMade, hEnd.compatible⟩

theorem generators_filter {fewer : Settings}
    (hFewer : ∀ f, fewer.features.has f = true → settings.features.has f = true) :
    (build settings []).generators.filter (fun g => fewer.features.has g.feature) =
      (build fewer []).generators := by
  unfold build
  simp only
  rw [filter_byPhase, List.filter_filter]
  congr 1
  refine List.filter_congr fun g _ => ?_
  unfold isEnabled
  cases hOn : fewer.features.has g.feature with
  | false => rfl
  | true => simp [hFewer g.feature hOn]

/-- A run with features switched off succeeds if the run with them did, and it stores just the units
of the features that are left. -/
theorem run_with_fewer_features (settings fewer : Settings) (t : SymbolTable) (report : Report)
    (hCollect : settings.failFast = false) (hCollect' : fewer.failFast = false)
    (hHeader : fewer.header = settings.header)
    (hFewer : ∀ f, fewer.features.has f = true → settings.features.has f = true)
    (hRun : ((build settings []).run t MemoryStore.empty).result = .ok report) :
    ((build fewer []).run t MemoryStore.empty).result.isOk = true ∧
    ((build fewer []).run t MemoryStore.empty).store.units.Perm
      (((build settings []).run t MemoryStore.empty).store.units.filter fun u =>
        (generator? u.generator).any fun g => fewer.features.has g.feature) := by
  obtain ⟨made, hMade, hFit⟩ := delivers_of_run hCollect hRun
  have hForest := forest_of_run hRun
  have hContext : (build fewer []).context t = (build settings []).context t := by
    change (⟨t, _, fewer.header, fewer.failFast⟩ : Context) =
      ⟨t, _, settings.header, settings.failFast⟩
    rw [hHeader, hCollect, hCollect']
  have hPart : (build fewer []).generators.Sublist (build settings []).generators := by
    rw [← generators_filter hFewer]
    exact List.filter_sublist
  have hMadeFewer : ∀ g ∈ (build fewer []).generators,
      ((build fewer []).context t).Delivers g (made g) := by
    intro g hMem
    rw [hContext]
    exact hMade g (hPart.subset hMem)
  obtain ⟨_, hWhole⟩ := run_of_delivers hCollect hForest hMade hFit
  obtain ⟨hOk, hFewerUnits⟩ := run_of_delivers hCollect' hForest hMadeFewer
    (hFit.of_subperm (hPart.flatMap made).subperm)
  refine ⟨hOk, hFewerUnits.trans ?_⟩
  have hSigned : ∀ g ∈ (build settings []).generators, ∀ u ∈ (made g).map Delivery.unit,
      generator? u.generator = some g := by
    intro g hMem u hUnit
    obtain ⟨d, hDelivery, rfl⟩ := List.mem_map.mp hUnit
    rw [show d.unit.generator = g.id from (hMade g hMem).signed d hDelivery]
    exact generator?_id (mem_builtIn_of_mem_generators hMem)
  have hFilter := filter_units (p := fewer.features.has) hSigned
  rw [generators_filter hFewer] at hFilter
  rw [List.map_flatMap, ← hFilter, ← List.map_flatMap]
  exact (hWhole.filter _).symm

end Pipeline

end Bindery
