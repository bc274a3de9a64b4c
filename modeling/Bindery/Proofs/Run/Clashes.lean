import Bindery.Proofs.Run.FailFast
import Bindery.Proofs.Run.Sources

/-! # Runs that fail for their names

Names are joined of parts and leave parts out, so not all sources of a run get names of their own. A
run over a forest of scopes fails just if two of its sources meet: nothing else keeps a run that
collects diagnostics from its end, and a run that stops early fails for nothing else.
-/

namespace Bindery

open Context Run

theorem Sources.flatMap {t : SymbolTable} {l : List Generator}
    {made : Generator → List Delivery} {sources : Generator → List Derivation}
    (hIds : (l.map (·.id)).Nodup)
    (h : ∀ g ∈ l, Sources (fun x => x.Due t ∧ x.generator.id = g.id) (made g) (sources g)) :
    Sources (fun x => x.Due t ∧ ∃ g ∈ l, x.generator.id = g.id) (l.flatMap made)
      (l.flatMap sources) := by
  induction l with
  | nil => exact ⟨.nil, .nil, by simp⟩
  | cons g rest ih =>
    obtain ⟨hFirst, hRest⟩ := List.forall_mem_cons.mp h
    obtain ⟨hFresh, hIds⟩ := List.nodup_cons.mp hIds
    have hLater := ih hIds hRest
    rw [List.flatMap_cons, List.flatMap_cons]
    refine ⟨List.rel_append hFirst.named hLater.named, ?_, fun x => ?_⟩
    · refine List.nodup_append.mpr ⟨hFirst.nodup, hLater.nodup, ?_⟩
      rintro x hx y hy rfl
      obtain ⟨other, hMem, hSame⟩ := ((hLater.due_iff x).mp hy).2
      have hOwn := ((hFirst.due_iff x).mp hx).2
      exact hFresh (List.mem_map.mpr ⟨other, hMem, hSame.symm.trans hOwn⟩)
    · rw [List.mem_append, hFirst.due_iff, hLater.due_iff, List.exists_mem_cons_iff, and_or_left]

/-- A run with the settings makes the file, unless it ends before. -/
structure Derivation.Wanted (settings : Settings) (t : SymbolTable) (x : Derivation) : Prop where
  due : x.Due t
  enabled : settings.features.has x.generator.feature = true

/-- Two sources of a run get the same name for a file or a type. -/
def Pipeline.Collides (settings : Settings) (t : SymbolTable) : Prop :=
  ∃ x y : Derivation, x.Wanted settings t ∧ y.Wanted settings t ∧ x ≠ y ∧ x.Meets y

namespace Pipeline

variable {settings : Settings} {t : SymbolTable} {g : Generator}

/-! ## The generators of a run -/

theorem filter_id_build (settings : Settings) (hMem : g ∈ builtIn) :
    (build settings []).generators.filter (fun other => other.id = g.id) =
      if isEnabled settings g then [g] else [] :=
  filter_id_generators settings (by simp) hMem

theorem mem_generators_iff :
    g ∈ (build settings []).generators ↔ g ∈ builtIn ∧ isEnabled settings g = true := by
  have hSelf : g ∈ (build settings []).generators ↔
      g ∈ (build settings []).generators.filter fun other => other.id = g.id := by
    simp
  constructor
  · intro hMem
    have hBuiltIn := mem_builtIn_of_mem_generators hMem
    rw [hSelf, filter_id_build settings hBuiltIn] at hMem
    refine ⟨hBuiltIn, ?_⟩
    by_contra hOff
    rw [if_neg hOff] at hMem
    cases hMem
  · rintro ⟨hBuiltIn, hOn⟩
    rw [hSelf, filter_id_build settings hBuiltIn, if_pos hOn]
    exact List.mem_singleton_self g

theorem ids_nodup (settings : Settings) : ((build settings []).generators.map (·.id)).Nodup := by
  refine List.nodup_iff_count_le_one.mpr fun id => ?_
  by_cases hMem : id ∈ (build settings []).generators.map (·.id)
  · obtain ⟨g, hListed, rfl⟩ := List.mem_map.mp hMem
    obtain ⟨hBuiltIn, hOn⟩ := mem_generators_iff.mp hListed
    have hOnly := filter_id_build settings hBuiltIn
    rw [if_pos hOn] at hOnly
    have hCount : (build settings []).generators.countP (fun other => other.id = g.id) = 1 := by
      rw [List.countP_eq_length_filter, hOnly, List.length_singleton]
    rw [List.count, List.countP_map]
    exact hCount.le
  · rw [List.count_eq_zero_of_not_mem hMem]
    exact Nat.zero_le 1

/-! ## Runs that collect diagnostics -/

/-- The generators of a run have deliveries, which are compatible just if no names meet. -/
theorem exists_deliveries (hCollect : settings.failFast = false)
    (hForest : (ScopeGraph.build t).1.validate = .ok ()) :
    ∃ made : Generator → List Delivery, (∀ g ∈ (build settings []).generators,
        ((build settings []).context t).Delivers g (made g)) ∧
      (Compatible ((build settings []).generators.flatMap made) ↔ ¬ Collides settings t) := by
  have hSound : ((build settings []).context t).Sound := ⟨rfl, hForest⟩
  have hEach : ∀ g ∈ (build settings []).generators, ∃ made sources,
      ((build settings []).context t).Delivers g made ∧
        Sources (fun x => x.Due t ∧ x.generator.id = g.id) made sources := by
    intro g hMem
    obtain ⟨sources, made, hDelivers, hSources⟩ :=
      derives_of_mem_builtIn hSound hCollect (mem_builtIn_of_mem_generators hMem)
    exact ⟨made, sources, hDelivers, hSources⟩
  choose! made sources hMade hSources using hEach
  have hAll := Sources.flatMap (ids_nodup settings) hSources
  have hWanted (x : Derivation) :
      x ∈ (build settings []).generators.flatMap sources ↔ x.Wanted settings t := by
    rw [hAll.due_iff]
    constructor
    · rintro ⟨hDue, g, hMem, hSame⟩
      obtain ⟨hBuiltIn, hOn⟩ := mem_generators_iff.mp hMem
      have hFound := generator?_id x.generator_mem_builtIn
      rw [hSame, generator?_id hBuiltIn] at hFound
      obtain rfl := Option.some.inj hFound
      exact ⟨hDue, hOn⟩
    · rintro ⟨hDue, hOn⟩
      exact ⟨hDue, x.generator, mem_generators_iff.mpr ⟨x.generator_mem_builtIn, hOn⟩, rfl⟩
  refine ⟨made, hMade, ?_⟩
  rw [compatible_iff hAll.named hAll.nodup, Collides]
  simp only [hWanted]
  push Not
  exact ⟨fun h x y hx hy hNe => h x hx y hy hNe, fun h x hx y hy hNe => h x y hx hy hNe⟩

theorem isOk_iff_apart (hCollect : settings.failFast = false)
    (hForest : (ScopeGraph.build t).1.validate = .ok ()) :
    ((build settings []).run t MemoryStore.empty).result.isOk = true ↔ ¬ Collides settings t := by
  obtain ⟨made, hMade, hFit⟩ := exists_deliveries hCollect hForest
  rw [← hFit]
  constructor
  · intro hOk
    have hNotFatal : ∀ fault ∈ (ScopeGraph.build t).2, fault.isFatal = false :=
      fun _ => ScopeGraph.not_fatal_of_mem_build
    have hFollows := follows_steps hCollect hNotFatal hMade
    obtain ⟨report, hRun⟩ := exists_report hOk
    obtain ⟨s', hGives, _⟩ := exists_gives_of_run hRun
    obtain ⟨new, hEnd, hPlan⟩ := hFollows.of_gives (Session.inOrder_start t _) hGives
    obtain ⟨_, rfl⟩ := Prod.mk.inj (Option.some.inj hPlan)
    exact hEnd.compatible
  · intro hCompatible
    exact (run_of_delivers hCollect hForest hMade hCompatible).1

/-! ## All runs -/

theorem forest_iff : (ScopeGraph.build t).1.validate = .ok () ↔
    ¬ ∃ s, Relation.TransGen t.ParentLink s s := by
  have hLink : (ScopeGraph.build t).1.Link = t.ParentLink := by
    funext s p
    exact propext ScopeGraph.link_build_iff
  rw [← hLink, ← ScopeGraph.validate_fails_iff]
  cases (ScopeGraph.build t).1.validate <;> simp

/-- A run that stops early succeeds if the run that collects diagnostics does. -/
theorem isOk_of_collecting
    (h : ((build (settings.stopping false) []).run t MemoryStore.empty).result.isOk = true) :
    ((build settings []).run t MemoryStore.empty).result.isOk = true := by
  obtain ⟨report, hRun⟩ := exists_report h
  have hSame : settings = settings.stopping settings.failFast := rfl
  cases hMode : settings.failFast with
  | false => rwa [hSame, hMode]
  | true =>
    obtain ⟨early, hEarly, _⟩ := tracks_run (fun _ _ _ => rfl) hRun
    rw [hSame, hMode, hEarly]
    rfl

/-- If the parents of scopes form no cycle then a run into an empty store fails just for names, and
just if two of its sources meet: two scopes, two declarations with a marker, or one of each. A run
that collects diagnostics always fails in that case. -/
theorem run_fails_iff_names_meet (settings : Settings) (t : SymbolTable)
    (hForest : ¬ ∃ s, Relation.TransGen t.ParentLink s s) :
    (∀ fault, ((build settings []).run t MemoryStore.empty).result = .error fault →
      fault.IsClash ∧ ∃ x y : Derivation, x.Wanted settings t ∧ y.Wanted settings t ∧ x ≠ y ∧
        x.Meets y) ∧
    ∀ x y : Derivation, settings.failFast = false → x.Wanted settings t → y.Wanted settings t →
      x ≠ y → x.Meets y →
      ∃ fault, ((build settings []).run t MemoryStore.empty).result = .error fault ∧
        fault.IsClash := by
  have hValid := forest_iff.mpr hForest
  constructor
  · intro fault hFails
    refine ⟨clash_of_forest hValid hFails, ?_⟩
    by_contra hApart
    have hCollecting : ¬ Collides (settings.stopping false) t := by
      rintro ⟨x, y, hx, hy, hMeet⟩
      exact hApart ⟨x, y, ⟨hx.due, hx.enabled⟩, ⟨hy.due, hy.enabled⟩, hMeet⟩
    have hOk := isOk_of_collecting ((isOk_iff_apart rfl hValid).mpr hCollecting)
    rw [hFails] at hOk
    cases hOk
  · intro x y hCollect hx hy hNe hMeets
    cases hResult : ((build settings []).run t MemoryStore.empty).result with
    | error fault => exact ⟨fault, rfl, clash_of_forest hValid hResult⟩
    | ok report =>
      have hOk : ((build settings []).run t MemoryStore.empty).result.isOk = true := by
        rw [hResult]
        rfl
      exact absurd ⟨x, y, hx, hy, hNe, hMeets⟩ ((isOk_iff_apart hCollect hValid).mp hOk)

end Pipeline

/-! ## Twin scopes -/

namespace Sample

def firstTwin : ClassName where
  package := appScope.package
  simpleNames := ["Main", "AppScope"]
  isPackage_package := appScope.isPackage_package

def secondTwin : ClassName where
  package := appScope.package
  simpleNames := ["Test", "AppScope"]
  isPackage_package := appScope.isPackage_package

/-- Two scopes of a package, which differ just in the classes around them. -/
def twins : SymbolTable := .ofList [scope firstTwin .all none, scope secondTwin .all none]

theorem twins_forest : ¬ ∃ s, Relation.TransGen twins.ParentLink s s :=
  Pipeline.forest_iff.mp rfl

theorem wanted_of_twin {c : ScopeConfiguration}
    (hFound : (ScopeGraph.build twins).1.configuration? c.scope = some c)
    (hEnables : c.enables .viewModel = true) :
    (Derivation.childScope c.scope).Wanted (.only .viewModel) twins :=
  ⟨.childScope (ScopeGraph.configuration?_build_iff.mp hFound).1 hEnables, rfl⟩

end Sample

namespace Pipeline

open Sample

/-- The twins meet, so a run over them fails. -/
theorem run_fails_iff_names_meet_twins :
    (¬ ∃ s, Relation.TransGen twins.ParentLink s s) ∧
    (Derivation.childScope firstTwin).Meets (.childScope secondTwin) ∧
    ∃ fault, ((build (.only .viewModel) []).run twins MemoryStore.empty).result = .error fault ∧
      fault.IsClash ∧ ∃ x y : Derivation, x.Wanted (.only .viewModel) twins ∧
        y.Wanted (.only .viewModel) twins ∧ x ≠ y ∧ x.Meets y := by
  have hMeets : (Derivation.childScope firstTwin).Meets (.childScope secondTwin) :=
    ⟨rfl, .inr rfl⟩
  have hFirst : (Derivation.childScope firstTwin).Wanted (.only .viewModel) twins :=
    wanted_of_twin (c := ⟨firstTwin, none, .all⟩) rfl rfl
  have hSecond : (Derivation.childScope secondTwin).Wanted (.only .viewModel) twins :=
    wanted_of_twin (c := ⟨secondTwin, none, .all⟩) rfl rfl
  have hNe : Derivation.childScope firstTwin ≠ .childScope secondTwin := by
    intro hSame
    exact absurd (Derivation.childScope.inj hSame) (by decide)
  obtain ⟨hOnly, hAlways⟩ := run_fails_iff_names_meet (.only .viewModel) twins twins_forest
  obtain ⟨fault, hFails, hClash⟩ := hAlways _ _ rfl hFirst hSecond hNe hMeets
  exact ⟨twins_forest, hMeets, fault, hFails, hClash, (hOnly fault hFails).2⟩

/-- A run may fail though its scopes form no cycle and no declaration is marked at all. -/
theorem twins_collide :
    (¬ ∃ s, Relation.TransGen twins.ParentLink s s) ∧
    (∀ d ∈ twins.declarations,
      (Creation.all.filter fun c => d.hasAnnotation c.marker).length ≤ 1) ∧
    ∃ fault, ((build {} []).run twins MemoryStore.empty).result = .error fault ∧
      fault.kind = "NameCollision" := by
  have hKind : (match ((build {} []).run twins MemoryStore.empty).result with
      | .ok _ => none
      | .error fault => some fault.kind) = some "NameCollision" := by decide +kernel
  refine ⟨twins_forest, by decide +kernel, ?_⟩
  cases hResult : ((build {} []).run twins MemoryStore.empty).result with
  | ok report =>
    rw [hResult] at hKind
    cases hKind
  | error fault =>
    rw [hResult] at hKind
    exact ⟨fault, rfl, Option.some.inj hKind⟩

end Pipeline

end Bindery
