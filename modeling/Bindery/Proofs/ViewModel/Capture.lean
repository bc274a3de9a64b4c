import Bindery.Proofs.Integration.Sharing
import Bindery.Proofs.Source.Unpackaged
import Bindery.Proofs.Source.Writing
import Bindery.Proofs.ViewModel.ChildScopes

/-! # Names that nested types capture

Owners of simple names are found among the types next to the file, but inside the body of a type the
names of the types that it declares come first. The subcomponent of a scope declares a factory and a
parent. The scope is written in its body, and nothing else there has a name that the two could take,
so that a scope is captured just if it, or the class around it, has the name of one of them.
-/

namespace Bindery

open Integration Source Owners

namespace Source

mutual

/-- The type and the types inside it, each with the simple names that lead to it. -/
def TypeDecl.located (around : List String) : TypeDecl → List (List String × TypeDecl)
  | ⟨kind, name, modifiers, annotations, supertypes, primaryConstructor, functions, types⟩ =>
    (around ++ [name],
      ⟨kind, name, modifiers, annotations, supertypes, primaryConstructor, functions, types⟩) ::
        locatedAll (around ++ [name]) types

def locatedAll (around : List String) : List TypeDecl → List (List String × TypeDecl)
  | [] => []
  | t :: rest => t.located around ++ locatedAll around rest

end

theorem locatedAll_append (around : List String) (types types' : List TypeDecl) :
    locatedAll around (types ++ types') = locatedAll around types ++ locatedAll around types' := by
  induction types with
  | nil => rfl
  | cons t rest ih => rw [List.cons_append, locatedAll, locatedAll, ih, List.append_assoc]

theorem TypeDecl.classesOfAll_append (types types' : List TypeDecl) :
    classesOfAll (types ++ types') = classesOfAll types ++ classesOfAll types' := by
  simp only [classesOfAll_eq_flatMap, List.flatMap_append]

namespace File

variable {file : File} {c : ClassName}

/-- Inside the body of a type the class is written by its simple names, and the first of them is the
name of a type that the body declares, though the class is not that type. -/
def Captures (file : File) (c : ClassName) : Prop :=
  ∃ path outer inner, (path, outer) ∈ locatedAll [] file.types ∧ inner ∈ outer.types ∧
    Source.Writes (fun spell => outer.bodyText spell path.length) c ∧
    (ofFile file).spell c = c.joined "." ∧ c.outermost = inner.name ∧
    ¬ (c.package = file.package ∧ c.simpleNames = path ++ [inner.name])

theorem spell_of_only (hForeign : c.outermost ∉ file.types.map (·.name)) (hMem : c ∈ file.classes)
    (hOnly : ∀ d ∈ file.classes, d.outermost = c.outermost → d = c) :
    (ofFile file).spell c = c.joined "." := by
  have hFound : (file.classes.find? fun d => d.outermost = c.outermost) = some c := by
    cases hFirst : file.classes.find? fun d => d.outermost = c.outermost with
    | none => exact absurd (List.find?_eq_none.mp hFirst c hMem) (by simp)
    | some d =>
      have hName : d.outermost = c.outermost := by simpa using List.find?_some hFirst
      rw [hOnly d (List.mem_of_find?_eq_some hFirst) hName]
  rw [spell, if_pos]
  rw [get?_ofFile, if_neg hForeign, hFound]
  rfl

end File

end Source

namespace ViewModel

/-! ## The subcomponent of a scope -/

/-- The names of the types inside a subcomponent. -/
def nestedNames : List String := ["Factory", "Parent"]

/-- What a subcomponent writes in its body, apart from names that hang on its scope. -/
def runtimeClasses : List ClassName :=
  [WellKnown.mergeSubcomponentFactory, subcomponentFactory, WellKnown.bindsInstance,
    WellKnown.savedStateHandle, WellKnown.contributesTo, subcomponentParent]

variable {scope child name : ClassName}

theorem mem_body_subcomponentType {c : ClassName} :
    c ∈ (subcomponentType scope child name).bodyClasses ++
        valuesOn (subcomponentType scope child name).bodyUses ↔
      c = scope ∨ c = name ∨ c ∈ runtimeClasses := by
  change c ∈ [WellKnown.mergeSubcomponentFactory, subcomponentFactory, WellKnown.bindsInstance,
    WellKnown.savedStateHandle, name, WellKnown.contributesTo, scope, subcomponentParent] ↔ _
  simp only [runtimeClasses, List.mem_cons, List.not_mem_nil, or_false]
  grind

theorem notMem_nestedNames_of_long {text : String} (hLong : 7 < text.length) :
    text ∉ nestedNames := by
  have hShort : ∀ name ∈ nestedNames, name.length ≤ 7 := by decide
  exact fun hMem => absurd (hShort text hMem) (by omega)

/-- The other classes in a unit that integrates view-models. -/
def libraryClasses : List ClassName :=
  [WellKnown.optIn, WellKnown.internalApi, WellKnown.experimentalApi, WellKnown.singleIn,
    viewModelScope, WellKnown.mergeSubcomponent, subcomponent, WellKnown.moduleAnnotation,
    WellKnown.multibinds, keySet, WellKnown.setClass, WellKnown.javaClass, WellKnown.viewModel,
    WellKnown.binds, WellKnown.intoMap, WellKnown.stringKey, subcomponentMap, viewModelMap,
    WellKnown.mapClass, factoryCreatorOwner, factoriesOwner]

theorem library_notMem_nestedNames :
    ∀ c ∈ runtimeClasses ++ libraryClasses, c.outermost ∉ nestedNames := by
  decide

/-! ## The unit of a scope -/

/-- The names that the types in the unit of a scope are built with. -/
structure Parts (scope : ClassName) where
  child : ClassName
  /-- The name of the subcomponent. -/
  name : ClassName
  module : ClassName
  factory : ClassName
  creator : ClassName
  factories : ClassName
  owner : ClassName
  child_eq : Naming.childScope scope = .ok child
  name_eq : scopedName scope "SealantViewModelSubcomponent" = .ok name
  factory_eq : name.nested "Factory" = .ok factory

namespace Parts

def shared (p : Parts scope) : List TypeDecl :=
  [subcomponentType scope p.child p.name, subcomponentModule p.module scope p.name p.factory]

def own (p : Parts scope) : List TypeDecl :=
  [ownerType p.creator scope factoryCreatorOwner, factoriesModule p.factories p.child,
    ownerType p.owner p.child factoriesOwner]

/-- The classes that may stand in the unit. -/
def classes (p : Parts scope) : List ClassName :=
  [scope, p.child, p.name, p.factory] ++ (runtimeClasses ++ libraryClasses)

variable (p : Parts scope)

theorem classes_shared : TypeDecl.classesOfAll p.shared ⊆ p.classes := by
  change [WellKnown.singleIn, viewModelScope, WellKnown.mergeSubcomponent, p.child, subcomponent,
    WellKnown.mergeSubcomponentFactory, subcomponentFactory, WellKnown.bindsInstance,
    WellKnown.savedStateHandle, p.name, WellKnown.contributesTo, scope, subcomponentParent,
    WellKnown.moduleAnnotation, p.name, WellKnown.contributesTo, scope, WellKnown.multibinds,
    keySet, WellKnown.setClass, WellKnown.javaClass, WellKnown.viewModel, WellKnown.binds,
    WellKnown.intoMap, WellKnown.stringKey, subcomponentMap, p.factory, subcomponentFactory] ⊆ _
  simp only [classes, runtimeClasses, libraryClasses, List.cons_append, List.nil_append,
    List.cons_subset, List.nil_subset, List.mem_cons, true_or, or_true, and_self]

theorem classes_own : TypeDecl.classesOfAll p.own ⊆ p.classes := by
  change [WellKnown.contributesTo, scope, factoryCreatorOwner, WellKnown.moduleAnnotation,
    WellKnown.contributesTo, p.child, WellKnown.multibinds, viewModelMap, WellKnown.mapClass,
    WellKnown.javaClass, WellKnown.viewModel, WellKnown.viewModel, WellKnown.contributesTo, p.child,
    factoriesOwner] ⊆ _
  simp only [classes, runtimeClasses, libraryClasses, List.cons_append, List.nil_append,
    List.cons_subset, List.nil_subset, List.mem_cons, true_or, or_true, and_self]

theorem child_notMem_nestedNames : p.child.outermost ∉ nestedNames := by
  obtain ⟨child, hSame, _, hSimple⟩ := Naming.childScope_eq_ok scope
  obtain rfl := Except.ok.inj (p.child_eq.symm.trans hSame)
  have hStart : Naming.childScopeStart.length = 10 := rfl
  refine notMem_nestedNames_of_long ?_
  rw [ClassName.outermost, hSimple, List.head?_cons, Option.getD_some, String.length_append, hStart]
  omega

theorem simpleNames_name : p.name.simpleNames =
    [Naming.flat scope ++ Naming.separator ++ "SealantViewModelSubcomponent"] := by
  have hParts : ClassName.ofParts integrationPackage
      [Naming.flat scope ++ Naming.separator ++ "SealantViewModelSubcomponent"] = .ok p.name :=
    p.name_eq
  exact (ClassName.ofParts_inv hParts).2

theorem outermost_name : p.name.outermost = p.name.simpleName := by
  rw [ClassName.outermost, ClassName.simpleName, p.simpleNames_name]
  rfl

theorem name_notMem_nestedNames : p.name.simpleName ∉ nestedNames := by
  have hEnd : "SealantViewModelSubcomponent".length = 28 := rfl
  refine notMem_nestedNames_of_long ?_
  rw [ClassName.simpleName_of_simpleNames p.simpleNames_name, String.length_append, hEnd]
  omega

/-- The factory stands inside the subcomponent. -/
theorem outermost_factory : p.factory.outermost = p.name.simpleName := by
  rw [← p.outermost_name, ClassName.outermost, (ClassName.ofParts_inv p.factory_eq).2,
    ClassName.outermost, p.simpleNames_name]
  rfl

theorem eq_scope_or_notMem_nestedNames {c : ClassName} (hMem : c ∈ p.classes) :
    c = scope ∨ c.outermost ∉ nestedNames := by
  rcases List.mem_append.mp hMem with hOwn | hLibrary
  · simp only [List.mem_cons, List.not_mem_nil, or_false] at hOwn
    obtain rfl | rfl | rfl | rfl := hOwn
    · exact .inl rfl
    · exact .inr p.child_notMem_nestedNames
    · exact .inr (p.outermost_name ▸ p.name_notMem_nestedNames)
    · exact .inr (p.outermost_factory ▸ p.name_notMem_nestedNames)
  · exact .inr (library_notMem_nestedNames c hLibrary)

/-! ### Types inside types -/

variable {path : List String} {outer inner : TypeDecl}

theorem types_of_own (hMem : (path, outer) ∈ locatedAll [] p.own) : outer.types = [] := by
  have hFlat : ∀ located ∈ locatedAll [] p.own, located.2.types = [] := by
    simp [own, locatedAll, TypeDecl.located, ownerType, factoriesModule]
  exact hFlat _ hMem

/-- Only the subcomponent has types inside it. -/
theorem eq_subcomponent (hMem : (path, outer) ∈ locatedAll [] p.shared)
    (hInner : inner ∈ outer.types) :
    path = [p.name.simpleName] ∧ outer = subcomponentType scope p.child p.name := by
  have hNested : ∀ located ∈ locatedAll [] p.shared, located.2.types ≠ [] →
      located = ([p.name.simpleName], subcomponentType scope p.child p.name) := by
    simp [shared, locatedAll, TypeDecl.located, subcomponentType, subcomponentModule, factoryType,
      parentType]
  exact Prod.mk.inj (hNested _ hMem (List.ne_nil_of_mem hInner))

end Parts

variable {ctx : Context} {target : IntegrationTarget} {c : ClassName}

/-- The file that integrates view-models into a target. -/
def unitFile (ctx : Context) (target : IntegrationTarget) : File :=
  (ctx.integrationUnit Feature.viewModel.integrationId integrationRule target).file

theorem exists_parts (ctx : Context) (target : IntegrationTarget) :
    ∃ p : Parts target.scope, (unitFile ctx target).types =
      (if target.inheritedFrom.isSome then [] else p.shared) ++ p.own := by
  obtain ⟨child, hChild, _⟩ := Naming.childScope_eq_ok target.scope
  obtain ⟨name, module, factory, hShared, hName, hFactory⟩ := shared_eq hChild
  obtain ⟨creator, factories, owner, hOwn⟩ := own_eq hChild
  refine ⟨⟨child, name, module, factory, creator, factories, owner, hChild, hName, hFactory⟩, ?_⟩
  unfold Parts.shared Parts.own
  rw [← hShared, ← hOwn]
  rfl

theorem mem_classes_header {package fileName : String}
    (hMem : c ∈ (ctx.file package fileName).annotations.flatMap AnnotationUse.classes) :
    c ∈ libraryClasses := by
  unfold Context.file File.withHeader at hMem
  cases hOptIn : ctx.header.optIn with
  | false => simp [hOptIn] at hMem
  | true =>
    rw [hOptIn] at hMem
    exact (List.take_prefix 3 libraryClasses).subset hMem

/-- Of all classes in the file only the scope can have the name of a type inside the
subcomponent. -/
theorem eq_scope_or_notMem_nestedNames (hMem : c ∈ (unitFile ctx target).classes) :
    c = target.scope ∨ c.outermost ∉ nestedNames := by
  obtain ⟨p, hTypes⟩ := exists_parts ctx target
  refine p.eq_scope_or_notMem_nestedNames ?_
  rcases List.mem_append.mp hMem with hHeader | hBody
  · exact List.mem_append_right _ (List.mem_append_right _ (mem_classes_header hHeader))
  · rw [hTypes, TypeDecl.classesOfAll_append] at hBody
    rcases List.mem_append.mp hBody with hShared | hOwn
    · split at hShared
      · cases hShared
      · exact p.classes_shared hShared
    · exact p.classes_own hOwn

theorem scope_mem_classes (ctx : Context) (target : IntegrationTarget) :
    target.scope ∈ (unitFile ctx target).classes := by
  obtain ⟨p, hTypes⟩ := exists_parts ctx target
  unfold File.classes
  rw [hTypes, TypeDecl.classesOfAll_append]
  exact List.mem_append_right _
    (List.mem_append_right _ (List.mem_cons_of_mem _ List.mem_cons_self))

theorem typeNames_notMem_nestedNames {text : String}
    (hMem : text ∈ (unitFile ctx target).types.map (·.name)) : text ∉ nestedNames := by
  have hNamed : (unitFile ctx target).NamedBy
      (.integration .viewModel target.scope target.inheritedFrom.isSome) :=
    Feature.viewModel.namedBy_integrationUnit ctx target
  rw [hNamed.types] at hMem
  obtain ⟨suffix, hSuffix, rfl⟩ := List.mem_map.mp hMem
  have hLong : ∀ inherited, ∀ suffix ∈ Feature.viewModel.typeSuffixes inherited,
      7 < suffix.length := by decide
  have hEnd := hLong _ suffix hSuffix
  refine notMem_nestedNames_of_long ?_
  rw [String.length_append]
  omega

/-- The scope is always written by its simple names if a type inside the subcomponent could take its
name. -/
theorem spell_scope (hNested : target.scope.outermost ∈ nestedNames) :
    (ofFile (unitFile ctx target)).spell target.scope = target.scope.joined "." := by
  refine File.spell_of_only (fun hOwn => typeNames_notMem_nestedNames hOwn hNested)
    (scope_mem_classes ctx target) ?_
  intro d hOther hSame
  rw [← hSame] at hNested
  exact (eq_scope_or_notMem_nestedNames hOther).resolve_right (not_not.mpr hNested)

/-- What the body of the subcomponent writes. -/
theorem writes_body_iff (p : Parts scope) :
    Writes (fun spell => (subcomponentType scope p.child p.name).bodyText spell 1) c ↔
      c = scope ∨ c = p.name ∨ c ∈ runtimeClasses :=
  ((subcomponentType scope p.child p.name).spells_body 1).writes_iff.trans mem_body_subcomponentType

theorem of_captures (h : (unitFile ctx target).Captures c) :
    c = target.scope ∧ target.inheritedFrom = none ∧ c.outermost ∈ nestedNames := by
  obtain ⟨path, outer, inner, hLocated, hInner, hWrites, _, hFirst, _⟩ := h
  obtain ⟨p, hTypes⟩ := exists_parts ctx target
  rw [hTypes, locatedAll_append] at hLocated
  rcases List.mem_append.mp hLocated with hShared | hOwn
  · split at hShared
    · cases hShared
    · next hTop =>
      obtain ⟨rfl, rfl⟩ := p.eq_subcomponent hShared hInner
      have hNested : c.outermost ∈ nestedNames := by
        rw [hFirst]
        exact List.mem_map_of_mem (f := (·.name)) hInner
      refine ⟨?_, by simpa using hTop, hNested⟩
      rcases (writes_body_iff p).mp hWrites with rfl | rfl | hRuntime
      · rfl
      · rw [p.outermost_name] at hNested
        exact absurd hNested p.name_notMem_nestedNames
      · exact absurd hNested (library_notMem_nestedNames c (List.mem_append_left _ hRuntime))
  · rw [p.types_of_own hOwn] at hInner
    cases hInner

theorem captures_scope (hTop : target.inheritedFrom = none)
    (hNested : target.scope.outermost ∈ nestedNames) :
    (unitFile ctx target).Captures target.scope := by
  obtain ⟨p, hTypes⟩ := exists_parts ctx target
  rw [hTop] at hTypes
  let outer := subcomponentType target.scope p.child p.name
  have hNames : nestedNames = outer.types.map (·.name) := rfl
  obtain ⟨inner, hInner, hFirst⟩ := List.mem_map.mp (hNames ▸ hNested)
  refine ⟨[p.name.simpleName], outer, inner, ?_, hInner, (writes_body_iff p).mpr (.inl rfl),
    spell_scope hNested, hFirst.symm, ?_⟩
  · rw [hTypes]
    exact List.mem_cons_self
  · rintro ⟨_, hSame⟩
    rw [ClassName.outermost, hSame] at hNested
    exact p.name_notMem_nestedNames hNested

/-- Just the scope is captured, and just in a unit with a subcomponent. -/
theorem captures_unitFile_iff : (unitFile ctx target).Captures c ↔
    c = target.scope ∧ target.inheritedFrom = none ∧ c.outermost ∈ nestedNames := by
  constructor
  · exact of_captures
  · rintro ⟨rfl, hTop, hNested⟩
    exact captures_scope hTop hNested

/-- What integrates view-models in a context captures just the scope that it is made for, if this
scope does not inherit the feature and has the name of a type inside the subcomponent. -/
theorem captures_of_due (hForest : ctx.graph.validate = .ok ()) {d : Delivery} (hDue : d.Due ctx)
    (hGenerator : d.generator = integration.id) :
    ∃ scope, d.Serves ctx scope ∧ ctx.graph.enabled scope .viewModel = true ∧
      ∀ c, d.file.Captures c ↔
        c = scope ∧ ¬ ctx.graph.Inherits .viewModel scope ∧ c.outermost ∈ nestedNames := by
  cases hDue with
  | childScope =>
    have hOther : childScopesId ≠ integration.id := by decide
    exact absurd hGenerator hOther
  | @creation c =>
    have hOther : ∀ c : Creation, c.id ≠ integration.id := by
      intro c
      cases c <;> decide
    exact absurd hGenerator (hOther c)
  | @integration f b hWins =>
    have hDependent : f.integrationId ∈ dependents := by
      rw [show f.integrationId = integration.id from hGenerator]
      decide
    obtain rfl := feature_of_dependent f hDependent
    refine ⟨b.scope, .integration hWins rfl, hWins.enabled, fun c => ?_⟩
    obtain ⟨chain, hAbove⟩ := ScopeGraph.exists_chainAbove hForest b.scope
    have hFree : ¬ ctx.graph.Inherits .viewModel b.scope ↔
        (ctx.targetOf .viewModel b).inheritedFrom = none := by
      rw [hAbove.inherits_iff_isSome, ← Context.inheritedFrom_eq hAbove]
      simp [Context.targetOf]
    rw [hFree]
    exact captures_unitFile_iff

end ViewModel

namespace Pipeline

open ViewModel

variable {σ : Type} [Store σ] {settings : Settings} {t : SymbolTable}

theorem captures_of_taken {store : σ} {u : GeneratedUnit}
    (hMem : u ∈ ((build settings []).watchedRun t store).store.taken)
    (hGenerator : u.generator = integration.id) :
    ∃ (d : Delivery) (scope : ClassName), d.unit = u ∧
      d.Serves ((build settings []).context t) scope ∧
      (ScopeGraph.build t).1.enabled scope .viewModel = true ∧
      ∀ c, u.file.Captures c ↔ c = scope ∧ ¬ (ScopeGraph.build t).1.Inherits .viewModel scope ∧
        c.outermost ∈ nestedNames := by
  have hDependent : u.generator ∈ dependents := by
    rw [hGenerator]
    decide
  obtain ⟨made, ⟨hTaken, hForeign⟩ | ⟨hSound, hTaken, hDue⟩⟩ := taken_of_run settings t store
  · rw [hTaken] at hMem
    obtain ⟨d, hMade, rfl⟩ := List.mem_map.mp hMem
    exact absurd hDependent (hForeign d hMade)
  · rw [hTaken, List.map_append] at hMem
    rcases List.mem_append.mp hMem with hChild | hMem
    · exact absurd hDependent (not_dependent_of_mem_children hChild)
    · obtain ⟨d, hMade, rfl⟩ := List.mem_map.mp hMem
      obtain ⟨scope, hServes, hEnabled, hCaptures⟩ :=
        captures_of_due hSound.forest (hDue d hMade) hGenerator
      exact ⟨d, scope, rfl, hServes, hEnabled, hCaptures⟩

/-- Watching a run does not change it. What it takes of the generator that integrates view-models is
made for a scope that enables them, and inside the body of a type this scope is taken for another
class just if it inherits nothing and its outermost class is called like the factory or the parent
of a subcomponent. No other class is ever taken for another one there. -/
theorem nested_names_capture_scope (settings : Settings) (t : SymbolTable) (store : σ) :
    (build settings []).run t store =
      ⟨((build settings []).watchedRun t store).result,
        ((build settings []).watchedRun t store).store.store,
        ((build settings []).watchedRun t store).notes⟩ ∧
    ∀ u ∈ ((build settings []).watchedRun t store).store.taken, u.generator = integration.id →
      ∃ (d : Delivery) (scope : ClassName), d.unit = u ∧
        d.Serves ((build settings []).context t) scope ∧
        (ScopeGraph.build t).1.enabled scope .viewModel = true ∧
        ∀ c, u.file.Captures c ↔ c = scope ∧ ¬ (ScopeGraph.build t).1.Inherits .viewModel scope ∧
          (c.outermost = "Factory" ∨ c.outermost = "Parent") := by
  refine ⟨run_eq_watchedRun settings t store, fun u hMem hGenerator => ?_⟩
  obtain ⟨d, scope, hUnit, hServes, hEnabled, hCaptures⟩ := captures_of_taken hMem hGenerator
  refine ⟨d, scope, hUnit, hServes, hEnabled, fun c => (hCaptures c).trans ?_⟩
  rw [nestedNames, List.mem_pair]

end Pipeline

namespace Sample

def factoryScope : ClassName where
  package := appScope.package
  simpleNames := ["Factory"]
  isPackage_package := appScope.isPackage_package
  areSimpleNames_simpleNames := packagedFactory.areSimpleNames_simpleNames

/-- A scope that enables everything, and a component for it. -/
def integrated (name : ClassName) : SymbolTable :=
  .ofList [scope name .all none, component mainComponent name]

end Sample

theorem ScopeGraph.eq_of_enabled {t : SymbolTable} {s only : ClassName} {f : Feature}
    (hScopes : (build t).1.scopes.map (·.scope) = [only])
    (hEnabled : (build t).1.enabled s f = true) : s = only := by
  obtain ⟨c, hConfigures, rfl, _⟩ := configures_of_enabled hEnabled
  have hMem : c.scope ∈ (build t).1.scopes.map (·.scope) :=
    List.mem_map_of_mem (mem_scopes_of_configures hConfigures)
  rw [hScopes] at hMem
  exact List.mem_singleton.mp hMem

namespace Pipeline

open Sample ViewModel

/-- The unit of a scope with another name captures nothing. -/
theorem nested_names_capture_scope_app :
    ∃ u ∈ ((build (.only .viewModel) []).watchedRun (integrated appScope)
      MemoryStore.empty).store.taken, u.generator = integration.id ∧ ∀ c, ¬ u.file.Captures c := by
  have hIds : integration.id ∈ ((build (.only .viewModel) []).watchedRun (integrated appScope)
      MemoryStore.empty).store.taken.map (·.generator) := by decide +kernel
  have hScopes : (ScopeGraph.build (integrated appScope)).1.scopes.map (·.scope) = [appScope] := by
    decide +kernel
  obtain ⟨u, hMem, hGenerator⟩ := List.mem_map.mp hIds
  obtain ⟨_, s, _, _, hEnabled, hCaptures⟩ := (nested_names_capture_scope (.only .viewModel)
    (integrated appScope) MemoryStore.empty).2 u hMem hGenerator
  refine ⟨u, hMem, hGenerator, fun c hCaptured => ?_⟩
  obtain ⟨rfl, _, hName⟩ := (hCaptures c).mp hCaptured
  rw [ScopeGraph.eq_of_enabled hScopes hEnabled] at hName
  exact absurd hName (by decide)

/-- A scope that is called like the factory is written in the body of the subcomponent, where its
name is that of the factory. -/
theorem factory_scope_captured :
    (ScopeGraph.build (integrated factoryScope)).1.enabled factoryScope .viewModel = true ∧
    ∃ u ∈ ((build (.only .viewModel) []).watchedRun (integrated factoryScope)
      MemoryStore.empty).store.taken, u.generator = integration.id ∧
      u.file.Captures factoryScope := by
  have hIds : integration.id ∈ ((build (.only .viewModel) []).watchedRun (integrated factoryScope)
      MemoryStore.empty).store.taken.map (·.generator) := by decide +kernel
  have hScopes : (ScopeGraph.build (integrated factoryScope)).1.scopes.map (·.scope) =
      [factoryScope] := by decide +kernel
  obtain ⟨u, hMem, hGenerator⟩ := List.mem_map.mp hIds
  obtain ⟨_, s, _, _, hEnabled, hCaptures⟩ := captures_of_taken hMem hGenerator
  obtain rfl := ScopeGraph.eq_of_enabled hScopes hEnabled
  refine ⟨hEnabled, u, hMem, hGenerator, (hCaptures factoryScope).mpr ⟨rfl, ?_, by decide⟩⟩
  have hAbove : (ScopeGraph.build (integrated factoryScope)).1.ChainAbove factoryScope [] :=
    .root rfl
  rw [hAbove.inherits_iff]
  simp

end Pipeline

end Bindery
