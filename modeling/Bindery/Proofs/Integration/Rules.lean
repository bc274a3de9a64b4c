import Bindery.Proofs.Integration.Units
import Bindery.Proofs.Naming.Derived
import Bindery.Run.Pipeline

/-! # The rules of the built-in features

Each feature has one generator that integrates it. Building the types of a rule never fails, and
every type bears the name of its scope with a suffix of its own, so that what is shared and what
every scope gets are different types.
-/

namespace Bindery.Feature

open Integration

/-- How the feature is integrated into a scope. -/
def rule : Feature → Rule
  | appcomponent => Appcomponent.integrationRule
  | viewModel => ViewModel.integrationRule
  | fragment => Fragment.integrationRule
  | work => Work.integrationRule

/-- The name of the generator that integrates the feature. -/
def integrationId : Feature → String
  | appcomponent => "appcomponent-integration"
  | viewModel => "viewmodel-integration"
  | fragment => "fragment-integration"
  | work => "work-integration"

/-- The generator that integrates the feature. -/
def integration (f : Feature) : Generator := .integration f.integrationId f f.rule

theorem integration_mem_builtIn (f : Feature) : f.integration ∈ Pipeline.builtIn := by
  cases f with
  | appcomponent => exact List.mem_iff_getElem?.mpr ⟨1, rfl⟩
  | viewModel => exact List.mem_iff_getElem?.mpr ⟨7, rfl⟩
  | fragment => exact List.mem_iff_getElem?.mpr ⟨3, rfl⟩
  | work => exact List.mem_iff_getElem?.mpr ⟨9, rfl⟩

/-- What the names of the shared types end with. -/
def sharedSuffixes : Feature → List String
  | appcomponent => [Appcomponent.featureName ++ "_IntegrativeModule"]
  | viewModel =>
    ["SealantViewModelSubcomponent", "SealantViewModelSubcomponent_IntegrativeModule"]
  | fragment => [Fragment.featureName ++ "_IntegrativeModule"]
  | work => [Work.featureName ++ "_IntegrativeModule"]

/-- What the names of the types that every scope gets end with. -/
def ownSuffixes : Feature → List String
  | appcomponent => ["SealantInjectorsOwner"]
  | viewModel =>
    ["SealantViewModelFactoryCreator_Owner", "ViewModelFactories_IntegrativeModule",
      "ViewModelFactoriesOwner"]
  | fragment => ["SealantFragmentFactory_Owner"]
  | work => ["SealantWorkerFactory_Owner"]

/-- The types are named after the scope, one for each suffix. -/
def NamedAfter (s : ClassName) (suffixes : List String) (types : List Source.TypeDecl) : Prop :=
  types.map (·.name) = suffixes.map fun suffix => Naming.flat s ++ Naming.separator ++ suffix

/-- A rule that builds a single type under a name that is derived from the scope. -/
theorem single_eq_ok (package : String) (s : ClassName) (suffix : String)
    (build : ClassName → Source.TypeDecl) (hNamed : ∀ name, (build name).name = name.simpleName)
    (hPackage : isPackage package = true) (hSuffix : suffix.toList.all goesOn = true) :
    ∃ types, (do
        let name ← Naming.scopedName package s suffix
        return [build name]) = Except.ok types ∧ NamedAfter s [suffix] types := by
  obtain ⟨name, hName, _, hSimple⟩ := Naming.scopedName_eq_ok package s suffix hPackage hSuffix
  refine ⟨[build name], ?_, ?_⟩
  · rw [hName]
    rfl
  · simp [NamedAfter, hNamed, ClassName.simpleName_of_simpleNames hSimple]

theorem sharedTypes_eq_ok (f : Feature) (s : ClassName) :
    ∃ types, f.rule.sharedTypes s = .ok types ∧ NamedAfter s f.sharedSuffixes types := by
  cases f with
  | appcomponent =>
    exact single_eq_ok Appcomponent.integrationPackage s _ (Appcomponent.mapsModule · s)
      (fun _ => rfl) (by decide) (by decide)
  | viewModel =>
    obtain ⟨name, hName, _, hSimple⟩ := Naming.scopedName_eq_ok ViewModel.integrationPackage s
      "SealantViewModelSubcomponent" (by decide) (by decide)
    obtain ⟨child, hChild, _⟩ := Naming.childScope_eq_ok s
    obtain ⟨module, hModule, _, hSimpleModule⟩ := Naming.scopedName_eq_ok
      ViewModel.integrationPackage s "SealantViewModelSubcomponent_IntegrativeModule" (by decide)
      (by decide)
    obtain ⟨factory, hFactory⟩ := name.nested_eq_ok (show isIdentifier "Factory" = true by decide)
    refine ⟨[ViewModel.subcomponentType s child name,
      ViewModel.subcomponentModule module s name factory], ?_, ?_⟩
    · simp only [rule, ViewModel.integrationRule, ViewModel.scopedName, hName, hChild, hModule,
        hFactory, bind, Except.bind]
      rfl
    · simp [NamedAfter, sharedSuffixes, ViewModel.subcomponentType, ViewModel.subcomponentModule,
        ClassName.simpleName_of_simpleNames hSimple,
        ClassName.simpleName_of_simpleNames hSimpleModule]
  | fragment =>
    exact single_eq_ok Fragment.integrationPackage s _ (Fragment.integrativeModule · s)
      (fun _ => rfl) (by decide) (by decide)
  | work =>
    exact single_eq_ok Work.integrationPackage s _ (Work.integrativeModule · s)
      (fun _ => rfl) (by decide) (by decide)

theorem localTypes_eq_ok (f : Feature) (s : ClassName) :
    ∃ types, f.rule.localTypes s = .ok types ∧ NamedAfter s f.ownSuffixes types := by
  cases f with
  | appcomponent =>
    exact single_eq_ok Appcomponent.integrationPackage s _
      (Appcomponent.ownerType · s Appcomponent.injectorsOwner) (fun _ => rfl) (by decide)
      (by decide)
  | viewModel =>
    obtain ⟨child, hChild, _⟩ := Naming.childScope_eq_ok s
    obtain ⟨creator, hCreator, _, hSimpleCreator⟩ := Naming.scopedName_eq_ok
      ViewModel.integrationPackage s "SealantViewModelFactoryCreator_Owner" (by decide) (by decide)
    obtain ⟨factories, hFactories, _, hSimpleFactories⟩ := Naming.scopedName_eq_ok
      ViewModel.integrationPackage s "ViewModelFactories_IntegrativeModule" (by decide) (by decide)
    obtain ⟨owner, hOwner, _, hSimpleOwner⟩ := Naming.scopedName_eq_ok
      ViewModel.integrationPackage s "ViewModelFactoriesOwner" (by decide) (by decide)
    refine ⟨[ViewModel.ownerType creator s ViewModel.factoryCreatorOwner,
      ViewModel.factoriesModule factories child,
      ViewModel.ownerType owner child ViewModel.factoriesOwner], ?_, ?_⟩
    · simp only [rule, ViewModel.integrationRule, ViewModel.scopedName, hChild, hCreator,
        hFactories, hOwner, bind, Except.bind]
      rfl
    · simp [NamedAfter, ownSuffixes, ViewModel.ownerType, ViewModel.factoriesModule,
        ClassName.simpleName_of_simpleNames hSimpleCreator,
        ClassName.simpleName_of_simpleNames hSimpleFactories,
        ClassName.simpleName_of_simpleNames hSimpleOwner]
  | fragment =>
    exact single_eq_ok Fragment.integrationPackage s _ (Fragment.ownerType · s)
      (fun _ => rfl) (by decide) (by decide)
  | work =>
    exact single_eq_ok Work.integrationPackage s _ (Work.ownerType · s)
      (fun _ => rfl) (by decide) (by decide)

theorem shared_built (f : Feature) (s : ClassName) :
    f.rule.sharedTypes s = .ok (f.rule.shared s) ∧
      NamedAfter s f.sharedSuffixes (f.rule.shared s) := by
  obtain ⟨types, hBuilt, hNamed⟩ := f.sharedTypes_eq_ok s
  rw [Rule.shared, hBuilt]
  exact ⟨rfl, hNamed⟩

theorem own_built (f : Feature) (s : ClassName) :
    f.rule.localTypes s = .ok (f.rule.own s) ∧ NamedAfter s f.ownSuffixes (f.rule.own s) := by
  obtain ⟨types, hBuilt, hNamed⟩ := f.localTypes_eq_ok s
  rw [Rule.own, hBuilt]
  exact ⟨rfl, hNamed⟩

theorem shared_ne_nil (f : Feature) (s : ClassName) : f.rule.shared s ≠ [] := by
  intro hEmpty
  have hNamed := (f.shared_built s).2
  rw [NamedAfter, hEmpty] at hNamed
  cases f <;> cases hNamed

theorem sharedSuffixes_disjoint (f : Feature) : ∀ a ∈ f.sharedSuffixes, a ∉ f.ownSuffixes := by
  cases f <;> decide

/-- No scope gets a shared type as one of its own. -/
theorem notMem_own_of_mem_shared {f : Feature} {s : ClassName} {type : Source.TypeDecl}
    (hShared : type ∈ f.rule.shared s) : type ∉ f.rule.own s := by
  intro hOwn
  have hFirst := List.mem_map_of_mem (f := Source.TypeDecl.name) hShared
  have hSecond := List.mem_map_of_mem (f := Source.TypeDecl.name) hOwn
  rw [(f.shared_built s).2] at hFirst
  rw [(f.own_built s).2] at hSecond
  obtain ⟨a, ha, hName⟩ := List.mem_map.mp hFirst
  obtain ⟨b, hb, hName'⟩ := List.mem_map.mp hSecond
  have hSame : a = b := String.append_right_inj _ |>.mp (hName.trans hName'.symm)
  exact f.sharedSuffixes_disjoint a ha (hSame ▸ hb)

end Bindery.Feature
