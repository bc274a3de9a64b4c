import Bindery.Proofs.Creation.Contributions
import Bindery.Proofs.Naming.Derived
import Bindery.Run.Pipeline

/-! # The files of the creation generators

Five generators make files of marked declarations. They differ in the shape that they ask for, in
the name of the file, and in the scopes that its types are contributed to. A declaration of the
right shape always gets its file, since no name fails; any other one is refused with faults that
name it.
-/

namespace Bindery

open Source

/-- The ways of making a file of a marked declaration. -/
inductive Creation where
  | injection
  | fragment
  | viewModel
  | wrapper
  | worker
  deriving DecidableEq

namespace Creation

def id : Creation → String
  | injection => "appcomponent-creation"
  | fragment => "fragment-creation"
  | viewModel => "viewmodel-creation"
  | wrapper => "viewmodel-wrapper"
  | worker => "work-creation"

def feature : Creation → Feature
  | injection => .appcomponent
  | fragment => .fragment
  | viewModel => .viewModel
  | wrapper => .viewModel
  | worker => .work

/-- The annotation that marks declarations. -/
def marker : Creation → ClassName
  | injection => Appcomponent.injectWith
  | fragment => Fragment.contributesFragment
  | viewModel => ViewModel.contributesViewModel
  | wrapper => ViewModel.contributesToViewModel
  | worker => Work.contributesWorker

def build : Creation → Context → Contribution → Except (List Fault) File
  | injection => Appcomponent.injectionFile
  | fragment => Fragment.creationFile
  | viewModel => ViewModel.creationFile
  | wrapper => ViewModel.wrapperFile
  | worker => Work.creationFile

/-- What the name of the file ends with. -/
def fileSuffix : Creation → String
  | injection => "Injection"
  | fragment => "Creation"
  | viewModel => "Creation"
  | wrapper => "Wrapper"
  | worker => "Creation"

def generator (c : Creation) : Generator := .creation c.id c.feature c.marker c.build

/-- The shape that a declaration needs. -/
def Accepts (t : SymbolTable) (d : Declaration) : Creation → Prop
  | injection => True
  | fragment => t.isSubtype d WellKnown.fragment = true ∧ ∃ l, Fragment.replacedModules d = .ok l
  | viewModel => t.isSubtype d WellKnown.viewModel = true
  | wrapper => True
  | worker => t.isSubtype d WellKnown.listenableWorker = true ∧
      ∃ constructor, d.constructors = [constructor] ∧ Work.constructorProblems constructor = []

/-- The scopes that the types of a file are contributed to, one for each contributed type. -/
def Targets (scope : ClassName) (scopes : List ClassName) : Creation → Prop
  | viewModel => ∃ child, Naming.childScope scope = .ok child ∧ scopes = [scope, child]
  | wrapper => ∃ child, Naming.childScope scope = .ok child ∧ scopes = [child]
  | _ => scopes = [scope]

end Creation

namespace Source

/-- The class that the annotation names as its scope. -/
def AnnotationUse.scope? (a : AnnotationUse) : Option ClassName :=
  (a.members.find? fun m => m.name = some "scope").bind fun m =>
    match m.value with
    | .classLiteral c => some c
    | _ => none

/-- The scope that a type is contributed to. -/
def TypeDecl.contributedTo? (type : TypeDecl) : Option ClassName :=
  (type.annotations.find? fun a => a.annotationClass = WellKnown.contributesTo).bind
    AnnotationUse.scope?

end Source

namespace Creation

/-- The file is the one that a declaration gets for a scope. -/
structure Makes (c : Creation) (d : Declaration) (scope : ClassName) (file : File) : Prop where
  package : file.package = d.name.package
  name : ∃ name, Naming.derive d.name c.fileSuffix = .ok name ∧ file.name = name.simpleName
  targets : c.Targets scope (file.types.filterMap TypeDecl.contributedTo?)

variable {ctx : Context} {d : Declaration} {scope : ClassName}

theorem generator_mem_builtIn (c : Creation) : c.generator ∈ Pipeline.builtIn := by
  cases c with
  | injection => exact List.mem_iff_getElem?.mpr ⟨0, rfl⟩
  | fragment => exact List.mem_iff_getElem?.mpr ⟨2, rfl⟩
  | viewModel => exact List.mem_iff_getElem?.mpr ⟨5, rfl⟩
  | wrapper => exact List.mem_iff_getElem?.mpr ⟨6, rfl⟩
  | worker => exact List.mem_iff_getElem?.mpr ⟨8, rfl⟩

/-! ## Accepted shapes -/

theorem injection_makes : ∃ file, injection.build ctx ⟨d, scope⟩ = .ok file ∧
    injection.Makes d scope file := by
  obtain ⟨injector, hInjector, _⟩ := Naming.derive_eq_ok d.name "SealantInjector" (by decide)
  obtain ⟨module, hModule, _⟩ := Naming.derive_eq_ok injector "BindsModule" (by decide)
  obtain ⟨name, hName, _⟩ := Naming.derive_eq_ok d.name "Injection" (by decide)
  let key := if ctx.table.isSubtype d WellKnown.activity then Appcomponent.activityKey
    else WellKnown.classKey
  refine ⟨(ctx.file d.name.package name.simpleName).withTypes
    [Appcomponent.injectorType injector d.name,
      Appcomponent.bindsModule module scope d.name injector key], ?_, rfl, ⟨name, hName, rfl⟩, rfl⟩
  simp only [build, Appcomponent.injectionFile, hInjector, buildStep, Except.mapError, bind,
    Except.bind, hModule, hName]
  rfl

theorem fragment_makes (hSubtype : ctx.table.isSubtype d WellKnown.fragment = true)
    {l : List ClassName} (hReplaced : Fragment.replacedModules d = .ok l) :
    ∃ file, fragment.build ctx ⟨d, scope⟩ = .ok file ∧ fragment.Makes d scope file := by
  obtain ⟨module, hModule, _⟩ := Naming.derive_eq_ok d.name "BindsModule" (by decide)
  obtain ⟨name, hName, _⟩ := Naming.derive_eq_ok d.name "Creation" (by decide)
  refine ⟨(ctx.file d.name.package name.simpleName).withTypes
    [Fragment.bindsModule module scope d.name l], ?_, rfl, ⟨name, hName, rfl⟩, ?_⟩
  · simp only [build, Fragment.creationFile, hSubtype, hReplaced, buildStep, Except.mapError, bind,
      Except.bind, hModule, hName]
    rfl
  · cases l <;> rfl

theorem viewModel_makes (hSubtype : ctx.table.isSubtype d WellKnown.viewModel = true) :
    ∃ file, viewModel.build ctx ⟨d, scope⟩ = .ok file ∧ viewModel.Makes d scope file := by
  obtain ⟨child, hChild, _⟩ := Naming.childScope_eq_ok scope
  obtain ⟨key, hKey, _⟩ := Naming.derive_eq_ok d.name "KeyModule" (by decide)
  obtain ⟨module, hModule, _⟩ := Naming.derive_eq_ok d.name "BindsModule" (by decide)
  obtain ⟨name, hName, _⟩ := Naming.derive_eq_ok d.name "Creation" (by decide)
  refine ⟨(ctx.file d.name.package name.simpleName).withTypes
    [ViewModel.keyModule key scope d.name, ViewModel.bindsModule module child d.name], ?_, rfl,
    ⟨name, hName, rfl⟩, ⟨child, hChild, rfl⟩⟩
  simp only [build, ViewModel.creationFile, hSubtype, hChild, buildStep, Except.mapError, bind,
    Except.bind, hKey, hModule, hName]
  rfl

theorem wrapper_makes : ∃ file, wrapper.build ctx ⟨d, scope⟩ = .ok file ∧
    wrapper.Makes d scope file := by
  obtain ⟨child, hChild, _⟩ := Naming.childScope_eq_ok scope
  obtain ⟨name, hName, _⟩ := Naming.derive_eq_ok d.name "Wrapper" (by decide)
  refine ⟨(ctx.file d.name.package name.simpleName).withTypes
    [ViewModel.wrapperType name child d.name], ?_, rfl, ⟨name, hName, rfl⟩, ⟨child, hChild, rfl⟩⟩
  simp only [build, ViewModel.wrapperFile, hChild, buildStep, Except.mapError, bind, Except.bind,
    hName]
  rfl

theorem worker_makes (hShape : Work.violations ctx.table d = []) :
    ∃ file, worker.build ctx ⟨d, scope⟩ = .ok file ∧ worker.Makes d scope file := by
  obtain ⟨factory, hFactory, _⟩ := Naming.derive_eq_ok d.name "AssistedFactory" (by decide)
  obtain ⟨module, hModule, _⟩ := Naming.derive_eq_ok d.name "BindsModule" (by decide)
  obtain ⟨name, hName, _⟩ := Naming.derive_eq_ok d.name "Creation" (by decide)
  refine ⟨(ctx.file d.name.package name.simpleName).withTypes
    [Work.factoryType factory d.name, Work.bindsModule module scope d.name factory], ?_, rfl,
    ⟨name, hName, rfl⟩, rfl⟩
  simp only [build, Work.creationFile, hShape, List.isEmpty_nil, Bool.not_true, buildStep,
    Except.mapError, bind, Except.bind, hFactory, hModule, hName]
  rfl

theorem violations_eq_nil_iff {t : SymbolTable} :
    Work.violations t d = [] ↔ worker.Accepts t d := by
  unfold Work.violations Work.shapeProblems Accepts
  rw [List.map_eq_nil_iff, List.append_eq_nil_iff]
  refine and_congr ?_ ?_
  · cases t.isSubtype d WellKnown.listenableWorker <;> simp
  · match d.constructors with
    | [] => simp
    | [only] => simp
    | first :: second :: rest => simp

/-- A declaration of the right shape gets its file. -/
theorem build_of_accepts {c : Creation} (hShape : c.Accepts ctx.table d) (scope : ClassName) :
    ∃ file, c.build ctx ⟨d, scope⟩ = .ok file ∧ c.Makes d scope file := by
  cases c with
  | injection => exact injection_makes
  | fragment =>
    obtain ⟨hSubtype, l, hReplaced⟩ := hShape
    exact fragment_makes hSubtype hReplaced
  | viewModel => exact viewModel_makes hShape
  | wrapper => exact wrapper_makes
  | worker => exact worker_makes (violations_eq_nil_iff.mpr hShape)

/-! ## Refused shapes -/

theorem names_of_replacedModules {fault : Fault}
    (h : Fragment.replacedModules d = .error fault) : fault.Names d := by
  unfold Fragment.replacedModules at h
  split at h
  · cases h
  · rcases bind_eq_error_iff.mp h with hRead | ⟨value, _, hValue⟩
    · exact names_of_readArgument hRead
    · split at hValue
      · cases hValue
      · split at hValue
        · cases hValue
        · cases hValue
          rfl

theorem names_of_violations {t : SymbolTable} {fault : Fault} (h : fault ∈ Work.violations t d) :
    fault.Names d := by
  obtain ⟨message, _, rfl⟩ := List.mem_map.mp h
  rfl

/-- A declaration of another shape is refused with faults that name it. -/
theorem build_of_not_accepts {c : Creation} (hShape : ¬ c.Accepts ctx.table d)
    (scope : ClassName) : ∃ faults, c.build ctx ⟨d, scope⟩ = .error faults ∧ faults ≠ [] ∧
      ∀ fault ∈ faults, fault.Names d := by
  cases c with
  | injection => exact absurd trivial hShape
  | wrapper => exact absurd trivial hShape
  | fragment =>
    cases hSubtype : ctx.table.isSubtype d WellKnown.fragment with
    | false =>
      refine ⟨[⟨.shapeViolation d.name.canonical ("must extend " ++ WellKnown.fragment.canonical),
        none⟩], ?_, by simp, ?_⟩
      · simp only [build, Fragment.creationFile, hSubtype]
        rfl
      · simp [Fault.Names, Fault.declaration?, Cause.declaration?]
    | true =>
      cases hReplaced : Fragment.replacedModules d with
      | ok l => exact absurd ⟨hSubtype, l, hReplaced⟩ hShape
      | error fault =>
        refine ⟨[fault], ?_, by simp, ?_⟩
        · simp only [build, Fragment.creationFile, hSubtype, hReplaced]
          rfl
        · simpa using names_of_replacedModules hReplaced
  | viewModel =>
    have hSubtype : ctx.table.isSubtype d WellKnown.viewModel = false := by
      simpa [Accepts] using hShape
    refine ⟨[⟨.shapeViolation d.name.canonical ("must extend " ++ WellKnown.viewModel.canonical),
      none⟩], ?_, by simp, ?_⟩
    · simp only [build, ViewModel.creationFile, hSubtype]
      rfl
    · simp [Fault.Names, Fault.declaration?, Cause.declaration?]
  | worker =>
    have hSome : Work.violations ctx.table d ≠ [] := mt violations_eq_nil_iff.mp hShape
    refine ⟨Work.violations ctx.table d, ?_, hSome, fun fault => names_of_violations⟩
    simp only [build, Work.creationFile, List.isEmpty_eq_false_iff.mpr hSome]
    rfl

end Creation

end Bindery
