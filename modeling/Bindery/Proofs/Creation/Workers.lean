import Bindery.Proofs.Creation.Files
import Bindery.Proofs.Symbols.Nearness

/-! # The shape of a worker

Five checks look at a worker, each of them by itself: at what it extends, at the marker of its
constructor, at the number of the assisted parameters, at each of these, and at each one that is
expected. Together they leave no gap. Two assisted parameters that are both expected, with both
expected ones present, are the two expected ones in some order.
-/

namespace Bindery

namespace Work

variable {t : SymbolTable} {d : Declaration} {c : Bindery.Constructor} {p : Bindery.Parameter}
  {expected : AssistedParameter} {signature message : String} {fault : Fault}

def IsAssisted (p : Bindery.Parameter) : Prop :=
  annotatedWith p.annotations WellKnown.assisted = true

def AssistedParameter.Fits (expected : AssistedParameter) (p : Bindery.Parameter) : Prop :=
  p.name = expected.name ∧ p.type = expected.type

/-- The two parameters are the context and the parameters of the worker, in either order. -/
def IsPair (first second : Bindery.Parameter) : Prop :=
  (appContext.Fits first ∧ workerParams.Fits second) ∨
    (workerParams.Fits first ∧ appContext.Fits second)

/-- Just two of the parameters are assisted, wherever they stand, and they are the expected pair. -/
def AssistsPair (parameters : List Bindery.Parameter) : Prop :=
  ∃ before first between second after,
    parameters = before ++ first :: (between ++ second :: after) ∧
    (∀ p ∈ before ++ between ++ after, ¬ IsAssisted p) ∧
    IsAssisted first ∧ IsAssisted second ∧ IsPair first second

/-- A declaration extends what steps to direct supertypes lead to, itself at the start. -/
def Extends (t : SymbolTable) (d : Declaration) (c : ClassName) : Prop :=
  ∃ k, (t.put d).Ascends k d.name c

structure IsWorker (t : SymbolTable) (d : Declaration) : Prop where
  extendsWorker : Extends t d WellKnown.listenableWorker
  constructed : ∃ c, d.constructors = [c] ∧
    annotatedWith c.annotations WellKnown.assistedInject = true ∧ AssistsPair c.parameters

/-! ## Single checks -/

theorem find?_assistedParameters (name : String) :
    (assistedParameters.find? fun expected => expected.name = name) =
      if appContext.name = name then some appContext
      else if workerParams.name = name then some workerParams
      else none := by
  rw [assistedParameters, List.find?_cons, List.find?_cons, List.find?_nil]
  by_cases hContext : appContext.name = name
  · simp only [hContext, decide_true, if_true]
  · by_cases hParams : workerParams.name = name
    · simp only [hContext, hParams, decide_false, decide_true, if_false, if_true]
    · simp only [hContext, hParams, decide_false, if_false]

theorem parameterProblem_eq_none_iff :
    parameterProblem signature p = none ↔ appContext.Fits p ∨ workerParams.Fits p := by
  have hNames : appContext.name ≠ workerParams.name := by decide
  unfold parameterProblem AssistedParameter.Fits
  rw [find?_assistedParameters]
  by_cases hContext : appContext.name = p.name
  · simp [← hContext, hNames]
  · by_cases hParams : workerParams.name = p.name
    · simp [← hParams, hNames, hNames.symm]
    · simp [hContext, hParams, Ne.symm hContext, Ne.symm hParams]

theorem absenceProblem_eq_none_iff {assisted : List Bindery.Parameter} :
    absenceProblem signature assisted expected = none ↔ ∃ p ∈ assisted, p.name = expected.name := by
  simp [absenceProblem]

/-! ## All checks of a constructor -/

structure Checked (c : Bindery.Constructor) : Prop where
  annotated : annotatedWith c.annotations WellKnown.assistedInject = true
  length : (assistedOf c).length = 2
  allowed : ∀ p ∈ assistedOf c, appContext.Fits p ∨ workerParams.Fits p
  context : ∃ p ∈ assistedOf c, p.name = appContext.name
  params : ∃ p ∈ assistedOf c, p.name = workerParams.name

theorem constructorProblems_eq_nil_iff : constructorProblems c = [] ↔ Checked c := by
  have hList : constructorProblems c = [] ↔
      ((annotatedWith c.annotations WellKnown.assistedInject = true ∧
        (assistedOf c).length = 2) ∧
        ∀ p ∈ assistedOf c, parameterProblem c.signature p = none) ∧
        ∀ expected ∈ assistedParameters,
          absenceProblem c.signature (assistedOf c) expected = none := by
    simp [constructorProblems, and_assoc]
  rw [hList]
  simp only [parameterProblem_eq_none_iff, absenceProblem_eq_none_iff]
  constructor
  · rintro ⟨⟨⟨hAnnotated, hLength⟩, hAllowed⟩, hPresent⟩
    have hContext := hPresent appContext (by simp [assistedParameters])
    have hParams := hPresent workerParams (by simp [assistedParameters])
    exact ⟨hAnnotated, hLength, hAllowed, hContext, hParams⟩
  · intro h
    refine ⟨⟨⟨h.annotated, h.length⟩, h.allowed⟩, ?_⟩
    intro expected hMem
    simp only [assistedParameters, List.mem_cons, List.not_mem_nil, or_false] at hMem
    rcases hMem with rfl | rfl
    · exact h.context
    · exact h.params

/-- One parameter does not have both names, so two that are allowed are the pair as soon as both
names occur. -/
theorem isPair_iff {first second : Bindery.Parameter} :
    IsPair first second ↔
      (∀ p ∈ [first, second], appContext.Fits p ∨ workerParams.Fits p) ∧
      (∃ p ∈ [first, second], p.name = appContext.name) ∧
      ∃ p ∈ [first, second], p.name = workerParams.name := by
  have hNames : appContext.name ≠ workerParams.name := by decide
  simp only [List.mem_cons, List.not_mem_nil, or_false, forall_eq_or_imp, forall_eq,
    exists_eq_or_imp, exists_eq_left]
  constructor
  · rintro (⟨hFirst, hSecond⟩ | ⟨hFirst, hSecond⟩)
    · exact ⟨⟨.inl hFirst, .inr hSecond⟩, .inl hFirst.1, .inr hSecond.1⟩
    · exact ⟨⟨.inr hFirst, .inl hSecond⟩, .inr hSecond.1, .inl hFirst.1⟩
  · rintro ⟨⟨hFirst, hSecond⟩, hContext, hParams⟩
    rcases hFirst with hFirst | hFirst
    · rcases hSecond with hSecond | hSecond
      · rcases hParams with hName | hName
        · exact absurd (hFirst.1.symm.trans hName) hNames
        · exact absurd (hSecond.1.symm.trans hName) hNames
      · exact .inl ⟨hFirst, hSecond⟩
    · rcases hSecond with hSecond | hSecond
      · exact .inr ⟨hFirst, hSecond⟩
      · rcases hContext with hName | hName
        · exact absurd (hName.symm.trans hFirst.1) hNames
        · exact absurd (hName.symm.trans hSecond.1) hNames

theorem checked_iff : Checked c ↔
    annotatedWith c.annotations WellKnown.assistedInject = true ∧
      ∃ first second, assistedOf c = [first, second] ∧ IsPair first second := by
  constructor
  · intro h
    refine ⟨h.annotated, ?_⟩
    obtain ⟨first, second, hTwo⟩ := List.length_eq_two.mp h.length
    refine ⟨first, second, hTwo, isPair_iff.mpr ?_⟩
    rw [← hTwo]
    exact ⟨h.allowed, h.context, h.params⟩
  · rintro ⟨hAnnotated, first, second, hTwo, hPair⟩
    obtain ⟨hAllowed, hContext, hParams⟩ := isPair_iff.mp hPair
    rw [← hTwo] at hAllowed hContext hParams
    exact ⟨hAnnotated, by rw [hTwo]; rfl, hAllowed, hContext, hParams⟩

/-- The two assisted parameters split the list into three parts without any. -/
theorem assistsPair_iff : AssistsPair c.parameters ↔
    ∃ first second, assistedOf c = [first, second] ∧ IsPair first second := by
  constructor
  · rintro ⟨before, first, between, second, after, hParts, hOthers, hFirst, hSecond, hPair⟩
    simp only [List.mem_append, or_imp, forall_and] at hOthers
    obtain ⟨⟨hBefore, hBetween⟩, hAfter⟩ := hOthers
    refine ⟨first, second, ?_, hPair⟩
    rw [assistedOf, hParts, List.filter_eq_cons_iff]
    refine ⟨before, between ++ second :: after, rfl, hBefore, hFirst, ?_⟩
    rw [List.filter_eq_cons_iff]
    refine ⟨between, after, rfl, hBetween, hSecond, ?_⟩
    rwa [List.filter_eq_nil_iff]
  · rintro ⟨first, second, hTwo, hPair⟩
    obtain ⟨before, rest, hParts, hBefore, hFirst, hRest⟩ := List.filter_eq_cons_iff.mp hTwo
    obtain ⟨between, after, rfl, hBetween, hSecond, hNone⟩ := List.filter_eq_cons_iff.mp hRest
    refine ⟨before, first, between, second, after, hParts, ?_, hFirst, hSecond, hPair⟩
    simp only [List.mem_append, or_imp, forall_and]
    exact ⟨⟨hBefore, hBetween⟩, List.filter_eq_nil_iff.mp hNone⟩

/-- A declaration without violations is a worker, and the other way round. -/
theorem violations_eq_nil_iff_isWorker : violations t d = [] ↔ IsWorker t d := by
  have hConstructed : (∃ c, d.constructors = [c] ∧ constructorProblems c = []) ↔
      ∃ c, d.constructors = [c] ∧
        annotatedWith c.annotations WellKnown.assistedInject = true ∧
        AssistsPair c.parameters := by
    apply exists_congr
    intro c
    rw [constructorProblems_eq_nil_iff, checked_iff, assistsPair_iff]
  rw [Creation.violations_eq_nil_iff, Creation.Accepts, SymbolTable.isSubtype_iff_ascends_put,
    hConstructed]
  exact ⟨fun h => ⟨h.1, h.2⟩, fun h => ⟨h.1, h.2⟩⟩

/-! ## What a violation says -/

/-- The text begins with the constructor that it is about. -/
def TellsOf (c : Bindery.Constructor) (message : String) : Prop :=
  ∃ rest, message = "constructor " ++ c.signature ++ rest

/-- What tells of a constructor shows its parameters with the simple names of their types. -/
theorem TellsOf.shows (h : TellsOf c message) :
    "constructor (".toList ++ [',', ' '].intercalate (c.parameters.map fun p =>
      p.name.toList ++ ':' :: ' ' :: p.type.simpleName.toList) ++ [')'] <+: message.toList := by
  obtain ⟨rest, rfl⟩ := h
  refine ⟨rest.toList, ?_⟩
  rw [String.toList_append, String.toList_append, c.toList_signature]
  rfl

theorem tellsOf_of_parameterProblem (h : parameterProblem c.signature p = some message) :
    TellsOf c message := by
  unfold parameterProblem at h
  split at h
  · obtain rfl := Option.some.inj h
    simp only [TellsOf, String.append_assoc]
    exact ⟨_, rfl⟩
  · split at h
    · nomatch h
    · obtain rfl := Option.some.inj h
      simp only [TellsOf, String.append_assoc]
      exact ⟨_, rfl⟩

theorem tellsOf_of_absenceProblem {assisted : List Bindery.Parameter}
    (h : absenceProblem c.signature assisted expected = some message) : TellsOf c message := by
  unfold absenceProblem at h
  split at h
  · nomatch h
  · obtain rfl := Option.some.inj h
    simp only [TellsOf, String.append_assoc]
    exact ⟨_, rfl⟩

theorem tellsOf_of_mem_constructorProblems (h : message ∈ constructorProblems c) :
    TellsOf c message := by
  rw [constructorProblems, List.mem_append, List.mem_append, List.mem_append] at h
  rcases h with ((hMarker | hCount) | hAllowed) | hPresent
  · split at hMarker
    · nomatch hMarker
    · obtain rfl := List.mem_singleton.mp hMarker
      exact ⟨_, rfl⟩
  · split at hCount
    · nomatch hCount
    · obtain rfl := List.mem_singleton.mp hCount
      simp only [TellsOf, String.append_assoc]
      exact ⟨_, rfl⟩
  · obtain ⟨p, _, hProblem⟩ := List.mem_filterMap.mp hAllowed
    exact tellsOf_of_parameterProblem hProblem
  · obtain ⟨expected, _, hProblem⟩ := List.mem_filterMap.mp hPresent
    exact tellsOf_of_absenceProblem hProblem

theorem shape_of_mem_violations (h : fault ∈ violations t d) :
    fault.kind = "ShapeViolation" ∧ fault.isFatal = false ∧
      fault.declaration? = some d.name.canonical := by
  obtain ⟨message, _, rfl⟩ := List.mem_map.mp h
  exact ⟨rfl, rfl, rfl⟩

/-- Next to a single constructor there is only the supertype to complain about. -/
theorem cases_of_mem_violations (hSingle : d.constructors = [c]) (h : fault ∈ violations t d) :
    (¬ Extends t d WellKnown.listenableWorker ∧ fault.cause = .shapeViolation d.name.canonical
      ("must extend " ++ WellKnown.listenableWorker.canonical)) ∨
    ∃ message, TellsOf c message ∧ fault.cause = .shapeViolation d.name.canonical message := by
  obtain ⟨message, hProblem, rfl⟩ := List.mem_map.mp h
  rw [shapeProblems, List.mem_append, hSingle] at hProblem
  rcases hProblem with hSupertype | hConstructor
  · split at hSupertype
    · nomatch hSupertype
    · next hNot =>
      obtain rfl := List.mem_singleton.mp hSupertype
      exact .inl ⟨fun hExtends => hNot (SymbolTable.isSubtype_iff_ascends_put.mpr hExtends), rfl⟩
  · exact .inr ⟨message, tellsOf_of_mem_constructorProblems hConstructor, rfl⟩

/-- The checks of a worker find nothing just at the declarations that extend the listenable worker
and have one constructor, marked for assisted injection, whose assisted parameters are the context
and the parameters of the worker: in either order, wherever they stand among others. What they find
at any other declaration are faults of its shape, none of them fatal, which name it. Where there is
a single constructor, each fault but a missing supertype begins with its signature, which is shown
as the parameters with the simple names of their types. -/
theorem worker_validated (t : SymbolTable) (d : Declaration) :
    (violations t d = [] ↔ IsWorker t d) ∧
    (∀ fault ∈ violations t d, fault.kind = "ShapeViolation" ∧ fault.isFatal = false ∧
      fault.declaration? = some d.name.canonical) ∧
    (∀ c, d.constructors = [c] → ∀ fault ∈ violations t d,
      (¬ Extends t d WellKnown.listenableWorker ∧ fault.cause = .shapeViolation d.name.canonical
        ("must extend " ++ WellKnown.listenableWorker.canonical)) ∨
      ∃ message, TellsOf c message ∧ fault.cause = .shapeViolation d.name.canonical message) ∧
    ∀ c message, TellsOf c message →
      "constructor (".toList ++ [',', ' '].intercalate (c.parameters.map fun p =>
        p.name.toList ++ ':' :: ' ' :: p.type.simpleName.toList) ++ [')'] <+: message.toList := by
  refine ⟨violations_eq_nil_iff_isWorker, ?_, ?_, fun c message hTells => hTells.shows⟩
  · intro fault
    exact shape_of_mem_violations
  · intro c hSingle fault
    exact cases_of_mem_violations hSingle

end Work

namespace Sample

def assistedParameter (name : String) (type : ClassName) : Bindery.Parameter where
  name := name
  type := type
  annotations := [⟨WellKnown.assisted, []⟩]

/-- The assisted parameters stand in the other order, with an injected one between them. -/
def workerConstructor : Bindery.Constructor where
  annotations := [⟨WellKnown.assistedInject, []⟩]
  parameters := [assistedParameter "workerParams" WellKnown.workerParameters,
    { name := "api", type := topClass }, assistedParameter "appContext" WellKnown.context]

/-- The context is asked for twice. -/
def twiceContext : Bindery.Constructor where
  annotations := [⟨WellKnown.assistedInject, []⟩]
  parameters := [assistedParameter "appContext" WellKnown.context,
    assistedParameter "appContext" WellKnown.context]

/-- A worker that is not in the table, under a class that is. -/
def leafWorker (c : Bindery.Constructor) : Declaration where
  name := leafClass
  supertypes := [leftClass]
  constructors := [c]

def workers : SymbolTable :=
  .ofList [{ name := leftClass, supertypes := [WellKnown.listenableWorker] }]

end Sample

namespace Work

open Sample

theorem worker_validated_leaf : IsWorker workers (leafWorker workerConstructor) ∧
    (leafWorker twiceContext).constructors = [twiceContext] ∧
    (violations workers (leafWorker twiceContext)).length = 1 ∧
    ∀ fault ∈ violations workers (leafWorker twiceContext), ∃ message,
      TellsOf twiceContext message ∧
      fault.cause = .shapeViolation "hierarchy.LeafClass" message := by
  obtain ⟨hWorker, _, _⟩ := worker_validated workers (leafWorker workerConstructor)
  obtain ⟨_, _, hTells, _⟩ := worker_validated workers (leafWorker twiceContext)
  have hFound : (violations workers (leafWorker workerConstructor)) = [] := by decide +kernel
  have hSubtype : workers.isSubtype (leafWorker twiceContext) WellKnown.listenableWorker = true := by
    decide +kernel
  refine ⟨hWorker.mp hFound, rfl, by decide +kernel, ?_⟩
  intro fault hMem
  rcases hTells twiceContext rfl fault hMem with ⟨hNot, _⟩ | hMessage
  · exact absurd (SymbolTable.isSubtype_iff_ascends_put.mp hSubtype) hNot
  · exact hMessage

end Work

end Bindery
