import Bindery.Proofs.Results
import Bindery.Run.Integration

/-! # Faults of scope resolution

Every fault of reading what a declaration says names that declaration. Such faults are never fatal,
so a run records them and goes on.
-/

namespace Bindery

/-- The fault is attributed to the declaration. -/
def Fault.Names (fault : Fault) (d : Declaration) : Prop :=
  fault.declaration? = some d.name.canonical

theorem Fault.Names.not_fatal {fault : Fault} {d : Declaration} (h : fault.Names d) :
    fault.isFatal = false := by
  have hDeclaration : fault.cause.declaration? = some d.name.canonical := h
  simp [isFatal, Cause.isFatal, hDeclaration]

/-- The fault says that the configuration of the declaration is not valid. -/
def Fault.Invalidates (fault : Fault) (d : Declaration) : Prop :=
  ∃ message, fault = Cause.invalidConfiguration d.name.canonical message

theorem Fault.Invalidates.names {fault : Fault} {d : Declaration} (h : fault.Invalidates d) :
    fault.Names d := by
  obtain ⟨message, rfl⟩ := h
  rfl

theorem invalidates_of_readArgument {d : Declaration} {a : Annotation} {name : String}
    {index : Option Nat} {fault : Fault} (h : readArgument d a name index = .error fault) :
    fault.Invalidates d := by
  unfold readArgument at h
  split at h
  · cases h
    exact ⟨_, rfl⟩
  · cases h
  · cases h

theorem names_of_readArgument {d : Declaration} {a : Annotation} {name : String}
    {index : Option Nat} {fault : Fault} (h : readArgument d a name index = .error fault) :
    fault.Names d :=
  (invalidates_of_readArgument h).names

namespace Resolution

variable {t : SymbolTable} {d : Declaration} {markers : List ClassName} {fault : Fault}

theorem names_of_agree {found : Finding} {a : Annotation}
    (h : agree t d markers found a = .error fault) : fault.Names d := by
  rcases bind_eq_error_iff.mp h with hRead | ⟨value, _, hValue⟩
  · exact names_of_readArgument hRead
  · split at hValue
    · cases hValue
    · split at hValue
      · cases hValue
      · split at hValue
        · cases hValue
        · cases hValue
          rfl
    · cases hValue
      rfl

theorem names_of_agreeAll {found : Finding} {l : List Annotation}
    (h : agreeAll t d markers found l = .error fault) : fault.Names d := by
  induction l generalizing found with
  | nil => cases h
  | cons a rest ih =>
    rcases bind_eq_error_iff.mp h with hFirst | ⟨after, _, hRest⟩
    · exact names_of_agree hFirst
    · exact ih hRest

theorem names_of_scopeOf (h : scopeOf t d markers = .error fault) : fault.Names d := by
  unfold scopeOf at h
  split at h
  · rcases bind_eq_error_iff.mp h with hAll | ⟨found, _, hFound⟩
    · exact names_of_agreeAll hAll
    · split at hFound
      · cases hFound
      · cases hFound
        rfl
  · cases h
    rfl

end Resolution

namespace Integration

theorem names_of_listedScopes {d : Declaration} {a : Annotation} {fault : Fault}
    (h : listedScopes d a = .error fault) : fault.Names d := by
  rcases bind_eq_error_iff.mp h with hRead | ⟨value, _, hValue⟩
  · exact names_of_readArgument hRead
  · split at hValue
    · cases hValue
      rfl
    · split at hValue
      · cases hValue
      · cases hValue
        rfl

/-- A request that cannot be read names the declaration that makes it. -/
theorem names_of_mem_requests {t : SymbolTable} {d : Declaration} {fault : Fault}
    (h : .error fault ∈ requests t d) : fault.Names d := by
  rcases List.mem_append.mp h with hComponent | hList
  · obtain hComponent := Option.mem_toList.mp hComponent
    unfold componentRequest at hComponent
    split at hComponent
    · obtain hComponent := Option.some.inj hComponent
      cases hScope : Resolution.scopeOf t d WellKnown.componentMarkers with
      | ok scope =>
        rw [hScope] at hComponent
        cases hComponent
      | error other =>
        rw [hScope] at hComponent
        cases hComponent
        exact Resolution.names_of_scopeOf hScope
    · cases hComponent
  · obtain ⟨a, _, hRead⟩ := Option.map_eq_some_iff.mp (Option.mem_toList.mp hList)
    exact names_of_listedScopes hRead

/-- A request that cannot be read is one of a declaration of the table. -/
theorem names_of_mem_faults {t : SymbolTable} {fault : Fault} (h : fault ∈ faults t) :
    ∃ d ∈ t.declarations, fault.Names d := by
  obtain ⟨d, hDeclared, hUnresolved⟩ := List.mem_flatMap.mp h
  obtain ⟨request, hRequest, hFault⟩ := List.mem_filterMap.mp hUnresolved
  cases request with
  | ok scopes => cases hFault
  | error other =>
    cases hFault
    exact ⟨d, hDeclared, names_of_mem_requests hRequest⟩

theorem not_fatal_of_mem_faults {t : SymbolTable} : ∀ fault ∈ faults t, fault.isFatal = false := by
  intro fault hMem
  obtain ⟨d, _, hNames⟩ := names_of_mem_faults hMem
  exact hNames.not_fatal

end Integration

end Bindery
