import Bindery.Proofs.Scope.Resolution
import Bindery.Proofs.Scope.Validation
import Bindery.Proofs.Symbols.Table

/-! # The graph that a table configures

A scope is configured by its own declaration, so the graph of a table has exactly the configurations
that can be read, and every scope of the graph is declared. What cannot be read is attributed to the
declaration. The check of the graph fails just if the links that the table configures lead from some
scope back to itself.
-/

namespace Bindery

namespace ScopeConfiguration

variable {owner : Declaration} {a : Annotation} {fault : Fault}

theorem invalidates_of_readFlag {f : Feature} (h : readFlag owner a f = .error fault) :
    fault.Invalidates owner := by
  rcases bind_eq_error_iff.mp h with hRead | ⟨value, _, hValue⟩
  · exact invalidates_of_readArgument hRead
  · split at hValue
    · cases hValue
      exact ⟨_, rfl⟩
    · cases hValue
    · cases hValue
      exact ⟨_, rfl⟩

theorem invalidates_of_readFlags {s : FeatureSet} {l : List Feature}
    (h : readFlags owner a s l = .error fault) : fault.Invalidates owner := by
  induction l generalizing s with
  | nil => cases h
  | cons f rest ih =>
    rcases bind_eq_error_iff.mp h with hFirst | ⟨enabled, _, hRest⟩
    · exact invalidates_of_readFlag hFirst
    · exact ih hRest

theorem invalidates_of_readParent (h : readParent owner a = .error fault) :
    fault.Invalidates owner := by
  rcases bind_eq_error_iff.mp h with hRead | ⟨value, _, hValue⟩
  · exact invalidates_of_readArgument hRead
  · split at hValue
    · cases hValue
    · cases hValue
    · cases hValue
      exact ⟨_, rfl⟩

/-- A configuration is not read only because it is not valid. -/
theorem invalidates_of_read (h : read owner a = .error fault) : fault.Invalidates owner := by
  rcases bind_eq_error_iff.mp h with hFlags | ⟨features, _, hRest⟩
  · exact invalidates_of_readFlags hFlags
  · cases hParent : readParent owner a with
    | error other =>
      rw [hParent] at hRest
      cases hRest
      exact invalidates_of_readParent hParent
    | ok parent =>
      rw [hParent] at hRest
      cases hRest

theorem read_eq_ok_iff {c : ScopeConfiguration} : read owner a = .ok c ↔ ∃ features parent,
    readFlags owner a .none Feature.all = .ok features ∧ readParent owner a = .ok parent ∧
      c = { scope := owner.name, parent, features } := by
  constructor
  · intro h
    obtain ⟨features, hFlags, hRest⟩ := bind_eq_ok_iff.mp h
    obtain ⟨parent, hParent, rfl⟩ := map_eq_ok_iff.mp hRest
    exact ⟨features, parent, hFlags, hParent, rfl⟩
  · rintro ⟨features, parent, hFlags, hParent, rfl⟩
    rw [read, hFlags, hParent]
    rfl

theorem scope_of_read {c : ScopeConfiguration} (h : read owner a = .ok c) :
    c.scope = owner.name := by
  obtain ⟨features, parent, _, _, rfl⟩ := read_eq_ok_iff.mp h
  rfl

end ScopeConfiguration

namespace SymbolTable

/-- A declaration of the table carries a configuration that can be read. -/
def Configures (t : SymbolTable) (c : ScopeConfiguration) : Prop :=
  ∃ d ∈ t.declarations, ∃ a, d.annotationOf? WellKnown.scopeConfiguration = some a ∧
    ScopeConfiguration.read d a = .ok c

/-- The scope has a configuration that can be read and that names the other scope as its parent. -/
def ParentLink (t : SymbolTable) (s p : ClassName) : Prop :=
  ∃ c, t.Configures c ∧ c.scope = s ∧ c.parent = some p

theorem Configures.declared {t : SymbolTable} {c : ScopeConfiguration} (h : t.Configures c) :
    ∃ d, t.find? c.scope = some d ∧ ∃ a, d.annotationOf? WellKnown.scopeConfiguration = some a ∧
      ScopeConfiguration.read d a = .ok c := by
  obtain ⟨d, hDeclared, a, hCarried, hRead⟩ := h
  have hName := ScopeConfiguration.scope_of_read hRead
  exact ⟨d, find?_eq_some_iff.mpr ⟨hDeclared, hName.symm⟩, a, hCarried, hRead⟩

/-- A scope is not configured twice. -/
theorem Configures.unique {t : SymbolTable} {c c' : ScopeConfiguration} (h : t.Configures c)
    (h' : t.Configures c') (hSame : c.scope = c'.scope) : c = c' := by
  obtain ⟨d, hFound, a, hCarried, hRead⟩ := h.declared
  obtain ⟨d', hFound', a', hCarried', hRead'⟩ := h'.declared
  rw [hSame, hFound'] at hFound
  obtain rfl := Option.some.inj hFound
  rw [hCarried'] at hCarried
  obtain rfl := Option.some.inj hCarried
  exact Except.ok.inj (hRead.symm.trans hRead')

end SymbolTable

namespace ScopeGraph

variable {g : ScopeGraph} {t : SymbolTable} {s p : ClassName} {c : ScopeConfiguration}

/-- Of the configurations of one scope the last one stays. -/
theorem configuration?_foldl (l : List ScopeConfiguration) (g : ScopeGraph) (s : ClassName) :
    (l.foldl insert g).configuration? s =
      (l.reverse.find? fun c => decide (c.scope = s)).or (g.configuration? s) := by
  induction l generalizing g with
  | nil => rfl
  | cons c rest ih =>
    have hInsert : (g.insert c).configuration? s =
        if c.scope = s then some c else g.configuration? s :=
      OrderedMap.get?_insert g.byName c.scope s c
    rw [List.foldl_cons, ih, hInsert, List.reverse_cons, List.find?_append, Option.or_assoc]
    congr 1
    by_cases hScope : c.scope = s <;> simp [hScope]

/-- The configurations of a table that can be read, in the order of the declarations. -/
def configurations (t : SymbolTable) : List ScopeConfiguration :=
  (readings t).filterMap fun reading => reading.2.toOption

theorem build_fst (t : SymbolTable) : (build t).1 = (configurations t).foldl insert empty := by
  unfold build configurations
  refine congrArg (List.foldl insert empty) (List.filterMap_congr fun reading _ => ?_)
  obtain ⟨d, result⟩ := reading
  cases result <;> rfl

theorem mem_readings {d : Declaration} {result : Except Fault ScopeConfiguration} :
    (d, result) ∈ readings t ↔ d ∈ t.declarations ∧
      ∃ a, d.annotationOf? WellKnown.scopeConfiguration = some a ∧
        ScopeConfiguration.read d a = result := by
  unfold readings
  rw [List.mem_filterMap]
  constructor
  · rintro ⟨e, hDeclared, hRead⟩
    obtain ⟨a, hCarried, hPair⟩ := Option.map_eq_some_iff.mp hRead
    obtain ⟨rfl, rfl⟩ := Prod.mk.inj hPair
    exact ⟨hDeclared, a, hCarried, rfl⟩
  · rintro ⟨hDeclared, a, hCarried, rfl⟩
    exact ⟨d, hDeclared, by rw [hCarried]; rfl⟩

theorem mem_configurations : c ∈ configurations t ↔ t.Configures c := by
  unfold configurations SymbolTable.Configures
  rw [List.mem_filterMap]
  constructor
  · rintro ⟨⟨d, result⟩, hMem, hOk⟩
    obtain ⟨hDeclared, a, hCarried, hRead⟩ := mem_readings.mp hMem
    cases result with
    | error fault => cases hOk
    | ok read =>
      obtain rfl : read = c := Option.some.inj hOk
      exact ⟨d, hDeclared, a, hCarried, hRead⟩
  · rintro ⟨d, hDeclared, a, hCarried, hRead⟩
    exact ⟨(d, .ok c), mem_readings.mpr ⟨hDeclared, a, hCarried, hRead⟩, rfl⟩

theorem configuration?_build_iff :
    (build t).1.configuration? s = some c ↔ t.Configures c ∧ c.scope = s := by
  have hFold : (build t).1.configuration? s =
      (configurations t).reverse.find? fun c => decide (c.scope = s) := by
    rw [build_fst, configuration?_foldl]
    exact Option.or_none
  rw [hFold]
  constructor
  · intro hFound
    have hMem := List.mem_reverse.mp (List.mem_of_find?_eq_some hFound)
    exact ⟨mem_configurations.mp hMem, by simpa using List.find?_some hFound⟩
  · rintro ⟨hConfigures, rfl⟩
    cases hFound : (configurations t).reverse.find? fun other => decide (other.scope = c.scope) with
    | none =>
      have hAbsent := List.find?_eq_none.mp hFound c
        (List.mem_reverse.mpr (mem_configurations.mpr hConfigures))
      simp at hAbsent
    | some other =>
      have hMem := List.mem_reverse.mp (List.mem_of_find?_eq_some hFound)
      have hSame : other.scope = c.scope := by simpa using List.find?_some hFound
      rw [(mem_configurations.mp hMem).unique hConfigures hSame]

theorem link_build_iff : (build t).1.Link s p ↔ t.ParentLink s p := by
  unfold Link parentOf? SymbolTable.ParentLink
  rw [Option.bind_eq_some_iff]
  constructor
  · rintro ⟨c, hFound, hParent⟩
    obtain ⟨hConfigures, hScope⟩ := configuration?_build_iff.mp hFound
    exact ⟨c, hConfigures, hScope, hParent⟩
  · rintro ⟨c, hConfigures, hScope, hParent⟩
    exact ⟨c, configuration?_build_iff.mpr ⟨hConfigures, hScope⟩, hParent⟩

theorem configures_of_mem_scopes (hMem : c ∈ (build t).1.scopes) : t.Configures c := by
  obtain ⟨⟨s, c⟩, hEntry, rfl⟩ := List.mem_map.mp hMem
  exact (configuration?_build_iff.mp (OrderedMap.get?_eq_some_iff.mpr hEntry)).1

theorem mem_scopes_of_configures (h : t.Configures c) : c ∈ (build t).1.scopes := by
  have hFound : (build t).1.configuration? c.scope = some c :=
    configuration?_build_iff.mpr ⟨h, rfl⟩
  exact List.mem_map.mpr ⟨(c.scope, c), OrderedMap.get?_eq_some_iff.mp hFound, rfl⟩

theorem configures_of_enabled {f : Feature} (h : (build t).1.enabled s f = true) :
    ∃ c, t.Configures c ∧ c.scope = s ∧ c.enables f = true := by
  unfold enabled at h
  split at h
  · cases h
  · next c hFound =>
    obtain ⟨hConfigures, hScope⟩ := configuration?_build_iff.mp hFound
    exact ⟨c, hConfigures, hScope, h⟩

/-- A configuration that cannot be read is one of a declaration of the table. -/
theorem names_of_mem_build {fault : Fault} (hMem : fault ∈ (build t).2) :
    ∃ d ∈ t.declarations, fault.Names d := by
  obtain ⟨⟨d, result⟩, hReading, hFault⟩ := List.mem_filterMap.mp hMem
  obtain ⟨hDeclared, a, _, hRead⟩ := mem_readings.mp hReading
  cases result with
  | ok c => cases hFault
  | error other =>
    obtain rfl : other = fault := Option.some.inj hFault
    exact ⟨d, hDeclared, (ScopeConfiguration.invalidates_of_read hRead).names⟩

/-- A declaration whose configuration cannot be read is no scope of the graph, and the fault is
handed out. -/
theorem left_out_of_read_error {d : Declaration} {a : Annotation} {fault : Fault}
    (hDeclared : d ∈ t.declarations)
    (hCarried : d.annotationOf? WellKnown.scopeConfiguration = some a)
    (hRead : ScopeConfiguration.read d a = .error fault) :
    (build t).1.configuration? d.name = none ∧ fault ∈ (build t).2 := by
  constructor
  · rw [Option.eq_none_iff_forall_ne_some]
    intro c hFound
    obtain ⟨hConfigures, hScope⟩ := configuration?_build_iff.mp hFound
    obtain ⟨d', hFound', a', hCarried', hRead'⟩ := hConfigures.declared
    have hFind : t.find? d.name = some d := SymbolTable.find?_eq_some_iff.mpr ⟨hDeclared, rfl⟩
    rw [hScope, hFind] at hFound'
    obtain rfl := Option.some.inj hFound'
    rw [hCarried] at hCarried'
    obtain rfl := Option.some.inj hCarried'
    rw [hRead] at hRead'
    cases hRead'
  · have hReading := mem_readings.mpr ⟨hDeclared, a, hCarried, hRead⟩
    exact List.mem_filterMap.mpr ⟨_, hReading, rfl⟩

/-- Faults of configurations are never fatal. -/
theorem not_fatal_of_mem_build {fault : Fault} (hMem : fault ∈ (build t).2) :
    fault.isFatal = false := by
  obtain ⟨d, _, hNames⟩ := names_of_mem_build hMem
  exact hNames.not_fatal

/-! ## Graphs with a cycle -/

theorem revisits_iff_of_configured :
    (∃ s ∈ g.byName.keys, g.Revisits s) ↔ ∃ s, Relation.TransGen g.Link s s := by
  constructor
  · rintro ⟨_, _, a, _, hLoop⟩
    exact ⟨a, hLoop⟩
  · rintro ⟨a, hLoop⟩
    obtain ⟨p, hLink, _⟩ := Relation.TransGen.head'_iff.mp hLoop
    exact ⟨a, mem_keys_of_link hLink, a, .refl, hLoop⟩

theorem kind_of_walkAll {l : List ClassName} {fault : Fault} (h : g.walkAll l = .error fault) :
    fault.kind = "ScopeCycle" := by
  induction l with
  | nil => cases h
  | cons s rest ih =>
    rcases bind_eq_error_iff.mp h with hWalk | ⟨_, _, hRest⟩
    · rcases g.ancestors_chain_or_loop s with ⟨chain, hOk, _⟩ | ⟨front, last, hError, _⟩
      · rw [hOk] at hWalk
        cases hWalk
      · rw [hError] at hWalk
        cases hWalk
        rfl
    · exact ih hRest

theorem kind_of_validate {fault : Fault} (h : g.validate = .error fault) :
    fault.kind = "ScopeCycle" := by
  rw [validate_eq_walkAll] at h
  exact kind_of_walkAll h

/-- The check fails just if there is a cycle. -/
theorem validate_fails_iff :
    (∃ fault, g.validate = .error fault) ↔ ∃ s, Relation.TransGen g.Link s s := by
  rw [← revisits_iff_of_configured, validate_eq_walkAll, map_scope_scopes]
  constructor
  · rintro ⟨fault, hFails⟩
    by_contra hNone
    have hChains : ∀ s ∈ g.byName.keys, ∃ chain, g.ChainAbove s chain := by
      intro s hMem
      rcases g.ancestors_chain_or_loop s with ⟨chain, _, hAbove⟩ | ⟨front, last, _, hLoop⟩
      · exact ⟨chain, hAbove⟩
      · exact absurd ⟨s, hMem, hLoop.revisits⟩ hNone
    rw [walkAll_eq_ok_iff.mpr hChains] at hFails
    cases hFails
  · rintro ⟨s, hMem, hRevisits⟩
    cases hWalk : g.walkAll g.byName.keys with
    | ok =>
      obtain ⟨chain, hAbove⟩ := walkAll_eq_ok_iff.mp hWalk s hMem
      exact absurd hRevisits hAbove.not_revisits
    | error fault => exact ⟨fault, rfl⟩

end ScopeGraph

end Bindery
