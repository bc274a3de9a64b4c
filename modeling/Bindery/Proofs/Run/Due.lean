import Bindery.Proofs.Naming.Derivations
import Bindery.Proofs.Source.TypeNames

/-! # Deliveries that are due

What the built-in generators deliver in a context, and for which declaration: child scopes for the
scopes themselves, created files for the declarations that carry a marker, and integrations for the
declarations that won the bids. Each such file bears the names of one derivation, and so every type
in it can be named.
-/

namespace Bindery

open Integration Naming Source

/-- A built-in generator makes the delivery in this context. -/
inductive Delivery.Due (ctx : Context) : Delivery → Prop where
  | childScope {c : ScopeConfiguration} {origin : Declaration} {child fileName : ClassName}
      (hConfigured : c ∈ ctx.graph.scopes) (hEnables : c.enables .viewModel = true)
      (hOrigin : ctx.table.find? c.scope = some origin)
      (hChild : Naming.childScope c.scope = .ok child)
      (hName : Naming.derive c.scope "SealantChildScopes" = .ok fileName) :
      Due ctx ⟨ViewModel.childScopesId, (ctx.file c.scope.package fileName.simpleName).withTypes
        [ViewModel.childScopeType child], origin⟩
  | creation {c : Creation} {origin : Declaration} {scope : ClassName} {file : File}
      (hMarked : origin ∈ ctx.table.annotated c.marker)
      (hScope : Resolution.scopeOf ctx.table origin [c.marker] = .ok scope)
      (hEnabled : ctx.graph.enabled scope c.feature = true)
      (hBuilt : c.build ctx ⟨origin, scope⟩ = .ok file) : Due ctx ⟨c.id, file, origin⟩
  | integration {f : Feature} {b : Bid} (hWins : b.Wins ctx.table ctx.graph f) :
      Due ctx (ctx.integrationUnit f.integrationId f.rule (ctx.targetOf f b))

/-! ## Names of files -/

namespace Naming

theorem simpleNames_of_derive {base name : ClassName} {suffix : String}
    (h : buildStep (derive base suffix) = .ok name) :
    name.simpleNames = [flat base ++ separator ++ suffix] := by
  cases hDerive : derive base suffix with
  | error fault =>
    rw [hDerive] at h
    cases h
  | ok other =>
    rw [hDerive] at h
    obtain rfl : other = name := Except.ok.inj h
    have hParts : ClassName.ofParts base.package [flat base ++ separator ++ suffix] = .ok other :=
      hDerive
    exact (ClassName.ofParts_inv hParts).2

theorem simpleName_of_derive {base name : ClassName} {suffix : String}
    (h : buildStep (derive base suffix) = .ok name) :
    name.simpleName = flat base ++ separator ++ suffix :=
  ClassName.simpleName_of_simpleNames (simpleNames_of_derive h)

end Naming

/-- The file and its types have the names that are derived. -/
structure Source.File.NamedBy (file : File) (x : Derivation) : Prop where
  package : file.package = x.package
  name : file.name = x.fileName
  types : file.types.map (·.name) = x.typeNames

theorem Creation.goesOn_typeSuffixes (c : Creation) :
    ∀ suffix ∈ c.typeSuffixes, suffix.toList.all goesOn = true := by
  cases c <;> decide

theorem Feature.isPackage_rule (f : Feature) : isPackage f.rule.package = true := by
  cases f <;> decide

theorem Feature.goesOn_typeSuffixes (f : Feature) (inherited : Bool) :
    ∀ suffix ∈ f.typeSuffixes inherited, suffix.toList.all goesOn = true := by
  cases f <;> cases inherited <;> decide

namespace Derivation

theorem isPackage_package (x : Derivation) : isPackage x.package = true := by
  cases x with
  | childScope s => exact s.isPackage_package
  | creation c d => exact d.isPackage_package
  | integration f s inherited => exact f.isPackage_rule

theorem isIdentifier_of_mem_typeNames (x : Derivation) :
    ∀ name ∈ x.typeNames, isIdentifier name = true := by
  intro name hMem
  cases x with
  | childScope s =>
    rw [List.mem_singleton.mp hMem]
    exact isIdentifier_append (by decide) s.goesOn_simpleName
  | creation c d =>
    obtain ⟨suffix, hSuffix, rfl⟩ := List.mem_map.mp hMem
    exact isIdentifier_flat_append d (c.goesOn_typeSuffixes suffix hSuffix)
  | integration f s inherited =>
    obtain ⟨suffix, hSuffix, rfl⟩ := List.mem_map.mp hMem
    exact isIdentifier_flat_append s (f.goesOn_typeSuffixes inherited suffix hSuffix)

end Derivation

theorem Source.File.NamedBy.wellNamed {file : File} {x : Derivation} (h : file.NamedBy x) :
    file.WellNamed where
  package := h.package ▸ x.isPackage_package
  types type hMem := by
    have hName : type.name ∈ file.types.map (·.name) := List.mem_map_of_mem hMem
    rw [h.types] at hName
    exact x.isIdentifier_of_mem_typeNames _ hName

theorem Creation.namedBy_of_build {c : Creation} {ctx : Context} {x : Contribution} {file : File}
    (h : c.build ctx x = .ok file) :
    file.NamedBy (.creation c x.declaration.name) := by
  cases c with
  | injection =>
    simp only [build, Appcomponent.injectionFile, bind_eq_ok_iff] at h
    obtain ⟨injector, hInjector, module, hModule, name, hName, h⟩ := h
    cases h
    refine ⟨rfl, simpleName_of_derive hName, ?_⟩
    have hModuleName : module.simpleName =
        flat x.declaration.name ++ separator ++ "SealantInjector_BindsModule" := by
      rw [simpleName_of_derive hModule, flat, ClassName.joined, simpleNames_of_derive hInjector,
        String.intercalate_singleton]
      simp only [String.append_assoc]
      rfl
    exact congrArg₂ (fun first second => [first, second]) (simpleName_of_derive hInjector)
      hModuleName
  | fragment =>
    simp only [build, Fragment.creationFile] at h
    split at h
    · cases h
    · simp only [bind_eq_ok_iff] at h
      obtain ⟨replaced, _, module, hModule, name, hName, h⟩ := h
      cases h
      refine ⟨rfl, simpleName_of_derive hName, ?_⟩
      exact congrArg (fun text => [text]) (simpleName_of_derive hModule)
  | viewModel =>
    simp only [build, ViewModel.creationFile] at h
    split at h
    · cases h
    · simp only [bind_eq_ok_iff] at h
      obtain ⟨child, _, key, hKey, module, hModule, name, hName, h⟩ := h
      cases h
      refine ⟨rfl, simpleName_of_derive hName, ?_⟩
      exact congrArg₂ (fun first second => [first, second]) (simpleName_of_derive hKey)
        (simpleName_of_derive hModule)
  | wrapper =>
    simp only [build, ViewModel.wrapperFile, bind_eq_ok_iff] at h
    obtain ⟨child, _, name, hName, h⟩ := h
    cases h
    refine ⟨rfl, simpleName_of_derive hName, ?_⟩
    exact congrArg (fun text => [text]) (simpleName_of_derive hName)
  | worker =>
    simp only [build, Work.creationFile] at h
    split at h
    · cases h
    · simp only [bind_eq_ok_iff] at h
      obtain ⟨factory, hFactory, module, hModule, name, hName, h⟩ := h
      cases h
      refine ⟨rfl, simpleName_of_derive hName, ?_⟩
      exact congrArg₂ (fun first second => [first, second]) (simpleName_of_derive hFactory)
        (simpleName_of_derive hModule)

theorem Feature.namedBy_integrationUnit (f : Feature) (ctx : Context) (target : IntegrationTarget) :
    (ctx.integrationUnit f.integrationId f.rule target).file.NamedBy
      (.integration f target.scope target.inheritedFrom.isSome) where
  package := rfl
  name := by
    change integrationFile target.scope f.rule.featureName =
      flat target.scope ++ separator ++ f.fileSuffix
    simp only [integrationFile, fileSuffix, String.append_assoc]
  types := by
    change ((if target.inheritedFrom.isSome then [] else f.rule.shared target.scope) ++
      f.rule.own target.scope).map (·.name) = _
    rw [List.map_append, (f.own_built target.scope).2, Derivation.typeNames, typeSuffixes,
      List.map_append]
    congr 1
    split
    · rfl
    · exact (f.shared_built target.scope).2

theorem ViewModel.namedBy_childScope (ctx : Context) {scope child fileName : ClassName}
    (hChild : childScope scope = .ok child)
    (hName : derive scope "SealantChildScopes" = .ok fileName) :
    ((ctx.file scope.package fileName.simpleName).withTypes [childScopeType child]).NamedBy
      (.childScope scope) where
  package := rfl
  name := by
    have hStep : buildStep (derive scope "SealantChildScopes") = .ok fileName := by
      rw [hName]
      rfl
    exact simpleName_of_derive hStep
  types := by
    obtain ⟨other, hOther, _, hSimple⟩ := childScope_eq_ok scope
    obtain rfl := Except.ok.inj (hChild.symm.trans hOther)
    exact congrArg (fun text => [text]) (ClassName.simpleName_of_simpleNames hSimple)

namespace Delivery.Due

variable {ctx : Context} {d : Delivery}

theorem exists_namedBy (h : d.Due ctx) : ∃ x, d.file.NamedBy x := by
  cases h with
  | childScope _ _ _ hChild hName => exact ⟨_, ViewModel.namedBy_childScope ctx hChild hName⟩
  | creation _ _ _ hBuilt => exact ⟨_, Creation.namedBy_of_build hBuilt⟩
  | @integration f b _ => exact ⟨_, f.namedBy_integrationUnit ctx (ctx.targetOf f b)⟩

theorem wellNamed (h : d.Due ctx) : d.file.WellNamed := by
  obtain ⟨x, hNamed⟩ := h.exists_namedBy
  exact hNamed.wellNamed

/-- What is delivered is delivered for a declaration of the table. -/
theorem declared (h : d.Due ctx) : d.origin ∈ ctx.table.declarations := by
  cases h with
  | childScope _ _ hOrigin _ _ => exact (SymbolTable.find?_eq_some_iff.mp hOrigin).1
  | creation hMarked _ _ _ => exact List.mem_of_mem_filter hMarked
  | integration hWins => exact hWins.placed.declared

end Delivery.Due

end Bindery
