import Bindery.Proofs.Run.Due

/-! # References to child scopes

Three generators refer to the child scope of a scope: what they make is contributed to it or merged
for it. A file that is made for a scope names no other scopes than this one and its child.
-/

namespace Bindery

open Integration Source

namespace Source

mutual

/-- The annotations on a type and on the types inside it. -/
def TypeDecl.annotationsWithin : TypeDecl → List AnnotationUse
  | ⟨_, _, _, annotations, _, _, _, types⟩ => annotations ++ annotationsWithinAll types

def annotationsWithinAll : List TypeDecl → List AnnotationUse
  | [] => []
  | t :: rest => t.annotationsWithin ++ annotationsWithinAll rest

end

/-- The classes that the annotations of a class in the file name as their scopes. -/
def File.scopesUnder (file : File) (annotationClass : ClassName) : List ClassName :=
  ((annotationsWithinAll file.types).filter fun a => a.annotationClass = annotationClass).filterMap
    AnnotationUse.scope?

end Source

/-- The delivery is made for the scope: its declaration is contributed to the scope, or won the bids
for it. -/
inductive Delivery.Serves (ctx : Context) (scope : ClassName) : Delivery → Prop where
  | creation {c : Creation} {origin : Declaration} {file : File}
      (hMarked : origin ∈ ctx.table.annotated c.marker)
      (hScope : Resolution.scopeOf ctx.table origin [c.marker] = .ok scope)
      (hBuilt : c.build ctx ⟨origin, scope⟩ = .ok file) : Serves ctx scope ⟨c.id, file, origin⟩
  | integration {f : Feature} {b : Bid} (hWins : b.Wins ctx.table ctx.graph f)
      (hScope : b.scope = scope) :
      Serves ctx scope (ctx.integrationUnit f.integrationId f.rule (ctx.targetOf f b))

namespace ViewModel

/-- The generators that refer to child scopes. -/
def dependents : List String := ["viewmodel-creation", "viewmodel-wrapper", "viewmodel-integration"]

/-- The scopes that the file names are the scope that it is made for and its child. It names the
child, and it merges nothing for another scope. -/
structure Refers (scope child : ClassName) (file : File) : Prop where
  contributes : ∀ named ∈ file.scopesUnder WellKnown.contributesTo, named = scope ∨ named = child
  merges : ∀ named ∈ file.scopesUnder WellKnown.mergeSubcomponent, named = child
  names : child ∈ file.scopesUnder WellKnown.contributesTo

variable {ctx : Context} {scope child : ClassName} {file : File}

theorem Refers.of_scopes {l m : List ClassName}
    (hContributed : file.scopesUnder WellKnown.contributesTo = l)
    (hMerged : file.scopesUnder WellKnown.mergeSubcomponent = m)
    (hOnly : ∀ named ∈ l, named = scope ∨ named = child) (hMerges : ∀ named ∈ m, named = child)
    (hChild : child ∈ l) : Refers scope child file where
  contributes := hContributed ▸ hOnly
  merges := hMerged ▸ hMerges
  names := hContributed ▸ hChild

theorem refers_creationFile {x : Contribution} (hChild : Naming.childScope x.scope = .ok child)
    (h : creationFile ctx x = .ok file) : Refers x.scope child file := by
  simp only [creationFile] at h
  split at h
  · cases h
  · simp only [hChild, bind_eq_ok_iff] at h
    obtain ⟨_, hSame, key, _, module, _, name, _, h⟩ := h
    cases hSame
    cases h
    exact .of_scopes (l := [x.scope, child]) (m := []) rfl rfl (by simp) (by simp) (by simp)

theorem refers_wrapperFile {x : Contribution} (hChild : Naming.childScope x.scope = .ok child)
    (h : wrapperFile ctx x = .ok file) : Refers x.scope child file := by
  simp only [wrapperFile, hChild, bind_eq_ok_iff] at h
  obtain ⟨_, hSame, name, _, h⟩ := h
  cases hSame
  cases h
  exact .of_scopes (l := [child]) (m := []) rfl rfl (by simp) (by simp) (by simp)

theorem shared_eq (hChild : Naming.childScope scope = .ok child) :
    ∃ name module factory, integrationRule.shared scope =
        [subcomponentType scope child name, subcomponentModule module scope name factory] ∧
      scopedName scope "SealantViewModelSubcomponent" = .ok name ∧
      name.nested "Factory" = .ok factory := by
  have hBuilt := (Feature.viewModel.shared_built scope).1
  simp only [Feature.rule, integrationRule, hChild, bind_eq_ok_iff] at hBuilt
  obtain ⟨name, hName, _, hSame, module, _, factory, hFactory, hTypes⟩ := hBuilt
  cases hSame
  exact ⟨name, module, factory, (Except.ok.inj hTypes).symm, hName, hFactory⟩

theorem own_eq (hChild : Naming.childScope scope = .ok child) :
    ∃ creator factories owner, integrationRule.own scope =
      [ownerType creator scope factoryCreatorOwner, factoriesModule factories child,
        ownerType owner child factoriesOwner] := by
  have hBuilt := (Feature.viewModel.own_built scope).1
  simp only [Feature.rule, integrationRule, hChild, bind_eq_ok_iff] at hBuilt
  obtain ⟨_, hSame, creator, _, factories, _, owner, _, hTypes⟩ := hBuilt
  cases hSame
  exact ⟨creator, factories, owner, (Except.ok.inj hTypes).symm⟩

theorem refers_integrationUnit {target : IntegrationTarget}
    (hChild : Naming.childScope target.scope = .ok child) :
    Refers target.scope child
      (ctx.integrationUnit Feature.viewModel.integrationId integrationRule target).file := by
  obtain ⟨name, module, factory, hShared, _⟩ := shared_eq hChild
  obtain ⟨creator, factories, owner, hOwn⟩ := own_eq hChild
  unfold Context.integrationUnit
  rw [hShared, hOwn]
  cases target.inheritedFrom with
  | some _ =>
    exact .of_scopes (l := [target.scope, child, child]) (m := []) rfl rfl (by simp) (by simp)
      (by simp)
  | none =>
    exact .of_scopes (l := [target.scope, target.scope, target.scope, child, child]) (m := [child])
      rfl rfl (by simp) (by simp) (by simp)

theorem creation_of_dependent :
    ∀ c : Creation, c.id ∈ dependents → c = .viewModel ∨ c = .wrapper := by
  intro c
  cases c <;> decide

theorem feature_of_dependent : ∀ f : Feature, f.integrationId ∈ dependents → f = .viewModel := by
  intro f
  cases f <;> decide

/-- What such a generator makes in a context is made for a scope that enables the feature itself,
and it refers to the child of this scope. -/
theorem refers_of_due {d : Delivery} (hDue : d.Due ctx) (hDependent : d.generator ∈ dependents) :
    ∃ scope child, d.Serves ctx scope ∧ ctx.graph.enabled scope .viewModel = true ∧
      Naming.childScope scope = .ok child ∧ Refers scope child d.file := by
  cases hDue with
  | childScope _ _ _ _ _ =>
    have hForeign : childScopesId ∉ dependents := by decide
    exact absurd hDependent hForeign
  | @creation c origin scope file hMarked hScope hEnabled hBuilt =>
    obtain ⟨child, hChild, _⟩ := Naming.childScope_eq_ok scope
    have hServes := Delivery.Serves.creation hMarked hScope hBuilt
    rcases creation_of_dependent c hDependent with rfl | rfl
    · exact ⟨scope, child, hServes, hEnabled, hChild,
        refers_creationFile (x := ⟨origin, scope⟩) hChild hBuilt⟩
    · exact ⟨scope, child, hServes, hEnabled, hChild,
        refers_wrapperFile (x := ⟨origin, scope⟩) hChild hBuilt⟩
  | @integration f b hWins =>
    obtain ⟨child, hChild, _⟩ := Naming.childScope_eq_ok b.scope
    obtain rfl := feature_of_dependent f hDependent
    have hRefers : Refers (ctx.targetOf .viewModel b).scope child (ctx.integrationUnit
        Feature.viewModel.integrationId integrationRule (ctx.targetOf .viewModel b)).file :=
      refers_integrationUnit hChild
    exact ⟨b.scope, child, .integration hWins rfl, hWins.enabled, hChild, hRefers⟩

end ViewModel

end Bindery
