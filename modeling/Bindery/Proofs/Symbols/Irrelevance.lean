import Bindery.Proofs.Scope.Configured
import Bindery.Proofs.Symbols.Supertypes

/-! # Declarations that nothing leads to

A table is asked for its declarations, for those with an annotation, for what a declaration
inherits, and for the class of an annotation. A declaration without annotations, which is neither
inherited from nor the class of an annotation, changes none of the answers about the others. That
its name may be given as a scope does not matter, because nobody looks up a scope that is not
configured.
-/

namespace Bindery

namespace SymbolTable

/-- No question about the declarations of the table leads to the other declaration. -/
structure Irrelevant (t : SymbolTable) (e : Declaration) : Prop where
  undeclared : t.find? e.name = none
  plain : e.annotations = []
  notInherited : ∀ d ∈ t.declarations, e.name ∉ t.allSupertypes d
  notAnnotated : ∀ d ∈ t.declarations, ∀ a ∈ d.annotations, a.annotationClass ≠ e.name

variable {t : SymbolTable} {d e : Declaration}

namespace Irrelevant

theorem ne_name (h : t.Irrelevant e) (hDeclared : d ∈ t.declarations) : e.name ≠ d.name := by
  intro hName
  have hFind : t.find? d.name = some d := find?_eq_some_iff.mpr ⟨hDeclared, rfl⟩
  rw [← hName, h.undeclared] at hFind
  cases hFind

theorem mem_declarations_put (h : t.Irrelevant e) (hDeclared : d ∈ t.declarations) :
    d ∈ (t.put e).declarations := by
  have hFind : (t.put e).find? d.name = some d := by
    rw [find?_put, if_neg (h.ne_name hDeclared)]
    exact find?_eq_some_iff.mpr ⟨hDeclared, rfl⟩
  exact (find?_eq_some_iff.mp hFind).1

theorem hasAnnotation (h : t.Irrelevant e) (c : ClassName) : e.hasAnnotation c = false := by
  rw [Declaration.hasAnnotation, h.plain]
  rfl

theorem annotationOf? (h : t.Irrelevant e) (c : ClassName) : e.annotationOf? c = none := by
  rw [Declaration.annotationOf?, h.plain]
  rfl

theorem isSubtype_put (h : t.Irrelevant e) (hDeclared : d ∈ t.declarations) (c : ClassName) :
    (t.put e).isSubtype d c = t.isSubtype d c := by
  have hUnmet : ∀ k, ¬ t.Ascends k d.name e.name := by
    intro k hAscends
    exact h.notInherited d hDeclared
      ((mem_allSupertypes_iff hDeclared).mpr ⟨h.ne_name hDeclared, k, hAscends⟩)
  rw [Bool.eq_iff_iff, isSubtype_iff (h.mem_declarations_put hDeclared), isSubtype_iff hDeclared]
  exact exists_congr fun k => ascends_put_iff hUnmet

/-- What is collected from declarations does not change if the other one adds nothing. -/
theorem flatMap_declarations_put {β : Type} (h : t.Irrelevant e) {f g : Declaration → List β}
    (hNothing : f e = []) (hSame : ∀ d ∈ t.declarations, f d = g d) :
    (t.put e).declarations.flatMap f = t.declarations.flatMap g := by
  obtain ⟨front, rest, hOld, hNew⟩ := exists_declarations_put h.undeclared
  rw [hNew, List.flatMap_append, List.flatMap_cons, hNothing, List.nil_append,
    ← List.flatMap_append, ← hOld]
  exact List.flatMap_congr hSame

theorem annotated_put (h : t.Irrelevant e) (c : ClassName) :
    (t.put e).annotated c = t.annotated c := by
  obtain ⟨front, rest, hOld, hNew⟩ := exists_declarations_put h.undeclared
  rw [annotated, annotated, hOld, hNew, List.filter_append, List.filter_cons, h.hasAnnotation,
    List.filter_append]
  rfl

end Irrelevant

end SymbolTable

variable {t : SymbolTable} {d e : Declaration}

/-! ## Scopes of declarations -/

namespace Resolution

theorem scopeValue_put (h : t.Irrelevant e) (hDeclared : d ∈ t.declarations)
    (markers : List ClassName) {a : Annotation} (hMem : a ∈ d.annotations) :
    scopeValue (t.put e) d markers a = scopeValue t d markers a := by
  have hOther : e.name ≠ a.annotationClass := (h.notAnnotated d hDeclared a hMem).symm
  rw [scopeValue, scopeValue, takesScopeFirst, takesScopeFirst, SymbolTable.source_find?,
    SymbolTable.source_find?, SymbolTable.find?_put, if_neg hOther]

theorem agreeAll_put (h : t.Irrelevant e) (hDeclared : d ∈ t.declarations)
    (markers : List ClassName) (found : Finding) {l : List Annotation}
    (hSubset : l ⊆ d.annotations) :
    agreeAll (t.put e) d markers found l = agreeAll t d markers found l := by
  induction l generalizing found with
  | nil => rfl
  | cons a rest ih =>
    obtain ⟨hFirst, hRest⟩ := List.cons_subset.mp hSubset
    rw [agreeAll, agreeAll, agree, agree, scopeValue_put h hDeclared markers hFirst]
    exact congrArg _ (funext fun found => ih found hRest)

theorem scopeOf_put (h : t.Irrelevant e) (hDeclared : d ∈ t.declarations)
    (markers : List ClassName) : scopeOf (t.put e) d markers = scopeOf t d markers := by
  rw [scopeOf, scopeOf, agreeAll_put h hDeclared markers none (List.Subset.refl _)]

end Resolution

/-! ## Configured scopes and requests for integration -/

namespace ScopeGraph

theorem readings_put (h : t.Irrelevant e) : readings (t.put e) = readings t := by
  rw [readings, readings, List.filterMap_eq_flatMap_toList, List.filterMap_eq_flatMap_toList]
  refine h.flatMap_declarations_put ?_ fun _ _ => rfl
  rw [h.annotationOf?]
  rfl

theorem build_put (h : t.Irrelevant e) : build (t.put e) = build t := by
  rw [build, build, readings_put h]

theorem buildNotes_put (h : t.Irrelevant e) : buildNotes (t.put e) = buildNotes t := by
  rw [buildNotes, buildNotes, readings_put h]

end ScopeGraph

namespace Integration

theorem requests_put (h : t.Irrelevant e) (hDeclared : d ∈ t.declarations) :
    requests (t.put e) d = requests t d := by
  rw [requests, requests, componentRequest, componentRequest,
    Resolution.scopeOf_put h hDeclared]

theorem requests_eq_nil (h : t.Irrelevant e) : requests (t.put e) e = [] := by
  have hUnmarked : WellKnown.componentMarkers.any e.hasAnnotation = false :=
    List.any_eq_false.mpr fun marker _ => by simp [h.hasAnnotation]
  rw [requests, componentRequest, hUnmarked, listRequest, h.annotationOf?]
  rfl

theorem candidates_put (h : t.Irrelevant e) : candidates (t.put e) = candidates t := by
  refine h.flatMap_declarations_put ?_ fun d hDeclared => ?_
  · rw [requests_eq_nil h]
    rfl
  · rw [requests_put h hDeclared]

theorem faults_put (h : t.Irrelevant e) : faults (t.put e) = faults t := by
  refine h.flatMap_declarations_put ?_ fun d hDeclared => ?_
  · rw [requests_eq_nil h]
    rfl
  · rw [requests_put h hDeclared]

end Integration

end Bindery
