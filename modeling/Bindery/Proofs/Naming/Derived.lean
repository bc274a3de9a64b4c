import Bindery.Naming.Derived

/-! # Derived names exist

A name derived from a class is an identifier again: it starts with the first simple name of the
class and goes on with characters that any identifier may go on with. No derivation from a class
with a suffix of such characters fails, so that a file gets its name whatever it is derived from.
-/

namespace Bindery

/-- The character may stand in an identifier behind its first one. -/
def goesOn (c : Char) : Bool := Text.isAlphanumeric c || c == '_' || c == '$'

theorem isAlphanumeric_of_isAlphabetic {c : Char} (h : Text.isAlphabetic c = true) :
    Text.isAlphanumeric c = true := by
  unfold Text.isAlphabetic at h
  unfold Text.isAlphanumeric
  by_cases hAscii : c.toNat < 128
  · rw [if_pos hAscii] at h ⊢
    simp [Char.isAlphanum, h]
  · rw [if_neg hAscii] at h ⊢
    simp [h]

theorem isIdentifier_iff {s : String} : isIdentifier s = true ↔ ∃ first rest,
    s.toList = first :: rest ∧ (Text.isAlphabetic first || first == '_') = true ∧
      rest.all goesOn = true := by
  unfold isIdentifier
  cases s.toList with
  | nil => simp [isIdentifierChars]
  | cons first rest =>
    rw [isIdentifierChars, Bool.and_eq_true_iff]
    constructor
    · rintro ⟨hFirst, hRest⟩
      exact ⟨first, rest, rfl, hFirst, hRest⟩
    · rintro ⟨_, _, hChars, hFirst, hRest⟩
      obtain ⟨rfl, rfl⟩ := List.cons.inj hChars
      exact ⟨hFirst, hRest⟩

theorem goesOn_of_isIdentifier {s : String} (h : isIdentifier s = true) :
    s.toList.all goesOn = true := by
  obtain ⟨first, rest, hChars, hFirst, hRest⟩ := isIdentifier_iff.mp h
  rw [hChars, List.all_cons, Bool.and_eq_true_iff]
  refine ⟨?_, hRest⟩
  rcases Bool.or_eq_true_iff.mp hFirst with hLetter | hLine
  · simp [goesOn, isAlphanumeric_of_isAlphabetic hLetter]
  · simp [goesOn, hLine]

theorem isIdentifier_append {s suffix : String} (h : isIdentifier s = true)
    (hSuffix : suffix.toList.all goesOn = true) : isIdentifier (s ++ suffix) = true := by
  obtain ⟨first, rest, hChars, hFirst, hRest⟩ := isIdentifier_iff.mp h
  refine isIdentifier_iff.mpr ⟨first, rest ++ suffix.toList, ?_, hFirst, ?_⟩
  · rw [String.toList_append, hChars]
    rfl
  · rw [List.all_append, hRest, hSuffix]
    rfl

theorem isIdentifier_intercalate {first : String} {rest : List String}
    (h : ∀ name ∈ first :: rest, isIdentifier name = true) :
    isIdentifier ("_".intercalate (first :: rest)) = true := by
  induction rest generalizing first with
  | nil =>
    rw [String.intercalate_singleton]
    exact h first List.mem_cons_self
  | cons second rest ih =>
    obtain ⟨hFirst, hRest⟩ := List.forall_mem_cons.mp h
    rw [String.intercalate_cons_cons]
    exact isIdentifier_append (isIdentifier_append hFirst (by decide))
      (goesOn_of_isIdentifier (ih hRest))

namespace ClassName

theorem ofParts_eq_ok {package : String} {names : List String}
    (hPackage : isPackage package = true) (hNames : areSimpleNames names = true) :
    ofParts package names = .ok ⟨package, names, hPackage, hNames⟩ := by
  have hSome : names.isEmpty = false := by
    cases names with
    | nil => cases hNames
    | cons first rest => rfl
  simp [ofParts, hSome, hPackage, hNames]

theorem areSimpleNames_singleton {s : String} (h : isIdentifier s = true) :
    areSimpleNames [s] = true := by
  simp [areSimpleNames, h]

theorem isIdentifier_of_mem (c : ClassName) : ∀ name ∈ c.simpleNames, isIdentifier name = true :=
  List.all_eq_true.mp (Bool.and_eq_true_iff.mp c.areSimpleNames_simpleNames).2

theorem isIdentifier_joined (c : ClassName) : isIdentifier (c.joined "_") = true := by
  unfold joined
  have hSome := (Bool.and_eq_true_iff.mp c.areSimpleNames_simpleNames).1
  have hAll := c.isIdentifier_of_mem
  cases hNames : c.simpleNames with
  | nil =>
    rw [hNames] at hSome
    cases hSome
  | cons first rest => exact isIdentifier_intercalate (hNames ▸ hAll)

theorem simpleName_of_simpleNames {c : ClassName} {name : String} (h : c.simpleNames = [name]) :
    c.simpleName = name := by
  simp [simpleName, h]

theorem nested_eq_ok (c : ClassName) {name : String} (h : isIdentifier name = true) :
    ∃ inner, c.nested name = .ok inner := by
  have hNames : areSimpleNames (c.simpleNames ++ [name]) = true := by
    have hOuter := (Bool.and_eq_true_iff.mp c.areSimpleNames_simpleNames).2
    simp [areSimpleNames, hOuter, h]
  exact ⟨_, ofParts_eq_ok c.isPackage_package hNames⟩

theorem goesOn_simpleName (c : ClassName) : c.simpleName.toList.all goesOn = true := by
  unfold simpleName
  cases hLast : c.simpleNames.getLast? with
  | none => simp
  | some last =>
    exact goesOn_of_isIdentifier (c.isIdentifier_of_mem last (List.mem_of_getLast? hLast))

end ClassName

namespace Naming

theorem isIdentifier_flat_append (base : ClassName) {suffix : String}
    (hSuffix : suffix.toList.all goesOn = true) :
    isIdentifier (flat base ++ separator ++ suffix) = true :=
  isIdentifier_append (isIdentifier_append base.isIdentifier_joined (by decide)) hSuffix

theorem scopedName_eq_ok (package : String) (scope : ClassName) (suffix : String)
    (hPackage : isPackage package = true) (hSuffix : suffix.toList.all goesOn = true) :
    ∃ name, scopedName package scope suffix = .ok name ∧ name.package = package ∧
      name.simpleNames = [flat scope ++ separator ++ suffix] :=
  ⟨_, ClassName.ofParts_eq_ok hPackage
    (ClassName.areSimpleNames_singleton (isIdentifier_flat_append scope hSuffix)), rfl, rfl⟩

theorem derive_eq_ok (base : ClassName) (suffix : String)
    (hSuffix : suffix.toList.all goesOn = true) :
    ∃ name, derive base suffix = .ok name ∧ name.package = base.package ∧
      name.simpleNames = [flat base ++ separator ++ suffix] :=
  scopedName_eq_ok base.package base suffix base.isPackage_package hSuffix

theorem childScope_eq_ok (scope : ClassName) : ∃ child, childScope scope = .ok child ∧
    child.package = scope.package ∧ child.simpleNames = [childScopeStart ++ scope.simpleName] := by
  have hName : isIdentifier (childScopeStart ++ scope.simpleName) = true :=
    isIdentifier_append (by decide) scope.goesOn_simpleName
  exact ⟨_, ClassName.ofParts_eq_ok scope.isPackage_package
    (ClassName.areSimpleNames_singleton hName), rfl, rfl⟩

end Naming

end Bindery
