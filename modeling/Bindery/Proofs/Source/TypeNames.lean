import Bindery.Proofs.Naming.Dotted
import Bindery.Proofs.Results
import Bindery.Source.Tree

/-! # The names of the types in a file

A file whose types have identifiers for names declares one class for each of them. Such classes are
not nested, so their dotted texts tell them apart.
-/

namespace Bindery

namespace ClassName

/-- What tells classes apart. -/
def address (c : ClassName) : String × List String := (c.package, c.simpleNames)

theorem address_injective : Function.Injective address := by
  intro c d h
  obtain ⟨hPackage, hNames⟩ := Prod.mk.inj h
  cases c
  cases d
  cases hPackage
  cases hNames
  rfl

end ClassName

namespace Source.File

/-- Every type of the file can be named. -/
structure WellNamed (file : File) : Prop where
  package : isPackage file.package = true
  types : ∀ t ∈ file.types, isIdentifier t.name = true

/-- The dotted names of the types of the file. -/
def typeNames (file : File) : List String :=
  file.types.map fun t => ClassName.qualified file.package t.name

theorem WellNamed.exists_topLevelNames {file : File} (h : file.WellNamed) :
    ∃ names, file.topLevelNames = .ok names := by
  obtain ⟨hPackage, hTypes⟩ := h
  unfold topLevelNames
  generalize file.types = l at hTypes
  induction l with
  | nil => exact ⟨[], rfl⟩
  | cons t rest ih =>
    obtain ⟨hFirst, hRest⟩ := List.forall_mem_cons.mp hTypes
    obtain ⟨names, hNames⟩ := ih hRest
    have hOk := ClassName.ofParts_eq_ok hPackage (ClassName.areSimpleNames_singleton hFirst)
    rw [List.mapM_cons, hOk, hNames]
    exact ⟨_, rfl⟩

/-- A file declares one class for each type, directly in its package. -/
theorem addresses_of_topLevelNames {file : File} {names : List ClassName}
    (h : file.topLevelNames = .ok names) :
    names.map ClassName.address = file.types.map fun t => (file.package, [t.name]) := by
  unfold topLevelNames at h
  generalize file.types = l at h ⊢
  induction l generalizing names with
  | nil =>
    cases h
    rfl
  | cons t rest ih =>
    rw [List.mapM_cons] at h
    obtain ⟨c, hFirst, h⟩ := bind_eq_ok_iff.mp h
    obtain ⟨others, hRest, hAll⟩ := bind_eq_ok_iff.mp h
    obtain rfl : c :: others = names := Except.ok.inj hAll
    obtain ⟨hPackage, hName⟩ := ClassName.ofParts_inv hFirst
    rw [List.map_cons, List.map_cons, ih hRest, ClassName.address, hPackage, hName]

theorem of_topLevelNames {file : File} {names : List ClassName}
    (h : file.topLevelNames = .ok names) :
    names.map ClassName.canonical = file.typeNames ∧
      ∀ c ∈ names, ∃ name, c.simpleNames = [name] := by
  have hAddresses := addresses_of_topLevelNames h
  constructor
  · have hTexts := congrArg
      (List.map fun p => ClassName.qualified p.1 (".".intercalate p.2)) hAddresses
    rw [List.map_map, List.map_map] at hTexts
    refine hTexts.trans (List.map_congr_left fun t _ => ?_)
    simp only [Function.comp_apply, String.intercalate_singleton]
  · intro c hMem
    have hOwn : c.address ∈ names.map ClassName.address := List.mem_map_of_mem hMem
    rw [hAddresses] at hOwn
    obtain ⟨t, _, hSame⟩ := List.mem_map.mp hOwn
    exact ⟨t.name, (Prod.mk.inj hSame).2.symm⟩

end Source.File

end Bindery
