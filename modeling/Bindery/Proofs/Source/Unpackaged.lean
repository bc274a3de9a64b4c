import Bindery.Proofs.Source.Spelling

/-! # Classes without a package

A class without a package has no spelling but its simple names, whoever owns them in the file, and
there is nothing that it could be imported from. An import of its outermost name is one of a class
with a package.
-/

namespace Bindery.Source

namespace Owners

variable {file : File} {owners : Owners} {name line : String} {c d : ClassName}

theorem spell_of_unpackaged (h : c.package = "") : owners.spell c = c.joined "." := by
  unfold spell
  split
  · rfl
  · unfold ClassName.canonical ClassName.qualified
    rw [if_pos (String.isEmpty_iff.mpr h)]
    rfl

/-- A class that is spelled like one without a package has a package itself. It owns the name, or
else the names of its package pass for outer classes. -/
theorem spell_eq_of_unpackaged (h : c.package = "") (hOther : d ≠ c)
    (hSame : owners.spell d = owners.spell c) : d.package ≠ "" ∧
      (owners.get? c.outermost = some d.package ∧ d.simpleNames = c.simpleNames ∨
        d.parts = c.simpleNames) := by
  rw [spell_of_unpackaged h] at hSame
  have hPackage : d.package ≠ "" := by
    intro hNone
    rw [spell_of_unpackaged hNone] at hSame
    exact hOther (eq_of_joined hSame (hNone.trans h.symm))
  refine ⟨hPackage, ?_⟩
  unfold spell at hSame
  split at hSame
  · next hOwner =>
    have hNames := simpleNames_of_joined hSame
    have hOutermost : d.outermost = c.outermost := by
      unfold ClassName.outermost
      rw [hNames]
    exact .inl ⟨hOutermost ▸ hOwner, hNames⟩
  · right
    rw [← ClassName.segments_canonical, hSame, ClassName.segments_joined]

/-- A name is imported just from the package that owns it, if that needs an import. -/
theorem mem_imports_of_name : line ∈ (ofFile file).imports file.package ∧ importedName line = name ↔
    ∃ package, (ofFile file).get? name = some package ∧
      needsImport file.package package = true ∧ line = package ++ "." ++ name := by
  rw [mem_imports]
  constructor
  · rintro ⟨⟨other, package, hOwner, hNeeded, rfl⟩, hName⟩
    rw [(importedName_of_owner hOwner hNeeded).1] at hName
    subst hName
    exact ⟨package, hOwner, hNeeded, rfl⟩
  · rintro ⟨package, hOwner, hNeeded, rfl⟩
    exact ⟨⟨name, package, hOwner, hNeeded, rfl⟩, (importedName_of_owner hOwner hNeeded).1⟩

end Owners

namespace File

open Owners

/-- A class without a package is spelled by its simple names in every file, and no import is written
for it. -/
theorem unpackaged_bare_and_not_imported (file : File) (c : ClassName) (h : c.package = "") :
    file.render = String.join ((file.linesWith (ofFile file).spell
      ((ofFile file).imports file.package)).map (· ++ "\n")) ∧
    (ofFile file).spell c = c.joined "." ∧
    (∀ d, d ≠ c → (ofFile file).spell d = (ofFile file).spell c → d.package ≠ "" ∧
      ((ofFile file).get? c.outermost = some d.package ∧ d.simpleNames = c.simpleNames ∨
        d.parts = c.simpleNames)) ∧
    ∀ line, line ∈ (ofFile file).imports file.package ∧ importedName line = c.outermost ↔
      ∃ package, (ofFile file).get? c.outermost = some package ∧ package ≠ file.package ∧
        package ≠ "" ∧ package ∉ defaultPackages ∧ line = package ++ "." ++ c.outermost := by
  refine ⟨rfl, spell_of_unpackaged h, fun d => spell_eq_of_unpackaged h, fun line => ?_⟩
  rw [mem_imports_of_name]
  simp only [needsImport_iff, and_assoc]

end File

end Bindery.Source

namespace Bindery

open Source Owners

namespace Sample

def legacy : ClassName where
  package := ""
  simpleNames := ["Legacy"]
  isPackage_package := rfl

def factory : ClassName where
  package := ""
  simpleNames := ["Factory"]
  isPackage_package := rfl

def packagedFactory : ClassName where
  package := "a"
  simpleNames := ["Factory"]

def mixedFile : File where
  package := "app"
  name := "C"
  types := [{ kind := .interfaceType, name := "C"
              supertypes := [.named legacy, .named packagedFactory, .named factory] }]

end Sample

open Sample

/-- The only factory that is imported has a package. -/
theorem Source.File.unpackaged_factory : factory.package = "" ∧
    (ofFile mixedFile).spell factory = "Factory" ∧
    ∀ line, line ∈ (ofFile mixedFile).imports "app" ∧ importedName line = "Factory" ↔
      line = "a.Factory" := by
  obtain ⟨_, hBare, _, hImports⟩ := mixedFile.unpackaged_bare_and_not_imported factory rfl
  have hOwner : (ofFile mixedFile).get? factory.outermost = some "a" := by decide +kernel
  refine ⟨rfl, hBare, fun line => (hImports line).trans ?_⟩
  rw [hOwner]
  constructor
  · rintro ⟨package, hPackage, _, _, _, rfl⟩
    cases hPackage
    rfl
  · rintro rfl
    exact ⟨"a", rfl, by decide, by decide, by decide, rfl⟩

/-- A class without a package goes without an import, and it can be spelled like another. -/
theorem Source.File.unpackaged_unresolved :
    mixedFile.package ≠ "" ∧ legacy ∈ mixedFile.classes ∧ legacy.package = "" ∧
    (ofFile mixedFile).spell legacy = legacy.joined "." ∧
    (∀ line ∈ (ofFile mixedFile).imports mixedFile.package, importedName line ≠ legacy.outermost) ∧
    factory ∈ mixedFile.classes ∧ factory.package = "" ∧ packagedFactory ∈ mixedFile.classes ∧
    packagedFactory ≠ factory ∧
    (ofFile mixedFile).spell packagedFactory = (ofFile mixedFile).spell factory := by
  decide +kernel

end Bindery
