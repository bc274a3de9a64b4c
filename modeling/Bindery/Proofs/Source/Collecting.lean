import Bindery.Proofs.Source.Spelling
import Bindery.Proofs.Source.Writing

/-! # Collected classes and written classes

The owners of simple names are found among the classes that are collected from a file. Printing
writes all of these, and besides them just the classes that the members of annotations on references
name. A collected class is qualified only if another package owns its name; a class that was not
collected may be qualified although nobody owns it.
-/

namespace Bindery.Source.File

open Owners

variable {file : File} {c : ClassName}

/-- The text of the file depends on how the class is spelled. -/
def Writes (file : File) (c : ClassName) : Prop :=
  Source.Writes
    (fun spell => text (file.linesWith spell ((ofFile file).imports file.package))) c

/-- Another package owns the outermost name of the class: that of the file, which declares a type
with this name, or that of the first class with this name that is collected. -/
inductive Outdone (file : File) (c : ClassName) : Prop where
  | declared {type : TypeDecl} (hType : type ∈ file.types) (hName : type.name = c.outermost)
      (hOther : file.package ≠ c.package)
  | collected {before behind : List ClassName} {first : ClassName}
      (hForeign : c.outermost ∉ file.types.map (·.name))
      (hClasses : file.classes = before ++ first :: behind)
      (hBefore : ∀ d ∈ before, d.outermost ≠ c.outermost)
      (hName : first.outermost = c.outermost) (hOther : first.package ≠ c.package)

/-- The name belongs to no type of the file and to no class that is collected. -/
structure Unclaimed (file : File) (name : String) : Prop where
  types : ∀ type ∈ file.types, type.name ≠ name
  classes : ∀ c ∈ file.classes, c.outermost ≠ name

theorem notMem_names_iff {name : String} :
    name ∉ file.types.map (·.name) ↔ ∀ type ∈ file.types, type.name ≠ name := by
  simp

theorem outdone_iff :
    file.Outdone c ↔ ∃ package, (ofFile file).get? c.outermost = some package ∧
      package ≠ c.package := by
  rw [get?_ofFile]
  constructor
  · rintro (⟨hType, hName, hOther⟩ | ⟨hForeign, hClasses, hBefore, hName, hOther⟩)
    · rw [if_pos (List.mem_map.mpr ⟨_, hType, hName⟩)]
      exact ⟨_, rfl, hOther⟩
    · have hFound : (file.classes.find? fun d => d.outermost = c.outermost) = some _ :=
        List.find?_eq_some_iff_append.mpr
          ⟨by simpa using hName, _, _, hClasses, by simpa using hBefore⟩
      rw [if_neg hForeign, hFound]
      exact ⟨_, rfl, hOther⟩
  · rintro ⟨package, hOwner, hOther⟩
    split at hOwner
    · next hOwn =>
      obtain ⟨type, hType, hName⟩ := List.mem_map.mp hOwn
      obtain rfl := Option.some.inj hOwner
      exact .declared hType hName hOther
    · next hForeign =>
      obtain ⟨first, hFound, rfl⟩ := Option.map_eq_some_iff.mp hOwner
      obtain ⟨hName, before, behind, hClasses, hBefore⟩ := List.find?_eq_some_iff_append.mp hFound
      exact .collected hForeign hClasses (by simpa using hBefore) (by simpa using hName) hOther

theorem unclaimed_iff {name : String} :
    file.Unclaimed name ↔ (ofFile file).get? name = none := by
  rw [get?_ofFile]
  constructor
  · rintro ⟨hTypes, hClasses⟩
    rw [if_neg (notMem_names_iff.mpr hTypes), Option.map_eq_none_iff, List.find?_eq_none]
    simpa using hClasses
  · intro hNone
    split at hNone
    · cases hNone
    · next hForeign =>
      rw [Option.map_eq_none_iff, List.find?_eq_none] at hNone
      exact ⟨notMem_names_iff.mp hForeign, by simpa using hNone⟩

/-- A class of a named package is qualified just if its package does not own its name. -/
theorem spell_eq_canonical_iff (hPackage : c.package ≠ "") :
    (ofFile file).spell c = c.canonical ↔ file.Outdone c ∨ file.Unclaimed c.outermost := by
  rw [outdone_iff, unclaimed_iff, spell]
  constructor
  · intro hQualified
    split at hQualified
    · exact absurd hQualified.symm (canonical_ne_joined hPackage)
    · next hForeign =>
      cases hOwner : (ofFile file).get? c.outermost with
      | none => exact .inr rfl
      | some package =>
        rw [hOwner] at hForeign
        exact .inl ⟨package, rfl, fun hSame => hForeign (congrArg some hSame)⟩
  · rintro (⟨package, hOwner, hOther⟩ | hNone)
    · rw [hOwner, if_neg fun hSame => hOther (Option.some.inj hSame)]
    · rw [hNone, if_neg (Option.some_ne_none c.package).symm]

/-- A file is written with the classes that are collected from it and with those that the members of
annotations on its references name, and with no other ones. A collected class of a named package is
qualified just if another package owns its name, and any class of a named package also if nobody
does, which happens to none that is collected. -/
theorem written_collected_or_on_reference (file : File) :
    file.render = text (file.linesWith (ofFile file).spell
      ((ofFile file).imports file.package)) ∧
    (∀ c, file.Writes c ↔ c ∈ file.classes ∨ c ∈ valuesOn file.typeUses) ∧
    (∀ c ∈ file.classes, c.package ≠ "" →
      ((ofFile file).spell c = c.canonical ↔ file.Outdone c)) ∧
    ∀ c : ClassName, c.package ≠ "" →
      ((ofFile file).spell c = c.canonical ↔ file.Outdone c ∨ file.Unclaimed c.outermost) := by
  refine ⟨rfl, fun c => ?_, fun c hMem hPackage => ?_, fun c => spell_eq_canonical_iff⟩
  · rw [Writes, (file.spells _).writes_iff, List.mem_append]
  · have hClaimed : ¬ file.Unclaimed c.outermost := fun hNone => hNone.classes c hMem rfl
    rw [spell_eq_canonical_iff hPackage, or_iff_left hClaimed]

end Bindery.Source.File

namespace Bindery

open Source Owners

namespace Sample

def item : ClassName where
  package := "lib"
  simpleNames := ["Item"]

/-- An interface whose supertype is annotated with a class. -/
def annotatedFile : File where
  package := "shop"
  name := "C"
  types := [{ kind := .interfaceType, name := "C"
              supertypes := [.annotated
                [(AnnotationUse.mk { package := "lib", simpleNames := ["Key"] } []).withClass item]
                (.named { package := "shop", simpleNames := ["Shelf"] })] }]

end Sample

open Sample

/-- The class in the annotation is written but not collected, and so it stays qualified although
nobody owns its name. -/
theorem Source.File.written_uncollected :
    annotatedFile.render =
      "package shop\n\nimport lib.Key\n\npublic interface C : @Key(lib.Item::class) Shelf\n" ∧
    annotatedFile.Writes item ∧ item ∉ annotatedFile.classes ∧ item.package ≠ "" ∧
    (ofFile annotatedFile).spell item = item.canonical ∧
    (ofFile annotatedFile).get? item.outermost = none := by
  refine ⟨by decide +kernel, ?_, by decide +kernel⟩
  exact (annotatedFile.spells _).writes_iff.mpr (by decide +kernel)

end Bindery
