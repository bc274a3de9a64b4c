import Bindery.Proofs.Naming.Dotted
import Bindery.Proofs.OrderedMap
import Bindery.Source.Printer

/-! # The spelling of classes in a file

A simple name belongs to the package of the file if the file declares it, and otherwise to the first
class that is mentioned with it. Just the owner of its outermost name is spelled without its
package, so that no two classes are spelled the same. That holds for all classes, whether or not the
file mentions them.
-/

namespace Bindery.Source

namespace Owners

theorem get?_foldl_insert (package : String) (l : List TypeDecl) (owners : Owners)
    (name : String) : (l.foldl (fun owners t => owners.insert t.name package) owners).get? name =
      if name ∈ l.map (·.name) then some package else owners.get? name := by
  induction l generalizing owners with
  | nil => rfl
  | cons t rest ih =>
    rw [List.foldl_cons, ih, OrderedMap.get?_insert, List.map_cons]
    by_cases hRest : name ∈ rest.map (·.name)
    · simp only [hRest, List.mem_cons, or_true, if_true]
    · simp only [hRest, List.mem_cons, or_false, if_false, eq_comm]

theorem get?_claim (owners : Owners) (c : ClassName) (name : String) :
    (owners.claim c).get? name =
      (owners.get? name).or (if c.outermost = name then some c.package else none) := by
  unfold claim OrderedMap.contains
  by_cases hName : c.outermost = name
  · subst hName
    cases hOwner : owners.get? c.outermost <;> simp [hOwner]
  · split <;> simp [hName]

theorem get?_foldl_claim (l : List ClassName) (owners : Owners) (name : String) :
    (l.foldl claim owners).get? name =
      (owners.get? name).or ((l.find? fun c => c.outermost = name).map (·.package)) := by
  induction l generalizing owners with
  | nil => simp
  | cons c rest ih =>
    rw [List.foldl_cons, ih, get?_claim, Option.or_assoc, List.find?_cons]
    by_cases hName : c.outermost = name <;> simp [hName]

/-- Who owns a simple name. -/
theorem get?_ofFile (file : File) (name : String) : (ofFile file).get? name =
    if name ∈ file.types.map (·.name) then some file.package
    else (file.classes.find? fun c => c.outermost = name).map (·.package) := by
  rw [ofFile, get?_foldl_claim, declared, get?_foldl_insert]
  split <;> simp

variable {file : File} {owners : Owners} {name package line : String} {c d : ClassName}

/-- A package other than that of the file owns a name through a class with that name. -/
theorem exists_class_of_owner (hOwner : (ofFile file).get? name = some package)
    (hOther : package ≠ file.package) :
    name ∉ file.types.map (·.name) ∧ ∃ c : ClassName, c.outermost = name ∧ c.package = package := by
  rw [get?_ofFile] at hOwner
  split at hOwner
  · exact absurd (Option.some.inj hOwner).symm hOther
  · next hForeign =>
    obtain ⟨c, hFound, hPackage⟩ := Option.map_eq_some_iff.mp hOwner
    exact ⟨hForeign, c, by simpa using List.find?_some hFound, hPackage⟩

/-! ## Spellings -/

theorem canonical_ne_joined (hPackage : c.package ≠ "") : c.canonical ≠ c.joined "." := by
  intro hSame
  have hParts : c.packageParts ++ c.simpleNames = c.simpleNames := by
    have hSegments := ClassName.segments_canonical c
    rw [hSame, ClassName.segments_joined] at hSegments
    exact hSegments.symm
  have hNone : c.packageParts = [] := List.append_left_eq_self.mp hParts
  exact hPackage (ClassName.packageParts_eq_nil_iff.mp hNone)

/-- A class is spelled without its package just if the package owns its outermost name. -/
theorem spell_eq_joined_iff (hPackage : c.package ≠ "") :
    owners.spell c = c.joined "." ↔ owners.get? c.outermost = some c.package := by
  unfold spell
  split
  · next hOwned => exact ⟨fun _ => hOwned, fun _ => rfl⟩
  · next hForeign =>
    constructor
    · intro hSame
      exact absurd hSame (canonical_ne_joined hPackage)
    · intro hOwned
      exact absurd hOwned hForeign

theorem simpleNames_of_joined (hNames : c.joined "." = d.joined ".") :
    c.simpleNames = d.simpleNames := by
  rw [← ClassName.segments_joined, hNames, ClassName.segments_joined]

theorem eq_of_joined (hNames : c.joined "." = d.joined ".") (hPackage : c.package = d.package) :
    c = d := by
  refine ClassName.eq_of_parts ?_ (simpleNames_of_joined hNames)
  unfold ClassName.packageParts
  rw [hPackage]

/-- Classes of named packages that were read from text are never spelled the same. -/
theorem spell_injective (hc : c.Read) (hd : d.Read) (hPackage : c.package ≠ "")
    (hPackage' : d.package ≠ "") (h : owners.spell c = owners.spell d) : c = d := by
  unfold spell at h
  split at h
  · next hOwned =>
    split at h
    · next hOwned' =>
      have hOutermost : c.outermost = d.outermost := by
        unfold ClassName.outermost
        rw [simpleNames_of_joined h]
      rw [hOutermost, hOwned'] at hOwned
      exact eq_of_joined h (Option.some.inj hOwned).symm
    · exact absurd h (hc.joined_ne_canonical hd hPackage')
  · split at h
    · exact absurd h.symm (hd.joined_ne_canonical hc hPackage)
    · exact hc.eq_of_canonical hd h

/-! ## Imports -/

/-- The simple name that an imported text brings in. -/
def importedName (line : String) : String := (segments line).getLast?.getD ""

theorem importedName_eq (hPackage : c.package ≠ "") :
    importedName (c.package ++ "." ++ c.outermost) = c.outermost := by
  have hLine : c.package ++ "." ++ c.outermost = c.topLevel.canonical := by
    have hOnly : c.topLevel.simpleNames = [c.outermost] := by
      change c.simpleNames.take 1 = [c.simpleNames.head?.getD ""]
      cases hNames : c.simpleNames with
      | nil => exact absurd hNames c.simpleNames_ne_nil
      | cons first rest => rfl
    have hSome : ¬ c.topLevel.package.isEmpty = true := mt String.isEmpty_iff.mp hPackage
    rw [ClassName.canonical, ClassName.qualified, if_neg hSome, hOnly,
      String.intercalate_singleton]
    rfl
  rw [importedName, hLine, ClassName.segments_canonical, ClassName.parts, List.getLast?_append]
  change ((c.simpleNames.take 1).getLast?.or _).getD "" = c.simpleNames.head?.getD ""
  cases hNames : c.simpleNames with
  | nil => exact absurd hNames c.simpleNames_ne_nil
  | cons first rest => rfl

theorem needsImport_iff : needsImport file.package package = true ↔
    package ≠ file.package ∧ package ≠ "" ∧ package ∉ defaultPackages := by
  simp [needsImport, and_assoc]

theorem mem_imports : line ∈ (ofFile file).imports file.package ↔ ∃ name package,
    (ofFile file).get? name = some package ∧ needsImport file.package package = true ∧
      line = package ++ "." ++ name := by
  unfold imports
  rw [List.mem_mergeSort, List.mem_map]
  constructor
  · rintro ⟨⟨name, package⟩, hMem, rfl⟩
    obtain ⟨hEntry, hNeeded⟩ := List.mem_filter.mp hMem
    exact ⟨name, package, OrderedMap.get?_eq_some_iff.mpr hEntry, hNeeded, rfl⟩
  · rintro ⟨name, package, hOwner, hNeeded, rfl⟩
    exact ⟨(name, package),
      List.mem_filter.mpr ⟨OrderedMap.get?_eq_some_iff.mp hOwner, hNeeded⟩, rfl⟩

/-- A text is imported for the name of a class, and no type of the file has that name. -/
theorem importedName_of_owner (hOwner : (ofFile file).get? name = some package)
    (hNeeded : needsImport file.package package = true) :
    importedName (package ++ "." ++ name) = name ∧ name ∉ file.types.map (·.name) := by
  obtain ⟨hOther, hSome, _⟩ := needsImport_iff.mp hNeeded
  obtain ⟨hForeign, c, rfl, rfl⟩ := exists_class_of_owner hOwner hOther
  exact ⟨importedName_eq hSome, hForeign⟩

theorem importedNames_nodup (file : File) :
    (((ofFile file).imports file.package).map importedName).Nodup := by
  let needed := (ofFile file).entries.filter fun entry => needsImport file.package entry.2
  have hPerm : ((ofFile file).imports file.package).Perm
      (needed.map fun entry => entry.2 ++ "." ++ entry.1) := List.mergeSort_perm _ _
  have hNames : (needed.map fun entry => entry.2 ++ "." ++ entry.1).map importedName =
      needed.map (·.1) := by
    rw [List.map_map]
    refine List.map_congr_left fun entry hMem => ?_
    obtain ⟨hEntry, hNeeded⟩ := List.mem_filter.mp hMem
    exact (importedName_of_owner (OrderedMap.get?_eq_some_iff.mpr hEntry) hNeeded).1
  rw [(hPerm.map importedName).nodup_iff, hNames]
  exact (List.filter_sublist.map _).nodup (ofFile file).keys_nodup

end Owners

namespace File

open Owners

/-- A file is printed under a spelling that tells classes apart. A class that is spelled without its
package is one of the package of the file, or one of a package whose names need no import, or the
one text that is imported for its outermost name is that of its own package. No name is imported
twice, and none that the file declares. -/
theorem spelling_unambiguous (file : File) :
    file.render = String.join ((file.linesWith (ofFile file).spell
      ((ofFile file).imports file.package)).map (· ++ "\n")) ∧
    (∀ c d : ClassName, c.Read → d.Read → c.package ≠ "" → d.package ≠ "" →
      (ofFile file).spell c = (ofFile file).spell d → c = d) ∧
    (∀ c : ClassName, c.Read → c.package ≠ "" → (ofFile file).spell c = c.joined "." →
      c.package = file.package ∨ c.package ∈ defaultPackages ∨
        ∀ line, line ∈ (ofFile file).imports file.package ∧ importedName line = c.outermost ↔
          line = c.package ++ "." ++ c.outermost) ∧
    (((ofFile file).imports file.package).map importedName).Nodup ∧
    ∀ line ∈ (ofFile file).imports file.package, ∀ type ∈ file.types,
      importedName line ≠ type.name := by
  refine ⟨rfl, fun c d => spell_injective, fun c _ hPackage hBare => ?_, importedNames_nodup file,
    fun line hLine type hMem hSame => ?_⟩
  · have hOwner := (spell_eq_joined_iff hPackage).mp hBare
    by_cases hOwn : c.package = file.package
    · exact .inl hOwn
    by_cases hDefault : c.package ∈ defaultPackages
    · exact .inr (.inl hDefault)
    have hNeeded := needsImport_iff.mpr ⟨hOwn, hPackage, hDefault⟩
    refine .inr (.inr fun line => ⟨?_, ?_⟩)
    · rintro ⟨hLine, hName⟩
      obtain ⟨name, package, hOther, hNeeded', rfl⟩ := mem_imports.mp hLine
      rw [(importedName_of_owner hOther hNeeded').1] at hName
      rw [hName, hOwner] at hOther
      rw [hName, Option.some.inj hOther]
    · rintro rfl
      exact ⟨mem_imports.mpr ⟨_, _, hOwner, hNeeded, rfl⟩, importedName_eq hPackage⟩
  · obtain ⟨name, package, hOwner, hNeeded, rfl⟩ := mem_imports.mp hLine
    obtain ⟨hName, hForeign⟩ := importedName_of_owner hOwner hNeeded
    exact hForeign (List.mem_map.mpr ⟨type, hMem, (hName.symm.trans hSame).symm⟩)

/-- Of two classes with one name the first keeps it. -/
example :
    let first : ClassName := { package := "a", simpleNames := ["Factory"] }
    let second : ClassName := { package := "b", simpleNames := ["Factory"] }
    let user : TypeDecl :=
      { kind := .classType, name := "C", supertypes := [.named first, .named second] }
    let file : File := { package := "c", name := "C", types := [user] }
    (ofFile file).spell first = "Factory" ∧ (ofFile file).spell second = "b.Factory" ∧
      (ofFile file).imports file.package = ["a.Factory"] := by
  decide +kernel

end File

end Bindery.Source
