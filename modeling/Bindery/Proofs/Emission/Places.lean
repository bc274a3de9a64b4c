import Bindery.Emission.FileStore
import Bindery.Proofs.Disk.Paths
import Bindery.Proofs.Naming.Dotted

/-! # Where units are written

The path of a unit has the segments of its package as directories. Keys of identifiers have paths of
their own, and no directory of one is the file of another, because only the names of files have
dots.
-/

namespace Bindery

open Bindery.Path (IsName)

theorem isName_of_isIdentifier {s : String} (h : isIdentifier s = true) : IsName s := by
  have hDot := dot_notMem h
  refine ⟨?_, ?_, ?_, ?_⟩
  · rintro rfl
    cases h
  · rintro rfl
    exact hDot (by decide)
  · rintro rfl
    exact hDot (by decide)
  · intro hSlash
    have hGoesOn : goesOn '/' = true := List.all_eq_true.mp (goesOn_of_isIdentifier h) '/' hSlash
    revert hGoesOn
    decide

/-- The names of the directories have no dot, and the name of the file has one. -/
structure FileStore.IsPlace (above : List String) (last : String) : Prop where
  isName : ∀ name ∈ above ++ [last], IsName name
  dot_notMem : ∀ name ∈ above, '.' ∉ name.toList
  count : last.toList.count '.' = 1

namespace UnitKey

/-- The package is a dotted name or the default package, and the file is named by an identifier. -/
structure IsPlain (key : UnitKey) : Prop where
  package : isPackage key.package = true
  file : isIdentifier key.file = true

instance (key : UnitKey) : Decidable key.IsPlain :=
  decidable_of_iff (isPackage key.package = true ∧ isIdentifier key.file = true)
    ⟨fun h => ⟨h.1, h.2⟩, fun h => ⟨h.package, h.file⟩⟩

def directories (key : UnitKey) : List String :=
  if key.package.isEmpty then [] else segments key.package

def fileName (key : UnitKey) : String := key.file ++ "." ++ FileStore.sourceExtension

def names (key : UnitKey) : List String := key.directories ++ [key.fileName]

variable {key other : UnitKey}

theorem intercalate_directories (key : UnitKey) :
    ".".intercalate key.directories = key.package := by
  unfold directories
  split
  · next hEmpty =>
    rw [String.isEmpty_iff.mp hEmpty]
    rfl
  · exact intercalate_segments key.package

theorem eq_of_names (h : key.names = other.names) : key = other := by
  obtain ⟨hDirectories, hFile⟩ := List.append_inj' h rfl
  have hPackage : key.package = other.package := by
    rw [← intercalate_directories, hDirectories, intercalate_directories]
  have hName : key.file = other.file := by
    simpa [fileName] using (List.cons.inj hFile).1
  cases key
  cases other
  simp_all

theorem map_intercalate_segments (s : String) :
    String.ofList (s.toList.map fun c => if c = '.' then '/' else c) =
      Path.ofPieces (segments s) := by
  have hParts : ∀ part ∈ s.toList.splitOn '.',
      part.map (fun c => if c = '.' then '/' else c) = part := by
    intro part hMem
    have hDot := Path.notMem_of_mem_splitOn hMem
    refine (List.map_congr_left fun c hIn => if_neg ?_).trans part.map_id
    rintro rfl
    exact hDot hIn
  have hJoin (parts : List (List Char)) :
      (['.'].intercalate parts).map (fun c => if c = '.' then '/' else c) =
        ['/'].intercalate (parts.map (List.map fun c => if c = '.' then '/' else c)) := by
    induction parts with
    | nil => rfl
    | cons first rest ih =>
      cases rest with
      | nil => simp
      | cons second rest => simpa [List.intercalate_cons_cons] using ih
  apply String.toList_injective
  rw [String.toList_ofList, Path.ofPieces, String.toList_intercalate, segments, List.map_map]
  have hWhole : ['.'].intercalate (s.toList.splitOn '.') = s.toList := List.intercalate_splitOn '.'
  nth_rewrite 1 [← hWhole]
  rw [hJoin, List.map_congr_left hParts]
  simp [Function.comp_def]

theorem relativePath_eq (key : UnitKey) :
    FileStore.relativePath key = Path.ofPieces key.names := by
  unfold FileStore.relativePath names directories
  split
  · rfl
  · rw [map_intercalate_segments, Path.ofPieces_append ?_ (by simp)]
    · rfl
    · simp [segments, List.splitOn_ne_nil]

namespace IsPlain

theorem isIdentifier_of_mem (h : key.IsPlain) :
    ∀ name ∈ key.directories, isIdentifier name = true := by
  unfold directories
  rcases Bool.or_eq_true_iff.mp h.package with hEmpty | hAll
  · simp [hEmpty]
  · split
    · simp
    · exact List.all_eq_true.mp hAll

theorem dot_notMem_directories (h : key.IsPlain) {name : String} (hMem : name ∈ key.directories) :
    '.' ∉ name.toList :=
  dot_notMem (h.isIdentifier_of_mem name hMem)

theorem isName (h : key.IsPlain) : ∀ name ∈ key.names, IsName name := by
  refine List.forall_mem_append.mpr ⟨fun name hMem => ?_, List.forall_mem_singleton.mpr ?_⟩
  · exact isName_of_isIdentifier (h.isIdentifier_of_mem name hMem)
  · have hFile := isName_of_isIdentifier h.file
    have hLong {s : String} (hShort : s.length ≤ 2) : key.fileName ≠ s := by
      rintro rfl
      have hExtension : FileStore.sourceExtension.length = 2 := rfl
      have hDot : ".".length = 1 := rfl
      rw [fileName, String.length_append, String.length_append, hExtension, hDot] at hShort
      omega
    refine ⟨hLong (by decide), hLong (by decide), hLong (by decide), ?_⟩
    have hRest : '/' ∉ ".".toList ++ FileStore.sourceExtension.toList := by decide
    simpa [fileName] using ⟨hFile.noSlash, by simpa using hRest⟩

/-- The name of the file has one dot, in front of its extension. -/
theorem count_fileName (h : key.IsPlain) : key.fileName.toList.count '.' = 1 := by
  rw [fileName, String.toList_append, String.toList_append, List.count_append, List.count_append,
    List.count_eq_zero.mpr (dot_notMem h.file)]
  rfl

theorem isPlace (h : key.IsPlain) : FileStore.IsPlace key.directories key.fileName :=
  ⟨h.isName, fun _ hMem => h.dot_notMem_directories hMem, h.count_fileName⟩

end IsPlain

end UnitKey

end Bindery
