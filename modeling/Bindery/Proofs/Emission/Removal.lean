import Bindery.Proofs.Disk.Parts
import Bindery.Proofs.Emission.Sweeping

/-! # Which files are swept

A file is stale by its name, unless its path has the same parts as that of a unit that was written.
If whatever is to be removed can be removed, exactly the files that are not stale are left, and a
directory is left only if there is such a file in it.
-/

namespace Bindery

namespace Disk

variable {disk : Disk} {k : DiskKey}

theorem entry?_foldl_remove_of_mem {root names : DiskKey} {removed : List DiskKey}
    (hSome : root ++ names ≠ []) (hMem : names ∈ removed) :
    Disk.entry? (removed.foldl (fun disk names => disk.remove (root ++ names)) disk)
      (root ++ names) = none := by
  induction removed generalizing disk with
  | nil => cases hMem
  | cons first rest ih =>
    rw [List.foldl_cons]
    rcases List.mem_cons.mp hMem with rfl | hRest
    · rw [Option.eq_none_iff_forall_ne_some]
      intro entry hEntry
      have hThere := entry?_of_foldl_remove hEntry
      rw [entry?_remove hSome, if_pos rfl] at hThere
      cases hThere
    · exact ih hRest

theorem keep_of_entry?_filter {keep : DiskKey → DiskEntry → Bool} {entry : DiskEntry}
    (hSome : k ≠ [])
    (h : Disk.entry? { disk with entries := disk.entries.filter keep } k = some entry) :
    keep k entry = true := by
  rw [entry?_of_ne_nil hSome] at h
  exact (OrderedMap.get?_filter_eq_some_iff.mp h).2

end Disk

namespace FileStore

open Bindery.Path (IsName)

variable {s : FileStore} {root names above : DiskKey} {name : String} {content : FileContent}

/-! ## Files to be removed -/

theorem occursIn_iff {part l : List Char} : occursIn part l = true ↔ part <:+: l := by
  induction l with
  | nil => simp [occursIn]
  | cons c rest ih =>
    rw [occursIn, Bool.or_eq_true, List.isPrefixOf_iff_prefix, ih, List.infix_cons_iff]

/-- A name like that of a source, or like that of a temporary file. -/
def LooksGenerated (name : String) : Prop :=
  (∃ stem, stem ≠ "" ∧ name = stem ++ "." ++ sourceExtension) ∨
    temporaryMark.toList <:+: name.toList

theorem pathOf_concat (s : FileStore) (above : DiskKey) (name : String) :
    s.pathOf (above ++ [name]) = s.target above name := by
  simp [pathOf, target]

theorem isStale_iff (hNames : ∀ piece ∈ above ++ [name], IsName piece) :
    s.isStale (above ++ [name]) = true ↔ LooksGenerated name ∧
      ∀ key ∈ s.written.keys,
        Path.parts (s.pathFor key) ≠ Path.parts (s.pathOf (above ++ [name])) := by
  have hPieces := Path.pieces_join_ofPieces hNames s.root (by simp)
  rw [← List.append_assoc] at hPieces
  have hFile := Path.fileName?_eq hPieces (hNames name (by simp))
  have hDot : '.' ∉ sourceExtension.toList := by decide
  have hExtension : Path.extension? (s.pathOf (above ++ [name])) = some sourceExtension ↔
      ∃ stem, stem ≠ "" ∧ name = stem ++ "." ++ sourceExtension := by
    rw [pathOf_concat, Path.extension?, target, hFile, Option.bind_some,
      Path.splitExtension_eq_some_iff, and_iff_right hDot]
  simp only [isStale, Bool.and_eq_true, Bool.or_eq_true, decide_eq_true_eq, hExtension,
    List.getLast?_concat, Option.getD_some, occursIn_iff, Bool.not_eq_true', List.any_eq_false,
    LooksGenerated]

theorem isOutOfReach_eq_false_iff :
    s.isOutOfReach names = false ↔ Disk.refusal? (s.pathOf names) = none := by
  rw [isOutOfReach, Option.isSome_eq_false_iff, Option.isNone_iff_eq_none]

/-- What is to be removed can be removed: no path of a stale file is refused, nor that of a
directory in which all files are stale. -/
structure Removable (s : FileStore) (root : DiskKey) : Prop where
  file : ∀ names content, (names, .file content) ∈ s.disk.below root → s.isStale names = true →
    s.isOutOfReach names = false
  directory : ∀ names, (names, .directory) ∈ s.disk.below root →
    (∀ rest content, (names ++ rest, .file content) ∈ s.disk.below root →
      s.isStale (names ++ rest) = true) →
    s.isOutOfReach names = false

theorem removable_of_reach (h : ∀ names entry, (names, entry) ∈ s.disk.below root →
    s.isOutOfReach names = false) : s.Removable root :=
  ⟨fun names _ hMem _ => h names _ hMem, fun names hMem _ => h names _ hMem⟩

theorem isOutOfReach_congr {s' : FileStore} (hRoot : s'.root = s.root) :
    s'.isOutOfReach names = s.isOutOfReach names := by
  rw [isOutOfReach, isOutOfReach, pathOf, pathOf, hRoot]

theorem isOutOfReach_above (hRoot : Disk.refusal? s.root = none)
    (hNames : ∀ piece ∈ above ++ [name], IsName piece)
    (hReach : s.isOutOfReach (above ++ [name]) = false) : s.isOutOfReach above = false := by
  rw [isOutOfReach_eq_false_iff] at hReach ⊢
  by_cases hNil : above = []
  · simpa [hNil, pathOf] using hRoot
  · have hAbove : ∀ piece ∈ above, IsName piece := fun piece hMem =>
      hNames piece (List.mem_append_left _ hMem)
    have hText := Path.ofPieces_ne_empty hAbove hNil
    have hPath : s.pathOf above = Path.join s.root (Path.ofPieces above) := by
      simp [pathOf, hNil]
    rw [pathOf_concat, target, Path.ofPieces_append hNil (by simp), String.append_assoc,
      Path.join_append (Path.isAbsolute_ofPieces hAbove) hText] at hReach
    rw [hPath]
    exact Disk.refusal?_of_append (Path.join_ne_empty _ hText) hReach

/-! ## The sweep -/

section Sweep

variable (hRemovable : s.Removable root) (hRoot : s.disk.lookup s.root = .ok (root, .directory))
  (hNamed : ∀ names content, (names, .file content) ∈ s.disk.below root →
    s.isStale names = true → ∀ piece ∈ names, IsName piece)

theorem refusal?_of_lookup {disk : Disk} {path : String} {entry : DiskEntry}
    (h : disk.lookup path = .ok (root, entry)) : Disk.refusal? path = none :=
  (Disk.locate_eq_ok_iff.mp (Disk.lookup_eq_ok_iff.mp h).1).1

/-- The stale files that the sweep removes. -/
def removed (s : FileStore) (root : DiskKey) : List DiskKey :=
  (s.staleFiles root).filter (not ∘ s.isOutOfReach)

include hRoot in
theorem disk_removeStale : s.removeStale.1.disk = s.clear root (s.removed root) := by
  simp only [removeStale, hRoot, List.partition_eq_filter_filter]
  rfl

include hRemovable hRoot hNamed

theorem mem_removed (hMem : (names, .file content) ∈ s.disk.below root)
    (hStale : s.isStale names = true) : names ∈ s.removed root := by
  have hReach := hRemovable.file names content hMem hStale
  obtain ⟨above, name, rfl⟩ :=
    (List.eq_nil_or_concat names).resolve_left (Disk.mem_below_iff.mp hMem).1
  rw [List.concat_eq_append] at *
  have hAbove := isOutOfReach_above (refusal?_of_lookup hRoot) (hNamed _ content hMem hStale) hReach
  refine List.mem_filter.mpr ⟨List.mem_filterMap.mpr ⟨_, hMem, ?_⟩, by simp [hReach]⟩
  simp [hStale, hAbove]

theorem file_removeStale_iff : (names, .file content) ∈ s.removeStale.1.disk.below root ↔
    (names, .file content) ∈ s.disk.below root ∧ s.isStale names = false := by
  rw [disk_removeStale hRoot, Disk.mem_below_iff, Disk.mem_below_iff, and_assoc,
    and_congr_right_iff]
  intro hSome
  constructor
  · intro hFile
    have hBefore := entry?_of_clear hFile
    refine ⟨hBefore, Bool.eq_false_iff.mpr fun hStale => ?_⟩
    have hMem :=
      mem_removed hRemovable hRoot hNamed (Disk.mem_below_iff.mpr ⟨hSome, hBefore⟩) hStale
    have hLeft := Disk.entry?_of_filter hFile
    rw [Disk.entry?_foldl_remove_of_mem (by simp [hSome]) hMem] at hLeft
    cases hLeft
  · rintro ⟨hFile, hStale⟩
    refine Disk.entry?_filter ?_ rfl
    rw [Disk.entry?_foldl_remove, hFile]
    intro other hMem hSame
    have hYes := (isStale_of_mem_staleFiles (List.mem_of_mem_filter hMem)).1
    rw [← List.append_cancel_left hSame, hStale] at hYes
    cases hYes

/-- In a directory that the sweep leaves there is a file that it leaves too. -/
theorem exists_file_removeStale (hMem : (names, .directory) ∈ s.removeStale.1.disk.below root) :
    ∃ rest content, (names ++ rest, .file content) ∈ s.removeStale.1.disk.below root := by
  simp only [file_removeStale_iff hRemovable hRoot hNamed]
  rw [disk_removeStale hRoot, Disk.mem_below_iff] at hMem
  obtain ⟨hSome, hEntry⟩ := hMem
  have hKept := Disk.keep_of_entry?_filter (by simp [hSome]) hEntry
  have hBelow : (!(root.isPrefixOf (root ++ names) && decide (root ++ names ≠ root))) = false := by
    simp [hSome]
  simp only [hBelow, Bool.false_or, List.any_eq_true, List.isPrefixOf_iff_prefix,
    List.prefix_append_right_inj, List.mem_filterMap] at hKept
  obtain ⟨_, ⟨⟨found, entry⟩, hFound, hStays⟩, rest, rfl⟩ := hKept
  obtain ⟨hFoundSome, hFoundEntry⟩ := Disk.mem_below_iff.mp hFound
  have hBefore := Disk.mem_below_iff.mpr ⟨hFoundSome, Disk.entry?_of_foldl_remove hFoundEntry⟩
  cases entry with
  | file content =>
    obtain rfl := Option.some.inj hStays
    refine ⟨rest, content, hBefore, Bool.eq_false_iff.mpr fun hStale => ?_⟩
    rw [Disk.entry?_foldl_remove_of_mem (by simp [hFoundSome])
      (mem_removed hRemovable hRoot hNamed hBefore hStale)] at hFoundEntry
    cases hFoundEntry
  | directory =>
    -- a directory stays on its own only if it is out of reach, and then not all is stale in it
    obtain ⟨hReach, hSame⟩ := Option.ite_none_right_eq_some.mp hStays
    obtain rfl := Option.some.inj hSame
    by_contra hNone
    have hFree := hRemovable.directory _ hBefore fun behind content hFile => by
      by_contra hStale
      rw [List.append_assoc] at hFile hStale
      exact hNone ⟨rest ++ behind, content, hFile, Bool.eq_false_iff.mpr hStale⟩
    rw [hFree] at hReach
    cases hReach

end Sweep

end FileStore

end Bindery
