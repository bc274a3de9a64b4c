import Bindery.Proofs.Disk.Trees
import Bindery.Proofs.Emission.Agreement

/-! # Sweeping stale files

Files that the store has written are never stale, and the directories that lead to them do not
become empty. Whatever else is swept, they stay.
-/

namespace Bindery

namespace Disk

variable {disk : Disk} {key k : DiskKey}

theorem entry?_remove_of_ne (h : k ≠ key) : Disk.entry? (disk.remove key) k = disk.entry? k := by
  by_cases hNil : k = []
  · rw [hNil, entry?_nil, entry?_nil]
  · rw [entry?_of_ne_nil hNil, entry?_of_ne_nil hNil, remove, OrderedMap.get?_erase, if_neg h]

theorem entry?_foldl_remove {root : DiskKey} {removed : List DiskKey}
    (h : ∀ names ∈ removed, k ≠ root ++ names) :
    Disk.entry? (removed.foldl (fun disk names => disk.remove (root ++ names)) disk) k =
      disk.entry? k := by
  induction removed generalizing disk with
  | nil => rfl
  | cons names rest ih =>
    obtain ⟨hFirst, hRest⟩ := List.forall_mem_cons.mp h
    rw [List.foldl_cons, ih hRest, entry?_remove_of_ne hFirst]

theorem entry?_of_foldl_remove {root : DiskKey} {removed : List DiskKey} {entry : DiskEntry}
    (h : Disk.entry? (removed.foldl (fun disk names => disk.remove (root ++ names)) disk) k =
      some entry) : disk.entry? k = some entry := by
  induction removed generalizing disk with
  | nil => exact h
  | cons names rest ih =>
    have hRemove := ih h
    by_cases hNil : k = []
    · rw [hNil] at hRemove ⊢
      exact hRemove
    · rw [entry?_of_ne_nil hNil] at hRemove ⊢
      change (disk.entries.erase (root ++ names)).get? k = some entry at hRemove
      rw [OrderedMap.get?_erase] at hRemove
      split at hRemove
      · cases hRemove
      · exact hRemove

theorem home_foldl_remove (disk : Disk) (root : DiskKey) (removed : List DiskKey) :
    (removed.foldl (fun disk names => disk.remove (root ++ names)) disk).home = disk.home := by
  induction removed generalizing disk with
  | nil => rfl
  | cons names rest ih => exact ih _

theorem entry?_filter {keep : DiskKey → DiskEntry → Bool} {entry : DiskEntry}
    (hEntry : disk.entry? k = some entry) (hKeep : keep k entry = true) :
    Disk.entry? { disk with entries := disk.entries.filter keep } k = some entry := by
  by_cases hNil : k = []
  · rw [hNil] at hEntry ⊢
    exact hEntry
  · rw [entry?_of_ne_nil hNil] at hEntry ⊢
    exact OrderedMap.get?_filter_eq_some_iff.mpr ⟨hEntry, hKeep⟩

theorem entry?_of_filter {keep : DiskKey → DiskEntry → Bool} {entry : DiskEntry}
    (h : Disk.entry? { disk with entries := disk.entries.filter keep } k = some entry) :
    disk.entry? k = some entry := by
  by_cases hNil : k = []
  · rw [hNil] at h ⊢
    exact h
  · rw [entry?_of_ne_nil hNil] at h ⊢
    exact (OrderedMap.get?_filter_eq_some_iff.mp h).1

/-- Every name but the last is looked for in a directory. -/
theorem Passes.directory {front rest : List String} {name : String}
    (h : disk.Passes key (front ++ name :: rest)) :
    disk.entry? (lead key front) = some .directory :=
  (passes_append.mp h).2.1

theorem Passes.short {names : List String} (h : disk.Passes key names) :
    ∀ name ∈ names, name.utf8ByteSize ≤ maxNameLength := by
  induction names generalizing key with
  | nil => simp
  | cons name rest ih => exact List.forall_mem_cons.mpr ⟨h.2.1, ih h.2.2⟩

end Disk

namespace FileStore

variable {s : FileStore} {key : UnitKey} {root names : DiskKey} {stale : List DiskKey}

theorem names_ne_nil (key : UnitKey) : key.names ≠ [] := by
  simp [UnitKey.names]

theorem isStale_names (h : key ∈ s.written.keys) : s.isStale key.names = false := by
  have hPath : s.pathOf key.names = s.pathFor key := by
    rw [pathOf, pathFor, UnitKey.relativePath_eq]
    simp [UnitKey.names]
  have hKept : (s.written.keys.any fun other =>
      Path.parts (s.pathFor other) = Path.parts (s.pathOf key.names)) = true := by
    rw [List.any_eq_true]
    exact ⟨key, h, by simp [hPath]⟩
  simp only [isStale, hKept, Bool.not_true, Bool.and_false]

theorem isStale_of_mem_staleFiles (h : names ∈ s.staleFiles root) :
    s.isStale names = true ∧ ∃ content, s.disk.entry? (root ++ names) = some (.file content) := by
  obtain ⟨⟨found, entry⟩, hMem, hFound⟩ := List.mem_filterMap.mp h
  cases entry with
  | directory => cases hFound
  | file content =>
    simp only [Option.ite_none_right_eq_some, Bool.and_eq_true, Option.some.injEq] at hFound
    obtain ⟨⟨hStale, -⟩, rfl⟩ := hFound
    exact ⟨hStale, content, (Disk.mem_below_iff.mp hMem).2⟩

section Clear

variable (hStale : ∀ names ∈ stale, names ∈ s.staleFiles root) (hWritten : key ∈ s.written.keys)
  {content : FileContent} (hFile : s.disk.entry? (root ++ key.names) = some (.file content))

include hStale hWritten

theorem names_notMem_stale : ∀ names ∈ stale, root ++ key.names ≠ root ++ names := by
  intro names hMem hSame
  have hNames := List.append_cancel_left hSame
  have hYes := (isStale_of_mem_staleFiles (hStale names hMem)).1
  rw [← hNames, isStale_names hWritten] at hYes
  cases hYes

include hFile

theorem clear_file : Disk.entry? (s.clear root stale) (root ++ key.names) = some (.file content) := by
  refine Disk.entry?_filter ?_ rfl
  rw [Disk.entry?_foldl_remove (names_notMem_stale hStale hWritten), hFile]

/-- A directory stays in which a file stays that the store has written. -/
theorem clear_directory {front : DiskKey} (hPrefix : front <+: key.names)
    (hEntry : s.disk.entry? (root ++ front) = some .directory) :
    Disk.entry? (s.clear root stale) (root ++ front) = some .directory := by
  have hStays : ∀ names ∈ stale, root ++ front ≠ root ++ names := by
    intro names hMem hSame
    obtain ⟨-, other, hOther⟩ := isStale_of_mem_staleFiles (hStale names hMem)
    rw [← hSame, hEntry] at hOther
    cases hOther
  refine Disk.entry?_filter ?_ ?_
  · rw [Disk.entry?_foldl_remove hStays, hEntry]
  · -- the file is among those that stay, and the directory is on the way to it
    simp only [Bool.or_eq_true, List.any_eq_true]
    refine .inr ⟨key.names, List.mem_filterMap.mpr ⟨(key.names, .file content), ?_, rfl⟩, ?_⟩
    · refine Disk.mem_below_iff.mpr ⟨names_ne_nil key, ?_⟩
      rw [Disk.entry?_foldl_remove (names_notMem_stale hStale hWritten), hFile]
    · rw [List.isPrefixOf_iff_prefix]
      exact (List.prefix_append_right_inj root).mpr hPrefix

end Clear

theorem entry?_of_clear {entry : DiskEntry} {k : DiskKey}
    (h : Disk.entry? (s.clear root stale) k = some entry) : s.disk.entry? k = some entry :=
  Disk.entry?_of_foldl_remove (Disk.entry?_of_filter h)

/-- A directory stays that is not below the root. -/
theorem clear_directory_of_outside {k : DiskKey}
    (hStale : ∀ names ∈ stale, names ∈ s.staleFiles root) (hOutside : root <+: k → k = root)
    (hEntry : s.disk.entry? k = some .directory) :
    Disk.entry? (s.clear root stale) k = some .directory := by
  refine Disk.entry?_filter ?_ ?_
  · rw [Disk.entry?_foldl_remove, hEntry]
    rintro names hMem rfl
    obtain ⟨-, content, hFile⟩ := isStale_of_mem_staleFiles (hStale names hMem)
    rw [hEntry] at hFile
    cases hFile
  · rw [Bool.or_eq_true_iff, Bool.not_eq_true', Bool.and_eq_false_imp,
      List.isPrefixOf_iff_prefix, decide_eq_false_iff_not, not_not]
    exact .inl hOutside

/-- What sweeping leaves. -/
structure Swept (s s' : FileStore) : Prop where
  eq : s' = { s with disk := s'.disk }
  home : s'.disk.home = s.disk.home
  file : ∀ key ∈ s.written.keys, ∀ content,
    s.disk.entry? (s.base ++ key.names) = some (.file content) →
    s'.disk.entry? (s.base ++ key.names) = some (.file content)
  directory : ∀ key ∈ s.written.keys, ∀ content,
    s.disk.entry? (s.base ++ key.names) = some (.file content) → ∀ front, front <+: key.names →
    s.disk.entry? (s.base ++ front) = some .directory →
    s'.disk.entry? (s.base ++ front) = some .directory
  outside : ∀ k, (s.base <+: k → k = s.base) → s.disk.entry? k = some .directory →
    s'.disk.entry? k = some .directory
  less : ∀ k entry, s'.disk.entry? k = some entry → s.disk.entry? k = some entry

theorem swept_self (s : FileStore) : s.Swept s where
  eq := rfl
  home := rfl
  file _ _ _ hFile := hFile
  directory _ _ _ _ _ _ hEntry := hEntry
  outside _ _ hEntry := hEntry
  less _ _ hEntry := hEntry

theorem swept_removeStale (s : FileStore) : s.Swept s.removeStale.1 := by
  unfold removeStale
  split
  · next root hRoot =>
    have hLead := (Disk.locate_eq_ok_iff.mp (Disk.lookup_eq_ok_iff.mp hRoot).1).2.2
    rw [Disk.lead_route] at hLead
    obtain rfl : root = s.base := hLead
    simp only [List.partition_eq_filter_filter]
    have hStale : ∀ names ∈ (s.staleFiles s.base).filter (not ∘ s.isOutOfReach),
        names ∈ s.staleFiles s.base := fun names hMem => (List.mem_filter.mp hMem).1
    exact {
      eq := rfl
      home := Disk.home_foldl_remove s.disk s.base _
      file := fun key hKey content hFile => clear_file hStale hKey hFile
      directory := fun key hKey content hFile front hPrefix hEntry =>
        clear_directory hStale hKey hFile hPrefix hEntry
      outside := fun k hOutside hEntry => clear_directory_of_outside hStale hOutside hEntry
      less := fun k entry hEntry => entry?_of_clear hEntry }
  · exact s.swept_self

end FileStore

end Bindery
