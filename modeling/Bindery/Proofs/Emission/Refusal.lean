import Bindery.Proofs.Emission.Agreement
import Bindery.Proofs.Emission.Replacing

/-! # Units that the disk refuses

Writing a unit can fail when its directories are made, when its temporary file is created, and when
that file is moved. What was made before the failure is taken back, but for the directories on the
way to the place of the unit. So every file of the disk is as it was, and no other one is there.
-/

namespace Bindery

namespace Disk

variable {disk : Disk} {path : String}

theorem flatten_stretches (names : List String) : (stretches names).flatten = names := by
  fun_induction stretches names with
  | case1 => rfl
  | case2 name rest hDots => simp
  | case3 name rest hMore ih => simp [ih]

theorem ne_nil_of_mem_stretches {names stretch : List String} (h : stretch ∈ stretches names) :
    stretch ≠ [] := by
  fun_induction stretches names with
  | case1 => cases h
  | case2 name rest hDots => simp [List.mem_singleton.mp h]
  | case3 name rest hMore ih =>
    rcases List.mem_cons.mp h with rfl | h
    · simp
    · exact ih h

/-- What is made on a climb is on the trail of the names that it follows. -/
theorem mem_trail_of_climb (disk : Disk) (hasMade : Bool) (key : DiskKey)
    (stretches : List (List String)) (hSome : ∀ stretch ∈ stretches, stretch ≠ []) {k : DiskKey}
    (hFree : disk.entry? k = none)
    (hMade : Disk.entry? (disk.climb hasMade key stretches).2 k ≠ none) :
    k ∈ trail key stretches.flatten := by
  have hNext {disk : Disk} {key next : DiskKey} {stretch : List String} {rest : List (List String)}
      (hFollow : disk.follow key stretch = .ok next) :
      trail key (stretch :: rest).flatten = trail key stretch ++ trail next rest.flatten := by
    rw [List.flatten_cons, trail_append, (follow_eq_ok_iff.mp hFollow).2]
  fun_induction disk.climb hasMade key stretches with
  | case1 => exact absurd hFree hMade
  | case2 => exact absurd hFree hMade
  | case3 disk hasMade key stretch rest next hFollow hNone ih =>
    obtain ⟨hFirst, hRest⟩ := List.forall_mem_cons.mp hSome
    rw [hNext hFollow, List.mem_append]
    by_cases hSame : k = next
    · rw [hSame, (follow_eq_ok_iff.mp hFollow).2]
      exact .inl (lead_mem_trail hFirst)
    · have hNotRoot : next ≠ [] := by
        rintro rfl
        cases hNone
      exact .inr (ih hRest (by rwa [entry?_put hNotRoot, if_neg hSame]) hMade)
  | case4 disk hasMade key stretch rest next hFollow hDirectory ih =>
    rw [hNext hFollow, List.mem_append]
    exact .inr (ih (List.forall_mem_cons.mp hSome).2 hFree hMade)
  | case5 => exact absurd hFree hMade
  | case6 disk hasMade key stretch rest next hFollow content hFile hMore ih =>
    rw [hNext hFollow, List.mem_append]
    exact .inr (ih (List.forall_mem_cons.mp hSome).2 hFree hMade)

theorem mem_trail_of_makeDirectories {k : DiskKey} (hFree : disk.entry? k = none)
    (hMade : Disk.entry? (disk.makeDirectories path).2 k ≠ none) :
    k ∈ trail (disk.start path) (names path) := by
  unfold makeDirectories at hMade
  split at hMade
  · exact absurd hFree hMade
  · split at hMade
    · exact absurd hFree hMade
    · have hTrail := mem_trail_of_climb disk false (disk.start path) (stretches (names path))
        (fun _ => ne_nil_of_mem_stretches) hFree hMade
      rwa [flatten_stretches] at hTrail

end Disk

namespace FileStore

open Bindery.Path (IsParent)

variable {s : FileStore} {u : GeneratedUnit} {fault : Fault} {path parent text : String}

/-- Of a file that could not be written nothing is left but directories above it. -/
theorem store_of_writeAtomic_error (hParent : Path.parent? path = some parent)
    (h : (s.writeAtomic path text).result = .error fault) : ∃ counter,
    (s.writeAtomic path text).store =
      { s with disk := (s.disk.makeDirectories parent).2, counter } := by
  simp only [writeAtomic, hParent] at h ⊢
  split at h
  · next disk₁ hMake =>
    simp only [writeThrough] at h ⊢
    split at h
    · next disk₂ hCreate =>
      simp only [swap] at h ⊢
      split at h
      · cases h
      · next kind hRename =>
        refine ⟨s.counter + 1, ?_⟩
        simp only [hMake, failed, Disk.discard_of_createFile hCreate]
    · next kind hCreate =>
      refine ⟨s.counter + 1, ?_⟩
      simp only [hMake, failed]
  · next kind disk₁ hMake =>
    refine ⟨s.counter, ?_⟩
    simp only [hMake, failed]

/-- The keys on the way to the directory in which the file of a unit stands. -/
def passedTo (s : FileStore) (key : UnitKey) : List DiskKey :=
  Disk.trail (s.disk.start (s.pathFor key)) (Disk.names (s.pathFor key)).dropLast

theorem trail_parent_subset {last : String} {dots : List String}
    (h : IsParent (s.pathFor u.key) parent last dots) :
    Disk.trail (s.disk.start parent) (Disk.names parent) ⊆ s.passedTo u.key := by
  rw [passedTo, h.names, List.dropLast_concat, Disk.trail_append,
    Disk.start_eq rfl h.isAbsolute]
  exact List.subset_append_left _ _

/-- A unit is refused for its key and leaves everything as it was, or it is refused by the disk and
leaves directories above the place of its file. -/
theorem store_of_emit_error (h : (s.emit u).result = .error fault) :
    (s.emit u).store = s ∨ ∃ parent last dots counter,
      IsParent (s.pathFor u.key) parent last dots ∧
      (s.emit u).store = { s with disk := (s.disk.makeDirectories parent).2, counter } := by
  obtain ⟨parent, last, dots, hParent⟩ := s.exists_isParent_pathFor u.key
  cases hFind : s.written.get? u.key with
  | some first => exact .inl (by simp only [emit, hFind])
  | none =>
    simp only [emit, hFind] at h ⊢
    split at h
    · next other hError =>
      obtain ⟨counter, hStore⟩ := store_of_writeAtomic_error hParent.eq hError
      exact .inr ⟨parent, last, dots, counter, hParent, by simp only [hStore]⟩
    · next hOk =>
      rw [hOk] at h
      cases h

/-- A unit is refused where a directory stands in the place of its file. -/
theorem emit_refused_of_directory (h : s.disk.entry? (s.placeOf u.key) = some .directory) :
    ∃ fault, (s.emit u).result = .error fault := by
  cases hResult : (s.emit u).result with
  | error fault => exact ⟨fault, rfl⟩
  | ok =>
    obtain ⟨disk, hReplaces, -⟩ := emit_of_ok hResult
    have hKept := hReplaces.keeps.directory _ h
    have hFile := (hReplaces.file_iff (s.placeOf u.key) (.text u.text)).mpr (by rw [if_pos rfl])
    rw [hKept] at hFile
    cases hFile

/-- A unit that is refused leaves no trace among the entries of the store and among the files of the
disk, where its temporary file would be one. All that may be new are directories on the way to the
one in which its file was to stand. -/
theorem emit_error_keeps_files (h : (s.emit u).result = .error fault) :
    (s.emit u).store =
      { s with disk := (s.emit u).store.disk, counter := (s.emit u).store.counter } ∧
    (s.emit u).store.entries = s.entries ∧
    (∀ k content, Disk.entry? (s.emit u).store.disk k = some (.file content) ↔
      s.disk.entry? k = some (.file content)) ∧
    ∀ k, Disk.entry? (s.emit u).store.disk k = s.disk.entry? k ∨
      k ∈ s.passedTo u.key ∧ s.disk.entry? k = none ∧
        Disk.entry? (s.emit u).store.disk k = some .directory := by
  rcases store_of_emit_error h with hSame | ⟨parent, last, dots, counter, hParent, hStore⟩
  · rw [hSame]
    exact ⟨rfl, rfl, fun _ _ => Iff.rfl, fun _ => .inl rfl⟩
  · have hGains := s.disk.gains_makeDirectories parent
    rw [hStore]
    refine ⟨rfl, rfl, fun k content => hGains.file_iff, fun k => ?_⟩
    rcases hGains.entries k with hOld | ⟨hFree, hNew⟩
    · exact .inl hOld
    · have hTrail := Disk.mem_trail_of_makeDirectories hFree (by rw [hNew]; simp)
      exact .inr ⟨trail_parent_subset hParent hTrail, hFree, hNew⟩

/-- A disk with a directory that has the name of a unit's file. -/
def blockedDisk : Disk where
  entries := .ofList [(["out"], .directory), (["out", "a"], .directory),
    (["out", "a", "A.kt"], .directory), (["out", "a", "B.kt"], .file (.text "old"))]

/-- The unit cannot be moved to its place, and the old file beside it stays. -/
theorem emit_error_keeps_files_blocked :
    let s := ofSettings blockedDisk { dir := "out" } "7" ""
    let u : GeneratedUnit := ⟨"first", { package := "a", name := "A" }, []⟩
    ∃ fault, (s.emit u).result = .error fault ∧ (s.emit u).store.entries = [] ∧
      Disk.entry? (s.emit u).store.disk ["out", "a", "B.kt"] = some (.file (.text "old")) := by
  intro s u
  have hBlocked : s.disk.entry? (s.placeOf u.key) = some .directory := by
    simp only [placeOf, Disk.place, Disk.start, Path.isAbsolute_eq]
    decide +kernel
  obtain ⟨fault, hFails⟩ := emit_refused_of_directory hBlocked
  obtain ⟨-, hEntries, hFiles, -⟩ := emit_error_keeps_files hFails
  exact ⟨fault, hFails, hEntries.trans rfl, (hFiles _ _).mpr (by decide +kernel)⟩

end FileStore

end Bindery
