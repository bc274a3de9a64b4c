import Bindery.Proofs.Disk.Routes

/-! # Operations on disks

When an operation on a disk succeeds, and what it changes then. A file that is written under a
temporary name and moved to its own leaves no other trace than the file itself.
-/

namespace Bindery.Disk

variable {disk disk' : Disk} {path : String}

/-- An empty path names no directory, as if it had no names at all. -/
theorem makeDirectories_eq (hFine : path ≠ "" → refusal? path = none)
    (hStretches : stretches (Disk.names path) = (Disk.names path).map ([·])) :
    disk.makeDirectories path =
      disk.climb false (disk.start path) ((Disk.names path).map ([·])) := by
  unfold makeDirectories
  by_cases hEmpty : path = ""
  · have hNames : Disk.names "" = [] := by decide
    rw [if_pos (String.isEmpty_iff.mpr hEmpty), hEmpty, hNames]
    rfl
  · rw [if_neg (mt String.isEmpty_iff.mp hEmpty), hFine hEmpty, hStretches]

theorem refusal?_of_makeDirectories (h : (disk.makeDirectories path).1 = .ok ())
    (hSome : path ≠ "") : refusal? path = none := by
  unfold makeDirectories at h
  rw [if_neg (mt String.isEmpty_iff.mp hSome)] at h
  split at h
  · cases h
  · assumption

theorem createFile_eq_ok_iff {content : FileContent} : disk.createFile path content = .ok disk' ↔
    ∃ key, disk.locate path = .ok key ∧ disk.entry? key = none ∧
      disk' = disk.put key (.file content) := by
  unfold createFile
  cases hLocate : disk.locate path with
  | error kind => simp [Except.bind]
  | ok key =>
    simp only [Except.bind, Except.ok.injEq]
    cases hEntry : disk.entry? key with
    | none =>
      simp only [Except.ok.injEq]
      constructor
      · rintro rfl
        exact ⟨key, rfl, hEntry, rfl⟩
      · rintro ⟨_, rfl, -, rfl⟩
        rfl
    | some entry =>
      simp only [reduceCtorEq, false_iff, not_exists, not_and]
      rintro _ rfl hNone
      rw [hEntry] at hNone
      cases hNone

theorem rename_eq_ok_iff {source target : String} : disk.rename source target = .ok disk' ↔
    ∃ sourceKey entry targetKey, disk.lookup source = .ok (sourceKey, entry) ∧
      disk.locate target = .ok targetKey ∧ disk.entry? targetKey ≠ some .directory ∧
      disk' = (disk.remove sourceKey).put targetKey entry := by
  unfold rename
  cases hLookup : disk.lookup source with
  | error kind => simp [Except.bind]
  | ok found =>
    obtain ⟨sourceKey, entry⟩ := found
    cases hLocate : disk.locate target with
    | error kind => simp [Except.bind]
    | ok targetKey =>
      simp only [Except.bind, Except.ok.injEq, Prod.mk.injEq]
      split
      · next hDirectory =>
        simp only [reduceCtorEq, false_iff, not_exists, not_and]
        rintro _ _ _ - rfl hNot
        exact absurd hDirectory hNot
      · next hOther =>
        rw [Except.ok.injEq]
        constructor
        · rintro rfl
          exact ⟨_, _, _, ⟨rfl, rfl⟩, rfl, hOther, rfl⟩
        · rintro ⟨_, _, _, ⟨rfl, rfl⟩, rfl, -, rfl⟩
          rfl

/-- Nothing that was there is given up for an entry under a free key. -/
theorem keeps_put {key : DiskKey} (hFree : disk.entry? key = none) (entry : DiskEntry) :
    disk.Keeps (disk.put key entry) := by
  have hSome : key ≠ [] := by
    rintro rfl
    cases hFree
  refine ⟨rfl, fun k hDirectory => ?_⟩
  rw [entry?_put hSome, if_neg, hDirectory]
  rintro rfl
  rw [hFree] at hDirectory
  cases hDirectory

/-- A file that was made where nothing was is discarded without a trace. -/
theorem discard_of_createFile {content : FileContent}
    (h : disk.createFile path content = .ok disk') : disk'.discard path = disk := by
  obtain ⟨key, hLocate, hFree, rfl⟩ := createFile_eq_ok_iff.mp h
  have hSome : key ≠ [] := by
    rintro rfl
    cases hFree
  have hLookup : (disk.put key (.file content)).lookup path = .ok (key, .file content) :=
    lookup_eq_ok_iff.mpr ⟨(keeps_put hFree _).locate hLocate, by rw [entry?_put hSome, if_pos rfl]⟩
  have hEntries : (disk.entries.insert key (.file content)).erase key = disk.entries := by
    refine OrderedMap.eq_of_get? fun k => ?_
    rw [OrderedMap.get?_erase, OrderedMap.get?_insert]
    by_cases hSame : k = key
    · rw [if_pos hSame, hSame, ← entry?_of_ne_nil hSome, hFree]
    · rw [if_neg hSame, if_neg (Ne.symm hSame)]
  rw [discard, hLookup]
  change { disk with entries := (disk.entries.insert key (.file content)).erase key } = disk
  rw [hEntries]

/-- A file that is written under a free name and renamed stands there as if it had been written at
once. -/
theorem replace_eq (content : FileContent) {source : String} {temporary target : DiskKey}
    (hSource : disk.locate source = .ok temporary) (hPath : disk.locate path = .ok target)
    (hFree : disk.entry? temporary = none) (hTarget : disk.entry? target ≠ some .directory)
    (hOther : temporary ≠ target) :
    ∃ disk₁ disk₂, disk.createFile source content = .ok disk₁ ∧
      disk₁.rename source path = .ok disk₂ ∧ disk₂.home = disk.home ∧
      ∀ k, disk₂.entry? k = if k = target then some (.file content) else disk.entry? k := by
  have hSome : temporary ≠ [] := by
    rintro rfl
    cases hFree
  have hTargetSome : target ≠ [] := by
    rintro rfl
    exact hTarget rfl
  let disk₁ := disk.put temporary (.file content)
  have hEntries : ∀ k, disk₁.entry? k =
      if k = temporary then some (.file content) else disk.entry? k := entry?_put hSome _
  have hKeeps : disk.Keeps disk₁ := keeps_put hFree _
  have hLookup : disk₁.lookup source = .ok (temporary, .file content) :=
    lookup_eq_ok_iff.mpr ⟨hKeeps.locate hSource, by rw [hEntries, if_pos rfl]⟩
  have hTarget₁ : disk₁.entry? target ≠ some .directory := by
    rwa [hEntries, if_neg hOther.symm]
  refine ⟨disk₁, (disk₁.remove temporary).put target (.file content),
    createFile_eq_ok_iff.mpr ⟨_, hSource, hFree, rfl⟩,
    rename_eq_ok_iff.mpr ⟨_, _, _, hLookup, hKeeps.locate hPath, hTarget₁, rfl⟩, rfl, fun k => ?_⟩
  rw [entry?_put hTargetSome, entry?_remove hSome, hEntries]
  by_cases hGone : k = temporary
  · rw [hGone, if_pos rfl, hFree]
  · rw [if_neg hGone, if_neg hGone]

end Bindery.Disk
