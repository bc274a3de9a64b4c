import Bindery.Proofs.Disk.Parts
import Bindery.Proofs.Emission.Sequences
import Bindery.Proofs.Emission.Writing

/-! # What units leave on a disk

A unit that is written puts its file where its path leads, over a file that may stand there, and
adds directories where nothing was. Behind a sequence of units each place holds the file of the last
unit that was written to it, and all other files are the old ones.
-/

namespace Bindery

namespace Disk

variable {disk disk₁ disk₂ : Disk} {key : DiskKey} {path : String} {content : FileContent}

/-- The later disk has more directories, in places where nothing was. -/
structure Gains (disk disk' : Disk) : Prop where
  home : disk'.home = disk.home
  entries : ∀ k, disk'.entry? k = disk.entry? k ∨
    disk.entry? k = none ∧ disk'.entry? k = some .directory

theorem Gains.refl (disk : Disk) : disk.Gains disk := ⟨rfl, fun _ => .inl rfl⟩

theorem Gains.trans (h : disk.Gains disk₁) (h' : disk₁.Gains disk₂) : disk.Gains disk₂ := by
  refine ⟨h'.home.trans h.home, fun k => ?_⟩
  rcases h.entries k with hSame | ⟨hFree, hNew⟩ <;>
    rcases h'.entries k with hSame' | ⟨hFree', hNew'⟩
  · exact .inl (hSame'.trans hSame)
  · exact .inr ⟨hSame ▸ hFree', hNew'⟩
  · exact .inr ⟨hFree, hSame'.trans hNew⟩
  · exact .inr ⟨hFree, hNew'⟩

theorem Gains.file_iff (h : disk.Gains disk₁) :
    disk₁.entry? key = some (.file content) ↔ disk.entry? key = some (.file content) := by
  rcases h.entries key with hSame | ⟨hFree, hNew⟩
  · rw [hSame]
  · rw [hFree, hNew]
    simp

theorem Gains.keeps (h : disk.Gains disk₁) : disk.Keeps disk₁ := by
  refine ⟨h.home, fun k hDirectory => ?_⟩
  rcases h.entries k with hSame | ⟨hFree, -⟩
  · rw [hSame, hDirectory]
  · rw [hFree] at hDirectory
    cases hDirectory

theorem gains_put (hFree : disk.entry? key = none) :
    disk.Gains (disk.put key .directory) := by
  have hSome : key ≠ [] := by
    rintro rfl
    cases hFree
  refine ⟨rfl, fun k => ?_⟩
  rw [entry?_put hSome]
  split
  · next hKey => exact .inr ⟨hKey ▸ hFree, rfl⟩
  · exact .inl rfl

theorem gains_climb (disk : Disk) (hasMade : Bool) (key : DiskKey)
    (stretches : List (List String)) : disk.Gains (disk.climb hasMade key stretches).2 := by
  fun_induction disk.climb hasMade key stretches with
  | case1 => exact .refl _
  | case2 => exact .refl _
  | case3 disk hasMade key stretch rest next hFollow hFree ih => exact (gains_put hFree).trans ih
  | case4 disk hasMade key stretch rest next hFollow hDirectory ih => exact ih
  | case5 => exact .refl _
  | case6 disk hasMade key stretch rest next hFollow content hFile hMore ih => exact ih

theorem gains_makeDirectories (disk : Disk) (path : String) :
    disk.Gains (disk.makeDirectories path).2 := by
  unfold makeDirectories
  split
  · exact .refl _
  · split
    · exact .refl _
    · exact gains_climb _ _ _ _

/-- A file stands in a place, and no other file came or went. -/
structure Replaces (disk disk' : Disk) (target : DiskKey) (content : FileContent) : Prop where
  keeps : disk.Keeps disk'
  file_iff : ∀ k other, disk'.entry? k = some (.file other) ↔
    if k = target then other = content else disk.entry? k = some (.file other)

theorem replaces_of_rename {temporary : String}
    (hCreate : disk.createFile temporary content = .ok disk₁)
    (hRename : disk₁.rename temporary path = .ok disk₂) :
    disk.Replaces disk₂ (disk.place path) content := by
  obtain ⟨source, hLocate, hFree, rfl⟩ := createFile_eq_ok_iff.mp hCreate
  obtain ⟨found, entry, target, hLookup, hTarget, hOther, rfl⟩ := rename_eq_ok_iff.mp hRename
  obtain ⟨hFound, hEntry⟩ := lookup_eq_ok_iff.mp hLookup
  have hSource : found = source := by
    rw [locate_eq_place hFound, locate_eq_place hLocate]
    exact place_eq rfl _
  have hPlace : target = disk.place path := by
    rw [locate_eq_place hTarget]
    exact place_eq rfl _
  subst found
  have hSome : source ≠ [] := by
    rintro rfl
    cases hFree
  have hTargetSome : target ≠ [] := by
    rintro rfl
    exact hOther rfl
  rw [entry?_put hSome, if_pos rfl, Option.some.injEq] at hEntry
  rw [entry?_put hSome] at hOther
  subst entry
  have hEntries (k : DiskKey) :
      Disk.entry?
          (((disk.put source (.file content)).remove source).put target (.file content)) k =
        if k = target then some (.file content)
        else if k = source then none else disk.entry? k := by
    rw [entry?_put hTargetSome, entry?_remove hSome, entry?_put hSome]
    split_ifs <;> rfl
  refine ⟨⟨rfl, fun k hDirectory => ?_⟩, fun k other => ?_⟩
  · have hNotSource : k ≠ source := by
      rintro rfl
      rw [hFree] at hDirectory
      cases hDirectory
    have hNotTarget : k ≠ target := by
      rintro rfl
      rw [if_neg hNotSource] at hOther
      exact hOther hDirectory
    rw [hEntries, if_neg hNotTarget, if_neg hNotSource, hDirectory]
  · rw [hEntries, ← hPlace]
    split
    · rw [Option.some.injEq, DiskEntry.file.injEq, eq_comm]
    · split
      · next hGone => rw [hGone, hFree]
      · rfl

theorem Gains.replaces (h : disk.Gains disk₁) (hReplaces : disk₁.Replaces disk₂ key content) :
    disk.Replaces disk₂ key content := by
  refine ⟨h.keeps.trans hReplaces.keeps, fun k other => ?_⟩
  rw [hReplaces.file_iff, h.file_iff]

end Disk

namespace FileStore

variable {s₀ s : FileStore} {earlier units : List GeneratedUnit} {u : GeneratedUnit}
  {path parent text : String}

theorem replaces_of_writeAtomic (hParent : Path.parent? path = some parent)
    (h : (s.writeAtomic path text).result = .ok ()) :
    ∃ disk, s.disk.Replaces disk (s.disk.place path) (.text text) ∧
      (s.writeAtomic path text).store = { s with disk, counter := s.counter + 1 } := by
  obtain ⟨disk₁, disk₂, disk₃, hSteps⟩ := steps_of_writeAtomic hParent h
  have hGains : s.disk.Gains disk₁ := by
    have hMade := s.disk.gains_makeDirectories parent
    rwa [hSteps.make] at hMade
  have hReplaces := Disk.replaces_of_rename hSteps.create hSteps.rename
  rw [Disk.place_eq hGains.home] at hReplaces
  exact ⟨disk₃, hGains.replaces hReplaces, (hSteps.writeAtomic hParent).2⟩

/-- Where the file of a unit stands. -/
def placeOf (s : FileStore) (key : UnitKey) : DiskKey := s.disk.place (s.pathFor key)

/-- The last unit of a sequence whose file stands in a place. -/
def lastAt? (s : FileStore) (units : List GeneratedUnit) (k : DiskKey) : Option GeneratedUnit :=
  units.reverse.find? fun u => s.placeOf u.key = k

theorem lastAt?_append_singleton (s : FileStore) (u : GeneratedUnit) (k : DiskKey) :
    s.lastAt? (earlier ++ [u]) k = if s.placeOf u.key = k then some u else s.lastAt? earlier k := by
  rw [lastAt?, List.reverse_concat, List.find?_cons]
  by_cases hPlace : s.placeOf u.key = k
  · simp [hPlace]
  · simp [hPlace, lastAt?]

theorem lastAt?_eq_some {k : DiskKey} (h : s.lastAt? units k = some u) :
    u ∈ units ∧ s.placeOf u.key = k := by
  have hPlace := List.find?_some h
  exact ⟨List.mem_reverse.mp (List.mem_of_find?_eq_some h), of_decide_eq_true hPlace⟩

theorem lastAt?_eq_none_iff {k : DiskKey} :
    s.lastAt? units k = none ↔ ∀ u ∈ units, s.placeOf u.key ≠ k := by
  simp [lastAt?]

/-! ## The paths of units -/

/-- The dot and the extension behind the name of every unit's file. -/
def suffix : String := "." ++ sourceExtension

theorem exists_pathFor_eq (s : FileStore) (key : UnitKey) :
    ∃ front, s.pathFor key = front ++ suffix := by
  obtain ⟨front, hJoin⟩ := Path.exists_join_eq s.root (relativePath key)
  obtain ⟨name, hRelative⟩ : ∃ name, relativePath key = name ++ suffix := by
    unfold relativePath suffix
    split
    · exact ⟨key.file, String.append_assoc⟩
    · exact ⟨String.ofList (key.package.toList.map fun c => if c = '.' then '/' else c) ++ "/" ++
        key.file, by simp only [String.append_assoc]⟩
  exact ⟨front ++ name, by rw [pathFor, hJoin, hRelative, String.append_assoc]⟩

theorem slash_notMem_suffix : '/' ∉ suffix.toList := by decide

theorem exists_placeOf_eq (s : FileStore) (key : UnitKey) :
    ∃ above stem, s.placeOf key = above ++ [stem ++ suffix] := by
  obtain ⟨front, hPath⟩ := s.exists_pathFor_eq key
  rw [placeOf, hPath]
  exact Disk.exists_place_eq s.disk front slash_notMem_suffix (by decide)

theorem exists_isParent_pathFor (s : FileStore) (key : UnitKey) :
    ∃ parent last dots, Path.IsParent (s.pathFor key) parent last dots := by
  obtain ⟨front, hPath⟩ := s.exists_pathFor_eq key
  obtain ⟨above, stem, hPieces, hName⟩ :=
    Path.exists_pieces_eq front slash_notMem_suffix (by decide)
  rw [← hPath] at hPieces
  obtain ⟨parent, dots, hParent⟩ := Path.exists_isParent hPieces hName
  exact ⟨parent, _, dots, hParent⟩

/-! ## Behind a sequence of units -/

theorem emit_of_ok (h : (s.emit u).result = .ok ()) :
    ∃ disk, s.disk.Replaces disk (s.placeOf u.key) (.text u.text) ∧
      (s.emit u).store = { s with
        disk, counter := s.counter + 1, written := s.written.insert u.key (entryOf u u.text) } := by
  obtain ⟨parent, _, _, hParent⟩ := s.exists_isParent_pathFor u.key
  cases hFind : s.written.get? u.key with
  | some first =>
    rw [emit, hFind] at h
    cases h
  | none =>
    have hOk : (s.writeAtomic (s.pathFor u.key) u.text).result = .ok () := by
      simp only [emit, hFind] at h
      split at h
      · next hError => rw [hError] at h; cases h
      · assumption
    obtain ⟨disk, hReplaces, hStore⟩ := replaces_of_writeAtomic hParent.eq hOk
    exact ⟨disk, hReplaces, by simp only [emit, hFind, hOk, hStore]⟩

/-- A store that has taken exactly some units, all of them written to its disk. -/
structure Filled (s₀ s : FileStore) (units : List GeneratedUnit) : Prop where
  eq : s = { s₀ with disk := s.disk, written := s.written, counter := s.counter }
  keeps : s₀.disk.Keeps s.disk
  keys : ∀ key, key ∈ s.written.keys ↔ key ∈ s₀.written.keys ∨ ∃ u ∈ units, u.key = key
  file_iff : ∀ k content, s.disk.entry? k = some (.file content) ↔
    match s₀.lastAt? units k with
    | some u => content = .text u.text
    | none => s₀.disk.entry? k = some (.file content)

namespace Filled

theorem refl (s : FileStore) : Filled s s [] where
  eq := rfl
  keeps := ⟨rfl, fun _ h => h⟩
  keys key := by simp
  file_iff k content := Iff.rfl

variable (h : Filled s₀ s earlier)

include h

theorem root : s.root = s₀.root := by rw [h.eq]

theorem base : s.base = s₀.base := base_congr h.keeps.home h.root

theorem passed (above : List String) : s.passed above = s₀.passed above :=
  passed_congr h.keeps.home h.root above

theorem pathFor (key : UnitKey) : s.pathFor key = s₀.pathFor key := by
  rw [FileStore.pathFor, h.root, ← FileStore.pathFor]

theorem placeOf (key : UnitKey) : s.placeOf key = s₀.placeOf key := by
  rw [FileStore.placeOf, FileStore.placeOf, h.pathFor, Disk.place_eq h.keeps.home]

theorem emit (hOk : (s.emit u).result = .ok ()) :
    Filled s₀ (s.emit u).store (earlier ++ [u]) := by
  obtain ⟨disk, hReplaces, hStore⟩ := emit_of_ok hOk
  rw [hStore]
  refine ⟨?_, ?_, fun key => ?_, fun k content => ?_⟩
  · rw [h.eq]
  · exact h.keeps.trans hReplaces.keeps
  · rw [OrderedMap.mem_keys_insert, h.keys]
    simp only [List.mem_append, List.mem_singleton, or_and_right, exists_or, exists_eq_left]
    exact or_comm.trans or_assoc
  · change disk.entry? k = _ ↔ _
    rw [hReplaces.file_iff, h.placeOf, lastAt?_append_singleton]
    by_cases hPlace : s₀.placeOf u.key = k
    · simp [hPlace]
    · rw [if_neg (Ne.symm hPlace), if_neg hPlace, h.file_iff]

theorem emitAll (hOk : ∀ result ∈ (Store.emitAll s units).1, result = .ok ()) :
    Filled s₀ (Store.emitAll s units).2 (earlier ++ units) := by
  induction units generalizing s earlier with
  | nil => simpa [Store.emitAll] using h
  | cons u rest ih =>
    obtain ⟨hFirst, hRest⟩ := List.forall_mem_cons.mp hOk
    have hLast := ih (h.emit hFirst) hRest
    rwa [List.append_assoc] at hLast

end Filled

end FileStore

end Bindery
