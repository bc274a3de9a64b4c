import Bindery.Emission.FileStore
import Bindery.Proofs.Disk.Operations
import Bindery.Proofs.Disk.Parents

/-! # Writing one file

A file is written if its path and the temporary one beside it are followed, no file is on the trail
of its directories, and neither name is taken. Then exactly the file and the directories on the
trail are new: the temporary file is gone, and every other entry is what it was.
-/

namespace Bindery

namespace FileStore

open Bindery.Path (IsName IsParent)

variable {s s' : FileStore} {above : List String} {last : String}

/-- Where the root of the store is followed from. -/
def origin (s : FileStore) : DiskKey := s.disk.start s.root

def base (s : FileStore) : DiskKey := Disk.lead s.origin (Disk.names s.root)

def target (s : FileStore) (above : List String) (last : String) : String :=
  Path.join s.root (Path.ofPieces (above ++ [last]))

/-- The keys on the way to a directory below the root. -/
def passed (s : FileStore) (above : List String) : List DiskKey :=
  Disk.trail s.origin (Disk.names s.root ++ above)

def temporaryName (s : FileStore) (last : String) : String :=
  last ++ temporaryMark ++ s.processTag ++ "." ++ toString s.counter

section Congr

variable (hHome : s'.disk.home = s.disk.home) (hRoot : s'.root = s.root)

include hHome hRoot

theorem origin_congr : s'.origin = s.origin := by
  rw [origin, origin, Disk.start_eq hHome rfl, hRoot]

theorem base_congr : s'.base = s.base := by
  rw [base, base, origin_congr hHome hRoot, hRoot]

theorem passed_congr (above : List String) : s'.passed above = s.passed above := by
  rw [passed, passed, origin_congr hHome hRoot, hRoot]

end Congr

/-- What writing a file below the root needs. -/
structure Accepts (s : FileStore) (above : List String) (last : String) : Prop where
  parentFine : ∀ parent, Path.parent? (s.target above last) = some parent → parent ≠ "" →
    Disk.refusal? parent = none
  temporaryFine : Disk.refusal? (s.temporaryPath (s.target above last)) = none
  targetFine : Disk.refusal? (s.target above last) = none
  temporaryShort : (s.temporaryName last).utf8ByteSize ≤ Disk.maxNameLength
  short : last.utf8ByteSize ≤ Disk.maxNameLength
  origin : s.disk.entry? s.origin = some .directory
  clear : s.disk.Clear s.origin (Disk.names s.root ++ above)
  temporaryApart : s.base ++ above ++ [s.temporaryName last] ∉ s.passed above
  temporaryFree : s.disk.entry? (s.base ++ above ++ [s.temporaryName last]) = none
  targetApart : s.base ++ above ++ [last] ∉ s.passed above
  targetFree : s.disk.entry? (s.base ++ above ++ [last]) ≠ some .directory

/-- What writing a file changes. -/
structure Wrote (s s' : FileStore) (above : List String) (last text : String) : Prop where
  eq : s' = { s with disk := s'.disk, counter := s.counter + 1 }
  home : s'.disk.home = s.disk.home
  entries : ∀ k, s'.disk.entry? k =
    if k = s.base ++ above ++ [last] then some (.file (.text text))
    else if k ∈ s.passed above then some .directory
    else s.disk.entry? k

theorem slash_notMem_toString (n : Nat) : '/' ∉ (toString n).toList := by
  intro hMem
  rw [Nat.toString_eq_ofList_toDigits, String.toList_ofList] at hMem
  have hDigit := Nat.isDigit_of_mem_toDigits (by decide) (by decide) hMem
  revert hDigit
  decide

theorem isName_temporaryName (hLast : IsName last) (hTag : '/' ∉ s.processTag.toList) :
    IsName (s.temporaryName last) := by
  have hLong {short : String} (hShort : short.length ≤ 2) : s.temporaryName last ≠ short := by
    rintro rfl
    have hMark : temporaryMark.length = 12 := rfl
    simp only [temporaryName, String.length_append, hMark] at hShort
    omega
  refine ⟨hLong (by decide), hLong (by decide), hLong (by decide), ?_⟩
  have hMark : '/' ∉ temporaryMark.toList := by decide
  have hCounter := slash_notMem_toString s.counter
  simp only [temporaryName, String.toList_append, List.mem_append, not_or]
  exact ⟨⟨⟨⟨hLast.noSlash, hMark⟩, hTag⟩, by decide⟩, hCounter⟩

theorem temporaryName_ne (s : FileStore) (last : String) : s.temporaryName last ≠ last := by
  intro hSame
  have hLength := congrArg String.length hSame
  have hMark : temporaryMark.length = 12 := rfl
  simp only [temporaryName, String.length_append, hMark] at hLength
  omega

/-! ## The order of the operations -/

/-- The disk after each operation, if all of them succeed. -/
structure Steps (s : FileStore) (path parent text : String) (disk₁ disk₂ disk₃ : Disk) : Prop where
  make : s.disk.makeDirectories parent = (.ok (), disk₁)
  create : disk₁.createFile (s.temporaryPath path) (.text text) = .ok disk₂
  rename : disk₂.rename (s.temporaryPath path) path = .ok disk₃

variable {path parent text : String}

theorem Steps.writeAtomic {disk₁ disk₂ disk₃ : Disk}
    (h : s.Steps path parent text disk₁ disk₂ disk₃) (hParent : Path.parent? path = some parent) :
    (s.writeAtomic path text).result = .ok () ∧ (s.writeAtomic path text).store =
      { s with disk := disk₃, counter := s.counter + 1 } := by
  have hCreate := h.create
  have hRename := h.rename
  unfold temporaryPath at hCreate hRename
  simp only [FileStore.writeAtomic, hParent, h.make, writeThrough, temporaryPath, hCreate, swap,
    hRename, and_self]

theorem steps_of_writeAtomic (hParent : Path.parent? path = some parent)
    (h : (s.writeAtomic path text).result = .ok ()) :
    ∃ disk₁ disk₂ disk₃, s.Steps path parent text disk₁ disk₂ disk₃ := by
  simp only [FileStore.writeAtomic, hParent] at h
  split at h
  · next disk₁ hMake =>
    simp only [writeThrough] at h
    split at h
    · next disk₂ hCreate =>
      simp only [swap] at h
      split at h
      · next disk₃ hRename => exact ⟨disk₁, disk₂, disk₃, hMake, hCreate, hRename⟩
      · cases h
    · cases h
  · cases h

/-! ## The directory of a file -/

section Directory

variable (hNames : ∀ name ∈ above ++ [last], IsName name)

include hNames

theorem exists_parent : ∃ parent dots, IsParent (s.target above last) parent last dots ∧
    s.temporaryPath (s.target above last) =
      Path.join parent (Path.ofPieces [s.temporaryName last]) := by
  have hLast := hNames last (by simp)
  have hPieces := Path.pieces_join_ofPieces hNames s.root (by simp)
  rw [← List.append_assoc] at hPieces
  obtain ⟨parent, dots, hParent⟩ := Path.exists_isParent hPieces hLast
  have hFile := Path.fileName?_eq hPieces hLast
  refine ⟨parent, dots, hParent, ?_⟩
  rw [temporaryPath, target, hParent.withFileName_eq hFile, hFile]
  rfl

theorem lead_above (key : DiskKey) :
    Disk.lead key (Disk.names s.root ++ above) = Disk.lead key (Disk.names s.root) ++ above := by
  rw [Disk.lead_append, Disk.lead_of_isName fun name hMem => hNames name (by simp [hMem])]

theorem locate_target {disk : Disk} (hHome : disk.home = s.disk.home) {k : DiskKey} :
    disk.locate (s.target above last) = .ok k ↔ Disk.refusal? (s.target above last) = none ∧
      disk.Passes s.origin (Disk.names s.root ++ above ++ [last]) ∧
      k = s.base ++ above ++ [last] := by
  have hRelative := Path.isAbsolute_ofPieces hNames
  rw [Disk.locate_eq_ok_iff, target, Disk.route_join_ofPieces s.root hNames,
    Disk.start_eq hHome (Path.isAbsolute_join hRelative), ← target, ← origin, Disk.lead_append,
    lead_above hNames, Disk.lead_of_isName (List.forall_mem_singleton.mpr (hNames last (by simp))),
    ← base]

variable {parent : String} {dots : List String}
  (hParent : IsParent (s.target above last) parent last dots)

include hParent

theorem names_parent : Disk.names s.root ++ above = Disk.names parent ++ dots := by
  have hPath := hParent.names
  rw [target, Disk.names_join_ofPieces hNames, ← List.append_assoc] at hPath
  exact (List.append_inj' hPath rfl).1

theorem isAbsolute_parent : Path.isAbsolute parent = Path.isAbsolute s.root := by
  rw [hParent.isAbsolute, target, Path.isAbsolute_join (Path.isAbsolute_ofPieces hNames)]

theorem lead_parent : Disk.lead s.origin (Disk.names parent) = s.base ++ above := by
  rw [base, ← lead_above hNames, names_parent hNames hParent, Disk.lead_append_dots hParent.dots]

theorem locate_temporary (hTag : '/' ∉ s.processTag.toList) {disk : Disk}
    (hHome : disk.home = s.disk.home) {k : DiskKey} :
    disk.locate (Path.join parent (Path.ofPieces [s.temporaryName last])) = .ok k ↔
      Disk.refusal? (Path.join parent (Path.ofPieces [s.temporaryName last])) = none ∧
      disk.Passes s.origin (Disk.names parent ++ [s.temporaryName last]) ∧
      k = s.base ++ above ++ [s.temporaryName last] := by
  have hName : ∀ name ∈ [s.temporaryName last], IsName name :=
    List.forall_mem_singleton.mpr (isName_temporaryName (hNames last (by simp)) hTag)
  have hAbsolute := isAbsolute_parent hNames hParent
  have hRoute := Disk.route_join_ofPieces parent (show ∀ name ∈ [] ++ _, IsName name from hName)
  rw [List.append_nil, List.nil_append] at hRoute
  rw [Disk.locate_eq_ok_iff, hRoute, Disk.start_eq hHome
      ((Path.isAbsolute_join (Path.isAbsolute_ofPieces hName)).trans hAbsolute), ← origin,
    Disk.lead_append, lead_parent hNames hParent, Disk.lead_of_isName hName]

theorem makeDirectories_parent (hFine : parent ≠ "" → Disk.refusal? parent = none) :
    s.disk.makeDirectories parent =
      s.disk.climb false s.origin ((Disk.names parent).map ([·])) := by
  rw [Disk.makeDirectories_eq hFine hParent.stretches, origin,
    Disk.start_eq rfl (isAbsolute_parent hNames hParent)]

end Directory

/-! ## What writing needs, and what it does -/

variable {text : String}

theorem Accepts.wrote (h : s.Accepts above last) (hNames : ∀ name ∈ above ++ [last], IsName name)
    (hTag : '/' ∉ s.processTag.toList) (text : String) :
    (s.writeAtomic (s.target above last) text).result = .ok () ∧
      s.Wrote (s.writeAtomic (s.target above last) text).store above last text := by
  obtain ⟨parent, dots, hParent, hTemporary⟩ := exists_parent hNames
  have hAbove := names_parent hNames hParent
  have hClear : s.disk.Clear s.origin (Disk.names parent) := Disk.Clear.of_append (hAbove ▸ h.clear)
  obtain ⟨disk₁, hClimb, hParentMade⟩ := hClear.climb_eq false
  have hMake : s.disk.makeDirectories parent = (.ok (), disk₁) := by
    rw [makeDirectories_parent hNames hParent (h.parentFine parent hParent.eq), hClimb]
  -- the parent leaves out dots only, which lead nowhere
  have hMade : s.disk.Made disk₁ (s.passed above) := by
    rw [passed, hAbove]
    exact hParentMade.append_dots h.origin hParent.dots
  have hTemporaryPath := (locate_temporary hNames hParent hTag hMade.home).mpr
    ⟨hTemporary ▸ h.temporaryFine, hParentMade.passes h.origin hClear.short h.temporaryShort, rfl⟩
  have hTargetPath := (locate_target hNames hMade.home).mpr
    ⟨h.targetFine, hMade.passes h.origin h.clear.short h.short, rfl⟩
  have hFree : disk₁.entry? (s.base ++ above ++ [s.temporaryName last]) = none := by
    rw [hMade.entries, if_neg h.temporaryApart, h.temporaryFree]
  have hTarget : disk₁.entry? (s.base ++ above ++ [last]) ≠ some .directory := by
    rw [hMade.entries, if_neg h.targetApart]
    exact h.targetFree
  have hOther : s.base ++ above ++ [s.temporaryName last] ≠ s.base ++ above ++ [last] := by
    simpa using s.temporaryName_ne last
  obtain ⟨disk₂, disk₃, hCreate, hRename, hHome, hEntries⟩ :=
    Disk.replace_eq (.text text) hTemporaryPath hTargetPath hFree hTarget hOther
  rw [← hTemporary] at hCreate hRename
  obtain ⟨hOk, hStore⟩ := Steps.writeAtomic ⟨hMake, hCreate, hRename⟩ hParent.eq
  refine ⟨hOk, ?_⟩
  rw [hStore]
  refine ⟨rfl, hHome.trans hMade.home, fun k => ?_⟩
  rw [hEntries, hMade.entries]

theorem accepts_of_writeAtomic (hNames : ∀ name ∈ above ++ [last], IsName name)
    (hTag : '/' ∉ s.processTag.toList)
    (h : (s.writeAtomic (s.target above last) text).result = .ok ()) : s.Accepts above last := by
  obtain ⟨parent, dots, hParent, hTemporary⟩ := exists_parent hNames
  have hAbove := names_parent hNames hParent
  obtain ⟨disk₁, disk₂, disk₃, hMake, hCreate, hRename⟩ := steps_of_writeAtomic hParent.eq h
  rw [hTemporary] at hCreate hRename
  have hFine : parent ≠ "" → Disk.refusal? parent = none :=
    Disk.refusal?_of_makeDirectories (by rw [hMake])
  rw [makeDirectories_parent hNames hParent hFine] at hMake
  have hClear := Disk.clear_of_climb (by rw [hMake])
  obtain ⟨disk₁', hClimb, hParentMade⟩ := hClear.climb_eq false
  obtain rfl : disk₁' = disk₁ := by
    rw [hMake] at hClimb
    exact (Prod.mk.inj hClimb).2.symm
  obtain ⟨_, hLocate, hFree, rfl⟩ := Disk.createFile_eq_ok_iff.mp hCreate
  obtain ⟨hTemporaryFine, hPasses, rfl⟩ :=
    (locate_temporary hNames hParent hTag hParentMade.home).mp hLocate
  have hOrigin := hClear.start_of_made hParentMade hPasses
  have hMade : s.disk.Made disk₁' (s.passed above) := by
    rw [passed, hAbove]
    exact hParentMade.append_dots hOrigin hParent.dots
  rw [hMade.entries] at hFree
  obtain ⟨_, _, _, -, hTargetPath, hTarget, -⟩ := Disk.rename_eq_ok_iff.mp hRename
  have hHome : (disk₁'.put (s.base ++ above ++ [s.temporaryName last])
      (.file (.text text))).home = s.disk.home := hMade.home
  obtain ⟨hTargetFine, hTargetPasses, rfl⟩ := (locate_target hNames hHome).mp hTargetPath
  have hOther : s.base ++ above ++ [last] ≠ s.base ++ above ++ [s.temporaryName last] := by
    simpa using (s.temporaryName_ne last).symm
  rw [Disk.entry?_put (by simp), if_neg hOther, hMade.entries] at hTarget
  refine {
    parentFine := fun other hSame => ?_
    temporaryFine := hTemporary ▸ hTemporaryFine
    targetFine := hTargetFine
    temporaryShort := (Disk.passes_append.mp hPasses).2.2.1
    short := (Disk.passes_append.mp hTargetPasses).2.2.1
    origin := hOrigin
    clear := hAbove ▸ hClear.append_dots hOrigin hParent.dots
    temporaryApart := fun hMem => ?_
    temporaryFree := ?_
    targetApart := fun hMem => ?_
    targetFree := ?_ }
  · obtain rfl : parent = other := Option.some.inj (hParent.eq.symm.trans hSame)
    exact hFine
  · rw [if_pos hMem] at hFree
    cases hFree
  · split at hFree
    · cases hFree
    · exact hFree
  · exact hTarget (if_pos hMem)
  · split at hTarget
    · exact absurd rfl hTarget
    · exact hTarget

/-- A store that differs in its disk accepts a file under the same paths. -/
theorem Accepts.transfer (h : s.Accepts above last)
    (hSame : s' = { s with disk := s'.disk, written := s'.written })
    (hHome : s'.disk.home = s.disk.home) (hOrigin : s'.disk.entry? s.origin = some .directory)
    (hClear : s'.disk.Clear s.origin (Disk.names s.root ++ above))
    (hTemporary : s'.disk.entry? (s.base ++ above ++ [s.temporaryName last]) = none)
    (hTarget : s'.disk.entry? (s.base ++ above ++ [last]) ≠ some .directory) :
    s'.Accepts above last := by
  have hRoot : s'.root = s.root := by rw [hSame]
  have hStart := origin_congr hHome hRoot
  have hBase := base_congr hHome hRoot
  have hPassed := passed_congr hHome hRoot above
  have hPath : s'.target above last = s.target above last := by rw [target, target, hRoot]
  have hName : s'.temporaryName last = s.temporaryName last := by
    rw [hSame]
    rfl
  have hTemporaryPath (path : String) : s'.temporaryPath path = s.temporaryPath path := by
    rw [hSame]
    rfl
  constructor
  case parentFine =>
    rw [hPath]
    exact h.parentFine
  case temporaryFine =>
    rw [hPath, hTemporaryPath]
    exact h.temporaryFine
  case targetFine =>
    rw [hPath]
    exact h.targetFine
  case temporaryShort =>
    rw [hName]
    exact h.temporaryShort
  case short => exact h.short
  case origin => rwa [hStart]
  case clear => rwa [hStart, hRoot]
  case temporaryApart =>
    rw [hName, hBase, hPassed]
    exact h.temporaryApart
  case temporaryFree => rwa [hName, hBase]
  case targetApart =>
    rw [hBase, hPassed]
    exact h.targetApart
  case targetFree => rwa [hBase]

/-! ## What stays -/

namespace Wrote

variable (h : s.Wrote s' above last text) (hAccepts : s.Accepts above last)

include h

theorem root : s'.root = s.root := by rw [h.eq]

theorem processTag : s'.processTag = s.processTag := by rw [h.eq]

theorem written : s'.written = s.written := by rw [h.eq]

include hAccepts

theorem keeps : s.disk.Keeps s'.disk := by
  refine ⟨h.home, fun k hDirectory => ?_⟩
  rw [h.entries, hDirectory, ite_self, if_neg]
  rintro rfl
  exact hAccepts.targetFree hDirectory

/-- No file but the one that is written comes or goes. -/
theorem file_iff {k : DiskKey} {content : FileContent} :
    s'.disk.entry? k = some (.file content) ↔
      if k = s.base ++ above ++ [last] then content = .text text
      else s.disk.entry? k = some (.file content) := by
  rw [h.entries]
  split
  · rw [Option.some.injEq, DiskEntry.file.injEq, eq_comm]
  · split
    · next hMem => simp [hAccepts.clear.noFile k hMem content]
    · rfl

theorem file_kept {k : DiskKey} {content : FileContent} (hOther : k ≠ s.base ++ above ++ [last])
    (hFile : s.disk.entry? k = some (.file content)) :
    s'.disk.entry? k = some (.file content) := by
  rwa [h.file_iff hAccepts, if_neg hOther]

theorem passed_directory {k : DiskKey} (hMem : k ∈ s.passed above) :
    s'.disk.entry? k = some .directory := by
  rw [h.entries, if_neg, if_pos hMem]
  rintro rfl
  exact hAccepts.targetApart hMem

theorem readText_kept {path other : String} {k : DiskKey} (hLocate : s.disk.locate path = .ok k)
    (hOther : k ≠ s.base ++ above ++ [last]) (hText : s.disk.readText path = .ok other) :
    s'.disk.readText path = .ok other := by
  obtain ⟨found, hFound, hFile⟩ := Disk.readText_eq_ok_iff.mp hText
  obtain rfl : k = found := Except.ok.inj (hLocate.symm.trans hFound)
  exact Disk.readText_eq_ok_iff.mpr
    ⟨k, (h.keeps hAccepts).locate hLocate, h.file_kept hAccepts hOther hFile⟩

/-- The text is read under the path that it was written to. -/
theorem readText_target (hNames : ∀ name ∈ above ++ [last], IsName name) :
    s'.disk.readText (s.target above last) = .ok text := by
  have hStart := (h.keeps hAccepts).directory _ hAccepts.origin
  have hEnd : s'.disk.entry? (Disk.lead s.origin (Disk.names s.root ++ above)) =
      some .directory := by
    by_cases hNil : Disk.names s.root ++ above = []
    · rw [hNil]
      exact hStart
    · exact h.passed_directory hAccepts (Disk.lead_mem_trail hNil)
  have hPasses : s'.disk.Passes s.origin (Disk.names s.root ++ above ++ [last]) :=
    Disk.passes_append.mpr ⟨Disk.passes_of_trail hStart hAccepts.clear.short fun k hMem =>
      h.passed_directory hAccepts hMem, hEnd, hAccepts.short, trivial⟩
  refine Disk.readText_eq_ok_iff.mpr ⟨_, (locate_target hNames h.home).mpr
    ⟨hAccepts.targetFine, hPasses, rfl⟩, ?_⟩
  rw [h.entries, if_pos rfl]

end Wrote

end FileStore

end Bindery
