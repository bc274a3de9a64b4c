import Bindery.Proofs.Emission.Ending
import Bindery.Proofs.Emission.Removal
import Bindery.Proofs.Emission.Replacing

/-! # What remains at the end of a run

A run that sweeps its root leaves its own files there, its manifest, and the files that are named
neither like sources nor like temporary files. A directory remains only if something remains in it.

Whether a file is one of the run's own is told by the parts of its path, so a unit has to be spelled
with the names that lead to its file. One that takes a step up is swept by the run that wrote it.
-/

namespace Bindery.FileStore

open Bindery.Path (IsName)

variable {s : FileStore} {root names above : DiskKey} {name : String} {content : FileContent}

/-! ## The manifest -/

theorem placeOf_ne_manifest (s : FileStore) (key : UnitKey) (root : DiskKey) :
    s.placeOf key ≠ root ++ [Manifest.fileName] := by
  obtain ⟨above, stem, hPlace⟩ := s.exists_placeOf_eq key
  rw [hPlace]
  intro hSame
  have hName := (List.cons.inj (List.append_inj' hSame rfl).2).1
  have hLast := congrArg (fun name : String => name.toList.getLast?) hName
  have hSuffix : suffix.toList = ['.', 'k', 't'] := by decide
  have hManifest : Manifest.fileName.toList.getLast? = some 'n' := rfl
  simp [hSuffix, hManifest] at hLast

/-! ## The end of a run -/

/-- A unit whose file comes to stand below the root is spelled with the names that lead there. -/
def Spelled (s : FileStore) (root : DiskKey) (key : UnitKey) : Prop :=
  ∀ names, s.placeOf key = root ++ names →
    Path.parts (s.pathFor key) = Path.parts (s.pathOf names)

theorem placeOf_of_isPlain {key : UnitKey} (h : key.IsPlain) :
    s.placeOf key = s.base ++ key.names := by
  rw [placeOf, pathFor, UnitKey.relativePath_eq, Disk.place_join_ofPieces s.root h.isName]
  rfl

theorem spelled_of_isPlain {key : UnitKey} (h : key.IsPlain) : s.Spelled s.base key := by
  intro names hPlace
  rw [placeOf_of_isPlain h] at hPlace
  rw [pathFor, UnitKey.relativePath_eq, ← List.append_cancel_left hPlace, pathOf]
  simp [names_ne_nil]

namespace Filled

variable {s₀ : FileStore} {units : List GeneratedUnit} {u : GeneratedUnit}
  (h : Filled s₀ s units)

include h

theorem pathOf (names : DiskKey) : s.pathOf names = s₀.pathOf names := by
  rw [FileStore.pathOf, h.root, ← FileStore.pathOf]

theorem lookup_root (hRoot : s₀.disk.lookup s₀.root = .ok (root, .directory)) :
    s.disk.lookup s.root = .ok (root, .directory) := by
  obtain ⟨hLocate, hEntry⟩ := Disk.lookup_eq_ok_iff.mp hRoot
  rw [h.root]
  exact Disk.lookup_eq_ok_iff.mpr ⟨h.keeps.locate hLocate, h.keeps.directory _ hEntry⟩

theorem isStale_of_unit (hSpelled : s₀.Spelled root u.key) (hUnit : u ∈ units)
    (hPlace : s₀.placeOf u.key = root ++ names) : s.isStale names = false := by
  have hKept : (s.written.keys.any fun key =>
      Path.parts (s.pathFor key) = Path.parts (s.pathOf names)) = true := by
    rw [List.any_eq_true]
    refine ⟨u.key, (h.keys u.key).mpr (.inr ⟨u, hUnit, rfl⟩), ?_⟩
    rw [h.pathFor, h.pathOf, hSpelled names hPlace, decide_eq_true_eq]
  simp only [isStale, hKept, Bool.not_true, Bool.and_false]

variable (hFresh : s₀.written = .empty)

include hFresh

theorem isStale_iff_of_free (hNames : ∀ piece ∈ above ++ [name], IsName piece)
    (hFree : ∀ u ∈ units, s₀.placeOf u.key ≠ s₀.base ++ (above ++ [name])) :
    s.isStale (above ++ [name]) = true ↔ LooksGenerated name := by
  rw [isStale_iff hNames, and_iff_left_iff_imp]
  intro _ key hMem hParts
  obtain hOld | ⟨u, hUnit, rfl⟩ := (h.keys key).mp hMem
  · rw [hFresh] at hOld
    cases hOld
  · refine hFree u hUnit ?_
    rw [h.pathFor, h.pathOf] at hParts
    rw [FileStore.placeOf, Disk.place_eq_of_parts hParts, FileStore.pathOf,
      if_neg (by simp), Disk.place_join_ofPieces _ hNames]
    rfl

section Sweep

variable (hTree : s₀.disk.IsTree) (hRoot : s₀.disk.lookup s₀.root = .ok (s₀.base, .directory))
  (hSpelled : ∀ u ∈ units, s₀.Spelled s₀.base u.key) (hRemovable : s.Removable s₀.base)

include hSpelled

omit hFresh in
theorem old_of_stale (hMem : (names, .file content) ∈ s.disk.below s₀.base)
    (hStale : s.isStale names = true) : (names, .file content) ∈ s₀.disk.below s₀.base := by
  cases hLast : s₀.lastAt? units (s₀.base ++ names) with
  | some u =>
    obtain ⟨hUnit, hPlace⟩ := lastAt?_eq_some hLast
    rw [h.isStale_of_unit (hSpelled u hUnit) hUnit hPlace] at hStale
    cases hStale
  | none =>
    rw [Disk.mem_below_iff, h.file_iff, hLast] at hMem
    exact Disk.mem_below_iff.mpr hMem

omit hFresh in
include hTree in
theorem isName_of_stale (hMem : (names, .file content) ∈ s.disk.below s₀.base)
    (hStale : s.isStale names = true) : ∀ piece ∈ names, IsName piece :=
  hTree.isName_below (h.old_of_stale hSpelled hMem hStale)

include hTree hRoot hRemovable

theorem file_removeStale_iff :
    (above ++ [name], .file content) ∈ s.removeStale.1.disk.below s₀.base ↔
      (∃ u, s₀.lastAt? units (s₀.base ++ (above ++ [name])) = some u ∧ content = .text u.text) ∨
      ((above ++ [name], .file content) ∈ s₀.disk.below s₀.base ∧
        (∀ u ∈ units, s₀.placeOf u.key ≠ s₀.base ++ (above ++ [name])) ∧
        ¬ LooksGenerated name) := by
  rw [FileStore.file_removeStale_iff hRemovable (h.lookup_root hRoot) fun _ _ =>
    h.isName_of_stale hTree hSpelled]
  cases hLast : s₀.lastAt? units (s₀.base ++ (above ++ [name])) with
  | some u =>
    obtain ⟨hUnit, hPlace⟩ := lastAt?_eq_some hLast
    have hNot := h.isStale_of_unit (hSpelled u hUnit) hUnit hPlace
    have hTaken : ¬ ∀ u ∈ units, s₀.placeOf u.key ≠ s₀.base ++ (above ++ [name]) :=
      fun hFree => hFree u hUnit hPlace
    rw [Disk.mem_below_iff, h.file_iff, hLast]
    simp [hNot, hTaken]
  | none =>
    have hFree := lastAt?_eq_none_iff.mp hLast
    rw [Disk.mem_below_iff, h.file_iff, hLast, ← Disk.mem_below_iff]
    simp only [reduceCtorEq, false_and, exists_false, false_or]
    refine and_congr_right fun hOld => ?_
    rw [← h.isStale_iff_of_free hFresh (hTree.isName_below hOld) hFree, Bool.not_eq_true]
    exact (and_iff_right hFree).symm

variable (hTag : '/' ∉ s.processTag.toList) (hStale : s.cleanStale = true)
  (hFinish : s.finish.result = .ok ())

include hTag hStale hFinish

/-- The files at the end: those of the units, the manifest, and what may be kept of the old ones. -/
theorem file_finish_iff :
    (above ++ [name], .file content) ∈ s.finish.store.disk.below s₀.base ↔
      (∃ u, s₀.lastAt? units (s₀.base ++ (above ++ [name])) = some u ∧ content = .text u.text) ∨
      (s.manifest = true ∧ above ++ [name] = [Manifest.fileName] ∧
        content = .text s.manifestOf.toJson.pretty) ∨
      ((above ++ [name], .file content) ∈ s₀.disk.below s₀.base ∧
        (∀ u ∈ units, s₀.placeOf u.key ≠ s₀.base ++ (above ++ [name])) ∧
        ¬ (s.manifest = true ∧ above ++ [name] = [Manifest.fileName]) ∧ ¬ LooksGenerated name) := by
  have hKept : (above ++ [name], .file content) ∈ s.removeStale.1.disk.below s₀.base ↔ _ :=
    h.file_removeStale_iff hFresh hTree hRoot hSpelled hRemovable
  have hSome : above ++ [name] ≠ [] := by simp
  rw [Disk.mem_below_iff, and_iff_right hSome] at hKept
  rw [Disk.mem_below_iff, and_iff_right hSome, FileStore.file_finish_iff hTag hFinish, h.base,
    swept, if_pos hStale, hKept]
  simp only [List.append_cancel_left_eq]
  by_cases hIndex : s.manifest = true ∧ above ++ [name] = [Manifest.fileName]
  · rw [if_pos hIndex]
    constructor
    · exact fun hContent => .inr (.inl ⟨hIndex.1, hIndex.2, hContent⟩)
    · rintro (⟨u, hLast, -⟩ | ⟨-, -, hContent⟩ | ⟨-, -, hOther, -⟩)
      · rw [hIndex.2] at hLast
        exact absurd (lastAt?_eq_some hLast).2 (placeOf_ne_manifest _ _ _)
      · exact hContent
      · exact absurd hIndex hOther
  · rw [if_neg hIndex]
    constructor
    · rintro (hUnit | ⟨hOld, hFree, hName⟩)
      · exact .inl hUnit
      · exact .inr (.inr ⟨hOld, hFree, hIndex, hName⟩)
    · rintro (hUnit | ⟨hOn, hSame, -⟩ | ⟨hOld, hFree, -, hName⟩)
      · exact .inl hUnit
      · exact absurd ⟨hOn, hSame⟩ hIndex
      · exact .inr ⟨hOld, hFree, hName⟩

omit hFresh in
/-- Something is left in a directory that is left, unless it is made again for the manifest. -/
theorem below_ne_nil (hMem : (names, .directory) ∈ s.finish.store.disk.below s₀.base) :
    s.finish.store.disk.below (s₀.base ++ names) ≠ [] ∨
      s.manifest = true ∧ s₀.base ++ names ∈ s₀.passed [] := by
  obtain ⟨hSome, hEntry⟩ := Disk.mem_below_iff.mp hMem
  rw [← h.passed]
  refine (directory_finish hTag hFinish hEntry).imp_left fun hLeft => ?_
  have hSwept : s.swept = s.removeStale.1 := if_pos hStale
  rw [hSwept] at hLeft
  obtain ⟨rest, content, hFile⟩ := exists_file_removeStale hRemovable (h.lookup_root hRoot)
    (fun _ _ => h.isName_of_stale hTree hSpelled) (Disk.mem_below_iff.mpr ⟨hSome, hLeft⟩)
  have hThere := (Disk.mem_below_iff.mp hFile).2
  have hRest : rest ≠ [] := by
    rintro rfl
    rw [List.append_nil, hLeft] at hThere
    cases hThere
  -- the manifest may have been written over the file
  obtain ⟨other, hOther⟩ : ∃ other,
      s.finish.store.disk.entry? (s₀.base ++ (names ++ rest)) = some (.file other) := by
    simp only [FileStore.file_finish_iff hTag hFinish]
    split
    · exact ⟨_, rfl⟩
    · exact ⟨content, hSwept ▸ hThere⟩
  rw [← List.append_assoc] at hOther
  exact List.ne_nil_of_mem (Disk.mem_below_iff.mpr ⟨hRest, hOther⟩)

end Sweep

end Filled

/-- A run that sweeps its root leaves exactly these files there: those of its units, its manifest,
and the files of before that are in no unit's place and are named neither like sources nor like
temporary files. Something stands in every directory that it leaves, unless the path of the root
itself passes through that directory and is followed for the manifest. -/
theorem finish_leaves_exactly (disk : Disk) (settings : OutputSettings) (pid : Nat) (clock : String)
    (units : List GeneratedUnit) (root : DiskKey) (hTree : disk.IsTree)
    (hRoot : disk.lookup settings.dir = .ok (root, .directory))
    (hStale : settings.cleanStale = true) :
    let fresh := ofSettings disk settings (toString pid) clock
    let run := Store.emitAll fresh units
    let left := run.2.finish.store.disk
    (∀ u ∈ units, fresh.Spelled root u.key) →
    (∀ result ∈ run.1, result = .ok ()) → run.2.Removable root →
    run.2.finish.result = .ok () →
      (∀ above name content, (above ++ [name], .file content) ∈ left.below root ↔
        (∃ u, fresh.lastAt? units (root ++ (above ++ [name])) = some u ∧
          content = .text u.text) ∨
        (settings.manifest = true ∧ above ++ [name] = [Manifest.fileName] ∧
          content = .text run.2.manifestOf.toJson.pretty) ∨
        ((above ++ [name], .file content) ∈ disk.below root ∧
          (∀ u ∈ units, fresh.placeOf u.key ≠ root ++ (above ++ [name])) ∧
          ¬ (settings.manifest = true ∧ above ++ [name] = [Manifest.fileName]) ∧
          ¬ LooksGenerated name)) ∧
      ∀ names, (names, .directory) ∈ left.below root → left.below (root ++ names) ≠ [] ∨
        settings.manifest = true ∧ root ++ names ∈ fresh.passed [] := by
  intro fresh run left hSpelled hEmits hRemovable hFinish
  obtain rfl : root = fresh.base := Disk.locate_eq_place (Disk.lookup_eq_ok_iff.mp hRoot).1
  have hFilled : Filled fresh run.2 units := (Filled.refl fresh).emitAll hEmits
  have hTag : '/' ∉ run.2.processTag.toList := by
    rw [hFilled.eq]
    exact slash_notMem_toString pid
  have hSweeps : run.2.cleanStale = true := by
    rw [hFilled.eq]
    exact hStale
  have hManifest : run.2.manifest = settings.manifest := by
    rw [hFilled.eq]
    rfl
  rw [← hManifest]
  exact ⟨fun above name content =>
      hFilled.file_finish_iff rfl hTree hRoot hSpelled hRemovable hTag hSweeps hFinish,
    fun names => hFilled.below_ne_nil hTree hRoot hSpelled hRemovable hTag hSweeps hFinish⟩

/-- The keys of entries that a store has, or that it has behind units of some keys. -/
def known (s : FileStore) (keys : List UnitKey) : List DiskKey :=
  s.disk.entries.keys ++ keys.flatMap fun key => (s.base ++ key.names) :: s.passed key.directories

theorem Grown.mem_known {s₀ : FileStore} {keys : List UnitKey} {k : DiskKey} {entry : DiskEntry}
    (h : Grown s₀ s keys) (hSome : k ≠ []) (hEntry : s.disk.entry? k = some entry) :
    k ∈ s₀.known keys := by
  refine List.mem_append.mpr ?_
  rcases h.explained k with hOld | ⟨-, key, hKey, hPassed⟩ | ⟨-, key, hKey, hFile⟩
  · exact .inl (Disk.mem_keys_of_entry hSome (hOld.symm.trans hEntry))
  · exact .inr (List.mem_flatMap.mpr ⟨key, hKey, List.mem_cons_of_mem _ hPassed⟩)
  · exact .inr (List.mem_flatMap.mpr ⟨key, hKey, hFile ▸ List.mem_cons_self⟩)

/-- The units of the four whose keys are their own. -/
def threeUnits : List GeneratedUnit := fourUnits.eraseIdx 2

theorem mem_fourUnits {u : GeneratedUnit} (h : u ∈ threeUnits) : u ∈ fourUnits :=
  List.mem_of_mem_eraseIdx h

theorem unobstructed_threeUnits :
    (ofSettings usedDisk sweeping (toString 7) "").Unobstructed threeUnits := fun u hUnit n hLess =>
  unobstructed_fourUnits u (mem_fourUnits hUnit) n (Nat.lt_succ_of_lt hLess)

theorem isPlain_threeUnits : ∀ u ∈ threeUnits, u.key.IsPlain := fun u hUnit =>
  isPlain_fourUnits u (mem_fourUnits hUnit)

theorem removable_threeUnits :
    (Store.emitAll (ofSettings usedDisk sweeping (toString 7) "") threeUnits).2.Removable
      ["w", "out"] := by
  have hGrown := (unobstructed_threeUnits.emitAll (slash_notMem_toString 7) isPlain_threeUnits
    rfl).2
  have hReach : ∀ k ∈ (ofSettings usedDisk sweeping (toString 7) "").known
      (threeUnits.map (·.key)), (ofSettings usedDisk sweeping (toString 7) "").isOutOfReach
        (k.drop 2) = false := by
    simp only [isOutOfReach_eq_false_iff, Disk.refusal?_eq_none_iff, known, pathOf, Path.join,
      passed, base, origin, Disk.start, Path.isAbsolute_eq, Path.endsWith_slash_eq]
    decide +kernel
  refine removable_of_reach fun names entry hMem => ?_
  have hKnown := hGrown.mem_known (by simp) (Disk.mem_below_iff.mp hMem).2
  rw [isOutOfReach_congr hGrown.root]
  exact hReach _ hKnown

theorem emits_threeUnits :
    ∀ result ∈ (Store.emitAll (ofSettings usedDisk sweeping (toString 7) "") threeUnits).1,
      result = .ok () := by
  have hDisk := (unobstructed_threeUnits.emitAll (slash_notMem_toString 7) isPlain_threeUnits rfl).1
  obtain ⟨hResults, hVerdicts, -⟩ :=
    (emitAll_agrees usedDisk sweeping 7 "" threeUnits isPlain_threeUnits).2 hDisk
  have hVerdict : verdicts [] threeUnits = [.ok (), .ok (), .ok ()] := rfl
  rw [hResults, hVerdicts, hVerdict]
  simp

theorem finish_threeUnits :
    (Store.emitAll (ofSettings usedDisk sweeping (toString 7) "") threeUnits).2.finish.result =
      .ok () := by
  have hReady := (ready_usedDisk _ List.mem_cons_self).mono (show 4 ≤ 5 by decide)
  refine unobstructed_threeUnits.finish (slash_notMem_toString 7) isPlain_threeUnits rfl hReady ?_
  simp only [base, origin, Disk.start, Path.isAbsolute_eq]
  decide +kernel

/-- Three units are written, over an old file too, and what was stale is gone. -/
theorem finish_leaves_exactly_threeUnits :
    let fresh := ofSettings usedDisk sweeping (toString 7) ""
    let run := Store.emitAll fresh threeUnits
    let left := run.2.finish.store.disk
    usedDisk.IsTree ∧ usedDisk.lookup sweeping.dir = .ok (["w", "out"], .directory) ∧
      sweeping.cleanStale = true ∧ (∀ u ∈ threeUnits, fresh.Spelled ["w", "out"] u.key) ∧
      (∀ result ∈ run.1, result = .ok ()) ∧ run.2.Removable ["w", "out"] ∧
      run.2.finish.result = .ok () ∧
      (∃ u ∈ threeUnits, u.key = ⟨"a", "A"⟩ ∧
        (["a", "A.kt"], .file (.text u.text)) ∈ left.below ["w", "out"]) ∧
      ∀ content, (["z", "Z.kt"], .file content) ∉ left.below ["w", "out"] := by
  have hTree : usedDisk.IsTree := by decide +kernel
  have hRoot : usedDisk.lookup sweeping.dir = .ok (["w", "out"], .directory) := by
    rw [Disk.lookup_eq_ok_iff, Disk.locate_eq_ok_iff_text]
    decide +kernel
  have hBase : ["w", "out"] = (ofSettings usedDisk sweeping (toString 7) "").base :=
    Disk.locate_eq_place (Disk.lookup_eq_ok_iff.mp hRoot).1
  have hSpelled : ∀ u ∈ threeUnits,
      (ofSettings usedDisk sweeping (toString 7) "").Spelled ["w", "out"] u.key := fun u hUnit =>
    hBase.symm ▸ spelled_of_isPlain (isPlain_threeUnits u hUnit)
  obtain ⟨hFiles, -⟩ := finish_leaves_exactly usedDisk sweeping 7 "" threeUnits ["w", "out"] hTree
    hRoot rfl hSpelled emits_threeUnits removable_threeUnits finish_threeUnits
  dsimp only
  refine ⟨hTree, hRoot, rfl, hSpelled, emits_threeUnits, removable_threeUnits, finish_threeUnits,
    ?_, fun content hMem => ?_⟩
  · have hPlace : (ofSettings usedDisk sweeping (toString 7) "").placeOf ⟨"a", "A"⟩ =
        ["w", "out"] ++ (["a"] ++ ["A.kt"]) := by
      rw [placeOf_of_isPlain (by decide), ← hBase]
      decide
    have hLast : (ofSettings usedDisk sweeping (toString 7) "").lastAt? threeUnits
          (["w", "out"] ++ (["a"] ++ ["A.kt"])) =
        some ⟨"fourth", { package := "a", name := "A" }, []⟩ :=
      List.find?_cons_of_pos (decide_eq_true hPlace)
    have hFile := (hFiles ["a"] "A.kt" _).mpr (.inl ⟨_, hLast, rfl⟩)
    rw [List.singleton_append] at hFile
    exact ⟨_, (lastAt?_eq_some hLast).1, rfl, hFile⟩
  · have hOther : ∀ u ∈ threeUnits, u.key.names ≠ ["z"] ++ ["Z.kt"] := by decide +kernel
    rw [← List.singleton_append] at hMem
    rcases (hFiles ["z"] "Z.kt" content).mp hMem with
      ⟨u, hLast, -⟩ | ⟨-, hIndex, -⟩ | ⟨-, -, -, hName⟩
    · obtain ⟨hUnit, hPlace⟩ := lastAt?_eq_some hLast
      rw [placeOf_of_isPlain (isPlain_threeUnits u hUnit), ← hBase] at hPlace
      exact hOther u hUnit (List.append_cancel_left hPlace)
    · exact absurd hIndex (by decide)
    · exact hName (.inl ⟨"Z", by decide, by decide⟩)

/-! ## A step up -/

def keptDisk : Disk where
  entries := .ofList [(["w"], .directory), (["w", "out"], .directory),
    (["w", "out", "keep.txt"], .file (.text "x"))]
  home := ["w"]

def sweepingOnly : OutputSettings := { dir := "out", cleanStale := true, manifest := false }

/-- A unit whose name takes a step up. -/
def detour : GeneratedUnit where
  generator := "g"
  file := { package := "", name := "b/../c", types := [{ kind := .interfaceType, name := "C" }] }

/-- The kept disk with the directory that the unit passes through. -/
def passedDisk : Disk := keptDisk.put ["w", "out", "b"] .directory

def detouring : FileStore := ofSettings keptDisk sweepingOnly (toString 7) ""

theorem pathFor_detour : detouring.pathFor detour.key = "out/b/../c.kt" := by
  simp only [pathFor, Path.join, Path.isAbsolute_eq, Path.endsWith_slash_eq]
  decide +kernel

theorem emit_detour : (detouring.emit detour).result = .ok () ∧
    ∀ k, (detouring.emit detour).store.disk.entry? k =
      if k = ["w", "out", "c.kt"] then some (.file (.text detour.text))
      else passedDisk.entry? k := by
  have hParent : Path.parent? "out/b/../c.kt" = some "out/b/.." := by
    simp only [Path.parent?, Path.isAbsolute_eq]
    decide +kernel
  have hTemporary : detouring.temporaryPath "out/b/../c.kt" = "out/b/../c.kt.sealanttmp.7.0" := by
    simp only [temporaryPath, Path.withFileName, hParent, Path.join, Path.isAbsolute_eq,
      Path.endsWith_slash_eq]
    decide +kernel
  have hMake : keptDisk.makeDirectories "out/b/.." = (.ok (), passedDisk) := by
    rw [Disk.makeDirectories_eq (fun _ => Disk.refusal?_eq_none_iff.mpr (by decide +kernel))
      (by decide +kernel), Disk.start, Path.isAbsolute_eq]
    rfl
  have hSource : passedDisk.locate "out/b/../c.kt.sealanttmp.7.0" =
      .ok ["w", "out", "c.kt.sealanttmp.7.0"] := by
    rw [Disk.locate_eq_ok_iff_text]
    decide +kernel
  have hTarget : passedDisk.locate "out/b/../c.kt" = .ok ["w", "out", "c.kt"] := by
    rw [Disk.locate_eq_ok_iff_text]
    decide +kernel
  obtain ⟨disk₂, disk₃, hCreate, hRename, -, hEntries⟩ := Disk.replace_eq (.text detour.text)
    hSource hTarget (by decide +kernel) (by decide +kernel) (by decide +kernel)
  rw [← hTemporary] at hCreate hRename
  obtain ⟨hOk, hStore⟩ := Steps.writeAtomic ⟨hMake, hCreate, hRename⟩ hParent
  rw [← pathFor_detour] at hOk hStore
  have hFind : detouring.written.get? detour.key = none := rfl
  simp only [emit, hFind, hOk, hStore]
  exact ⟨trivial, hEntries⟩

def detoured : FileStore := (detouring.emit detour).store

theorem filled_detoured : Filled detouring detoured [detour] :=
  (Filled.refl detouring).emit emit_detour.1

theorem mem_below_detoured {names : DiskKey} {entry : DiskEntry}
    (h : (names, entry) ∈ detoured.disk.below ["w", "out"]) :
    names ∈ [["b"], ["c.kt"], ["keep.txt"]] := by
  have hPassed : ∀ e ∈ passedDisk.below ["w", "out"], e.1 ∈ [["b"], ["c.kt"], ["keep.txt"]] := by
    decide +kernel
  obtain ⟨hSome, hEntry⟩ := Disk.mem_below_iff.mp h
  rw [detoured, emit_detour.2] at hEntry
  split at hEntry
  · next hFile => simp [List.append_cancel_left (hFile : _ = ["w", "out"] ++ ["c.kt"])]
  · exact hPassed _ (Disk.mem_below_iff.mpr ⟨hSome, hEntry⟩)

theorem removable_detoured : detoured.Removable ["w", "out"] := by
  have hReach : ∀ names ∈ [["b"], ["c.kt"], ["keep.txt"]],
      detouring.isOutOfReach names = false := by
    simp only [isOutOfReach_eq_false_iff, Disk.refusal?_eq_none_iff, pathOf, Path.join,
      Path.isAbsolute_eq, Path.endsWith_slash_eq]
    decide +kernel
  refine removable_of_reach fun names entry hMem => ?_
  rw [isOutOfReach_congr filled_detoured.root]
  exact hReach names (mem_below_detoured hMem)

/-- The file of the unit is not spelled like the unit, which passes through another directory. -/
theorem isStale_detoured : detoured.isStale ["c.kt"] = true := by
  rw [← List.nil_append ["c.kt"]]
  refine (isStale_iff (by decide)).mpr ⟨.inl ⟨"c", by decide, by decide⟩, fun key hKey => ?_⟩
  obtain hNone | ⟨u, hUnit, rfl⟩ := (filled_detoured.keys key).mp hKey
  · cases hNone
  · obtain rfl : u = detour := by simpa using hUnit
    rw [filled_detoured.pathFor, pathFor_detour, filled_detoured.pathOf]
    simp only [pathOf, Path.parts, Path.join, Path.isAbsolute_eq, Path.endsWith_slash_eq]
    decide +kernel

/-- The unit is written to a place below the root, and the run that wrote it sweeps it. -/
theorem finish_sweeps_detour :
    let fresh := ofSettings keptDisk sweepingOnly (toString 7) ""
    let run := Store.emitAll fresh [detour]
    let left := run.2.finish.store.disk
    keptDisk.IsTree ∧ keptDisk.lookup sweepingOnly.dir = .ok (["w", "out"], .directory) ∧
      run.1 = [.ok ()] ∧ run.2.Removable ["w", "out"] ∧ run.2.finish.result = .ok () ∧
      fresh.placeOf detour.key = ["w", "out"] ++ ["c.kt"] ∧
      ∀ content, (["c.kt"], .file content) ∉ left.below ["w", "out"] := by
  have hRun : Store.emitAll (ofSettings keptDisk sweepingOnly (toString 7) "") [detour] =
      ([.ok ()], detoured) := by
    rw [← emit_detour.1]
    rfl
  have hRoot : detouring.disk.lookup detouring.root = .ok (["w", "out"], .directory) := by
    rw [Disk.lookup_eq_ok_iff, Disk.locate_eq_ok_iff_text]
    decide +kernel
  have hPlace : detouring.placeOf detour.key = ["w", "out"] ++ ["c.kt"] := by
    rw [placeOf, pathFor_detour, Disk.place, Disk.start, Path.isAbsolute_eq]
    decide +kernel
  have hFlags : detoured.cleanStale = true ∧ detoured.manifest = false := by
    rw [filled_detoured.eq]
    exact ⟨rfl, rfl⟩
  have hTag : '/' ∉ detoured.processTag.toList := by
    rw [filled_detoured.eq]
    exact slash_notMem_toString 7
  have hFinish : detoured.finish.result = .ok () := by
    have hSwept := detoured.swept_swept
    rw [detoured.finish_eq.1, writeManifest, if_neg]
    rw [hSwept.eq]
    simp [hFlags.2]
  have hNamed : ∀ names content, (names, .file content) ∈ detoured.disk.below ["w", "out"] →
      detoured.isStale names = true → ∀ piece ∈ names, IsName piece := by
    intro names content hMem _
    have hNames : ∀ names ∈ [["b"], ["c.kt"], ["keep.txt"]], ∀ piece ∈ names, IsName piece := by
      decide
    exact hNames names (mem_below_detoured hMem)
  simp only [hRun]
  refine ⟨by decide +kernel, hRoot, trivial, removable_detoured, hFinish, hPlace, ?_⟩
  intro content hMem
  obtain ⟨hSome, hFile⟩ := Disk.mem_below_iff.mp hMem
  rw [file_finish_iff hTag hFinish, if_neg (by simp [hFlags.2]), swept, if_pos hFlags.1] at hFile
  have hStays := ((file_removeStale_iff removable_detoured (filled_detoured.lookup_root hRoot)
    hNamed).mp (Disk.mem_below_iff.mpr ⟨hSome, hFile⟩)).2
  have hStale := isStale_detoured
  rw [hStays] at hStale
  cases hStale

end Bindery.FileStore
