import Bindery.Proofs.Emission.Obstruction

/-! # A dry run tells what is written

A sequence of units is answered alike on disk and in memory, and afterwards the disk holds what the
memory holds. The disk refuses nothing if every unit alone could have been written to it.
-/

namespace Bindery.FileStore

/-- A fresh store on a disk and a fresh one in memory agree on every sequence of units, as long as
no operation of the disk fails. None fails if nothing stands in the way of any unit. -/
theorem emitAll_agrees (disk : Disk) (settings : OutputSettings) (pid : Nat) (clock : String)
    (units : List GeneratedUnit) (hPlain : ∀ u ∈ units, u.key.IsPlain) :
    let fresh := ofSettings disk settings (toString pid) clock
    let onDisk := Store.emitAll fresh units
    let inMemory := Store.emitAll MemoryStore.empty units
    (fresh.Unobstructed units → ∀ result ∈ onDisk.1, ¬ IsIo result) ∧
      ((∀ result ∈ onDisk.1, ¬ IsIo result) →
        onDisk.1 = inMemory.1 ∧ inMemory.1 = verdicts [] units ∧
        onDisk.2.entries.map (fun e => (⟨e.package, e.file⟩ : UnitKey)) = inMemory.2.keys ∧
        ∀ key ∈ inMemory.2.keys, ∃ text, inMemory.2.render? key = some text ∧
          onDisk.2.disk.readText (onDisk.2.pathFor key) = .ok text) := by
  intro fresh onDisk inMemory
  have hTag : '/' ∉ fresh.processTag.toList := slash_notMem_toString pid
  refine ⟨fun hFree => (hFree.emitAll hTag hPlain rfl).1, fun hDisk => ?_⟩
  obtain ⟨hResults, hMirrors⟩ := (mirrors_empty (s := fresh) rfl).emitAll hTag hPlain hDisk
  refine ⟨hResults, MemoryStore.holdsFirst_empty.emitAll units, ?_, fun key hMem => ?_⟩
  · rw [hMirrors.entries_eq, List.map_map, ← MemoryStore.map_key_units]
    rfl
  · rw [← MemoryStore.map_key_units] at hMem
    obtain ⟨u, hUnit, rfl⟩ := List.mem_map.mp hMem
    refine ⟨u.text, ?_, hMirrors.texts u hUnit⟩
    rw [MemoryStore.render?, MemoryStore.get?_key_of_mem hUnit]
    rfl

/-! ## Roots that are spelled by names -/

section Root

variable {s : FileStore} {root above : List String} {last : String}
  (hRoot : s.root = Path.ofPieces root) (hSome : root ≠ [])
  (hNames : ∀ name ∈ root ++ above ++ [last], Path.IsName name)

include hRoot hNames

theorem origin_of_names : s.origin = s.disk.home := by
  have hRelative : Path.isAbsolute (Path.ofPieces root) = false :=
    Path.isAbsolute_ofPieces fun name hMem => hNames name (by simp [hMem])
  rw [origin, Disk.start, hRoot, hRelative]
  rfl

theorem names_root_of_names : Disk.names s.root = root := by
  rw [hRoot, Disk.names_ofPieces fun name hMem => hNames name (by simp [hMem])]

theorem base_of_names : s.base = s.disk.home ++ root := by
  rw [base, origin_of_names hRoot hNames, names_root_of_names hRoot hNames,
    Disk.lead_of_isName fun name hMem => hNames name (by simp [hMem])]

include hSome

theorem target_of_names : s.target above last = Path.ofPieces (root ++ above ++ [last]) := by
  rw [List.append_assoc] at hNames ⊢
  rw [target, hRoot, Disk.join_ofPieces hSome (by simp) hNames]

theorem temporaryPath_of_names (hTag : '/' ∉ s.processTag.toList) :
    s.temporaryPath (s.target above last) =
      Path.ofPieces (root ++ above ++ [s.temporaryName last]) := by
  have hBelow : ∀ name ∈ above ++ [last], Path.IsName name := fun name hMem =>
    hNames name (by
      rw [List.append_assoc]
      exact List.mem_append_right _ hMem)
  obtain ⟨parent, dots, hIsParent, hPath⟩ := exists_parent (s := s) hBelow
  have hParent := hIsParent.eq
  rw [target_of_names hRoot hSome hNames, Path.parent?_ofPieces (by simp [hSome]) hNames] at hParent
  rw [hPath, ← Option.some.inj hParent, Disk.join_ofPieces (by simp [hSome]) (by simp)]
  refine List.forall_mem_append.mpr ⟨fun name hMem => hNames name ?_, ?_⟩
  · exact List.mem_append_left _ hMem
  · exact List.forall_mem_singleton.mpr (isName_temporaryName (hNames last (by simp)) hTag)

/-- Below a root of names, a unit is accepted if no path is refused, no file is on the way, and both
names are free. -/
theorem accepts_of_names (hTag : '/' ∉ s.processTag.toList)
    (hFine : ∀ names ∈ [root ++ above, root ++ above ++ [s.temporaryName last],
      root ++ above ++ [last]], Disk.refusal? (Path.ofPieces names) = none)
    (hShort : ∀ name ∈ [s.temporaryName last, last], name.utf8ByteSize ≤ Disk.maxNameLength)
    (hHome : s.disk.entry? s.disk.home = some .directory)
    (hClear : s.disk.Clear s.disk.home (root ++ above))
    (hTemporary : s.disk.entry? (s.disk.home ++ root ++ above ++ [s.temporaryName last]) = none)
    (hTarget : s.disk.entry? (s.disk.home ++ root ++ above ++ [last]) ≠ some .directory) :
    s.Accepts above last := by
  have hOrigin := origin_of_names hRoot hNames
  have hNamesRoot := names_root_of_names hRoot hNames
  have hBase := base_of_names hRoot hNames
  have hTargetPath := target_of_names hRoot hSome hNames
  have hApart (name : String) : s.base ++ above ++ [name] ∉ s.passed above := by
    rw [hBase, passed, hOrigin, hNamesRoot,
      Disk.mem_trail_of_isName fun name hMem => hNames name (List.mem_append_left _ hMem)]
    rintro ⟨front, -, hPrefix, hSame⟩
    rw [List.append_assoc, List.append_assoc] at hSame
    have hLength := hPrefix.length_le
    rw [← List.append_cancel_left hSame] at hLength
    simp only [List.length_append, List.length_singleton] at hLength
    omega
  refine {
    parentFine := ?_, temporaryFine := ?_, targetFine := ?_, temporaryShort := hShort _ (by simp)
    short := hShort _ (by simp), origin := hOrigin ▸ hHome, clear := ?_
    temporaryApart := hApart _, temporaryFree := ?_, targetApart := hApart _, targetFree := ?_ }
  · intro parent hSame _
    rw [hTargetPath, Path.parent?_ofPieces (by simp [hSome]) hNames] at hSame
    rw [← Option.some.inj hSame]
    exact hFine _ (by simp)
  · rw [temporaryPath_of_names hRoot hSome hNames hTag]
    exact hFine _ (by simp)
  · rw [hTargetPath]
    exact hFine _ (by simp)
  · rwa [hOrigin, hNamesRoot]
  · rwa [hBase]
  · rwa [hBase]

end Root

/-- A disk with an output directory in which packages have been written before. -/
def usedDisk : Disk where
  entries := .ofList [(["w"], .directory), (["w", "out"], .directory),
    (["w", "out", "a"], .directory), (["w", "out", "a", "A.kt"], .file (.text "old")),
    (["w", "out", "z"], .directory), (["w", "out", "z", "Z.kt"], .file (.text "stale"))]
  home := ["w"]

def sweeping : OutputSettings := { dir := "out", cleanStale := true }

/-- Units of packages, one of the default package, and one whose key is taken. -/
def fourUnits : List GeneratedUnit :=
  [⟨"first", { package := "a.b", name := "A" }, []⟩,
    ⟨"second", { package := "", name := "B" }, ["b"]⟩,
    ⟨"third", { package := "a.b", name := "A" }, []⟩,
    ⟨"fourth", { package := "a", name := "A" }, []⟩]

theorem isPlain_fourUnits : ∀ u ∈ fourUnits, u.key.IsPlain := by decide +kernel

/-- Each of the four units and the manifest can be written to the used disk. -/
theorem ready_usedDisk : ∀ place ∈ ([], Manifest.fileName) ::
      fourUnits.map (fun u => (u.key.directories, u.key.fileName)),
    (ofSettings usedDisk sweeping (toString 7) "").Ready place.1 place.2 5 := by
  have hFine : ∀ place ∈ ([], Manifest.fileName) ::
        fourUnits.map (fun u => (u.key.directories, u.key.fileName)), ∀ n < 5,
      let s : FileStore := { ofSettings usedDisk sweeping (toString 7) "" with counter := n }
      ∀ names ∈ [["out"] ++ place.1, ["out"] ++ place.1 ++ [s.temporaryName place.2],
        ["out"] ++ place.1 ++ [place.2]], Disk.refusal? (Path.ofPieces names) = none := by
    simp only [Disk.refusal?_eq_none_iff]
    decide +kernel
  have hFree : ∀ place ∈ ([], Manifest.fileName) ::
        fourUnits.map (fun u => (u.key.directories, u.key.fileName)), ∀ n < 5,
      let s : FileStore := { ofSettings usedDisk sweeping (toString 7) "" with counter := n }
      (∀ name ∈ [s.temporaryName place.2, place.2],
        name.utf8ByteSize ≤ Disk.maxNameLength) ∧
      s.disk.Clear s.disk.home (["out"] ++ place.1) ∧
      s.disk.entry? (s.disk.home ++ ["out"] ++ place.1 ++ [s.temporaryName place.2]) = none ∧
      s.disk.entry? (s.disk.home ++ ["out"] ++ place.1 ++ [place.2]) ≠ some .directory := by
    decide +kernel
  intro place hMem
  have hPlace : IsPlace place.1 place.2 := by
    rcases List.mem_cons.mp hMem with rfl | hOther
    · exact isPlace_manifest
    · obtain ⟨u, hUnit, rfl⟩ := List.mem_map.mp hOther
      exact (isPlain_fourUnits u hUnit).isPlace
  refine ⟨hPlace, fun n hLess => ?_⟩
  obtain ⟨hShort, hClear, hTemporary, hTarget⟩ := hFree place hMem n hLess
  have hNames : ∀ name ∈ ["out"] ++ (place.1 ++ [place.2]), Path.IsName name :=
    List.forall_mem_append.mpr ⟨by decide, hPlace.isName⟩
  rw [← List.append_assoc] at hNames
  exact accepts_of_names (show _ = Path.ofPieces ["out"] from rfl) (by simp) hNames
    (slash_notMem_toString 7) (hFine place hMem n hLess) hShort rfl hClear hTemporary hTarget

theorem unobstructed_fourUnits :
    (ofSettings usedDisk sweeping (toString 7) "").Unobstructed fourUnits := by
  intro u hUnit n hLess
  have hReady := ready_usedDisk _ (List.mem_cons_of_mem _ (List.mem_map_of_mem hUnit))
  rw [pathFor_eq]
  exact ((hReady.accepts n (Nat.lt_succ_of_lt hLess)).wrote hReady.place.isName
    (slash_notMem_toString 7) u.text).1

/-- Three units are written, over an old file too, and the one in between is refused. -/
theorem emitAll_agrees_fourUnits :
    let fresh := ofSettings usedDisk sweeping (toString 7) ""
    (∀ u ∈ fourUnits, u.key.IsPlain) ∧
      (Store.emitAll fresh fourUnits).1 = [.ok (), .ok (),
        .error (emissionConflict ⟨"a.b", "A"⟩ "first" "third"), .ok ()] ∧
      ∀ key ∈ (Store.emitAll MemoryStore.empty fourUnits).2.keys, ∃ text,
        (Store.emitAll fresh fourUnits).2.disk.readText
          ((Store.emitAll fresh fourUnits).2.pathFor key) = .ok text := by
  dsimp only
  obtain ⟨hDisk, hAgree⟩ := emitAll_agrees usedDisk sweeping 7 "" fourUnits isPlain_fourUnits
  obtain ⟨hResults, hVerdicts, -, hTexts⟩ := hAgree (hDisk unobstructed_fourUnits)
  refine ⟨isPlain_fourUnits, (hResults.trans hVerdicts).trans rfl, fun key hMem => ?_⟩
  obtain ⟨text, -, hText⟩ := hTexts key hMem
  exact ⟨text, hText⟩

end Bindery.FileStore
