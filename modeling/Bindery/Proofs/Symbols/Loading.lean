import Bindery.Proofs.Disk.Trees
import Bindery.Proofs.Symbols.Snapshots
import Bindery.Run.Pipeline
import Bindery.Symbols.Load
import Bindery.Emission.Memory

/-! # Loading depends only on the declarations

Declarations may be listed in one text or be split over the files of a directory. Whatever the order
and the split, the same table is loaded if their names are distinct, and otherwise loading fails
with a name that is declared twice.
-/

namespace Bindery.Snapshot

open Bindery.Path (IsName)

/-- The text is a snapshot of the declarations, in either form. -/
def Lists (text : String) (l : List Declaration) : Prop := Json.decodeText decoder text = .ok l

def isSnapshotName (names : DiskKey) : Bool :=
  (names.getLast?.bind fun name => (Path.splitExtension name).2) = some fileExtension

def snapshotName? : DiskKey × DiskEntry → Option DiskKey
  | (names, .file _) => if isSnapshotName names then some names else none
  | (_, .directory) => none

/-- The files below a directory that are snapshots by their names, in the order of a walk. -/
def snapshotNames (disk : Disk) (key : DiskKey) : List DiskKey :=
  (disk.below key).filterMap snapshotName?

/-- Each snapshot below a directory lists a part of the declarations. -/
structure Splits (disk : Disk) (path : String) (l : List Declaration) : Prop where
  isTree : disk.IsTree
  parts : ∃ key part, disk.lookup path = .ok (key, .directory) ∧
    (∀ e ∈ disk.below key, Disk.refusal? (Path.join path (Path.ofPieces e.1)) = none) ∧
    (∀ names ∈ snapshotNames disk key, ∃ text,
      disk.entry? (key ++ names) = some (.file (.text text)) ∧ Lists text (part names)) ∧
    ((snapshotNames disk key).flatMap part).Perm l

/-- A result of loading the declarations of a list, in any order, from one text, from one file, or
from a directory. -/
inductive Loading (l : List Declaration) : Except Fault SymbolTable → Prop
  | text {text : String} {l' : List Declaration} : Lists text l' → l'.Perm l → Loading l (load text)
  | file {disk : Disk} {path text : String} {l' : List Declaration} :
      disk.readText path = .ok text → Lists text l' → l'.Perm l → Loading l (loadPath disk path)
  | directory {disk : Disk} {path : String} : Splits disk path l → Loading l (loadPath disk path)

/-! ## Files of a directory -/

section Files

variable {disk : Disk} {path : String} {key names : DiskKey}

theorem extension?_join (path : String) (hSome : names ≠ [])
    (hNames : ∀ name ∈ names, IsName name) :
    decide (Path.extension? (Path.join path (Path.ofPieces names)) = some fileExtension) =
      isSnapshotName names := by
  obtain ⟨above, last, rfl⟩ := (List.eq_nil_or_concat names).resolve_left hSome
  rw [List.concat_eq_append] at *
  have hPieces := Path.pieces_join_ofPieces hNames path (by simp)
  rw [← List.append_assoc] at hPieces
  rw [Path.extension?, Path.fileName?_eq hPieces (hNames last (by simp)), isSnapshotName,
    List.getLast?_append]
  rfl

theorem mem_snapshotNames_iff : names ∈ snapshotNames disk key ↔
    isSnapshotName names = true ∧ ∃ content, (names, .file content) ∈ disk.below key := by
  rw [snapshotNames, List.mem_filterMap]
  constructor
  · rintro ⟨⟨found, entry⟩, hMem, hFound⟩
    cases entry with
    | directory => cases hFound
    | file content =>
      simp only [snapshotName?, Option.ite_none_right_eq_some, Option.some.injEq] at hFound
      obtain ⟨hName, rfl⟩ := hFound
      exact ⟨hName, content, hMem⟩
  · rintro ⟨hName, content, hMem⟩
    exact ⟨_, hMem, by simp [snapshotName?, hName]⟩

theorem found_file {content : FileContent} (hSome : names ≠ [])
    (hNames : ∀ name ∈ names, IsName name) :
    found path (names, .file content) = .ok (if isSnapshotName names then
      [Path.join path (Path.ofPieces names)] else []) := by
  have hName := extension?_join path hSome hNames
  by_cases hSnapshot : isSnapshotName names = true
  · rw [hSnapshot, decide_eq_true_eq] at hName
    simp [found, hName, hSnapshot]
  · rw [Bool.not_eq_true] at hSnapshot
    rw [hSnapshot, decide_eq_false_iff_not] at hName
    simp [found, hName, hSnapshot]

theorem flatten_mapM_eq_ok {α β ε : Type} {l : List α} {f : α → Except ε (List β)}
    {g : α → List β} (h : ∀ a ∈ l, f a = .ok (g a)) :
    (l.mapM f).map List.flatten = .ok (l.flatMap g) := by
  induction l with
  | nil => rfl
  | cons a rest ih =>
    obtain ⟨hFirst, hRest⟩ := List.forall_mem_cons.mp h
    have hMore := ih hRest
    rw [List.mapM_cons, hFirst]
    cases hParts : rest.mapM f with
    | error fault =>
      rw [hParts] at hMore
      cases hMore
    | ok parts =>
      rw [hParts] at hMore
      have hFlat : parts.flatten = rest.flatMap g := Except.ok.inj hMore
      change Except.ok (List.flatten (_ :: parts)) = _
      rw [List.flatten_cons, hFlat, List.flatMap_cons]

/-- Those files are read whose names say that they are snapshots. -/
theorem files_eq (hTree : disk.IsTree) (hPath : disk.lookup path = .ok (key, .directory))
    (hFine : ∀ e ∈ disk.below key, Disk.refusal? (Path.join path (Path.ofPieces e.1)) = none) :
    files disk path = .ok ((snapshotNames disk key).map fun names =>
      Path.join path (Path.ofPieces names)) := by
  have hFound : ∀ e ∈ disk.below key, found path e =
      .ok ((snapshotName? e).toList.map fun names => Path.join path (Path.ofPieces names)) := by
    rintro ⟨names, entry⟩ hMem
    have hRefusal := hFine _ hMem
    obtain ⟨hSome, hEntry⟩ := Disk.mem_below_iff.mp hMem
    have hKey := Disk.mem_keys_of_entry (by simp [hSome]) hEntry
    cases entry with
    | directory =>
      simp only at hRefusal
      simp [found, snapshotName?, hRefusal]
    | file content =>
      have hNames : ∀ name ∈ names, IsName name := fun name hIn =>
        hTree.isName _ hKey name (List.mem_append_right _ hIn)
      rw [found_file hSome hNames]
      by_cases hSnapshot : isSnapshotName names = true <;> simp [snapshotName?, hSnapshot]
  rw [files, hPath]
  simp only [flatten_mapM_eq_ok hFound, snapshotNames, List.filterMap_eq_flatMap_toList,
    List.map_flatMap]

theorem readFile_eq {file text : String} {l : List Declaration}
    (hText : disk.readText file = .ok text) (h : Lists text l) : readFile disk file = .ok l := by
  have hDecode : Json.decodeText decoder text = .ok l := h
  simp [readFile, hText, parse, hDecode, Except.mapError]

/-- Loading files one after the other is inserting what they list one after the other. -/
theorem loadFiles_eq_insertAll {names : List DiskKey} {place : DiskKey → String}
    {part : DiskKey → List Declaration}
    (h : ∀ n ∈ names, ∃ text, disk.readText (place n) = .ok text ∧ Lists text (part n))
    (t : SymbolTable) : loadFiles disk t (names.map place) = t.insertAll (names.flatMap part) := by
  induction names generalizing t with
  | nil => rfl
  | cons first rest ih =>
    obtain ⟨⟨text, hText, hLists⟩, hRest⟩ := List.forall_mem_cons.mp h
    rw [List.map_cons, loadFiles, readFile_eq hText hLists, List.flatMap_cons,
      SymbolTable.insertAll_append]
    exact congrArg _ (funext fun t => ih hRest t)

theorem Splits.loadPath_eq {l : List Declaration} (h : Splits disk path l) :
    ∃ l', l'.Perm l ∧ loadPath disk path = SymbolTable.empty.insertAll l' := by
  obtain ⟨hTree, key, part, hPath, hFine, hTexts, hPerm⟩ := h
  refine ⟨_, hPerm, ?_⟩
  have hRead : ∀ names ∈ snapshotNames disk key, ∃ text,
      disk.readText (Path.join path (Path.ofPieces names)) = .ok text ∧
        Lists text (part names) := by
    intro names hMem
    obtain ⟨text, hEntry, hLists⟩ := hTexts names hMem
    obtain ⟨-, content, hBelow⟩ := mem_snapshotNames_iff.mp hMem
    have hSame := (Disk.mem_below_iff.mp hBelow).2
    rw [hEntry] at hSame
    cases hSame
    have hHere := hFine (names, _) hBelow
    have hLookup := Disk.lookup_eq_ok_iff.mp (hTree.lookup_join hPath hBelow hHere)
    exact ⟨text, Disk.readText_eq_ok_iff.mpr ⟨_, hLookup⟩, hLists⟩
  rw [loadPath, files_eq hTree hPath hFine, Except.bind]
  exact loadFiles_eq_insertAll hRead .empty

theorem loadPath_of_readText {text : String} {l : List Declaration}
    (hText : disk.readText path = .ok text) (h : Lists text l) :
    loadPath disk path = SymbolTable.empty.insertAll l := by
  have hFiles : files disk path = .ok [path] := by
    unfold files
    split
    · next key hDirectory =>
      rw [Disk.readText, hDirectory] at hText
      cases hText
    · rfl
  have hRead : ∀ n ∈ [([] : DiskKey)], ∃ text, disk.readText path = .ok text ∧ Lists text l :=
    fun _ _ => ⟨text, hText, h⟩
  rw [loadPath, hFiles, Except.bind]
  simpa using loadFiles_eq_insertAll hRead .empty

end Files

/-! ## One table for all ways of loading -/

variable {l : List Declaration} {result : Except Fault SymbolTable}

/-- Every way of loading inserts the declarations in some order. -/
theorem Loading.eq_insertAll (h : Loading l result) :
    ∃ l', l'.Perm l ∧ result = SymbolTable.empty.insertAll l' := by
  cases h with
  | text hLists hPerm => exact ⟨_, hPerm, load_eq_insertAll hLists⟩
  | file hText hLists hPerm => exact ⟨_, hPerm, loadPath_of_readText hText hLists⟩
  | directory hSplits => exact hSplits.loadPath_eq

theorem ofList_perm {l l' : List Declaration} (hPerm : l'.Perm l) (h : (l.map (·.name)).Nodup) :
    SymbolTable.ofList l' = .ofList l := by
  obtain ⟨t, hFirst, hSecond⟩ := SymbolTable.insertAll_perm h hPerm.symm
  have h' : (l'.map (·.name)).Nodup := (hPerm.map _).nodup_iff.mpr h
  rw [SymbolTable.insertAll_eq_foldl h fun _ _ => rfl] at hFirst
  rw [SymbolTable.insertAll_eq_foldl h' fun _ _ => rfl, ← hFirst] at hSecond
  exact Except.ok.inj hSecond

theorem Loading.eq_ofList (h : Loading l result) (hNames : (l.map (·.name)).Nodup) :
    result = .ok (.ofList l) := by
  obtain ⟨l', hPerm, rfl⟩ := h.eq_insertAll
  have hNames' : (l'.map (·.name)).Nodup := (hPerm.map _).nodup_iff.mpr hNames
  rw [SymbolTable.insertAll_eq_foldl hNames' fun _ _ => rfl, ← ofList_perm hPerm hNames]
  rfl

theorem Loading.eq_duplicate (h : Loading l result) (hNames : ¬ (l.map (·.name)).Nodup) :
    ∃ name, 2 ≤ (l.map (·.name)).count name ∧ result = .error (SymbolTable.duplicate name) := by
  obtain ⟨l', hPerm, rfl⟩ := h.eq_insertAll
  have hNames' : ¬ (l'.map (·.name)).Nodup := mt (hPerm.map _).nodup_iff.mp hNames
  obtain ⟨front, d, rest, rfl, hMem, hError⟩ :=
    SymbolTable.insertAll_eq_duplicate (t := .empty) hNames'
  refine ⟨d.name, ?_, hError⟩
  rw [← (hPerm.map _).count_eq d.name, List.map_append, List.count_append, List.map_cons,
    List.count_cons_self]
  have hBefore : 0 < (front.map (·.name)).count d.name := List.count_pos_iff.mpr hMem
  omega

/-- The table, and with it every run, depends on the declarations alone; declarations that can be
written are loaded from either of their texts. -/
theorem load_depends_on_declarations (l : List Declaration) :
    (∀ result, Loading l result → ((∃ t, result = .ok t) ↔ (l.map (·.name)).Nodup)) ∧
      ((l.map (·.name)).Nodup →
        (∀ result, Loading l result → result = .ok (.ofList l)) ∧
        (∀ l', l'.Perm l → SymbolTable.ofList l' = .ofList l) ∧
        ∀ t, Loading l (.ok t) → ∀ (p : Pipeline) (store : MemoryStore),
          p.run t store = p.run (.ofList l) store) ∧
      (¬ (l.map (·.name)).Nodup → ∀ result, Loading l result →
        ∃ name, 2 ≤ (l.map (·.name)).count name ∧ result = .error (SymbolTable.duplicate name)) ∧
      ((∀ d ∈ l, d.IsWritable) →
        ((listed l).brackets ≤ Json.maxDepth → Loading l (load (write l))) ∧
        ((wrap l).brackets ≤ Json.maxDepth → Loading l (load (wrap l).compact))) := by
  refine ⟨?_, ?_, ?_, ?_⟩
  · intro result hLoading
    constructor
    · rintro ⟨t, rfl⟩
      by_contra hNames
      obtain ⟨name, -, hError⟩ := hLoading.eq_duplicate hNames
      cases hError
    · intro hNames
      exact ⟨_, hLoading.eq_ofList hNames⟩
  · intro hNames
    refine ⟨fun result hLoading => hLoading.eq_ofList hNames, fun l' hPerm => ?_, ?_⟩
    · exact ofList_perm hPerm hNames
    · intro t hLoading p store
      rw [Except.ok.inj (hLoading.eq_ofList hNames)]
  · intro hNames result hLoading
    exact hLoading.eq_duplicate hNames
  · intro hWritable
    refine ⟨fun hDepth => ?_, fun hDepth => ?_⟩
    · exact .text (decodeText_listed hWritable hDepth) (.refl l)
    · exact .text (decodeText_wrap hWritable hDepth) (.refl l)

/-- The two declarations of `literals` in two files, each in a form of its own. -/
def twoFiles : Disk where
  entries := .ofList [(["s"], .directory),
    (["s", "b"], .directory),
    (["s", "b", "inner.json"], .file (.text (wrap (literals.take 1)).compact)),
    (["s", "outer.json"], .file (.text (write (literals.drop 1)))),
    (["s", "notes.txt"], .file (.binary [255]))]

theorem splits_twoFiles : Splits twoFiles "s/" literals := by
  have hFirst : ∀ d ∈ literals.take 1, d.IsWritable := fun d hMem =>
    isWritable_literals d (List.mem_of_mem_take hMem)
  have hSecond : ∀ d ∈ literals.drop 1, d.IsWritable := fun d hMem =>
    isWritable_literals d (List.mem_of_mem_drop hMem)
  have hNames : snapshotNames twoFiles ["s"] = [["b", "inner.json"], ["outer.json"]] := by
    decide +kernel
  refine ⟨by decide +kernel, ["s"],
    fun names => if names = ["outer.json"] then literals.drop 1 else literals.take 1,
    ?_, ?_, ?_, ?_⟩
  · rw [Disk.lookup_eq_ok_iff, Disk.locate_eq_ok_iff, Disk.refusal?_eq_none_iff, Disk.start,
      Disk.route, Path.isAbsolute_eq, Path.endsWith_slash_eq]
    decide +kernel
  · simp only [Disk.refusal?_eq_none_iff, Path.join, Path.isAbsolute_eq, Path.endsWith_slash_eq]
    decide +kernel
  · rw [hNames, List.forall_mem_cons, List.forall_mem_singleton]
    exact ⟨⟨_, rfl, decodeText_wrap hFirst (by decide)⟩,
      ⟨_, rfl, decodeText_listed hSecond (by decide)⟩⟩
  · rw [hNames]
    exact .refl _

/-- The declarations come as the same table from one text and from two files; listed twice, they
are refused. -/
theorem load_depends_on_declarations_literals :
    loadPath twoFiles "s/" = .ok (.ofList literals) ∧
      load (write literals.reverse) = .ok (.ofList literals) ∧
      ∃ name, load (write (literals ++ literals)) = .error (SymbolTable.duplicate name) := by
  obtain ⟨-, hOnce, -, -⟩ := load_depends_on_declarations literals
  obtain ⟨-, -, hRefused, hTexts⟩ := load_depends_on_declarations (literals ++ literals)
  have hNames : (literals.map (·.name)).Nodup := by decide
  have hReverse : ∀ d ∈ literals.reverse, d.IsWritable := fun d hMem =>
    isWritable_literals d (List.mem_reverse.mp hMem)
  have hTwice : ∀ d ∈ literals ++ literals, d.IsWritable :=
    List.forall_mem_append.mpr ⟨isWritable_literals, isWritable_literals⟩
  refine ⟨(hOnce hNames).1 _ (.directory splits_twoFiles), (hOnce hNames).1 _ ?_, ?_⟩
  · exact .text (decodeText_listed hReverse (by decide)) (List.reverse_perm _)
  · obtain ⟨name, -, hError⟩ := hRefused (by decide) _ ((hTexts hTwice).1 (by decide))
    exact ⟨name, hError⟩

end Bindery.Snapshot
