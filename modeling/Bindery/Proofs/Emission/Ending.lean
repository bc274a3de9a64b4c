import Bindery.Proofs.Emission.DryRun
import Bindery.Proofs.Emission.Manifest
import Bindery.Proofs.Emission.Sweeping

/-! # What the manifest says at the end of a run

The manifest is written when nothing else changes any more: stale files are gone, and its own file
is not named like a source. It lists the units that were taken, and the files of these hold what
their entries say.
-/

namespace Bindery

def ManifestEntry.key (e : ManifestEntry) : UnitKey := ⟨e.package, e.file⟩

/-- Entries of keys of their own are found by them. -/
theorem Manifest.entry?_eq_some {m : Manifest} {e : ManifestEntry}
    (hSorted : (m.units.map ManifestEntry.key).Pairwise fun a b => compare a b = .lt)
    (hMem : e ∈ m.units) : m.entry? e.package e.file = some e := by
  have hPairs : (m.units.map fun e => (e.key, e)).Pairwise fun a b => compare a.1 b.1 = .lt := by
    rw [List.pairwise_map] at hSorted ⊢
    exact hSorted
  have hFind := (OrderedMap.find?_eq_some_iff hPairs).mpr (List.mem_map.mpr ⟨e, hMem, rfl⟩)
  rw [List.find?_map, Option.map_map] at hFind
  rw [Manifest.entry?, ← hFind]
  simp [Function.comp_def, ManifestEntry.key]

namespace FileStore

open Bindery.Path (IsName)

variable {s s' s'' : FileStore} {key : UnitKey} {text manifest last : String}

/-- The store without stale files, if these are not to be kept. -/
def swept (s : FileStore) : FileStore := if s.cleanStale then s.removeStale.1 else s

theorem swept_swept (s : FileStore) : s.Swept s.swept := by
  unfold swept
  split
  · exact s.swept_removeStale
  · exact s.swept_self

theorem finish_eq (s : FileStore) : s.finish.result = s.swept.writeManifest.result ∧
    s.finish.store = s.swept.writeManifest.store := by
  cases hStale : s.cleanStale <;> simp [finish, swept, hStale]

theorem fileName_ne_manifest (key : UnitKey) : key.fileName ≠ Manifest.fileName := by
  intro hSame
  have hLast := congrArg (fun name : String => name.toList.getLast?) hSame
  have hSource : sourceExtension.toList = ['k', 't'] := rfl
  have hManifest : Manifest.fileName.toList.getLast? = some 'n' := rfl
  simp only [UnitKey.fileName, String.toList_append, hSource, hManifest] at hLast
  simp at hLast

namespace Swept

variable (h : s.Swept s')

include h

theorem root : s'.root = s.root := by rw [h.eq]

theorem origin : s'.origin = s.origin := origin_congr h.home h.root

theorem base : s'.base = s.base := base_congr h.home h.root

section Manifest

variable (hAccepts : s'.Accepts [] Manifest.fileName)
  (hWrote : s'.Wrote s'' [] Manifest.fileName manifest) (hPlain : key.IsPlain)
  (hWritten : key ∈ s.written.keys)

include hAccepts hWrote hPlain hWritten

section Passes

variable {content : FileContent}
  (hFile : s.disk.entry? (s.base ++ key.names) = some (.file content))
  (hPasses : s.disk.Passes s.origin (Disk.names s.root ++ key.directories ++ [key.fileName]))

include hFile hPasses

theorem directory_kept {front : List String} (hPrefix : front <+: key.directories) :
    s''.disk.entry? (s.base ++ front) = some .directory := by
  obtain ⟨rest, hRest⟩ := hPrefix
  have hFront : ∀ name ∈ front, IsName name := fun name hMem =>
    hPlain.isName name (List.mem_append_left _ (by simp [← hRest, hMem]))
  obtain ⟨next, more, hNext⟩ := List.exists_cons_of_ne_nil
    (show rest ++ [key.fileName] ≠ [] by simp)
  have hSplit : Disk.names s.root ++ key.directories ++ [key.fileName] =
      Disk.names s.root ++ front ++ next :: more := by
    rw [← hNext, ← hRest]
    simp
  rw [hSplit] at hPasses
  have hEntry := hPasses.directory
  rw [Disk.lead_append, Disk.lead_of_isName hFront] at hEntry
  refine (hWrote.keeps hAccepts).directory _ (h.directory key hWritten _ hFile front ?_ hEntry)
  exact ⟨rest ++ [key.fileName], by rw [← List.append_assoc, hRest, UnitKey.names]⟩

theorem passes_kept :
    s''.disk.Passes s.origin (Disk.names s.root ++ key.directories ++ [key.fileName]) := by
  have hShort := hPasses.short
  have hKept {front : List String} (hPrefix : front <+: key.directories) :=
    h.directory_kept hAccepts hWrote hPlain hWritten hFile hPasses hPrefix
  have hOrigin : s''.disk.entry? s.origin = some .directory := by
    rw [← h.origin]
    exact (hWrote.keeps hAccepts).directory _ hAccepts.origin
  refine Disk.passes_append.mpr ⟨Disk.passes_of_trail hOrigin ?_ ?_, ?_, ?_, trivial⟩
  · intro name hMem
    exact hShort name (List.mem_append_left _ hMem)
  · intro k hMem
    rcases hPlain.isPlace.mem_passed_iff s |>.mp hMem with hRoot | ⟨front, -, hPrefix, rfl⟩
    · refine hWrote.passed_directory hAccepts ?_
      rwa [passed, List.append_nil, h.origin, h.root]
    · exact hKept hPrefix
  · rw [lead_above hPlain.isName]
    exact hKept List.prefix_rfl
  · exact hShort key.fileName (by simp)

end Passes

/-- The text of a unit is read again when stale files are gone and the manifest is written. -/
theorem readText_kept (hText : s.disk.readText (s.pathFor key) = .ok text) :
    s''.disk.readText (s.pathFor key) = .ok text := by
  obtain ⟨k, hLocate, hFile⟩ := Disk.readText_eq_ok_iff.mp hText
  rw [pathFor_eq] at hLocate ⊢
  obtain ⟨hFine, hPasses, rfl⟩ := (locate_target hPlain.isName rfl).mp hLocate
  rw [names_eq] at hFile
  have hPasses' := h.passes_kept hAccepts hWrote hPlain hWritten hFile hPasses
  have hOther : s.base ++ key.names ≠ s'.base ++ [] ++ [Manifest.fileName] := by
    rw [h.base, List.append_nil]
    intro hSame
    have hNames : key.directories ++ [key.fileName] = [] ++ [Manifest.fileName] :=
      List.append_cancel_left hSame
    exact fileName_ne_manifest key (List.cons.inj (List.append_inj' hNames rfl).2).1
  have hHome : s''.disk.home = s.disk.home := hWrote.home.trans h.home
  refine Disk.readText_eq_ok_iff.mpr
    ⟨_, (locate_target hPlain.isName hHome).mpr ⟨hFine, hPasses', rfl⟩, ?_⟩
  rw [names_eq]
  exact hWrote.file_kept hAccepts hOther (h.file key hWritten _ hFile)

end Manifest

end Swept

/-! ## Writing the manifest -/

theorem writeManifest_eq (s : FileStore) (hManifest : s.manifest = true) :
    s.writeManifest =
      s.writeAtomic (s.target [] Manifest.fileName) s.manifestOf.toJson.pretty := by
  rw [writeManifest, if_pos hManifest]
  rfl

section Manifest

variable {k : DiskKey} {content : FileContent} (hTag : '/' ∉ s.processTag.toList)

include hTag

theorem wrote_of_writeManifest (hManifest : s.manifest = true)
    (hOk : s.writeManifest.result = .ok ()) : s.Accepts [] Manifest.fileName ∧
      s.Wrote s.writeManifest.store [] Manifest.fileName s.manifestOf.toJson.pretty := by
  have hName := isPlace_manifest.isName
  rw [s.writeManifest_eq hManifest] at hOk ⊢
  have hAccepts := accepts_of_writeAtomic hName hTag hOk
  exact ⟨hAccepts, (hAccepts.wrote hName hTag _).2⟩

theorem file_writeManifest_iff (hOk : s.writeManifest.result = .ok ()) :
    s.writeManifest.store.disk.entry? k = some (.file content) ↔
      if s.manifest = true ∧ k = s.base ++ [Manifest.fileName]
      then content = .text s.manifestOf.toJson.pretty
      else s.disk.entry? k = some (.file content) := by
  cases hManifest : s.manifest with
  | false => simp [writeManifest, hManifest]
  | true =>
    obtain ⟨hAccepts, hWrote⟩ := wrote_of_writeManifest hTag hManifest hOk
    rw [hWrote.file_iff hAccepts, List.append_nil]
    simp

theorem directory_writeManifest (hOk : s.writeManifest.result = .ok ())
    (hDirectory : s.writeManifest.store.disk.entry? k = some .directory) :
    s.disk.entry? k = some .directory ∨ s.manifest = true ∧ k ∈ s.passed [] := by
  cases hManifest : s.manifest with
  | false => simpa [writeManifest, hManifest] using hDirectory
  | true =>
    obtain ⟨-, hWrote⟩ := wrote_of_writeManifest hTag hManifest hOk
    rw [hWrote.entries] at hDirectory
    split at hDirectory
    · cases hDirectory
    · split at hDirectory
      · next hMem => exact .inr ⟨rfl, hMem⟩
      · exact .inl hDirectory

theorem file_finish_iff (hFinish : s.finish.result = .ok ()) :
    s.finish.store.disk.entry? k = some (.file content) ↔
      if s.manifest = true ∧ k = s.base ++ [Manifest.fileName]
      then content = .text s.manifestOf.toJson.pretty
      else s.swept.disk.entry? k = some (.file content) := by
  have hSwept := s.swept_swept
  have hManifest : s.swept.manifest = s.manifest := by rw [hSwept.eq]
  have hContent : s.swept.manifestOf = s.manifestOf := by
    rw [hSwept.eq]
    rfl
  obtain ⟨hResult, hStore⟩ := s.finish_eq
  rw [hResult] at hFinish
  rw [hStore, file_writeManifest_iff (by rwa [hSwept.eq]) hFinish, hManifest, hContent,
    hSwept.base]

theorem directory_finish (hFinish : s.finish.result = .ok ())
    (hDirectory : s.finish.store.disk.entry? k = some .directory) :
    s.swept.disk.entry? k = some .directory ∨ s.manifest = true ∧ k ∈ s.passed [] := by
  have hSwept := s.swept_swept
  have hManifest : s.swept.manifest = s.manifest := by rw [hSwept.eq]
  have hPassed : s.swept.passed [] = s.passed [] := passed_congr hSwept.home hSwept.root []
  obtain ⟨hResult, hStore⟩ := s.finish_eq
  rw [hResult] at hFinish
  rw [hStore] at hDirectory
  rw [← hManifest, ← hPassed]
  exact directory_writeManifest (by rwa [hSwept.eq]) hFinish hDirectory

end Manifest

/-- Sweeping is not in the way of the manifest, unless the root is above the directory that it is
followed from. -/
theorem Swept.accepts (h : s.Swept s') (hOrigin : s.base <+: s.origin → s.origin = s.base)
    (hAccepts : s.Accepts [] last) : s'.Accepts [] last := by
  refine hAccepts.transfer ?_ h.home (h.outside _ hOrigin hAccepts.origin) ?_ ?_ ?_
  · rw [h.eq]
  · refine ⟨fun _ => h.outside _ hOrigin hAccepts.origin, hAccepts.clear.short, ?_⟩
    intro k hMem content hFile
    exact hAccepts.clear.noFile k hMem content (h.less k _ hFile)
  · rw [Option.eq_none_iff_forall_ne_some]
    intro entry hEntry
    have hBefore := h.less _ _ hEntry
    rw [hAccepts.temporaryFree] at hBefore
    cases hBefore
  · intro hEntry
    exact hAccepts.targetFree (h.less _ _ hEntry)

/-- The end of a run does not fail if nothing stands in the way of the units or of the manifest. -/
theorem Unobstructed.finish {units : List GeneratedUnit} (h : s.Unobstructed units)
    (hTag : '/' ∉ s.processTag.toList) (hPlain : ∀ u ∈ units, u.key.IsPlain)
    (hFresh : s.counter = 0) (hReady : s.Ready [] Manifest.fileName (units.length + 1))
    (hOrigin : s.base <+: s.origin → s.origin = s.base) :
    (Store.emitAll s units).2.finish.result = .ok () := by
  have hGrown := (h.emitAll hTag hPlain hFresh).2
  have hKeys : ∀ key ∈ units.map (·.key), s.Ready key.directories key.fileName 1 := by
    refine List.forall_mem_map.mpr fun u hUnit => (h.ready hTag hPlain u hUnit).mono ?_
    exact List.length_pos_of_mem hUnit
  have hCounter := hGrown.counter
  rw [List.length_map] at hCounter
  have hAccepts := hGrown.accepts hKeys hReady (Nat.lt_succ_of_le hCounter)
  have hSwept := (Store.emitAll s units).2.swept_swept
  rw [← hGrown.base, ← hGrown.origin] at hOrigin
  rw [(finish_eq _).1]
  cases hManifest : (Store.emitAll s units).2.swept.manifest with
  | false => rw [writeManifest, if_neg (by simp [hManifest])]
  | true =>
    have hTag' : '/' ∉ (Store.emitAll s units).2.swept.processTag.toList := by
      rwa [hSwept.eq, hGrown.eq]
    rw [writeManifest_eq _ hManifest]
    exact ((hSwept.accepts hOrigin hAccepts).wrote isPlace_manifest.isName hTag' _).1

/-! ## What is true at the end -/

/-- What is known of a run that has written its manifest. -/
theorem Mirrors.finish {s₀ : FileStore} {m : MemoryStore} (h : Mirrors s₀ s m)
    (hTag : '/' ∉ s₀.processTag.toList) (hManifest : s₀.manifest = true)
    (hFinish : s.finish.result = .ok ()) :
    s.finish.store.disk.readText (Path.join s₀.root Manifest.fileName) =
        .ok s.manifestOf.toJson.pretty ∧
      ∀ u ∈ m.units, s.finish.store.disk.readText (s.pathFor u.key) = .ok u.text := by
  have hSwept := s.swept_swept
  have hWrites : s.swept.manifest = true := by rw [hSwept.eq, h.eq, hManifest]
  have hTag' : '/' ∉ s.swept.processTag.toList := by rwa [hSwept.eq, h.eq]
  have hName := isPlace_manifest.isName
  have hTarget : Path.join s.swept.root Manifest.fileName = s.swept.target [] Manifest.fileName :=
    rfl
  have hContent : s.swept.manifestOf = s.manifestOf := by rw [hSwept.eq]; rfl
  obtain ⟨hResult, hStore⟩ := s.finish_eq
  rw [hResult] at hFinish
  obtain ⟨hAccepts, hWrote⟩ := wrote_of_writeManifest hTag' hWrites hFinish
  rw [hStore]
  refine ⟨?_, fun u hUnit => ?_⟩
  · rw [← h.root, ← hSwept.root, hTarget, ← hContent]
    exact hWrote.readText_target hAccepts hName
  · have hKey : u.key ∈ s.written.keys := by
      rw [h.keys, ← MemoryStore.map_key_units]
      exact List.mem_map_of_mem hUnit
    exact hSwept.readText_kept hAccepts hWrote (h.plain u hUnit) hKey (h.texts u hUnit)

/-- The manifest of a run tells the truth, whichever units were refused for their keys and whether
or not stale files are removed. -/
theorem finish_manifest_true (disk : Disk) (settings : OutputSettings) (pid : Nat) (clock : String)
    (units : List GeneratedUnit) (hPlain : ∀ u ∈ units, u.key.IsPlain)
    (hManifest : settings.manifest = true) :
    let run := Store.emitAll (ofSettings disk settings (toString pid) clock) units
    let taken := accepted units run.1
    let last := run.2.finish.store.disk
    (∀ result ∈ run.1, ¬ IsIo result) → run.2.finish.result = .ok () →
      ∃ text m, last.readText (Path.join settings.dir Manifest.fileName) = .ok text ∧
        Json.decodeText Manifest.decoder text = .ok m ∧
        (m.units.map (·.key)).Pairwise (fun a b => compare a b = .lt) ∧
        (m.units.map (·.key)).Perm (taken.map (·.key)) ∧
        ∀ e ∈ m.units, m.entry? e.package e.file = some e ∧
          (∃ u ∈ taken, u.key = e.key ∧ u.generator = e.generator ∧ u.provenance = e.provenance) ∧
          ∃ content, last.readText (Path.join settings.dir e.path) = .ok content ∧
            Sha256.fingerprint content = e.sha256 := by
  intro run taken last hDisk hFinish
  have hTag : '/' ∉ (ofSettings disk settings (toString pid) clock).processTag.toList :=
    slash_notMem_toString pid
  have hFresh : Mirrors _ (ofSettings disk settings (toString pid) clock) .empty :=
    mirrors_empty rfl
  obtain ⟨hResults, hMirrors⟩ := hFresh.emitAll hTag hPlain hDisk
  have hUnits : (Store.emitAll MemoryStore.empty units).2.units.Perm taken := by
    have hPerm := MemoryStore.units_emitAll_perm .empty units
    rw [← hResults] at hPerm
    exact hPerm.trans (by
      rw [MemoryStore.units, MemoryStore.empty]
      exact .of_eq (List.append_nil _))
  obtain ⟨hText, hTexts⟩ := hMirrors.finish hTag hManifest hFinish
  have hKeys : run.2.manifestOf.units.map (·.key) =
      (Store.emitAll MemoryStore.empty units).2.keys := by
    rw [← MemoryStore.map_key_units, manifestOf]
    change run.2.entries.map _ = _
    rw [hMirrors.entries_eq, List.map_map]
    rfl
  have hSorted : (run.2.manifestOf.units.map (·.key)).Pairwise fun a b => compare a b = .lt := by
    rw [hKeys]
    exact List.pairwise_map.mpr (Store.emitAll MemoryStore.empty units).2.byKey.increasing
  refine ⟨_, run.2.manifestOf, hText, Manifest.decodeText_pretty _, hSorted, ?_, fun e hMem => ?_⟩
  · rw [hKeys, ← MemoryStore.map_key_units]
    exact hUnits.map _
  · -- an entry stands for a unit that memory holds, and the text of that unit is on disk
    have hEntry := hMem
    change e ∈ run.2.entries at hEntry
    rw [hMirrors.entries_eq, List.mem_map] at hEntry
    obtain ⟨u, hUnit, rfl⟩ := hEntry
    refine ⟨Manifest.entry?_eq_some hSorted hMem, ⟨u, hUnits.mem_iff.mp hUnit, rfl, rfl, rfl⟩,
      u.text, ?_, rfl⟩
    have hRead := hTexts u hUnit
    rwa [pathFor, hMirrors.root] at hRead

/-- The manifest after four units, of which one is refused, and with stale files swept. -/
theorem finish_manifest_true_fourUnits :
    let run := Store.emitAll (ofSettings usedDisk sweeping (toString 7) "") fourUnits
    (∀ u ∈ fourUnits, u.key.IsPlain) ∧ sweeping.manifest = true ∧
      (∀ result ∈ run.1, ¬ IsIo result) ∧ run.2.finish.result = .ok () ∧
      ∃ text m,
        run.2.finish.store.disk.readText (Path.join sweeping.dir Manifest.fileName) = .ok text ∧
        Json.decodeText Manifest.decoder text = .ok m ∧
        (m.units.map (·.key)).Perm [⟨"a.b", "A"⟩, ⟨"", "B"⟩, ⟨"a", "A"⟩] := by
  intro run
  have hTag := slash_notMem_toString 7
  have hDisk := (unobstructed_fourUnits.emitAll hTag isPlain_fourUnits rfl).1
  have hFresh : Mirrors _ (ofSettings usedDisk sweeping (toString 7) "") .empty := mirrors_empty rfl
  have hResults := (hFresh.emitAll hTag isPlain_fourUnits hDisk).1
  have hOrigin : let fresh := ofSettings usedDisk sweeping (toString 7) ""
      fresh.base <+: fresh.origin → fresh.origin = fresh.base := by
    simp only [base, origin, Disk.start, Path.isAbsolute_eq]
    decide +kernel
  have hFinish := unobstructed_fourUnits.finish hTag isPlain_fourUnits rfl
    (ready_usedDisk _ List.mem_cons_self) hOrigin
  obtain ⟨text, m, hText, hDecode, -, hKeys, -⟩ :=
    finish_manifest_true usedDisk sweeping 7 "" fourUnits isPlain_fourUnits rfl hDisk hFinish
  rw [hResults] at hKeys
  exact ⟨isPlain_fourUnits, rfl, hDisk, hFinish, text, m, hText, hDecode, hKeys⟩

end FileStore

end Bindery
