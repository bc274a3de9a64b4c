import Bindery.Proofs.Creation.Accounting
import Bindery.Proofs.Run.Faults

/-! # What a successful run has stored

The names, the store and the journal of a successful run agree. No type is declared twice, whichever
texts the names of packages and classes run together to, and every unit stands in the journal once,
with the generator that made it and the source file of the declaration that it was made for.
-/

namespace Bindery

/-- Claimed names are told apart by their texts, since no declared type is nested. -/
theorem Compatible.typeNames_nodup {l : List Delivery} (h : Compatible l) :
    (l.flatMap fun d => d.file.typeNames).Nodup := by
  have hTexts : (l.flatMap fun d => d.file.typeNames) =
      (l.flatMap Delivery.names).map ClassName.canonical := by
    rw [List.map_flatMap]
    refine List.flatMap_congr fun d hMem => ?_
    exact (Source.File.of_topLevelNames (h.named d hMem)).1.symm
  rw [hTexts]
  refine h.names_nodup.map_on fun c hc c' hc' hSame => ?_
  obtain ⟨d, hMem, hName⟩ := List.mem_flatMap.mp hc
  obtain ⟨d', hMem', hName'⟩ := List.mem_flatMap.mp hc'
  obtain ⟨a, hSingle⟩ := (Source.File.of_topLevelNames (h.named d hMem)).2 c hName
  obtain ⟨a', hSingle'⟩ := (Source.File.of_topLevelNames (h.named d' hMem')).2 c' hName'
  exact ClassName.eq_of_canonical_of_single hSingle hSingle' hSame

theorem MemoryStore.get?_key_of_mem {m : MemoryStore} {u : GeneratedUnit} (hMem : u ∈ m.units) :
    m.get? u.key = some u := by
  obtain ⟨⟨key, u⟩, hEntry, rfl⟩ := List.mem_map.mp hMem
  have hKey : u.key = key := m.keyed _ hEntry
  exact OrderedMap.get?_eq_some_iff.mpr (hKey ▸ hEntry)

namespace Session.Booked

variable {s : Session MemoryStore} {l : List Delivery}

theorem typeNames_nodup (h : s.Booked l) :
    (s.store.units.flatMap fun u => u.file.typeNames).Nodup := by
  rw [(h.units.flatMap_right _).nodup_iff, List.flatMap_map]
  exact h.compatible.typeNames_nodup

theorem emitted_keys_perm (h : s.Booked l) :
    (s.journal.emitted.map (·.key)).Perm s.store.keys := by
  rw [h.emitted, List.map_map]
  exact h.keys.symm

theorem get?_of_emitted (h : s.Booked l) {e : EmittedUnit} (hMem : e ∈ s.journal.emitted) :
    ∃ u, s.store.get? e.key = some u ∧ e.generator = u.generator ∧ e.provenance = u.provenance := by
  rw [h.emitted] at hMem
  obtain ⟨d, hMade, rfl⟩ := List.mem_map.mp hMem
  have hStored : d.unit ∈ s.store.units := h.units.mem_iff.mpr (List.mem_map_of_mem hMade)
  exact ⟨d.unit, MemoryStore.get?_key_of_mem hStored, rfl, rfl⟩

end Session.Booked

namespace Pipeline

open Run

/-- After a successful run of the built-in generators into an empty store all types of all units
have different names, and the journal lists each key of the store once and no other key, under the
generator and with the provenance of the stored unit. Every unit is due for a declaration of the
table, and its provenance is the source file of that declaration. -/
theorem units_booked_once (settings : Settings) (t : SymbolTable) (report : Report)
    (hRun : ((build settings []).run t MemoryStore.empty).result = .ok report) :
    (((build settings []).run t MemoryStore.empty).store.units.flatMap
      fun u => u.file.typeNames).Nodup ∧
    (report.journal.emitted.map (·.key)).Nodup ∧
    (report.journal.emitted.map (·.key)).Perm
      ((build settings []).run t MemoryStore.empty).store.keys ∧
    (∀ e ∈ report.journal.emitted, ∃ u,
      ((build settings []).run t MemoryStore.empty).store.get? e.key = some u ∧
      e.generator = u.generator ∧ e.provenance = u.provenance) ∧
    ∀ u ∈ ((build settings []).run t MemoryStore.empty).store.units, ∃ d : Delivery,
      d.Due ((build settings []).context t) ∧ d.unit = u ∧ d.origin ∈ t.declarations ∧
      u.provenance = d.origin.sourceFile.toList := by
  have hForest := forest_of_run hRun
  rw [run_of_forest MemoryStore.empty hForest] at hRun ⊢
  rcases due_or_clash settings hForest with ⟨s, l, hGives, hOrder, hDue⟩ | ⟨fault, s, hFails, _⟩
  · rw [show _ = _ from hGives] at hRun ⊢
    cases hRun
    refine ⟨hOrder.typeNames_nodup, ?_, hOrder.emitted_keys_perm,
      fun e => hOrder.get?_of_emitted, fun u hMem => ?_⟩
    · exact hOrder.emitted_keys_perm.nodup_iff.mpr s.store.byKey.keys_nodup
    · obtain ⟨d, hMade, rfl⟩ := List.mem_map.mp (hOrder.units.mem_iff.mp hMem)
      exact ⟨d, hDue d hMade, rfl, (hDue d hMade).declared, rfl⟩
  · rw [show _ = _ from hFails] at hRun
    cases hRun

end Pipeline

/-! ## One activity -/

namespace Sample

/-- The entry of the only file that is made of an activity. -/
def activityEntry : EmittedUnit where
  generator := "appcomponent-creation"
  key := ⟨"com.example", "MainActivity_Injection"⟩
  provenance := ["src/main/MainActivity.kt"]

end Sample

namespace Pipeline

open Sample

/-- The file of an activity comes from the source file of the activity. -/
theorem units_booked_once_activity : ∃ report,
    ((build (.only .appcomponent) []).run activities MemoryStore.empty).result = .ok report ∧
    report.journal.emitted = [activityEntry] ∧
    ∃ u, ((build (.only .appcomponent) []).run activities MemoryStore.empty).store.get?
        activityEntry.key = some u ∧
      activityEntry.generator = u.generator ∧ activityEntry.provenance = u.provenance := by
  have hOk : ((build (.only .appcomponent) []).run activities
      MemoryStore.empty).result.isOk = true := by decide +kernel
  obtain ⟨report, hRun⟩ := exists_report hOk
  have hEmitted : ((build (.only .appcomponent) []).run activities
      MemoryStore.empty).result.toOption.map (·.journal.emitted) = some [activityEntry] := by
    decide +kernel
  rw [hRun] at hEmitted
  have hList : report.journal.emitted = [activityEntry] := Option.some.inj hEmitted
  obtain ⟨_, _, _, hEntries, _⟩ := units_booked_once (.only .appcomponent) activities report hRun
  exact ⟨report, hRun, hList, hEntries activityEntry (by simp [hList])⟩

end Pipeline

end Bindery
