import Bindery.Proofs.Disk.Parents
import Bindery.Proofs.Disk.Routes
import Mathlib.Data.List.Induction

/-! # Entries of a tree

In a tree every entry stands in a directory and under names that a directory can hold. Whatever
stands below a directory is found under the path of the directory with the names behind it.
-/

namespace Bindery.Disk

open Bindery.Path (IsName)

/-- Every entry stands in a directory, under names of a fitting length. -/
structure IsTree (disk : Disk) : Prop where
  isName : ∀ key ∈ disk.entries.keys, ∀ name ∈ key, IsName name
  short : ∀ key ∈ disk.entries.keys, ∀ name ∈ key, name.utf8ByteSize ≤ maxNameLength
  parent : ∀ key ∈ disk.entries.keys, disk.entry? key.dropLast = some .directory

instance (disk : Disk) : Decidable disk.IsTree :=
  decidable_of_iff
    ((∀ key ∈ disk.entries.keys, ∀ name ∈ key, IsName name) ∧
      (∀ key ∈ disk.entries.keys, ∀ name ∈ key, name.utf8ByteSize ≤ maxNameLength) ∧
      ∀ key ∈ disk.entries.keys, disk.entry? key.dropLast = some .directory)
    ⟨fun h => ⟨h.1, h.2.1, h.2.2⟩, fun h => ⟨h.isName, h.short, h.parent⟩⟩

variable {disk : Disk} {key names : DiskKey} {entry : DiskEntry} {path : String}

theorem mem_keys_of_entry (hSome : key ≠ []) (h : disk.entry? key = some entry) :
    key ∈ disk.entries.keys := by
  rw [entry?_of_ne_nil hSome, OrderedMap.get?_eq_some_iff] at h
  exact List.mem_map.mpr ⟨_, h, rfl⟩

theorem mem_below_iff :
    (names, entry) ∈ disk.below key ↔ names ≠ [] ∧ disk.entry? (key ++ names) = some entry := by
  rw [below, List.mem_filterMap]
  constructor
  · rintro ⟨⟨k, found⟩, hMem, hBelow⟩
    simp only [Option.ite_none_right_eq_some, Bool.and_eq_true, List.isPrefixOf_iff_prefix,
      decide_eq_true_eq, Option.some.injEq, Prod.mk.injEq] at hBelow
    obtain ⟨⟨⟨rest, rfl⟩, hOther⟩, hNames, rfl⟩ := hBelow
    obtain rfl : rest = names := by simpa using hNames
    have hSome : rest ≠ [] := by simpa using hOther
    exact ⟨hSome, by rwa [entry?_of_ne_nil (by simp [hSome]), OrderedMap.get?_eq_some_iff]⟩
  · rintro ⟨hSome, hEntry⟩
    rw [entry?_of_ne_nil (by simp [hSome]), OrderedMap.get?_eq_some_iff] at hEntry
    exact ⟨(key ++ names, entry), hEntry, by simp [hSome]⟩

theorem IsTree.directory (h : disk.IsTree) (hSome : names ≠ [])
    (hEntry : (disk.entry? (key ++ names)).isSome) : disk.entry? key = some .directory := by
  induction names using List.reverseRec with
  | nil => exact absurd rfl hSome
  | append_singleton front name ih =>
    obtain ⟨entry, hFound⟩ := Option.isSome_iff_exists.mp hEntry
    have hFront := h.parent _ (mem_keys_of_entry (by simp) hFound)
    rw [← List.append_assoc, List.dropLast_concat] at hFront
    by_cases hNil : front = []
    · simpa [hNil] using hFront
    · exact ih hNil (by simp [hFront])

theorem IsTree.passes (h : disk.IsTree) (hSome : names ≠ [])
    (hEntry : (disk.entry? (key ++ names)).isSome) : disk.Passes key names := by
  induction names generalizing key with
  | nil => trivial
  | cons name rest ih =>
    obtain ⟨entry, hFound⟩ := Option.isSome_iff_exists.mp hEntry
    have hKey := mem_keys_of_entry (by simp) hFound
    refine ⟨h.directory hSome hEntry, h.short _ hKey name (by simp), ?_⟩
    rw [moved_of_isName (h.isName _ hKey name (by simp))]
    by_cases hNil : rest = []
    · rw [hNil]
      trivial
    · exact ih hNil (by simpa using hEntry)

theorem IsTree.isName_below (h : disk.IsTree) (hMem : (names, entry) ∈ disk.below key) :
    ∀ name ∈ names, IsName name := by
  obtain ⟨hSome, hEntry⟩ := mem_below_iff.mp hMem
  have hKey := mem_keys_of_entry (by simp [hSome]) hEntry
  exact fun name hIn => h.isName _ hKey name (List.mem_append_right _ hIn)

theorem start_join (path : String) (h : ∀ name ∈ names, IsName name) :
    disk.start (Path.join path (Path.ofPieces names)) = disk.start path := by
  rw [start, start, Path.isAbsolute_join (Path.isAbsolute_ofPieces h)]

/-- The names of a path lead where its route leads, since the route has at most a dot more. -/
theorem lead_route (key : DiskKey) (path : String) :
    lead key (route path) = lead key (Disk.names path) := by
  unfold route
  split
  · exact lead_append_dots (by simp)
  · rfl

theorem Passes.of_route (h : disk.Passes key (route path)) :
    disk.Passes key (Disk.names path) := by
  unfold route at h
  split at h
  · exact (passes_append.mp h).1
  · exact h

/-- An entry below a directory is found along the path of the directory. -/
theorem IsTree.lookup_join (h : disk.IsTree) (hPath : disk.lookup path = .ok (key, .directory))
    (hMem : (names, entry) ∈ disk.below key)
    (hFine : refusal? (Path.join path (Path.ofPieces names)) = none) :
    disk.lookup (Path.join path (Path.ofPieces names)) = .ok (key ++ names, entry) := by
  obtain ⟨hSome, hEntry⟩ := mem_below_iff.mp hMem
  have hNames := h.isName_below hMem
  obtain ⟨hLocate, hDirectory⟩ := lookup_eq_ok_iff.mp hPath
  obtain ⟨-, hPasses, hLead⟩ := locate_eq_ok_iff.mp hLocate
  rw [lead_route] at hLead
  obtain ⟨front, last, rfl⟩ := (List.eq_nil_or_concat names).resolve_left hSome
  rw [List.concat_eq_append] at *
  refine lookup_eq_ok_iff.mpr ⟨locate_eq_ok_iff.mpr ⟨hFine, ?_⟩, hEntry⟩
  rw [start_join path hNames, route_join_ofPieces path hNames, List.append_assoc, lead_append,
    passes_append, ← hLead, lead_of_isName hNames]
  exact ⟨⟨hPasses.of_route, h.passes hSome (by simp [hEntry])⟩, rfl⟩

end Bindery.Disk
