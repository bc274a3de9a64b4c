import Bindery.Proofs.Emission.Places
import Bindery.Proofs.Emission.Sequences
import Bindery.Proofs.Emission.Writing

/-! # The store on disk and the store in memory

As long as the disk refuses nothing, both stores answer alike to every unit. The store on disk keeps
the entries of the units that the one in memory keeps, and their files hold what is rendered there.
-/

namespace Bindery

namespace FileStore

open Bindery.Path (IsName)

variable {s₀ s s' : FileStore} {m : MemoryStore} {u : GeneratedUnit} {key : UnitKey}

theorem pathFor_eq (s : FileStore) (key : UnitKey) :
    s.pathFor key = s.target key.directories key.fileName := by
  rw [pathFor, UnitKey.relativePath_eq]
  rfl

theorem names_eq (s : FileStore) (key : UnitKey) :
    s.base ++ key.directories ++ [key.fileName] = s.base ++ key.names :=
  List.append_assoc _ _ _

/-- The unit is refused by the disk and not for its key. -/
def IsIo (result : Except Fault Unit) : Prop := ∃ kind context, result = .error (.ofIo kind context)

theorem isIo_of_writeAtomic {path text : String} (h : (s.writeAtomic path text).result ≠ .ok ()) :
    IsIo (s.writeAtomic path text).result := by
  have hSwap (s : FileStore) (temporary path : String)
      (h : (s.swap temporary path).result ≠ .ok ()) : IsIo (s.swap temporary path).result := by
    unfold swap at h ⊢
    split at h
    · exact absurd rfl h
    · exact ⟨_, _, rfl⟩
  have hThrough (s : FileStore) (h : (s.writeThrough path text).result ≠ .ok ()) :
      IsIo (s.writeThrough path text).result := by
    simp only [writeThrough] at h ⊢
    split at h
    · exact hSwap _ _ _ h
    · exact ⟨_, _, rfl⟩
  unfold writeAtomic at h ⊢
  split at h
  · exact hThrough _ h
  · split at h
    · exact hThrough _ h
    · exact ⟨_, _, rfl⟩

/-! ## What both stores hold -/

/-- A store that grew out of another one holds on disk what a store in memory holds. -/
structure Mirrors (s₀ s : FileStore) (m : MemoryStore) : Prop where
  eq : s = { s₀ with disk := s.disk, written := s.written, counter := s.counter }
  home : s.disk.home = s₀.disk.home
  entries : s.written.entries = m.byKey.entries.map fun e => (e.1, entryOf e.2 e.2.text)
  plain : ∀ u ∈ m.units, u.key.IsPlain
  texts : ∀ u ∈ m.units, s.disk.readText (s.pathFor u.key) = .ok u.text

theorem mirrors_empty (h : s.written = .empty) : Mirrors s s .empty where
  eq := rfl
  home := rfl
  entries := by rw [h]; rfl
  plain := by simp [MemoryStore.units, MemoryStore.empty, OrderedMap.empty, OrderedMap.values]
  texts := by simp [MemoryStore.units, MemoryStore.empty, OrderedMap.empty, OrderedMap.values]

namespace Mirrors

variable (h : Mirrors s₀ s m)

include h

theorem get? (key : UnitKey) :
    s.written.get? key = (m.get? key).map fun u => entryOf u u.text :=
  OrderedMap.get?_of_entries_map h.entries key

theorem keys : s.written.keys = m.keys := by
  rw [OrderedMap.keys, h.entries, List.map_map]
  rfl

theorem entries_eq : s.entries = m.units.map fun u => entryOf u u.text := by
  rw [FileStore.entries, OrderedMap.values, h.entries, MemoryStore.units, OrderedMap.values,
    List.map_map, List.map_map]
  rfl

theorem processTag : s.processTag = s₀.processTag := by rw [h.eq]

theorem root : s.root = s₀.root := by rw [h.eq]

theorem put (hPlain : u.key.IsPlain) (hFree : m.get? u.key = none)
    (hAccepts : s.Accepts u.key.directories u.key.fileName)
    (hWrote : s.Wrote s' u.key.directories u.key.fileName u.text) :
    Mirrors s₀ { s' with written := s'.written.insert u.key (entryOf u u.text) } (m.put u) where
  eq := by
    rw [hWrote.eq, h.eq]
  home := hWrote.home.trans h.home
  entries := by
    change OrderedMap.place u.key (entryOf u u.text) s'.written.entries = _
    rw [hWrote.written, h.entries]
    exact OrderedMap.place_map (fun u => entryOf u u.text) u.key u _
  plain v hMem := by
    rcases List.mem_cons.mp ((MemoryStore.units_put_perm hFree).mem_iff.mp hMem) with rfl | hMem
    · exact hPlain
    · exact h.plain v hMem
  texts v hMem := by
    change s'.disk.readText (Path.join s'.root _) = _
    rw [hWrote.root]
    change s'.disk.readText (s.pathFor v.key) = _
    rcases List.mem_cons.mp ((MemoryStore.units_put_perm hFree).mem_iff.mp hMem) with rfl | hMem
    · rw [pathFor_eq]
      exact hWrote.readText_target hAccepts hPlain.isName
    · have hText := h.texts v hMem
      obtain ⟨k, hLocate, -⟩ := Disk.readText_eq_ok_iff.mp hText
      refine hWrote.readText_kept hAccepts hLocate ?_ hText
      rw [pathFor_eq, locate_target (h.plain v hMem).isName rfl] at hLocate
      rw [hLocate.2.2, names_eq, names_eq]
      intro hSame
      -- one path for both would mean one key, and the key was free
      have hKey := UnitKey.eq_of_names (List.append_cancel_left hSame)
      rw [← hKey, MemoryStore.get?_key_of_mem hMem] at hFree
      cases hFree

/-- Unless the disk refuses it, a unit is answered alike. -/
theorem emit (hTag : '/' ∉ s₀.processTag.toList) (hPlain : u.key.IsPlain)
    (hDisk : ¬ IsIo (s.emit u).result) :
    (s.emit u).result = (m.emit u).result ∧ Mirrors s₀ (s.emit u).store (m.emit u).store := by
  cases hFind : m.get? u.key with
  | some first =>
    have hWritten := h.get? u.key
    rw [hFind] at hWritten
    simp only [FileStore.emit, hWritten, Option.map_some, MemoryStore.emit_of_some hFind]
    exact ⟨rfl, h⟩
  | none =>
    have hWritten := h.get? u.key
    rw [hFind] at hWritten
    have hOk : (s.writeAtomic (s.pathFor u.key) u.text).result = .ok () := by
      by_contra hRefused
      obtain ⟨kind, context, hError⟩ := isIo_of_writeAtomic hRefused
      refine hDisk ⟨kind, context, ?_⟩
      simp only [FileStore.emit, hWritten, Option.map_none, hError]
    rw [MemoryStore.emit_of_none hFind]
    simp only [FileStore.emit, hWritten, Option.map_none, hOk, true_and]
    rw [pathFor_eq] at hOk ⊢
    have hAccepts := accepts_of_writeAtomic hPlain.isName (h.processTag ▸ hTag) hOk
    have hWrote := (hAccepts.wrote hPlain.isName (h.processTag ▸ hTag) u.text).2
    exact h.put hPlain hFind hAccepts hWrote

/-- A sequence of units of which the disk refuses none is answered alike. -/
theorem emitAll {units : List GeneratedUnit} (hTag : '/' ∉ s₀.processTag.toList)
    (hPlain : ∀ u ∈ units, u.key.IsPlain)
    (hDisk : ∀ result ∈ (Store.emitAll s units).1, ¬ IsIo result) :
    (Store.emitAll s units).1 = (Store.emitAll m units).1 ∧
      Mirrors s₀ (Store.emitAll s units).2 (Store.emitAll m units).2 := by
  induction units generalizing s m with
  | nil => exact ⟨rfl, h⟩
  | cons u rest ih =>
    obtain ⟨hFirst, hRest⟩ := List.forall_mem_cons.mp hPlain
    obtain ⟨hHead, hTail⟩ := List.forall_mem_cons.mp hDisk
    obtain ⟨hResult, hNext⟩ := h.emit hTag hFirst hHead
    obtain ⟨hResults, hLast⟩ := ih hNext hRest hTail
    exact ⟨congrArg₂ List.cons hResult hResults, hLast⟩

end Mirrors

end FileStore

end Bindery
