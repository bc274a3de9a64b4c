import Bindery.Proofs.Emission.Agreement

/-! # Units do not stand in each other's way

A unit that can be written to a disk can still be written when files of other units have been
written there. New directories are those on the way to the root, or are named by identifiers, and
the names of new files and of temporary files tell themselves apart by their dots.
-/

namespace Bindery.FileStore

open Bindery.Path (IsName)

variable {s₀ s s' : FileStore} {above aside : List String} {last name : String} {key : UnitKey}
  {keys : List UnitKey} {k : DiskKey}

/-! ## Places of files -/

theorem isPlace_manifest : IsPlace [] Manifest.fileName := ⟨by decide, by simp, by decide⟩

theorem IsPlace.mem_passed_iff (h : IsPlace above last) (s : FileStore) :
    k ∈ s.passed above ↔ k ∈ Disk.trail s.origin (Disk.names s.root) ∨
      ∃ front, front ≠ [] ∧ front <+: above ∧ k = s.base ++ front := by
  have hNames : ∀ name ∈ above, IsName name := fun name hMem =>
    h.isName name (List.mem_append_left _ hMem)
  rw [passed, Disk.trail_append, List.mem_append, ← base, Disk.mem_trail_of_isName hNames]

theorem IsPlace.dot_mem (h : IsPlace above last) : '.' ∈ last.toList := by
  rw [← List.count_pos_iff, h.count]
  exact Nat.one_pos

/-- A name with a dot is on the way to no other file. -/
theorem IsPlace.notMem_passed {other : String} (h : IsPlace above last)
    (hOther : IsPlace aside other) (hDot : '.' ∈ name.toList)
    (hApart : s.base ++ above ++ [name] ∉ s.passed above) :
    s.base ++ above ++ [name] ∉ s.passed aside := by
  rw [h.mem_passed_iff, not_or] at hApart
  rw [hOther.mem_passed_iff, not_or]
  refine ⟨hApart.1, ?_⟩
  rintro ⟨front, -, hPrefix, hSame⟩
  rw [List.append_assoc] at hSame
  have hFront := List.append_cancel_left hSame
  have hMem : name ∈ aside := hPrefix.subset (by simp [← hFront])
  exact hOther.dot_notMem name hMem hDot

theorem two_le_count_temporaryName (s : FileStore) (last : String) :
    2 ≤ (s.temporaryName last).toList.count '.' := by
  have hMark : temporaryMark.toList.count '.' = 2 := rfl
  simp only [temporaryName, String.toList_append, List.count_append, hMark]
  omega

/-! ## Disks with the files of units -/

/-- What stands under a key was there at first, or it is a directory or the file of a unit. -/
def Explained (s : FileStore) (keys : List UnitKey) (k : DiskKey) (found : Option DiskEntry) :
    Prop :=
  found = s.disk.entry? k ∨
    (found = some .directory ∧ ∃ key ∈ keys, k ∈ s.passed key.directories) ∨
    ((∃ content, found = some (.file content)) ∧ ∃ key ∈ keys, k = s.base ++ key.names)

theorem Explained.more {found : Option DiskEntry} (h : s.Explained keys k found)
    (key : UnitKey) : s.Explained (keys ++ [key]) k found := by
  rcases h with hSame | ⟨hNew, other, hOther, hMem⟩ | ⟨hFile, other, hOther, hMem⟩
  · exact .inl hSame
  · exact .inr (.inl ⟨hNew, other, List.mem_append_left _ hOther, hMem⟩)
  · exact .inr (.inr ⟨hFile, other, List.mem_append_left _ hOther, hMem⟩)

/-- A store that grew out of another one has entries more only for units of some keys. -/
structure Grown (s₀ s : FileStore) (keys : List UnitKey) : Prop where
  eq : s = { s₀ with disk := s.disk, written := s.written, counter := s.counter }
  home : s.disk.home = s₀.disk.home
  counter : s.counter ≤ keys.length
  explained : ∀ k, s₀.Explained keys k (s.disk.entry? k)

/-- The file can be written to the disk as it is, whatever its temporary name. -/
structure Ready (s₀ : FileStore) (above : List String) (last : String) (bound : Nat) : Prop where
  place : IsPlace above last
  accepts : ∀ n < bound, ({ s₀ with counter := n } : FileStore).Accepts above last

theorem Ready.mono {bound limit : Nat} (h : s₀.Ready above last bound) (hLess : limit ≤ bound) :
    s₀.Ready above last limit :=
  ⟨h.place, fun n hBelow => h.accepts n (Nat.lt_of_lt_of_le hBelow hLess)⟩

namespace Grown

variable (h : Grown s₀ s keys)

include h

theorem root : s.root = s₀.root := by rw [h.eq]

theorem origin : s.origin = s₀.origin := origin_congr h.home h.root

theorem base : s.base = s₀.base := base_congr h.home h.root

theorem passed (above : List String) : s.passed above = s₀.passed above :=
  passed_congr h.home h.root above

theorem write {u : GeneratedUnit} (hWrote : s.Wrote s' u.key.directories u.key.fileName u.text)
    (written : OrderedMap UnitKey ManifestEntry) :
    Grown s₀ { s' with written } (keys ++ [u.key]) where
  eq := by
    rw [hWrote.eq, h.eq]
  home := hWrote.home.trans h.home
  counter := by
    have hCounter := h.counter
    rw [hWrote.eq, List.length_append]
    exact Nat.add_le_add_right hCounter 1
  explained k := by
    change s₀.Explained _ k (s'.disk.entry? k)
    rw [hWrote.entries, h.base, h.passed]
    split
    · next hTarget =>
      refine .inr (.inr ⟨⟨_, rfl⟩, u.key, by simp, ?_⟩)
      rw [hTarget, names_eq]
    · split
      · next hMem => exact .inr (.inl ⟨rfl, u.key, by simp, hMem⟩)
      · exact (h.explained k).more u.key

theorem more (key : UnitKey) : Grown s₀ s (keys ++ [key]) where
  eq := h.eq
  home := h.home
  counter := by
    have hCounter := h.counter
    rw [List.length_append]
    omega
  explained k := (h.explained k).more key

variable {bound : Nat} (hKeys : ∀ key ∈ keys, s₀.Ready key.directories key.fileName 1)

include hKeys

theorem keeps : s₀.disk.Keeps s.disk := by
  refine ⟨h.home, fun k hDirectory => ?_⟩
  rcases h.explained k with hSame | ⟨hNew, -⟩ | ⟨-, key, hMem, rfl⟩
  · rw [hSame, hDirectory]
  · exact hNew
  · have hFree := ((hKeys key hMem).accepts 0 Nat.one_pos).targetFree
    rw [names_eq] at hFree
    exact absurd hDirectory hFree

section Place

variable (hPlace : IsPlace above last)

include hPlace

/-- No file of a unit is in the way of another file. -/
theorem clear (hStart : s₀.disk.entry? s₀.origin = some .directory)
    (hClear : s₀.disk.Clear s₀.origin (Disk.names s₀.root ++ above)) :
    s.disk.Clear s₀.origin (Disk.names s₀.root ++ above) := by
  refine ⟨fun _ => (h.keeps hKeys).directory _ hStart, hClear.short, fun k hMem content => ?_⟩
  rcases h.explained k with hSame | ⟨hNew, -⟩ | ⟨-, other, hOther, rfl⟩
  · rw [hSame]
    exact hClear.noFile k hMem content
  · simp [hNew]
  · -- the name of the file has a dot, and below the root no key on the way has one
    have hReady := hKeys other hOther
    have hAway := hReady.place.notMem_passed hPlace hReady.place.dot_mem
      (hReady.accepts 0 Nat.one_pos).targetApart
    rw [names_eq] at hAway
    exact absurd hMem hAway

theorem temporaryFree (hDots : 2 ≤ name.toList.count '.')
    (hApart : s₀.base ++ above ++ [name] ∉ s₀.passed above)
    (hFree : s₀.disk.entry? (s₀.base ++ above ++ [name]) = none) :
    s.disk.entry? (s₀.base ++ above ++ [name]) = none := by
  have hDot : '.' ∈ name.toList := List.count_pos_iff.mp (by omega)
  rcases h.explained (s₀.base ++ above ++ [name])
    with hSame | ⟨-, other, hOther, hMem⟩ | ⟨-, other, hOther, hSame⟩
  · rw [hSame, hFree]
  · exact absurd hMem (hPlace.notMem_passed (hKeys other hOther).place hDot hApart)
  · rw [← names_eq] at hSame
    have hName := (List.cons.inj (List.append_inj' hSame rfl).2).1
    rw [hName, (hKeys other hOther).place.count] at hDots
    omega

theorem targetFree (hApart : s₀.base ++ above ++ [last] ∉ s₀.passed above)
    (hFree : s₀.disk.entry? (s₀.base ++ above ++ [last]) ≠ some .directory) :
    s.disk.entry? (s₀.base ++ above ++ [last]) ≠ some .directory := by
  rcases h.explained (s₀.base ++ above ++ [last])
    with hSame | ⟨-, other, hOther, hMem⟩ | ⟨⟨content, hFile⟩, -⟩
  · rwa [hSame]
  · exact absurd hMem
      (hPlace.notMem_passed (hKeys other hOther).place hPlace.dot_mem hApart)
  · rw [hFile]
    simp

end Place

/-- What could be written at first can be written now. -/
theorem accepts (hReady : s₀.Ready above last bound) (hCounter : s.counter < bound) :
    s.Accepts above last := by
  have hFirst := hReady.accepts s.counter hCounter
  refine hFirst.transfer ?_ h.home ?_ ?_ ?_ ?_
  · rw [h.eq]
  · exact (h.keeps hKeys).directory _ hFirst.origin
  · exact h.clear hKeys hReady.place hFirst.origin hFirst.clear
  · exact h.temporaryFree hKeys hReady.place (two_le_count_temporaryName _ _)
      hFirst.temporaryApart hFirst.temporaryFree
  · exact h.targetFree hKeys hReady.place hFirst.targetApart hFirst.targetFree

/-- The disk refuses no unit that could be written at first. -/
theorem emit {u : GeneratedUnit} (hTag : '/' ∉ s₀.processTag.toList)
    (hReady : s₀.Ready u.key.directories u.key.fileName bound) (hCounter : s.counter < bound) :
    ¬ IsIo (s.emit u).result ∧ Grown s₀ (s.emit u).store (keys ++ [u.key]) := by
  cases hFind : s.written.get? u.key with
  | some first =>
    simp only [FileStore.emit, hFind]
    refine ⟨?_, h.more u.key⟩
    rintro ⟨kind, context, hError⟩
    cases hError
  | none =>
    have hTag' : '/' ∉ s.processTag.toList := by
      rw [h.eq]
      exact hTag
    obtain ⟨hOk, hWrote⟩ :=
      (h.accepts hKeys hReady hCounter).wrote hReady.place.isName hTag' u.text
    rw [← pathFor_eq] at hOk hWrote
    simp only [FileStore.emit, hFind, hOk]
    refine ⟨?_, h.write hWrote _⟩
    rintro ⟨kind, context, hError⟩
    cases hError

omit hKeys in
theorem emitAll {units : List GeneratedUnit} (hTag : '/' ∉ s₀.processTag.toList)
    (hKeys : ∀ key ∈ keys, s₀.Ready key.directories key.fileName 1)
    (hUnits : ∀ u ∈ units, s₀.Ready u.key.directories u.key.fileName bound)
    (hBound : keys.length + units.length ≤ bound) :
    (∀ result ∈ (Store.emitAll s units).1, ¬ IsIo result) ∧
      Grown s₀ (Store.emitAll s units).2 (keys ++ units.map (·.key)) := by
  induction units generalizing s keys with
  | nil => exact ⟨by simp [Store.emitAll], by simpa [Store.emitAll] using h⟩
  | cons u rest ih =>
    obtain ⟨hFirst, hRest⟩ := List.forall_mem_cons.mp hUnits
    have hCounter := h.counter
    rw [List.length_cons] at hBound
    obtain ⟨hResult, hNext⟩ := h.emit hKeys hTag hFirst (by omega)
    have hKeys' : ∀ key ∈ keys ++ [u.key], s₀.Ready key.directories key.fileName 1 :=
      List.forall_mem_append.mpr
        ⟨hKeys, List.forall_mem_singleton.mpr (hFirst.mono (by omega))⟩
    -- each unit takes one number at most, so the bound holds for the rest as well
    have hBound' : (keys ++ [u.key]).length + rest.length ≤ bound := by
      rw [List.length_append, List.length_singleton]
      omega
    obtain ⟨hResults, hLast⟩ := ih hNext hKeys' hRest hBound'
    refine ⟨List.forall_mem_cons.mpr ⟨hResult, hResults⟩, ?_⟩
    rw [List.append_assoc] at hLast
    exact hLast

end Grown

/-- Every unit could be written to the disk as it is, whatever temporary name is its turn. -/
def Unobstructed (s : FileStore) (units : List GeneratedUnit) : Prop :=
  ∀ u ∈ units, ∀ n < units.length,
    (({ s with counter := n } : FileStore).writeAtomic (s.pathFor u.key) u.text).result = .ok ()

namespace Unobstructed

variable {units : List GeneratedUnit} (h : s.Unobstructed units)
  (hTag : '/' ∉ s.processTag.toList) (hPlain : ∀ u ∈ units, u.key.IsPlain)

include h hTag hPlain

theorem ready : ∀ u ∈ units, s.Ready u.key.directories u.key.fileName units.length := by
  intro u hMem
  refine ⟨(hPlain u hMem).isPlace, fun n hLess => ?_⟩
  have hOk := h u hMem n hLess
  rw [pathFor_eq] at hOk
  exact accepts_of_writeAtomic (hPlain u hMem).isName hTag hOk

/-- No unit of a sequence is refused if each could be written alone. -/
theorem emitAll (hFresh : s.counter = 0) :
    (∀ result ∈ (Store.emitAll s units).1, ¬ IsIo result) ∧
      Grown s (Store.emitAll s units).2 (units.map (·.key)) := by
  have hGrown : Grown s s [] := ⟨rfl, rfl, by simp [hFresh], fun k => .inl rfl⟩
  exact hGrown.emitAll hTag (by simp) (h.ready hTag hPlain) (by simp)

end Unobstructed

end Bindery.FileStore
