import Bindery.OrderedMap
import Mathlib.Data.List.Sort

/-! # Maps in key order, seen through their lookups

The entries of a map are exactly what its lookups find, so two maps that agree on every lookup are
the same map, whatever order their entries were inserted in.
-/

namespace Bindery.OrderedMap

variable {κ ν : Type} [Ord κ] [Std.LawfulEqOrd κ]

theorem key_ne_of_lt {a b : κ} (h : compare a b = .lt) : a ≠ b := by
  rintro rfl
  rw [Std.LawfulEqOrd.compare_eq_iff_eq.mpr rfl] at h
  cases h

variable [DecidableEq κ]

theorem find?_eq_some_iff {l : List (κ × ν)} (hSorted : l.Pairwise fun a b => compare a.1 b.1 = .lt)
    {key : κ} {value : ν} :
    ((l.find? fun e => decide (e.1 = key)).map (·.2) = some value) ↔ (key, value) ∈ l := by
  induction l with
  | nil => simp
  | cons e rest ih =>
    obtain ⟨hFirst, hRest⟩ := List.pairwise_cons.mp hSorted
    rw [List.find?_cons, List.mem_cons]
    by_cases hKey : e.1 = key
    · have hAbsent : (key, value) ∉ rest := by
        intro hMem
        exact key_ne_of_lt (hFirst _ hMem) hKey
      simp only [hKey, decide_true, Option.map_some, Option.some.injEq, hAbsent, or_false]
      constructor
      · rintro rfl
        rw [← hKey]
      · rintro rfl
        rfl
    · have hOther : (key, value) ≠ e := by
        rintro rfl
        exact hKey rfl
      simp only [hKey, decide_false, hOther, false_or]
      exact ih hRest

theorem get?_eq_some_iff {m : OrderedMap κ ν} {key : κ} {value : ν} :
    m.get? key = some value ↔ (key, value) ∈ m.entries :=
  find?_eq_some_iff m.increasing

theorem eq_of_get? [Std.TransOrd κ] {m n : OrderedMap κ ν}
    (h : ∀ key, m.get? key = n.get? key) : m = n := by
  have hAntisymm : Std.Antisymm fun a b : κ × ν => compare a.1 b.1 = .lt :=
    ⟨fun a b hab hba => absurd hba (by
      rw [Std.OrientedCmp.gt_of_lt hab]
      simp)⟩
  have hIrrefl : Std.Irrefl fun a b : κ × ν => compare a.1 b.1 = .lt :=
    ⟨fun a haa => key_ne_of_lt haa rfl⟩
  apply eq_of_entries
  refine m.increasing.eq_of_mem_iff n.increasing fun e => ?_
  rw [← get?_eq_some_iff, h, get?_eq_some_iff]

theorem get?_filter_eq_some_iff {m : OrderedMap κ ν} {keep : κ → ν → Bool} {key : κ} {value : ν} :
    (m.filter keep).get? key = some value ↔ m.get? key = some value ∧ keep key value = true := by
  rw [get?_eq_some_iff, get?_eq_some_iff]
  exact List.mem_filter

theorem get?_erase (m : OrderedMap κ ν) (key other : κ) :
    (m.erase key).get? other = if other = key then none else m.get? other := by
  apply Option.ext
  intro value
  rw [get?_eq_some_iff]
  split
  · next hSame => simp [erase, hSame]
  · next hOther => simp [erase, hOther, get?_eq_some_iff]

omit [Std.LawfulEqOrd κ] [DecidableEq κ] in
theorem place_map {μ : Type} (f : ν → μ) (key : κ) (value : ν) (l : List (κ × ν)) :
    place key (f value) (l.map fun e => (e.1, f e.2)) =
      (place key value l).map fun e => (e.1, f e.2) := by
  induction l with
  | nil => rfl
  | cons e rest ih =>
    rw [List.map_cons, place, place]
    cases compare key e.1 with
    | lt => rfl
    | eq => rfl
    | gt => simp [ih]

omit [Std.LawfulEqOrd κ] in
/-- A map with other values finds them where the values came from. -/
theorem get?_of_entries_map {μ : Type} {f : ν → μ} {m : OrderedMap κ ν} {n : OrderedMap κ μ}
    (h : n.entries = m.entries.map fun e => (e.1, f e.2)) (key : κ) :
    n.get? key = (m.get? key).map f := by
  rw [get?, h, List.find?_map, get?, Option.map_map, Option.map_map]
  rfl

omit [DecidableEq κ] in
theorem keys_nodup (m : OrderedMap κ ν) : m.keys.Nodup :=
  List.pairwise_map.mpr (m.increasing.imp key_ne_of_lt)

omit [Std.LawfulEqOrd κ] in
theorem get?_eq_none_iff {m : OrderedMap κ ν} {key : κ} : m.get? key = none ↔ key ∉ m.keys := by
  unfold get? keys
  rw [Option.map_eq_none_iff, List.find?_eq_none, List.mem_map]
  constructor
  · rintro h ⟨e, hMem, rfl⟩
    exact h e hMem (decide_eq_true rfl)
  · intro h e hMem hKey
    exact h ⟨e, hMem, of_decide_eq_true hKey⟩

theorem mem_keys_of_get? {m : OrderedMap κ ν} {key : κ} {value : ν} (h : m.get? key = some value) :
    key ∈ m.keys :=
  List.mem_map.mpr ⟨_, get?_eq_some_iff.mp h, rfl⟩

theorem mem_keys_insert [Std.TransOrd κ] {m : OrderedMap κ ν} {key other : κ} {value : ν} :
    other ∈ (m.insert key value).keys ↔ key = other ∨ other ∈ m.keys := by
  rw [← not_iff_not, not_or, ← get?_eq_none_iff, ← get?_eq_none_iff, get?_insert]
  by_cases hSame : key = other <;> simp [hSame]

omit [DecidableEq κ] in
/-- An entry under a key that is still free is put between those that are there. -/
theorem exists_place {key : κ} (value : ν) {l : List (κ × ν)} (h : key ∉ l.map (·.1)) :
    ∃ front rest, l = front ++ rest ∧ place key value l = front ++ (key, value) :: rest := by
  induction l with
  | nil => exact ⟨[], [], rfl, rfl⟩
  | cons e rest ih =>
    rw [List.map_cons, List.mem_cons, not_or] at h
    unfold place
    split
    · exact ⟨[], e :: rest, rfl, rfl⟩
    · next hEq => exact absurd (Std.LawfulEqOrd.eq_of_compare hEq) h.1
    · obtain ⟨front, behind, rfl, hPlace⟩ := ih h.2
      exact ⟨e :: front, behind, rfl, by rw [hPlace, List.cons_append]⟩

omit [DecidableEq κ] in
theorem place_perm {key : κ} (value : ν) {l : List (κ × ν)} (h : key ∉ l.map (·.1)) :
    (place key value l).Perm ((key, value) :: l) := by
  obtain ⟨front, rest, rfl, hPlace⟩ := exists_place value h
  rw [hPlace]
  exact List.perm_middle

/-- An entry under a key that is still free comes beside those that are there. -/
theorem entries_insert_perm [Std.TransOrd κ] {m : OrderedMap κ ν} {key : κ} (value : ν)
    (h : m.get? key = none) : (m.insert key value).entries.Perm ((key, value) :: m.entries) :=
  place_perm value (get?_eq_none_iff.mp h)

theorem keys_insert_perm [Std.TransOrd κ] {m : OrderedMap κ ν} {key : κ} (value : ν)
    (h : m.get? key = none) : (m.insert key value).keys.Perm (key :: m.keys) :=
  (entries_insert_perm value h).map Prod.fst

theorem values_insert_perm [Std.TransOrd κ] {m : OrderedMap κ ν} {key : κ} (value : ν)
    (h : m.get? key = none) : (m.insert key value).values.Perm (value :: m.values) :=
  (entries_insert_perm value h).map Prod.snd

end Bindery.OrderedMap
