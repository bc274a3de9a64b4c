import Bindery.Proofs.OrderedMap
import Bindery.Proofs.Results
import Bindery.Symbols.Table

/-! # Tables of declarations

The declarations of a table stand in the strict order of their names. Declarations of distinct names
may be inserted in any order: the table is the same.
-/

namespace Bindery.SymbolTable

/-- Declarations stand in the order of their names, and no name stands twice. -/
theorem declarations_pairwise (t : SymbolTable) :
    t.declarations.Pairwise fun a b => compare a.name b.name = .lt := by
  unfold declarations OrderedMap.values
  refine List.pairwise_map.mpr (t.byName.increasing.imp_of_mem ?_)
  intro a b ha hb hLt
  rwa [t.keyed a ha, t.keyed b hb]

theorem names_nodup (t : SymbolTable) : (t.declarations.map (·.name)).Nodup :=
  List.pairwise_map.mpr (t.declarations_pairwise.imp OrderedMap.key_ne_of_lt)

theorem find?_eq_some_iff {t : SymbolTable} {name : ClassName} {d : Declaration} :
    t.find? name = some d ↔ d ∈ t.declarations ∧ d.name = name := by
  unfold find? declarations OrderedMap.values
  rw [OrderedMap.get?_eq_some_iff, List.mem_map]
  constructor
  · intro hMem
    exact ⟨⟨_, hMem, rfl⟩, t.keyed _ hMem⟩
  · rintro ⟨⟨⟨key, d⟩, hMem, rfl⟩, rfl⟩
    have hKey := t.keyed _ hMem
    exact hKey ▸ hMem

theorem eq_of_find? {t u : SymbolTable} (h : ∀ name, t.find? name = u.find? name) : t = u := by
  obtain ⟨m, _⟩ := t
  obtain ⟨n, _⟩ := u
  obtain rfl : m = n := OrderedMap.eq_of_get? h
  rfl

theorem put_comm (t : SymbolTable) {c d : Declaration} (h : c.name = d.name → c = d) :
    (t.put c).put d = (t.put d).put c := by
  apply eq_of_find?
  intro name
  simp only [find?_put]
  by_cases hd : d.name = name <;> by_cases hc : c.name = name
  · simp [hd, h (hc.trans hd.symm)]
  · simp [hd, hc]
  · simp [hd, hc]
  · simp [hd, hc]

theorem insertAll_eq_foldl {t : SymbolTable} {l : List Declaration}
    (hNames : (l.map (·.name)).Nodup) (hFree : ∀ d ∈ l, t.find? d.name = none) :
    t.insertAll l = .ok (l.foldl put t) := by
  induction l generalizing t with
  | nil => rfl
  | cons d rest ih =>
    obtain ⟨hFirst, hRest⟩ := List.nodup_cons.mp hNames
    have hInsert : t.insert d = .ok (t.put d) := by
      simp [insert, hFree d List.mem_cons_self]
    rw [insertAll, hInsert]
    refine ih hRest fun c hMem => ?_
    have hOther : d.name ≠ c.name := by
      intro hName
      exact hFirst (List.mem_map.mpr ⟨c, hMem, hName.symm⟩)
    rw [find?_put, if_neg hOther]
    exact hFree c (List.mem_cons_of_mem _ hMem)

/-- One table comes of all orders of insertion. -/
theorem insertAll_perm {l l' : List Declaration} (hNames : (l.map (·.name)).Nodup)
    (hPerm : l.Perm l') : ∃ t, empty.insertAll l = .ok t ∧ empty.insertAll l' = .ok t := by
  have hNames' : (l'.map (·.name)).Nodup := (hPerm.map _).nodup_iff.mp hNames
  refine ⟨l.foldl put empty, insertAll_eq_foldl hNames (fun _ _ => rfl), ?_⟩
  rw [insertAll_eq_foldl hNames' (fun _ _ => rfl)]
  refine congrArg Except.ok (hPerm.foldl_eq' ?_ empty).symm
  intro c hc d hd t
  exact t.put_comm (List.inj_on_of_nodup_map hNames hc hd)

theorem declarations_put_perm {t : SymbolTable} {d : Declaration} (h : t.find? d.name = none) :
    (t.put d).declarations.Perm (d :: t.declarations) :=
  OrderedMap.values_insert_perm d h

/-- A declaration of a name that is still free is put between those that are there. -/
theorem exists_declarations_put {t : SymbolTable} {d : Declaration} (h : t.find? d.name = none) :
    ∃ front rest, t.declarations = front ++ rest ∧
      (t.put d).declarations = front ++ d :: rest := by
  have hFree : d.name ∉ t.byName.entries.map (·.1) := OrderedMap.get?_eq_none_iff.mp h
  obtain ⟨front, rest, hEntries, hPlace⟩ := OrderedMap.exists_place d hFree
  refine ⟨front.map (·.2), rest.map (·.2), ?_, ?_⟩
  · rw [declarations, OrderedMap.values, hEntries, List.map_append]
  · change (OrderedMap.place d.name d t.byName.entries).map (·.2) = _
    rw [hPlace, List.map_append, List.map_cons]

theorem put_append_perm {t : SymbolTable} {d : Declaration} (h : t.find? d.name = none)
    (rest : List Declaration) :
    ((t.put d).declarations ++ rest).Perm (t.declarations ++ d :: rest) :=
  ((declarations_put_perm h).append_right rest).trans List.perm_middle.symm

/-- The table of declarations of distinct names holds exactly these. -/
theorem declarations_ofList_perm {l : List Declaration} (h : (l.map (·.name)).Nodup) :
    (ofList l).declarations.Perm l := by
  have hFold (t : SymbolTable) (hNames : ((t.declarations ++ l).map (·.name)).Nodup) :
      (l.foldl put t).declarations.Perm (t.declarations ++ l) := by
    induction l generalizing t with
    | nil => simp
    | cons d rest ih =>
      have hFree : t.find? d.name = none := by
        rw [Option.eq_none_iff_forall_ne_some]
        intro c hFind
        obtain ⟨hMem, hName⟩ := find?_eq_some_iff.mp hFind
        rw [List.map_append, List.nodup_append] at hNames
        exact hNames.2.2 c.name (List.mem_map_of_mem hMem) d.name (by simp) hName
      have hPut := put_append_perm hFree rest
      have hRest := ih (List.nodup_cons.mp h).2 (t.put d) ((hPut.map _).nodup_iff.mpr hNames)
      exact hRest.trans hPut
  exact hFold empty h

theorem insertAll_append (t : SymbolTable) (l l' : List Declaration) :
    t.insertAll (l ++ l') = (t.insertAll l).bind fun t => t.insertAll l' := by
  induction l generalizing t with
  | nil => rfl
  | cons d rest ih =>
    rw [List.cons_append, insertAll, insertAll]
    cases t.insert d with
    | error fault => rfl
    | ok next => exact ih next

/-- A table that declarations were added to holds no others besides. -/
theorem forall_mem_of_insertAll {t u : SymbolTable} {l : List Declaration} {p : Declaration → Prop}
    (hOld : ∀ d ∈ t.declarations, p d) (hNew : ∀ d ∈ l, p d) (h : t.insertAll l = .ok u) :
    ∀ d ∈ u.declarations, p d := by
  induction l generalizing t with
  | nil =>
    cases h
    exact hOld
  | cons c rest ih =>
    obtain ⟨hFirst, hRest⟩ := List.forall_mem_cons.mp hNew
    obtain ⟨next, hInsert, h⟩ := bind_eq_ok_iff.mp h
    refine ih ?_ hRest h
    unfold insert at hInsert
    split at hInsert
    · cases hInsert
    · next hFree =>
      cases hInsert
      intro d hMem
      have hFree : t.find? c.name = none := by simpa using hFree
      rcases List.mem_cons.mp ((declarations_put_perm hFree).mem_iff.mp hMem) with rfl | hMem
      · exact hFirst
      · exact hOld d hMem

def duplicate (name : ClassName) : Fault :=
  Cause.invalidSnapshot ("duplicate declaration " ++ name.canonical)

/-- Inserting stops at the first declaration whose name is taken. -/
theorem insertAll_eq_duplicate {t : SymbolTable} {l : List Declaration}
    (h : ¬ ((t.declarations ++ l).map (·.name)).Nodup) :
    ∃ front d rest, l = front ++ d :: rest ∧ d.name ∈ (t.declarations ++ front).map (·.name) ∧
      t.insertAll l = .error (duplicate d.name) := by
  induction l generalizing t with
  | nil => exact absurd t.names_nodup (by simpa using h)
  | cons d rest ih =>
    cases hFind : t.find? d.name with
    | some taken =>
      obtain ⟨hMem, hName⟩ := find?_eq_some_iff.mp hFind
      refine ⟨[], d, rest, rfl, ?_, ?_⟩
      · simpa using ⟨taken, hMem, hName⟩
      · simp [insertAll, insert, hFind, duplicate, Except.bind]
    | none =>
      have hPerm := put_append_perm hFind rest
      obtain ⟨front, e, more, rfl, hMem, hError⟩ := ih (mt (hPerm.map _).nodup_iff.mp h)
      refine ⟨d :: front, e, more, rfl, ?_, ?_⟩
      · have hNames := ((declarations_put_perm hFind).append_right front).map (·.name)
        have hIn := hNames.mem_iff.mp hMem
        simpa [or_left_comm] using hIn
      · simpa [insertAll, insert, hFind, Except.bind] using hError

end Bindery.SymbolTable
