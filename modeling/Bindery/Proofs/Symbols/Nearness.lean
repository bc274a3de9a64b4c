import Bindery.Proofs.Symbols.Supertypes

/-! # Supertypes in the order of their distance

Each level of the walk up the supertypes has the names at one distance from the start, and the
levels follow each other. So the names stand in the order of their distances, however the table
leads back to what was met before, and none stands twice.
-/

namespace Bindery.SymbolTable

variable {t : SymbolTable} {start c : ClassName} {d : Declaration} {k : Nat}
  {seen names : List ClassName}

/-- The shortest way up from the first name to the second one has `k` steps. -/
structure Distance (t : SymbolTable) (start : ClassName) (k : Nat) (c : ClassName) : Prop where
  reached : t.Ascends k start c
  least : ∀ i < k, ¬ t.Ascends i start c

theorem Distance.unique {i j : Nat} (h : t.Distance start i c) (h' : t.Distance start j c) :
    i = j := by
  rcases Nat.lt_trichotomy i j with hLess | hSame | hMore
  · exact absurd h.reached (h'.least i hLess)
  · exact hSame
  · exact absurd h'.reached (h.least j hMore)

/-! ## Each name once -/

theorem nodup_eraseDups (l : List ClassName) : l.eraseDups.Nodup := by
  cases l with
  | nil => exact List.nodup_nil
  | cons first rest =>
    rw [List.eraseDups_cons, List.nodup_cons]
    constructor
    · simp
    · exact nodup_eraseDups _
termination_by l.length
decreasing_by
  have hFilter := List.length_filter_le (fun c => !c == first) rest
  rw [List.length_cons]
  omega

theorem nodup_unseen (seen names : List ClassName) : (unseen seen names).Nodup :=
  (nodup_eraseDups names).filter _

theorem reach_fresh (t : SymbolTable) (bound : Nat) (seen names : List ClassName) :
    (t.reach bound seen names).Nodup ∧ ∀ n ∈ t.reach bound seen names, n ∉ seen := by
  induction bound generalizing seen names with
  | zero => exact ⟨List.nodup_nil, nofun⟩
  | succ bound ih =>
    obtain ⟨hNodup, hFresh⟩ := ih (seen ++ unseen seen names)
      ((unseen seen names).flatMap t.directSupertypes)
    rw [reach_succ]
    constructor
    · rw [List.nodup_append]
      refine ⟨nodup_unseen seen names, hNodup, ?_⟩
      rintro n hHere m hAbove rfl
      exact hFresh n hAbove (List.mem_append_right _ hHere)
    · intro n hMem
      rcases List.mem_append.mp hMem with hHere | hAbove
      · exact (mem_unseen_iff.mp hHere).2
      · intro hSeen
        exact hFresh n hAbove (List.mem_append_left _ hSeen)

/-! ## The order -/

theorem AtLevel.distance (h : t.AtLevel start k seen names) (hMem : c ∈ unseen seen names) :
    t.Distance start k c := by
  obtain ⟨hReached, hNew⟩ := h.mem_unseen_iff.mp hMem
  constructor
  · exact hReached
  · intro i hNearer hAscends
    exact hNew ((h.seen_iff c).mpr ⟨i, hNearer, hAscends⟩)

/-- The induction is on the bound, over all levels: what is found from a level on is at least as far
as the level. -/
theorem reach_sorted (h : t.AtLevel start k seen names) (bound : Nat) :
    (∀ n ∈ t.reach bound seen names, ∃ j, k ≤ j ∧ t.Distance start j n) ∧
      (t.reach bound seen names).Pairwise fun a b =>
        ∃ i j, t.Distance start i a ∧ t.Distance start j b ∧ i ≤ j := by
  induction bound generalizing k seen names with
  | zero => exact ⟨nofun, .nil⟩
  | succ bound ih =>
    obtain ⟨hAbove, hSorted⟩ := ih h.next
    rw [reach_succ]
    constructor
    · intro n hMem
      rcases List.mem_append.mp hMem with hHere | hNext
      · exact ⟨k, Nat.le_refl k, h.distance hHere⟩
      · obtain ⟨j, hFurther, hDistance⟩ := hAbove n hNext
        exact ⟨j, by omega, hDistance⟩
    · rw [List.pairwise_append]
      refine ⟨?_, hSorted, ?_⟩
      · apply List.pairwise_of_forall_mem_list
        intro a ha b hb
        exact ⟨k, k, h.distance ha, h.distance hb, Nat.le_refl k⟩
      · intro a ha b hb
        obtain ⟨j, hFurther, hDistance⟩ := hAbove b hb
        exact ⟨k, j, h.distance ha, hDistance, by omega⟩

/-- What a larger bound allows is never used. -/
theorem reach_add_bound {bound : Nat} (hBound : names = [] ∨ (t.unmet seen).length < bound)
    (extra : Nat) : t.reach (bound + extra) seen names = t.reach bound seen names := by
  induction bound generalizing seen names with
  | zero =>
    obtain rfl : names = [] := hBound.resolve_right (Nat.not_lt_zero _)
    rw [reach_nil, reach_nil]
  | succ bound ih =>
    rw [Nat.succ_add, reach_succ, reach_succ, ih (bound_above hBound)]

/-! ## A start that need not be declared -/

/-- The walk never goes on from its start, so what a table holds under that name is not read. -/
theorem reach_put (bound : Nat) (hSeen : d.name ∈ seen) :
    (t.put d).reach bound seen names = t.reach bound seen names := by
  induction bound generalizing seen names with
  | zero => rfl
  | succ bound ih =>
    have hOn : (unseen seen names).flatMap (t.put d).directSupertypes =
        (unseen seen names).flatMap t.directSupertypes := by
      apply List.flatMap_congr
      intro n hMem
      apply directSupertypes_put
      rintro rfl
      exact (mem_unseen_iff.mp hMem).2 hSeen
    rw [reach_succ, reach_succ, hOn]
    exact congrArg _ (ih (List.mem_append_left _ hSeen))

theorem allSupertypes_put (t : SymbolTable) (d : Declaration) :
    (t.put d).allSupertypes d = t.allSupertypes d := by
  have hBound := t.length_unmet_le [d.name]
  have hBoundPut := (t.put d).length_unmet_le [d.name]
  -- the tables may differ in size, so both walks are given the bound of the two together
  calc (t.put d).allSupertypes d
      = (t.put d).reach ((t.put d).size + 1 + t.size) [d.name] d.supertypes := by
        rw [reach_add_bound (.inr (by omega))]
        rfl
    _ = t.reach (t.size + 1 + (t.put d).size) [d.name] d.supertypes := by
        rw [reach_put _ List.mem_cons_self]
        congr 1
        omega
    _ = t.allSupertypes d := by
        rw [reach_add_bound (.inr (by omega))]
        rfl

/-- Whether or not the table has the declaration, it counts as declared on the way up. -/
theorem isSubtype_iff_ascends_put :
    t.isSubtype d c = true ↔ ∃ k, (t.put d).Ascends k d.name c := by
  have hDeclared : d ∈ (t.put d).declarations := by
    apply (find?_eq_some_iff.mp _).1
    · exact d.name
    · rw [find?_put, if_pos rfl]
  rw [← isSubtype_iff hDeclared, isSubtype, isSubtype, allSupertypes_put]

/-! ## What the walk finds -/

theorem exists_ascends_iff : (∃ k, t.Ascends k start c) ↔
    c = start ∨ ∃ k, 0 < k ∧ t.Ascends k start c := by
  constructor
  · rintro ⟨k, hAscends⟩
    cases k with
    | zero => exact .inl hAscends.symm
    | succ k => exact .inr ⟨k + 1, by omega, hAscends⟩
  · rintro (rfl | ⟨k, _, hAscends⟩)
    · exact ⟨0, rfl⟩
    · exact ⟨k, hAscends⟩

theorem mem_allSupertypes_iff_above (hDeclared : d ∈ t.declarations) :
    c ∈ t.allSupertypes d ↔ c ≠ d.name ∧ ∃ k, 0 < k ∧ t.Ascends k d.name c := by
  rw [mem_allSupertypes_iff hDeclared, exists_ascends_iff]
  apply and_congr_right
  intro hOther
  exact or_iff_right hOther

/-- Being declared is what a name needs to lead on. -/
theorem mem_allSupertypes_iff_direct (hDeclared : d ∈ t.declarations) :
    c ∈ t.allSupertypes d ↔ c ≠ d.name ∧
      ∃ e ∈ t.declarations, (e = d ∨ e.name ∈ t.allSupertypes d) ∧ c ∈ e.supertypes := by
  rw [mem_allSupertypes_iff_above hDeclared]
  apply and_congr_right
  intro _
  constructor
  · rintro ⟨_ | k, hPositive, hAscends⟩
    · exact absurd hPositive (Nat.lt_irrefl 0)
    · obtain ⟨m, hBelow, hStep⟩ := hAscends
      obtain ⟨e, hFind⟩ := find?_of_mem_directSupertypes hStep
      obtain ⟨hMem, rfl⟩ := find?_eq_some_iff.mp hFind
      rw [directSupertypes_of_find? hFind] at hStep
      refine ⟨e, hMem, ?_, hStep⟩
      by_cases hSame : e.name = d.name
      · have hFind' : t.find? e.name = some d := find?_eq_some_iff.mpr ⟨hDeclared, hSame.symm⟩
        exact .inl (Option.some.inj (hFind.symm.trans hFind'))
      · exact .inr ((mem_allSupertypes_iff hDeclared).mpr ⟨hSame, k, hBelow⟩)
  · rintro ⟨e, hMem, hFrom, hStep⟩
    have hFind : t.find? e.name = some e := find?_eq_some_iff.mpr ⟨hMem, rfl⟩
    rw [← directSupertypes_of_find? hFind] at hStep
    rcases hFrom with rfl | hAbove
    · exact ⟨1, Nat.zero_lt_one, e.name, rfl, hStep⟩
    · obtain ⟨_, k, hBelow⟩ := (mem_allSupertypes_iff hDeclared).mp hAbove
      exact ⟨k + 1, Nat.succ_pos k, e.name, hBelow, hStep⟩

/-- The walk up the supertypes of a declaration ends before its bound. It finds the other names that
are one or more steps up, each once and in the order of their distances; a name is found whether or
not it is declared, but only declared ones lead on. A declaration is a subtype of itself and of what
is above it. -/
theorem allSupertypes_above_nearest_first (t : SymbolTable) (d : Declaration)
    (hDeclared : d ∈ t.declarations) :
    (∀ extra, t.reach (t.size + 1 + extra) [d.name] d.supertypes = t.allSupertypes d) ∧
    (∀ c, c ∈ t.allSupertypes d ↔ c ≠ d.name ∧ ∃ k, 0 < k ∧ t.Ascends k d.name c) ∧
    (t.allSupertypes d).Nodup ∧
    ((t.allSupertypes d).Pairwise fun a b =>
      ∃ i j, t.Distance d.name i a ∧ t.Distance d.name j b ∧ i ≤ j) ∧
    (∀ c, c ∈ t.allSupertypes d ↔ c ≠ d.name ∧
      ∃ e ∈ t.declarations, (e = d ∨ e.name ∈ t.allSupertypes d) ∧ c ∈ e.supertypes) ∧
    ∀ c, t.isSubtype d c = true ↔ c = d.name ∨ ∃ k, 0 < k ∧ t.Ascends k d.name c := by
  have hFind : t.find? d.name = some d := find?_eq_some_iff.mpr ⟨hDeclared, rfl⟩
  refine ⟨?_, fun c => mem_allSupertypes_iff_above hDeclared, (reach_fresh t _ _ _).1,
    (reach_sorted (.first hFind) _).2, fun c => mem_allSupertypes_iff_direct hDeclared, ?_⟩
  · intro extra
    have hBound := t.length_unmet_le [d.name]
    exact reach_add_bound (.inr (by omega)) extra
  · intro c
    rw [isSubtype_iff hDeclared, exists_ascends_iff]

end Bindery.SymbolTable

namespace Bindery

namespace Sample

def leafClass : ClassName where
  package := "hierarchy"
  simpleNames := ["LeafClass"]

def leftClass : ClassName where
  package := "hierarchy"
  simpleNames := ["LeftClass"]

def rightClass : ClassName where
  package := "hierarchy"
  simpleNames := ["RightClass"]

def topClass : ClassName where
  package := "hierarchy"
  simpleNames := ["TopClass"]

def foreignClass : ClassName where
  package := "elsewhere"
  simpleNames := ["ForeignClass"]

def leaf : Declaration where
  name := leafClass
  supertypes := [leftClass, rightClass, leafClass]

/-- Two ways up to one class, which leads back to one of them and out of the table. -/
def diamond : SymbolTable :=
  .ofList [leaf, { name := leftClass, supertypes := [topClass] },
    { name := rightClass, supertypes := [topClass, leafClass] },
    { name := topClass, supertypes := [foreignClass, leftClass] }]

end Sample

namespace SymbolTable

open Sample

theorem allSupertypes_diamond : leaf ∈ diamond.declarations ∧
    diamond.allSupertypes leaf = [leftClass, rightClass, topClass, foreignClass] ∧
    (∃ k, 0 < k ∧ diamond.Ascends k leafClass foreignClass) ∧
    ∀ extra, diamond.reach (diamond.size + 1 + extra) [leafClass] leaf.supertypes =
      [leftClass, rightClass, topClass, foreignClass] := by
  have hFind : diamond.find? leafClass = some leaf := by rfl
  have hDeclared := (find?_eq_some_iff.mp hFind).1
  have hWalk : diamond.allSupertypes leaf =
      [leftClass, rightClass, topClass, foreignClass] := by decide +kernel
  obtain ⟨hEnds, hReached, _⟩ := allSupertypes_above_nearest_first diamond leaf hDeclared
  refine ⟨hDeclared, hWalk, ((hReached foreignClass).mp ?_).2, ?_⟩
  · rw [hWalk]
    simp
  · intro extra
    rw [← hWalk]
    exact hEnds extra

end SymbolTable

end Bindery
