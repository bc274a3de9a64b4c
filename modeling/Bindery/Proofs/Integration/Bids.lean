import Bindery.Proofs.Scope.Resolution
import Bindery.Proofs.Symbols.Table

/-! # Bids for scopes

A declaration bids for the scopes that it wants integrated, each bid at its position: a component
bids for its own scope at position zero, and the scopes that a declaration lists come behind. The
candidates of a run are the bids of a table in their strict order, by name and then by position.
-/

namespace Bindery.Integration

/-- A declaration that asks for a scope at a position. -/
structure Bid where
  declaration : Declaration
  position : Nat
  scope : ClassName

/-- Whether a merge marker makes the declaration a component. -/
def isComponent (d : Declaration) : Bool := WellKnown.componentMarkers.any d.hasAnnotation

/-- What a declaration asks for at a position. A component keeps the first position for its own
scope, even if that scope cannot be resolved. -/
inductive Asks (t : SymbolTable) (d : Declaration) : Nat → ClassName → Prop where
  | component {scope : ClassName} (hComponent : isComponent d = true)
      (hScope : Resolution.scopeOf t d WellKnown.componentMarkers = .ok scope) : Asks t d 0 scope
  | listed {a : Annotation} {scopes : List ClassName} {i : Nat} {scope : ClassName}
      (hCarried : d.annotationOf? WellKnown.multiScopeIntegration = some a)
      (hListed : listedScopes d a = .ok scopes) (hScope : scopes[i]? = some scope) :
      Asks t d ((isComponent d).toNat + i) scope

namespace Bid

/-- The bid is made in the table. -/
structure Placed (t : SymbolTable) (b : Bid) : Prop where
  declared : b.declaration ∈ t.declarations
  asks : Asks t b.declaration b.position b.scope

/-- Bids are ordered by the names of the declarations, and then by position. -/
def Before (b c : Bid) : Prop :=
  compare b.declaration.name c.declaration.name = .lt ∨
    b.declaration.name = c.declaration.name ∧ b.position < c.position

/-- The bid without its position. -/
def candidate (b : Bid) : Candidate := ⟨b.declaration, b.scope⟩

theorem Before.irrefl (b : Bid) : ¬ b.Before b := by
  rintro (hName | ⟨_, hPosition⟩)
  · exact OrderedMap.key_ne_of_lt hName rfl
  · exact Nat.lt_irrefl _ hPosition

theorem Before.asymm {b c : Bid} (h : b.Before c) : ¬ c.Before b := by
  rintro (hName' | ⟨hSame', hPosition'⟩)
  · rcases h with hName | ⟨hSame, _⟩
    · rw [Std.OrientedCmp.gt_of_lt hName] at hName'
      cases hName'
    · exact OrderedMap.key_ne_of_lt hName' hSame.symm
  · rcases h with hName | ⟨_, hPosition⟩
    · exact OrderedMap.key_ne_of_lt hName hSame'.symm
    · omega

end Bid

/-! ## The bids of one declaration -/

variable {t : SymbolTable} {d : Declaration}

/-- The bids of a declaration in the order of their positions. -/
def bidsOf (t : SymbolTable) (d : Declaration) : List Bid :=
  (resolved (componentRequest t d).toList).map (fun scope => ⟨d, 0, scope⟩) ++
  (resolved (listRequest d).toList).zipIdx.map fun (scope, i) =>
    ⟨d, (isComponent d).toNat + i, scope⟩

theorem resolved_componentRequest (t : SymbolTable) (d : Declaration) :
    (∃ scope, isComponent d = true ∧
      Resolution.scopeOf t d WellKnown.componentMarkers = .ok scope ∧
      resolved (componentRequest t d).toList = [scope]) ∨
    (∀ scope, ¬ (isComponent d = true ∧
      Resolution.scopeOf t d WellKnown.componentMarkers = .ok scope)) ∧
      resolved (componentRequest t d).toList = [] := by
  unfold componentRequest
  rw [← isComponent]
  cases hComponent : isComponent d with
  | false => exact .inr ⟨by simp, rfl⟩
  | true =>
    cases hScope : Resolution.scopeOf t d WellKnown.componentMarkers with
    | ok scope => exact .inl ⟨scope, rfl, rfl, rfl⟩
    | error fault => exact .inr ⟨by simp, rfl⟩

theorem getElem?_resolved_listRequest {i : Nat} {scope : ClassName} :
    (resolved (listRequest d).toList)[i]? = some scope ↔ ∃ a scopes,
      d.annotationOf? WellKnown.multiScopeIntegration = some a ∧ listedScopes d a = .ok scopes ∧
      scopes[i]? = some scope := by
  unfold listRequest
  cases hCarried : d.annotationOf? WellKnown.multiScopeIntegration with
  | none => simp [resolved]
  | some a =>
    cases hListed : listedScopes d a with
    | ok scopes => simp [resolved, hListed, Except.toOption]
    | error fault => simp [resolved, hListed, Except.toOption]

theorem mem_bidsOf {b : Bid} :
    b ∈ bidsOf t d ↔ b.declaration = d ∧ Asks t d b.position b.scope := by
  rw [bidsOf, List.mem_append, List.mem_map, List.mem_map]
  constructor
  · rintro (⟨scope, hMem, rfl⟩ | ⟨⟨scope, i⟩, hMem, rfl⟩)
    · refine ⟨rfl, ?_⟩
      rcases resolved_componentRequest t d with ⟨only, hComponent, hScope, hOnly⟩ | ⟨_, hEmpty⟩
      · rw [hOnly, List.mem_singleton] at hMem
        exact .component hComponent (hMem ▸ hScope)
      · simp [hEmpty] at hMem
    · obtain ⟨a, scopes, hCarried, hListed, hScope⟩ :=
        getElem?_resolved_listRequest.mp (List.mk_mem_zipIdx_iff_getElem?.mp hMem)
      exact ⟨rfl, .listed hCarried hListed hScope⟩
  · obtain ⟨e, position, scope⟩ := b
    rintro ⟨hSame, hAsks⟩
    obtain rfl : e = d := hSame
    change Asks t e position scope at hAsks
    cases hAsks with
    | component hComponent hScope =>
      left
      rcases resolved_componentRequest t e with ⟨only, _, hOnly, hList⟩ | ⟨hNone, _⟩
      · obtain rfl := Except.ok.inj (hScope.symm.trans hOnly)
        exact ⟨scope, by simp [hList], rfl⟩
      · exact absurd ⟨hComponent, hScope⟩ (hNone scope)
    | @listed a scopes i scope hCarried hListed hScope =>
      right
      refine ⟨(scope, i), List.mk_mem_zipIdx_iff_getElem?.mpr ?_, rfl⟩
      exact getElem?_resolved_listRequest.mpr ⟨a, scopes, hCarried, hListed, hScope⟩

theorem pairwise_bidsOf (t : SymbolTable) (d : Declaration) :
    (bidsOf t d).Pairwise fun b c => b.position < c.position := by
  have hListed : ((resolved (listRequest d).toList).zipIdx.map fun (scope, i) =>
      (⟨d, (isComponent d).toNat + i, scope⟩ : Bid)).Pairwise
      fun b c => b.position < c.position := by
    rw [List.pairwise_map, List.pairwise_iff_getElem]
    intro i j hi hj hLess
    simp only [List.getElem_zipIdx]
    omega
  refine List.pairwise_append.mpr ⟨?_, hListed, ?_⟩
  · rcases resolved_componentRequest t d with ⟨scope, _, _, hOnly⟩ | ⟨_, hEmpty⟩
    · simp [hOnly]
    · simp [hEmpty]
  · intro b hFirst c hBehind
    obtain ⟨_, _, rfl⟩ := List.mem_map.mp hFirst
    obtain ⟨⟨_, i⟩, _, rfl⟩ := List.mem_map.mp hBehind
    rcases resolved_componentRequest t d with ⟨scope, hComponent, _, _⟩ | ⟨_, hEmpty⟩
    · have hOne : (isComponent d).toNat = 1 := by
        rw [hComponent]
        rfl
      change 0 < (isComponent d).toNat + i
      omega
    · simp [hEmpty] at hFirst

/-! ## The bids of a table -/

/-- All bids of a table in their order. -/
def bids (t : SymbolTable) : List Bid := t.declarations.flatMap (bidsOf t)

theorem mem_bids {b : Bid} : b ∈ bids t ↔ b.Placed t := by
  rw [bids, List.mem_flatMap]
  constructor
  · rintro ⟨d, hDeclared, hMem⟩
    obtain ⟨rfl, hAsks⟩ := mem_bidsOf.mp hMem
    exact ⟨hDeclared, hAsks⟩
  · rintro ⟨hDeclared, hAsks⟩
    exact ⟨b.declaration, hDeclared, mem_bidsOf.mpr ⟨rfl, hAsks⟩⟩

theorem pairwise_bids (t : SymbolTable) : (bids t).Pairwise Bid.Before := by
  refine List.pairwise_flatMap.mpr ⟨fun d _ => ?_, ?_⟩
  · refine (pairwise_bidsOf t d).imp_of_mem fun {b c} hb hc hLess => .inr ⟨?_, hLess⟩
    rw [(mem_bidsOf.mp hb).1, (mem_bidsOf.mp hc).1]
  · refine t.declarations_pairwise.imp fun {d e} hName b hb c hc => .inl ?_
    rwa [(mem_bidsOf.mp hb).1, (mem_bidsOf.mp hc).1]

theorem candidates_eq_map_bids (t : SymbolTable) : candidates t = (bids t).map Bid.candidate := by
  unfold candidates bids
  rw [List.map_flatMap]
  congr 1
  funext d
  simp only [requests, bidsOf, resolved, List.flatMap_append, List.map_append, List.map_map]
  congr 1
  rw [← List.zipIdx_map_fst 0 (List.flatMap _ (listRequest d).toList), List.map_map,
    List.zipIdx_map_fst]
  rfl

end Bindery.Integration
