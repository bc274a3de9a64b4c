import Bindery.Proofs.Naming.Parsing
import Bindery.Proofs.OrderedMap
import Bindery.Proofs.Scope.Validation
import Bindery.Scope.Outline

/-! # The outline of a scope graph

The recursion goes down from the roots, and its children are found by looking at all scopes, so that
its shape does not say why it ends. It is measured from the other side: a scope that it comes to at
some depth has as many configured scopes above it, and these are all different. What runs into a
cycle hangs below no root, and what hangs below one comes into its place there, once.
-/

namespace Bindery

namespace ClassName

theorem toList_canonical_ne_nil (c : ClassName) : c.canonical.toList ≠ [] := by
  intro hEmpty
  have hParts : "" ∈ c.parts := by
    rw [← c.segments_canonical, String.toList_eq_nil_iff.mp hEmpty]
    decide
  have hIdentifier := isIdentifier_of_mem_parts "" hParts
  cases hIdentifier

theorem notMem_canonical_of_isBlank {c : ClassName} {a : Char} (hBlank : Text.isBlank a = true) :
    a ∉ c.canonical.toList := by
  intro hMem
  rw [isBlank_eq_false_of_mem_canonical hMem] at hBlank
  cases hBlank

end ClassName

namespace OutlineLine

/-- The inner line stands one level deeper in the block of the outer one, which no line between them
ends. -/
def DirectlyInside (lines : List OutlineLine) (outer inner : OutlineLine) : Prop :=
  ∃ front between rest, lines = front ++ outer :: between ++ inner :: rest ∧
    inner.depth = outer.depth + 1 ∧ ∀ other ∈ between, outer.depth < other.depth

theorem DirectlyInside.around {lines : List OutlineLine} {outer inner : OutlineLine}
    (h : DirectlyInside lines outer inner) (before after : List OutlineLine) :
    DirectlyInside (before ++ lines ++ after) outer inner := by
  obtain ⟨front, between, rest, rfl, hDepth, hDeeper⟩ := h
  exact ⟨before ++ front, between, rest ++ after, by simp, hDepth, hDeeper⟩

/-! ## The text of a line -/

theorem toList_indent (depth : Nat) : (indent depth).toList = List.replicate (2 * depth) ' ' := by
  induction depth with
  | zero => rfl
  | succ depth ih =>
    rw [indent, String.toList_append, ih, Nat.mul_succ, Nat.add_comm, List.replicate_add]
    rfl

/-- A line says which scope stands in it, and which features this scope enables itself. -/
theorem text_eq (l : OutlineLine) : l.text = String.ofList (List.replicate (2 * l.depth) ' ') ++
    l.scope.scope.canonical ++ " [" ++
      ", ".intercalate ((Feature.all.filter l.scope.enables).map Feature.name) ++ "]" := by
  have hIndent : indent l.depth = String.ofList (List.replicate (2 * l.depth) ' ') := by
    rw [← toList_indent, String.ofList_toList]
  rw [← hIndent]
  rfl

/-- The indentation of a line ends where the name of its scope begins. -/
theorem length_takeWhile_text (l : OutlineLine) :
    (l.text.toList.takeWhile (· = ' ')).length = 2 * l.depth := by
  obtain ⟨first, rest, hChars⟩ := List.exists_cons_of_ne_nil l.scope.scope.toList_canonical_ne_nil
  have hFirst : first ≠ ' ' := by
    rintro rfl
    exact ClassName.notMem_canonical_of_isBlank (by decide) (hChars ▸ List.mem_cons_self)
  rw [text]
  simp only [String.toList_append, toList_indent, hChars, List.append_assoc, List.cons_append]
  rw [List.takeWhile_append_of_pos (by simp), List.takeWhile_cons_of_neg (by simpa using hFirst)]
  simp

theorem lineBreak_notMem_text (l : OutlineLine) : '\n' ∉ l.text.toList := by
  have hName : '\n' ∉ l.scope.scope.canonical.toList :=
    ClassName.notMem_canonical_of_isBlank (by decide)
  have hFeature (f : Feature) : '\n' ∉ f.name.toList := by cases f <;> decide
  have hFeatures :
      '\n' ∉ (", ".intercalate (l.scope.features.toList.map Feature.name)).toList := by
    rw [String.toList_intercalate]
    intro hMem
    obtain hSeparator | ⟨cs, hPart, hIn⟩ := mem_intercalate hMem
    · revert hSeparator
      decide
    · obtain ⟨_, hText, rfl⟩ := List.mem_map.mp hPart
      obtain ⟨f, _, rfl⟩ := List.mem_map.mp hText
      exact hFeature f hIn
  rw [text]
  simp only [String.toList_append, toList_indent, List.mem_append, not_or]
  exact ⟨⟨⟨⟨by simp, hName⟩, by decide⟩, hFeatures⟩, by decide⟩

end OutlineLine

namespace ScopeGraph

open Relation

variable {g : ScopeGraph} {c p : ScopeConfiguration} {depth : Nat}

/-! ## Where a scope hangs -/

/-- The configuration of the parent, if the parent is configured. -/
def parentInGraph? (g : ScopeGraph) (c : ScopeConfiguration) : Option ScopeConfiguration :=
  c.parent.bind g.configuration?

/-- The scope names the other one as its parent, and both are configured. -/
def Under (g : ScopeGraph) (c p : ScopeConfiguration) : Prop := g.parentInGraph? c = some p

def isConfigured (g : ScopeGraph) (s : ClassName) : Bool := (g.configuration? s).isSome

/-- The scope is a root, or it is so many levels below one. -/
inductive Hangs (g : ScopeGraph) : Nat → ScopeConfiguration → Prop where
  | root {c : ScopeConfiguration} (hMem : c ∈ g.scopes) (hTop : g.parentInGraph? c = none) :
      Hangs g 0 c
  | under {depth : Nat} {c p : ScopeConfiguration} (hMem : c ∈ g.scopes)
      (hParent : g.Under c p) (hAbove : Hangs g depth p) : Hangs g (depth + 1) c

theorem configuration?_eq_some_iff {s : ClassName} :
    g.configuration? s = some c ↔ c ∈ g.scopes ∧ c.scope = s := by
  unfold configuration? scopes OrderedMap.values
  rw [OrderedMap.get?_eq_some_iff, List.mem_map]
  constructor
  · intro hEntry
    exact ⟨⟨_, hEntry, rfl⟩, g.keyed _ hEntry⟩
  · rintro ⟨⟨e, hEntry, rfl⟩, rfl⟩
    have hKey := g.keyed e hEntry
    rwa [hKey]

theorem configuration?_scope (hMem : c ∈ g.scopes) : g.configuration? c.scope = some c :=
  configuration?_eq_some_iff.mpr ⟨hMem, rfl⟩

theorem parentOf?_scope (hMem : c ∈ g.scopes) : g.parentOf? c.scope = c.parent := by
  rw [parentOf?, configuration?_scope hMem]
  rfl

theorem mem_roots_iff : c ∈ g.roots ↔ c ∈ g.scopes ∧ g.parentInGraph? c = none := by
  rw [roots, List.mem_filter, isRoot, parentInGraph?]
  cases c.parent <;> simp

theorem mem_childrenOf_iff (hMem : p ∈ g.scopes) :
    c ∈ g.childrenOf p.scope ↔ c ∈ g.scopes ∧ g.parentInGraph? c = some p := by
  rw [childrenOf, List.mem_filter, decide_eq_true_eq, parentInGraph?, Option.bind_eq_some_iff]
  refine and_congr_right fun _ => ⟨fun hParent => ⟨_, hParent, configuration?_scope hMem⟩, ?_⟩
  rintro ⟨s, hParent, hFound⟩
  rw [hParent, (configuration?_eq_some_iff.mp hFound).2]

/-- Scopes stand in the order of their names, and so does every choice of them. -/
theorem scopes_increasing (g : ScopeGraph) (keep : ScopeConfiguration → Bool) :
    (g.scopes.filter keep).Pairwise fun c c' => compare c.scope c'.scope = .lt := by
  refine List.Pairwise.filter keep (List.pairwise_map.mpr ?_)
  refine g.byName.increasing.imp_of_mem fun {e e'} hMem hMem' hLt => ?_
  rwa [g.keyed e hMem, g.keyed e' hMem']

namespace Hangs

theorem mem_scopes (h : g.Hangs depth c) : c ∈ g.scopes := by
  cases h with
  | root hMem _ => exact hMem
  | under hMem _ _ => exact hMem

theorem unique {depth' : Nat} (h : g.Hangs depth c) (h' : g.Hangs depth' c) : depth = depth' := by
  induction h generalizing depth' with
  | root _ hTop =>
    cases h' with
    | root _ _ => rfl
    | under _ hParent _ => exact absurd (hTop.symm.trans hParent) (by simp)
  | under _ hParent _ ih =>
    cases h' with
    | root _ hTop => exact absurd (hTop.symm.trans hParent) (by simp)
    | under _ hParent' hAbove' =>
      obtain rfl := Option.some.inj (hParent.symm.trans hParent')
      rw [ih hAbove']

theorem depth_eq_of_siblings {c' : ScopeConfiguration} {depth' : Nat} (h : g.Hangs depth c)
    (h' : g.Hangs depth' c') (hSame : g.parentInGraph? c = g.parentInGraph? c') :
    depth = depth' := by
  cases h with
  | root _ hTop => exact (root h'.mem_scopes (hSame.symm.trans hTop)).unique h'
  | under _ hParent hAbove =>
    exact (under h'.mem_scopes (hSame.symm.trans hParent) hAbove).unique h'

/-- A scope that is met on the way up hangs less deep. -/
theorem lt_of_reach {a : ScopeConfiguration} {depth' : Nat} (h : g.Hangs depth c)
    (hReach : ReflTransGen g.Under c a) (ha : g.Hangs depth' a) :
    c = a ∨ depth' < depth := by
  induction h with
  | root _ hTop =>
    rcases hReach.cases_head with hSame | ⟨p, hParent, _⟩
    · exact .inl hSame
    · exact absurd (hTop.symm.trans hParent) (by simp)
  | under _ hParent hAbove ih =>
    rcases hReach.cases_head with hSame | ⟨p, hParent', hRest⟩
    · exact .inl hSame
    · obtain rfl := Option.some.inj (hParent.symm.trans hParent')
      rcases ih hRest with rfl | hLess
      · exact .inr (by rw [hAbove.unique ha]; exact Nat.lt_succ_self _)
      · exact .inr (Nat.lt_succ_of_lt hLess)

/-- On the way up from a scope there is one scope at a depth. -/
theorem eq_of_reach {a a' : ScopeConfiguration} (ha : g.Hangs depth a) (ha' : g.Hangs depth a')
    (hReach : ReflTransGen g.Under c a)
    (hReach' : ReflTransGen g.Under c a') : a = a' := by
  have hUnique : Relator.RightUnique g.Under :=
    fun _ _ _ hb hb' => Option.some.inj (hb.symm.trans hb')
  rcases hReach.total_of_right_unique hUnique hReach' with hUp | hUp
  · exact (ha.lt_of_reach hUp ha').resolve_right (Nat.lt_irrefl depth)
  · exact ((ha'.lt_of_reach hUp ha).resolve_right (Nat.lt_irrefl depth)).symm

/-- Siblings that are not met at a depth themselves have the same scope above them there. -/
theorem eq_above_siblings {a b c' : ScopeConfiguration} (hc : g.Hangs depth c)
    (hc' : g.Hangs depth c') (ha : ReflTransGen g.Under a c) (hb : ReflTransGen g.Under b c')
    (hBelow : a ≠ c) (hBelow' : b ≠ c') (hSame : g.parentInGraph? a = g.parentInGraph? b) :
    c = c' := by
  obtain ⟨p, hParent, hUp⟩ := ha.cases_head.resolve_left hBelow
  obtain ⟨p', hParent', hUp'⟩ := hb.cases_head.resolve_left hBelow'
  obtain rfl : p = p' := Option.some.inj (hParent.symm.trans (hSame.trans hParent'))
  exact hc.eq_of_reach hc' hUp hUp'

end Hangs

theorem Hangs.exists_chain (h : g.Hangs depth c) :
    ∃ chain, g.ChainAbove c.scope chain ∧ depth = chain.countP g.isConfigured := by
  induction h with
  | @root c hMem hTop =>
    have hParent := parentOf?_scope hMem
    unfold parentInGraph? at hTop
    cases hNamed : c.parent with
    | none => exact ⟨[], .root (hParent.trans hNamed), rfl⟩
    | some p =>
      rw [hNamed] at hTop
      have hFree : g.configuration? p = none := hTop
      refine ⟨[p], .step (hParent.trans hNamed) (.root ?_), ?_⟩
      · rw [parentOf?, hFree]
        rfl
      · simp [isConfigured, hFree]
  | @under depth c p hMem hParent _ ih =>
    obtain ⟨chain, hChain, rfl⟩ := ih
    obtain ⟨s, hNamed, hFound⟩ := Option.bind_eq_some_iff.mp hParent
    obtain rfl := (configuration?_eq_some_iff.mp hFound).2
    refine ⟨p.scope :: chain, .step ((parentOf?_scope hMem).trans hNamed) hChain, ?_⟩
    rw [List.countP_cons_of_pos (by simp [isConfigured, hFound])]

theorem ChainAbove.hangs {chain : List ClassName} (hMem : c ∈ g.scopes)
    (h : g.ChainAbove c.scope chain) : g.Hangs (chain.countP g.isConfigured) c := by
  generalize hScope : c.scope = s at h
  induction h generalizing c with
  | root hRoot =>
    rw [← hScope, parentOf?_scope hMem] at hRoot
    exact .root hMem (by rw [parentInGraph?, hRoot]; rfl)
  | @step s s' chain hLink hAbove ih =>
    have hNamed : c.parent = some s' := by
      rw [← parentOf?_scope hMem, hScope]
      exact hLink
    cases hFound : g.configuration? s' with
    | none =>
      -- A parent that is not configured ends the chain, and the scope is a root.
      have hRoot : g.parentOf? s' = none := by
        rw [parentOf?, hFound]
        rfl
      rw [← (ChainAbove.root hRoot).unique hAbove,
        List.countP_cons_of_neg (by simp [isConfigured, hFound])]
      exact .root hMem (by rw [parentInGraph?, hNamed]; exact hFound)
    | some p =>
      obtain ⟨hMem', hScope'⟩ := configuration?_eq_some_iff.mp hFound
      rw [List.countP_cons_of_pos (by simp [isConfigured, hFound])]
      exact .under hMem (by rw [Under, parentInGraph?, hNamed]; exact hFound) (ih hMem' hScope')

/-- The depth of a scope is the number of configured scopes on its chain of parents. A scope without
such a chain hangs nowhere. -/
theorem hangs_iff : g.Hangs depth c ↔ c ∈ g.scopes ∧
    ∃ chain, g.ChainAbove c.scope chain ∧ depth = chain.countP g.isConfigured := by
  constructor
  · intro h
    exact ⟨h.mem_scopes, h.exists_chain⟩
  · rintro ⟨hMem, chain, hChain, rfl⟩
    exact hChain.hangs hMem

/-- A scope and the configured scopes above it are different scopes of the graph. -/
theorem Hangs.lt_size (h : g.Hangs depth c) : depth < g.size := by
  obtain ⟨hMem, chain, hChain, rfl⟩ := hangs_iff.mp h
  have hSubset : (c.scope :: chain).filter g.isConfigured ⊆ g.byName.keys := by
    intro s hKept
    obtain ⟨c', hFound⟩ := Option.isSome_iff_exists.mp (List.mem_filter.mp hKept).2
    have hEntry := OrderedMap.get?_eq_some_iff.mp hFound
    exact List.mem_map_of_mem hEntry
  have hLength := ((hChain.nodup.filter g.isConfigured).subperm hSubset).length_le
  rw [← List.countP_eq_length_filter,
    List.countP_cons_of_pos (by simp [isConfigured, configuration?_scope hMem])] at hLength
  have hKeys : g.byName.keys.length = g.size := List.length_map _
  omega

/-! ## The recursion without a bound -/

/-- What the blocks of some scopes at a depth come to. The recursion into the children has no bound
here, so it ends just if there is a derivation. -/
inductive Prints (g : ScopeGraph) : Nat → List ScopeConfiguration → List OutlineLine → Prop where
  | done {depth : Nat} : Prints g depth [] []
  | block {depth : Nat} {c : ScopeConfiguration} {rest : List ScopeConfiguration}
      {inner after : List OutlineLine} (hInner : Prints g (depth + 1) (g.childrenOf c.scope) inner)
      (hAfter : Prints g depth rest after) :
      Prints g depth (c :: rest) (⟨depth, c⟩ :: inner ++ after)

theorem hangs_of_mem_childrenOf (h : g.Hangs depth p) :
    ∀ c ∈ g.childrenOf p.scope, g.Hangs (depth + 1) c := by
  intro c hChild
  obtain ⟨hMem, hParent⟩ := (mem_childrenOf_iff h.mem_scopes).mp hChild
  exact .under hMem hParent h

theorem hangs_of_mem_roots : ∀ c ∈ g.roots, g.Hangs 0 c := by
  intro c hRoot
  obtain ⟨hMem, hTop⟩ := mem_roots_iff.mp hRoot
  exact .root hMem hTop

/-- The bound is never met. The induction is on the bound, over all levels that may have come
before, and within a level on the scopes that are left there. -/
theorem prints_block (bound depth : Nat) (hBound : g.size ≤ depth + bound)
    {l : List ScopeConfiguration} (hHangs : ∀ c ∈ l, g.Hangs depth c) :
    g.Prints depth l (l.flatMap (g.block bound depth)) := by
  induction bound generalizing depth l with
  | zero =>
    cases l with
    | nil => exact .done
    | cons c rest =>
      have hLess := (hHangs c List.mem_cons_self).lt_size
      omega
  | succ bound ihBound =>
    induction l with
    | nil => exact .done
    | cons c rest ihRest =>
      obtain ⟨hFirst, hRest⟩ := List.forall_mem_cons.mp hHangs
      rw [List.flatMap_cons, block]
      exact .block (ihBound (depth + 1) (by omega) (hangs_of_mem_childrenOf hFirst)) (ihRest hRest)

theorem prints_outline (g : ScopeGraph) : g.Prints 0 g.roots g.outline :=
  prints_block g.size 0 (by omega) hangs_of_mem_roots

namespace Prints

variable {l : List ScopeConfiguration} {lines : List OutlineLine}

theorem unique {other : List OutlineLine} (h : g.Prints depth l lines)
    (h' : g.Prints depth l other) : lines = other := by
  induction h generalizing other with
  | done =>
    cases h' with
    | done => rfl
  | block _ _ ihInner ihAfter =>
    cases h' with
    | block hInner' hAfter' => rw [ihInner hInner', ihAfter hAfter']

theorem le_depth (h : g.Prints depth l lines) : ∀ line ∈ lines, depth ≤ line.depth := by
  induction h with
  | done => simp
  | block _ _ ihInner ihAfter =>
    refine List.forall_mem_append.mpr ⟨List.forall_mem_cons.mpr ⟨le_rfl, fun line hMem => ?_⟩,
      ihAfter⟩
    exact Nat.le_of_succ_le (ihInner line hMem)

theorem hangs (h : g.Prints depth l lines) (hHangs : ∀ c ∈ l, g.Hangs depth c) :
    ∀ line ∈ lines, g.Hangs line.depth line.scope := by
  induction h with
  | done => simp
  | block _ _ ihInner ihAfter =>
    obtain ⟨hFirst, hRest⟩ := List.forall_mem_cons.mp hHangs
    exact List.forall_mem_append.mpr ⟨List.forall_mem_cons.mpr
      ⟨hFirst, ihInner (hangs_of_mem_childrenOf hFirst)⟩, ihAfter hRest⟩

theorem mem_of_mem (h : g.Prints depth l lines) (hMem : c ∈ l) : ⟨depth, c⟩ ∈ lines := by
  induction h with
  | done => cases hMem
  | block _ _ _ ihAfter =>
    rcases List.mem_cons.mp hMem with rfl | hMem
    · simp
    · exact List.mem_append_right _ (ihAfter hMem)

theorem mem_of_child (h : g.Prints depth l lines) {line : OutlineLine} (hLine : line ∈ lines)
    (hChild : c ∈ g.childrenOf line.scope.scope) : ⟨line.depth + 1, c⟩ ∈ lines := by
  induction h with
  | done => cases hLine
  | block hInner _ ihInner ihAfter =>
    rw [List.cons_append, List.mem_cons, List.mem_append] at hLine ⊢
    rcases hLine with rfl | hLine | hLine
    · exact .inr (.inl (hInner.mem_of_mem hChild))
    · exact .inr (.inl (ihInner hLine))
    · exact .inr (.inr (ihAfter hLine))

/-- Every line leads up to one of the scopes that the blocks are of. -/
theorem exists_reach (h : g.Prints depth l lines) (hScopes : ∀ c ∈ l, c ∈ g.scopes) :
    ∀ line ∈ lines, ∃ c ∈ l,
      ReflTransGen g.Under line.scope c := by
  induction h with
  | done => simp
  | @block depth c rest _ _ _ _ ihInner ihAfter =>
    obtain ⟨hFirst, hRest⟩ := List.forall_mem_cons.mp hScopes
    refine List.forall_mem_append.mpr ⟨List.forall_mem_cons.mpr
      ⟨⟨c, List.mem_cons_self, .refl⟩, fun line hMem => ?_⟩, fun line hMem => ?_⟩
    · have hChildren (c' : ScopeConfiguration) (hChild : c' ∈ g.childrenOf c.scope) :=
        (mem_childrenOf_iff hFirst).mp hChild
      obtain ⟨c', hChild, hReach⟩ := ihInner (fun c' hChild => (hChildren c' hChild).1) line hMem
      exact ⟨c, List.mem_cons_self, hReach.tail (hChildren c' hChild).2⟩
    · obtain ⟨c', hMem', hReach⟩ := ihAfter hRest line hMem
      exact ⟨c', List.mem_cons_of_mem _ hMem', hReach⟩

/-- A line is one of the scopes that the blocks are of, or it stands in the block of its parent. -/
theorem inside (h : g.Prints depth l lines) (hScopes : ∀ c ∈ l, c ∈ g.scopes) :
    ∀ line ∈ lines, line.depth = depth ∧ line.scope ∈ l ∨
      ∃ outer ∈ lines, g.parentInGraph? line.scope = some outer.scope ∧
        OutlineLine.DirectlyInside lines outer line := by
  induction h with
  | done => simp
  | @block depth c rest inner after hInner _ ihInner ihAfter =>
    obtain ⟨hFirst, hRest⟩ := List.forall_mem_cons.mp hScopes
    have hChildren (c' : ScopeConfiguration) (hChild : c' ∈ g.childrenOf c.scope) :=
      (mem_childrenOf_iff hFirst).mp hChild
    refine List.forall_mem_append.mpr ⟨List.forall_mem_cons.mpr
      ⟨.inl ⟨rfl, List.mem_cons_self⟩, fun line hMem => .inr ?_⟩, fun line hMem => ?_⟩
    · rcases ihInner (fun c' hChild => (hChildren c' hChild).1) line hMem with
        ⟨hDepth, hChild⟩ | ⟨outer, hOuter, hParent, hInside⟩
      · -- What stands before a child in the block of its parent are the blocks of other children.
        obtain ⟨between, others, rfl⟩ := List.append_of_mem hMem
        refine ⟨⟨depth, c⟩, by simp, (hChildren _ hChild).2, [], between, others ++ after,
          by simp, hDepth, fun other hOther => ?_⟩
        exact hInner.le_depth other (List.mem_append_left _ hOther)
      · exact ⟨outer, by simp [hOuter], hParent, hInside.around [⟨depth, c⟩] after⟩
    · rcases ihAfter hRest line hMem with ⟨hDepth, hOwn⟩ | ⟨outer, hOuter, hParent, hInside⟩
      · exact .inl ⟨hDepth, List.mem_cons_of_mem _ hOwn⟩
      · have hAround := hInside.around (⟨depth, c⟩ :: inner) []
        rw [List.append_nil] at hAround
        exact .inr ⟨outer, List.mem_append_right _ hOuter, hParent, hAround⟩

/-- No line inside one block is a sibling of a line from the blocks of other scopes. Siblings hang
equally deep, so they would both be deeper than these scopes and lead up to one of them. -/
theorem not_siblings {rest : List ScopeConfiguration} {inner after : List OutlineLine}
    (hInner : g.Prints (depth + 1) (g.childrenOf c.scope) inner)
    (hAfter : g.Prints depth rest after) (hFirst : g.Hangs depth c)
    (hRest : ∀ c' ∈ rest, g.Hangs depth c') (hFresh : c ∉ rest) :
    ∀ a ∈ inner, ∀ b ∈ after, g.parentInGraph? a.scope ≠ g.parentInGraph? b.scope := by
  intro a ha b hb hSame
  have hChildren := hangs_of_mem_childrenOf hFirst
  have hInside := hInner.hangs hChildren a ha
  have hAround := hAfter.hangs hRest b hb
  have hDepth := hInside.depth_eq_of_siblings hAround hSame
  have hDeeper := hInner.le_depth a ha
  obtain ⟨child, hChild, hReach⟩ :=
    hInner.exists_reach (fun c' hMem => (hChildren c' hMem).mem_scopes) a ha
  have hUnder : g.Under child c := ((mem_childrenOf_iff hFirst.mem_scopes).mp hChild).2
  obtain ⟨c', hMem, hReach'⟩ :=
    hAfter.exists_reach (fun c' hMem => (hRest c' hMem).mem_scopes) b hb
  have hBelow : a.scope ≠ c := by
    intro hOwn
    have hAtDepth := hFirst.unique (hOwn ▸ hInside)
    omega
  have hBelow' : b.scope ≠ c' := by
    intro hOwn
    have hAtDepth := (hRest c' hMem).unique (hOwn ▸ hAround)
    omega
  apply hFresh
  rwa [hFirst.eq_above_siblings (hRest c' hMem) (hReach.tail hUnder) hReach' hBelow hBelow' hSame]

/-- Siblings stand in the order of their names. -/
theorem siblings_increasing (h : g.Prints depth l lines) (hHangs : ∀ c ∈ l, g.Hangs depth c)
    (hSorted : l.Pairwise fun c c' => compare c.scope c'.scope = .lt) :
    lines.Pairwise fun a b => g.parentInGraph? a.scope = g.parentInGraph? b.scope →
      compare a.scope.scope b.scope.scope = .lt := by
  induction h with
  | done => exact .nil
  | @block depth c rest inner after hInner hAfter ihInner ihAfter =>
    obtain ⟨hFirst, hRest⟩ := List.forall_mem_cons.mp hHangs
    obtain ⟨hBefore, hOthers⟩ := List.pairwise_cons.mp hSorted
    have hChildren := hangs_of_mem_childrenOf hFirst
    have hFresh : c ∉ rest := fun hMem => OrderedMap.key_ne_of_lt (hBefore c hMem) rfl
    refine List.pairwise_append.mpr ⟨List.pairwise_cons.mpr ⟨fun b hb hSame => ?_,
      ihInner hChildren (g.scopes_increasing _)⟩, ihAfter hRest hOthers, ?_⟩
    · have hDepth := hFirst.depth_eq_of_siblings (hInner.hangs hChildren b hb) hSame
      have hDeeper := hInner.le_depth b hb
      omega
    · refine List.forall_mem_cons.mpr ⟨fun b hb hSame => ?_, fun a ha b hb hSame => ?_⟩
      · have hAround := hAfter.hangs hRest b hb
        have hDepth : depth = b.depth := hFirst.depth_eq_of_siblings hAround hSame
        obtain ⟨c', hMem, hReach⟩ :=
          hAfter.exists_reach (fun c' hMem => (hRest c' hMem).mem_scopes) b hb
        have hOwn := (hAround.lt_of_reach hReach (hRest c' hMem)).resolve_right (by omega)
        exact hOwn ▸ hBefore c' hMem
      · exact absurd hSame (hInner.not_siblings hAfter hFirst hRest hFresh a ha b hb)

end Prints

/-! ## The lines of the outline -/

theorem mem_outline_iff {line : OutlineLine} :
    line ∈ g.outline ↔ g.Hangs line.depth line.scope := by
  constructor
  · exact g.prints_outline.hangs hangs_of_mem_roots line
  · obtain ⟨depth, c⟩ := line
    intro h
    dsimp only at h
    induction h with
    | root hMem hTop => exact g.prints_outline.mem_of_mem (mem_roots_iff.mpr ⟨hMem, hTop⟩)
    | under hMem hParent hAbove ih =>
      exact g.prints_outline.mem_of_child ih
        ((mem_childrenOf_iff hAbove.mem_scopes).mpr ⟨hMem, hParent⟩)

theorem siblings_increasing (g : ScopeGraph) :
    g.outline.Pairwise fun a b => g.parentInGraph? a.scope = g.parentInGraph? b.scope →
      compare a.scope.scope b.scope.scope = .lt :=
  g.prints_outline.siblings_increasing hangs_of_mem_roots (g.scopes_increasing _)

theorem outline_nodup (g : ScopeGraph) : (g.outline.map (·.scope)).Nodup := by
  refine List.pairwise_map.mpr (g.siblings_increasing.imp fun hLess hSame => ?_)
  exact OrderedMap.key_ne_of_lt (hLess (by rw [hSame])) (by rw [hSame])

theorem mem_scopes_outline_iff :
    c ∈ g.outline.map (·.scope) ↔ c ∈ g.scopes ∧ ¬ g.Revisits c.scope := by
  rw [List.mem_map]
  constructor
  · rintro ⟨line, hMem, rfl⟩
    obtain ⟨hScope, chain, hChain, _⟩ := hangs_iff.mp (mem_outline_iff.mp hMem)
    exact ⟨hScope, hChain.not_revisits⟩
  · rintro ⟨hMem, hEnds⟩
    rcases g.ancestors_chain_or_loop c.scope with ⟨chain, _, hChain⟩ | ⟨front, last, _, hLoop⟩
    · exact ⟨⟨chain.countP g.isConfigured, c⟩,
        mem_outline_iff.mpr (hangs_iff.mpr ⟨hMem, chain, hChain, rfl⟩), rfl⟩
    · exact absurd hLoop.revisits hEnds

theorem outline_perm_scopes (hForest : g.validate = .ok ()) :
    (g.outline.map (·.scope)).Perm g.scopes := by
  have hScopes : g.scopes.Nodup := by
    have hKeys := g.byName.keys_nodup
    rw [← map_scope_scopes] at hKeys
    exact hKeys.of_map _
  refine (List.perm_ext_iff_of_nodup g.outline_nodup hScopes).mpr fun c => ?_
  rw [mem_scopes_outline_iff]
  refine and_iff_left_of_imp fun _ => ?_
  obtain ⟨chain, hChain⟩ := exists_chainAbove hForest c.scope
  exact hChain.not_revisits

/-- The recursion from the roots ends, with the lines of the outline and no others. They list every
scope whose chain of parents ends, each once, and no other scope. The text of a line, which is one
line, consists of two blanks for each configured scope on the chain, the name of the scope and, in
brackets, the features that it enables itself. The line stands directly in the block of the
configured parent, if there is one, and siblings stand in the order of their names. In a forest
these are all scopes. -/
theorem outline_lists_chains_once (g : ScopeGraph) :
    (∀ lines, g.Prints 0 g.roots lines ↔ lines = g.outline) ∧
    (g.outline.map (·.scope)).Nodup ∧
    (∀ c, c ∈ g.outline.map (·.scope) ↔ c ∈ g.scopes ∧ ¬ g.Revisits c.scope) ∧
    (∀ line ∈ g.outline, '\n' ∉ line.text.toList ∧
      ∃ chain, g.ancestors line.scope.scope = .ok chain ∧
        (line.text.toList.takeWhile (· = ' ')).length = 2 * chain.countP g.isConfigured ∧
        line.text = String.ofList (List.replicate (2 * chain.countP g.isConfigured) ' ') ++
          line.scope.scope.canonical ++ " [" ++
            ", ".intercalate ((Feature.all.filter line.scope.enables).map Feature.name) ++ "]") ∧
    (∀ line ∈ g.outline, ∀ p, g.parentInGraph? line.scope = some p →
      ∃ outer ∈ g.outline, outer.scope = p ∧ OutlineLine.DirectlyInside g.outline outer line) ∧
    (g.outline.Pairwise fun a b => g.parentInGraph? a.scope = g.parentInGraph? b.scope →
      compare a.scope.scope b.scope.scope = .lt) ∧
    (g.validate = .ok () → (g.outline.map (·.scope)).Perm g.scopes) := by
  refine ⟨fun lines => ⟨fun h => h.unique g.prints_outline, ?_⟩, g.outline_nodup,
    fun c => mem_scopes_outline_iff, fun line hMem => ⟨line.lineBreak_notMem_text, ?_⟩,
    fun line hMem p hParent => ?_, g.siblings_increasing, outline_perm_scopes⟩
  · rintro rfl
    exact g.prints_outline
  · obtain ⟨_, chain, hChain, hDepth⟩ := hangs_iff.mp (mem_outline_iff.mp hMem)
    refine ⟨chain, ancestors_eq_ok_iff.mpr hChain, ?_, ?_⟩
    · rw [line.length_takeWhile_text, hDepth]
    · rw [← hDepth]
      exact line.text_eq
  · have hScopes : ∀ c ∈ g.roots, c ∈ g.scopes := fun c hRoot => (mem_roots_iff.mp hRoot).1
    rcases g.prints_outline.inside hScopes line hMem with ⟨_, hRoot⟩ | ⟨outer, hOuter, hOwn, hIn⟩
    · exact absurd ((mem_roots_iff.mp hRoot).2.symm.trans hParent) (by simp)
    · exact ⟨outer, hOuter, Option.some.inj (hOwn.symm.trans hParent), hIn⟩

/-- A parent without configuration leaves a root; a scope that is its own parent is not listed. -/
example :
    let name (s : String) (h : areSimpleNames [s] = true) : ClassName :=
      { package := "a", simpleNames := [s], areSimpleNames_simpleNames := h }
    let g := [⟨name "Leaf" (by decide), some (name "Main" (by decide)), .none⟩,
      ⟨name "Loop" (by decide), some (name "Loop" (by decide)), .none⟩,
      ⟨name "Main" (by decide), some (name "Other" (by decide)), .all⟩].foldl insert empty
    g.outline.map OutlineLine.text =
      ["a.Main [appcomponent, viewmodel, fragment, work]", "  a.Leaf []"] := by
  decide +kernel

end ScopeGraph

end Bindery
