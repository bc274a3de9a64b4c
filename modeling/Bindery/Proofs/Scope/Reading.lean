import Bindery.Proofs.Declaration.Arguments
import Bindery.Proofs.Scope.Configured

/-! # Reading the configuration of a scope

Each flag has to be given in just one of two ways, under its key or at its index, and to be a
boolean; the parent may be left out. Nothing else decides whether a configuration is read, and what
is read. A slot that is given in both ways is always refused. That its key stands twice is not
noticed: the first argument of the key counts, and nobody looks at the second.
-/

namespace Bindery

namespace ScopeConfiguration

variable {owner : Declaration} {a b : Annotation} {f : Feature} {c : ScopeConfiguration}

theorem readFlag_eq_ok_iff {enabled : Bool} : readFlag owner a f = .ok enabled ↔
    a.GivesOnce f.configKey f.index (.bool enabled) := by
  constructor
  · intro h
    obtain ⟨value, hRead, hValue⟩ := bind_eq_ok_iff.mp h
    split at hValue
    · cases hValue
    · cases hValue
      exact readArgument_eq_some_iff_givesOnce.mp hRead
    · cases hValue
  · intro h
    rw [readFlag, readArgument_eq_some_iff_givesOnce.mpr h]
    rfl

/-- The flags in front have put their features into the set before the others are read. -/
theorem readFlags_ok (owner : Declaration) {l : List Feature}
    (hGiven : ∀ f ∈ l, ∃ enabled, a.GivesOnce f.configKey f.index (.bool enabled))
    (s : FeatureSet) : ∃ features, readFlags owner a s l = .ok features := by
  induction l generalizing s with
  | nil => exact ⟨s, rfl⟩
  | cons f rest ih =>
    obtain ⟨⟨enabled, hFirst⟩, hRest⟩ := List.forall_mem_cons.mp hGiven
    obtain ⟨features, hRead⟩ := ih hRest (if enabled then s.insert f else s)
    refine ⟨features, ?_⟩
    rw [readFlags, readFlag_eq_ok_iff.mpr hFirst]
    exact hRead

theorem has_of_readFlags {s features : FeatureSet} {l : List Feature}
    (h : readFlags owner a s l = .ok features) :
    (∀ f ∈ l, ∃ enabled, a.GivesOnce f.configKey f.index (.bool enabled)) ∧
      ∀ f, features.has f = true ↔
        s.has f = true ∨ f ∈ l ∧ a.GivesOnce f.configKey f.index (.bool true) := by
  induction l generalizing s with
  | nil =>
    cases h
    constructor
    · intro f hMem
      cases hMem
    · intro f
      simp
  | cons g rest ih =>
    obtain ⟨enabled, hFirst, hRest⟩ := bind_eq_ok_iff.mp h
    have hFlag := readFlag_eq_ok_iff.mp hFirst
    obtain ⟨hGiven, hHas⟩ := ih hRest
    constructor
    · exact List.forall_mem_cons.mpr ⟨⟨enabled, hFlag⟩, hGiven⟩
    · intro f
      rw [hHas f, List.mem_cons]
      cases enabled with
      | true =>
        by_cases hSame : g = f
        · subst hSame
          simp [FeatureSet.has_insert, hFlag]
        · simp [FeatureSet.has_insert, hSame, Ne.symm hSame]
      | false =>
        by_cases hSame : f = g
        · subst hSame
          have hOff : ¬ a.GivesOnce f.configKey f.index (.bool true) := by
            intro hOn
            cases hFlag.unique hOn
          simp [hOff]
        · simp [hSame]

theorem readParent_eq_ok_iff {parent : Option ClassName} : readParent owner a = .ok parent ↔
    (a.Lacks parentArgument parentIndex ∧ parent = none) ∨
      ∃ s, a.GivesOnce parentArgument parentIndex (.classRef s) ∧
        parent = if s = WellKnown.anyClass then none else some s := by
  constructor
  · intro h
    obtain ⟨value, hRead, hValue⟩ := bind_eq_ok_iff.mp h
    split at hValue
    · cases hValue
      exact .inl ⟨readArgument_eq_none_iff_lacks.mp hRead, rfl⟩
    · next s =>
      cases hValue
      exact .inr ⟨s, readArgument_eq_some_iff_givesOnce.mp hRead, rfl⟩
    · cases hValue
  · rintro (⟨hLacks, rfl⟩ | ⟨s, hGiven, rfl⟩)
    · rw [readParent, readArgument_eq_none_iff_lacks.mpr hLacks]
      rfl
    · rw [readParent, readArgument_eq_some_iff_givesOnce.mpr hGiven]
      rfl

theorem exists_read_iff : (∃ c, read owner a = .ok c) ↔
    (∀ f : Feature, ∃ enabled, a.GivesOnce f.configKey f.index (.bool enabled)) ∧
      (a.Lacks parentArgument parentIndex ∨
        ∃ s, a.GivesOnce parentArgument parentIndex (.classRef s)) := by
  constructor
  · rintro ⟨c, hRead⟩
    obtain ⟨features, parent, hFlags, hParent, _⟩ := read_eq_ok_iff.mp hRead
    constructor
    · intro f
      exact (has_of_readFlags hFlags).1 f f.mem_all
    · rcases readParent_eq_ok_iff.mp hParent with ⟨hLacks, _⟩ | ⟨s, hGiven, _⟩
      · exact .inl hLacks
      · exact .inr ⟨s, hGiven⟩
  · rintro ⟨hFlags, hParent⟩
    obtain ⟨features, hFeatures⟩ := readFlags_ok owner (fun f _ => hFlags f) .none
    have hRead : ∃ parent, readParent owner a = .ok parent := by
      rcases hParent with hLacks | ⟨s, hGiven⟩
      · exact ⟨_, readParent_eq_ok_iff.mpr (.inl ⟨hLacks, rfl⟩)⟩
      · exact ⟨_, readParent_eq_ok_iff.mpr (.inr ⟨s, hGiven, rfl⟩)⟩
    obtain ⟨parent, hParent⟩ := hRead
    exact ⟨_, read_eq_ok_iff.mpr ⟨features, parent, hFeatures, hParent, rfl⟩⟩

theorem mem_features_of_read (h : read owner a = .ok c) :
    f ∈ c.features.toList ↔ a.GivesOnce f.configKey f.index (.bool true) := by
  obtain ⟨features, parent, hFlags, _, rfl⟩ := read_eq_ok_iff.mp h
  rw [FeatureSet.mem_toList, (has_of_readFlags hFlags).2]
  have hNone : FeatureSet.none.has f = false := by
    cases f <;> rfl
  simp [hNone, f.mem_all]

theorem parent_of_read (h : read owner a = .ok c) {s : ClassName} : c.parent = some s ↔
    a.GivesOnce parentArgument parentIndex (.classRef s) ∧ s ≠ WellKnown.anyClass := by
  obtain ⟨features, parent, _, hParent, rfl⟩ := read_eq_ok_iff.mp h
  rcases readParent_eq_ok_iff.mp hParent with ⟨⟨hNotNamed, hNotAt⟩, rfl⟩ | ⟨r, hGiven, rfl⟩
  · constructor
    · nofun
    · rintro ⟨⟨hNamed, _⟩ | ⟨hAt, _⟩, _⟩
      · exact absurd ⟨_, hNamed⟩ hNotNamed
      · exact absurd ⟨_, hAt⟩ hNotAt
  · constructor
    · intro hSome
      split at hSome
      · cases hSome
      · next hOther =>
        obtain rfl := Option.some.inj hSome
        exact ⟨hGiven, hOther⟩
    · rintro ⟨hGiven', hOther⟩
      cases hGiven.unique hGiven'
      exact if_neg hOther

/-! ## Annotations that configure alike -/

theorem readFlag_congr (h : a.Alike b) (owner : Declaration) (f : Feature) :
    readFlag owner a f = readFlag owner b f := by
  rw [readFlag, readFlag, h.readArgument, h.annotationClass]

theorem readFlags_congr (h : a.Alike b) (owner : Declaration) (s : FeatureSet)
    (l : List Feature) : readFlags owner a s l = readFlags owner b s l := by
  induction l generalizing s with
  | nil => rfl
  | cons f rest ih =>
    rw [readFlags, readFlags, readFlag_congr h]
    exact congrArg _ (funext fun enabled => ih _)

theorem read_congr (h : a.Alike b) (owner : Declaration) : read owner a = read owner b := by
  rw [read, read, readFlags_congr h, readParent, readParent, h.readArgument]

/-- A configuration is read just if each flag is given once, by its key or at its index, and is a
boolean, and the parent is not given or is given once and is a class. The set has the features whose
flag is true, and the parent counts unless it is the root of all classes. Named arguments of distinct
names may be permuted if all unnamed ones stand before them. -/
theorem read_flags_once_and_parent_at_most_once (owner : Declaration) (a : Annotation) :
    ((∃ c, read owner a = .ok c) ↔
      (∀ f : Feature, ∃ enabled, a.GivesOnce f.configKey f.index (.bool enabled)) ∧
        (a.Lacks parentArgument parentIndex ∨
          ∃ s, a.GivesOnce parentArgument parentIndex (.classRef s))) ∧
    (∀ c, read owner a = .ok c → c.scope = owner.name ∧
      (∀ f, f ∈ c.features.toList ↔ a.GivesOnce f.configKey f.index (.bool true)) ∧
      ∀ s, c.parent = some s ↔
        a.GivesOnce parentArgument parentIndex (.classRef s) ∧ s ≠ WellKnown.anyClass) ∧
    ∀ front l l', a.arguments = front ++ l → (∀ x ∈ l, x.name.isSome) →
      (l.map (·.name)).Nodup → l.Perm l' →
      read owner { a with arguments := front ++ l' } = read owner a := by
  refine ⟨exists_read_iff, ?_, ?_⟩
  · intro c hRead
    exact ⟨scope_of_read hRead, fun f => mem_features_of_read hRead,
      fun s => parent_of_read hRead⟩
  · intro front l l' hArguments hNamed hNames hPerm
    obtain ⟨annotationClass, arguments⟩ := a
    subst hArguments
    have hAlike := Annotation.alike_of_perm annotationClass front hNamed hNames hPerm
    exact (read_congr hAlike owner).symm

end ScopeConfiguration

namespace Sample

def guestScope : ClassName where
  package := "com.example.guests"
  simpleNames := ["GuestScope"]

def hostScope : ClassName where
  package := "com.example.guests"
  simpleNames := ["HostScope"]

/-- A flag without a name, and all that follows by name and out of order. -/
def mixedConfiguration : Annotation where
  annotationClass := WellKnown.scopeConfiguration
  arguments := [.positional (.bool true), .named "addWorkSupport" (.bool false),
    .named "parentScope" (.classRef hostScope), .named "addViewModelSupport" (.bool true),
    .named "addFragmentSupport" (.bool false)]

end Sample

namespace ScopeConfiguration

open Sample

theorem read_mixedConfiguration :
    read { name := guestScope } mixedConfiguration = .ok
      { scope := guestScope, parent := some hostScope, features := ⟨true, true, false, false⟩ } ∧
    mixedConfiguration.GivesOnce parentArgument parentIndex (.classRef hostScope) ∧
    read { name := guestScope }
      { mixedConfiguration with arguments := [.positional (.bool true),
        .named "addViewModelSupport" (.bool true), .named "addFragmentSupport" (.bool false),
        .named "addWorkSupport" (.bool false), .named "parentScope" (.classRef hostScope)] } =
      read { name := guestScope } mixedConfiguration := by
  obtain ⟨_, hRead, hPermuted⟩ :=
    read_flags_once_and_parent_at_most_once { name := guestScope } mixedConfiguration
  have hOk : read { name := guestScope } mixedConfiguration = .ok
      { scope := guestScope, parent := some hostScope, features := ⟨true, true, false, false⟩ } := by
    rfl
  refine ⟨hOk, (((hRead _ hOk).2.2 hostScope).mp rfl).1, ?_⟩
  refine hPermuted [.positional (.bool true)] _ _ rfl ?_ ?_ ?_
  · decide
  · decide
  · change ([_, _] ++ [_, _] : List AnnotationArgument).Perm ([_, _] ++ [_, _])
    exact List.perm_append_comm

/-! ## Slots that are given twice -/

/-- What a configuration says something about. -/
inductive Slot where
  | flag (f : Feature)
  | parent

namespace Slot

def key : Slot → String
  | flag f => f.configKey
  | parent => parentArgument

def index : Slot → Nat
  | flag f => f.index
  | parent => parentIndex

/-- Whatever is read, no slot was given in both ways. -/
theorem not_both_of_read (h : read owner a = .ok c) (slot : Slot) :
    ¬ ((∃ v, a.GivesNamed slot.key v) ∧ ∃ v, a.GivesAt slot.index v) := by
  rintro ⟨hNamed, hAt⟩
  have hOnce (v : AnnotationValue) : ¬ a.GivesOnce slot.key slot.index v := by
    rintro (⟨_, hNotAt⟩ | ⟨_, hNotNamed⟩)
    · exact hNotAt hAt
    · exact hNotNamed hNamed
  obtain ⟨hFlags, hParent⟩ := exists_read_iff.mp ⟨c, h⟩
  cases slot with
  | flag f =>
    obtain ⟨enabled, hGiven⟩ := hFlags f
    exact hOnce _ hGiven
  | parent =>
    rcases hParent with ⟨hNotNamed, _⟩ | ⟨s, hGiven⟩
    · exact hNotNamed hNamed
    · exact hOnce _ hGiven

end Slot

/-- A slot that is given by its key and at its index makes the configuration invalid, and the graph
leaves the scope out and hands out the fault. A key that stands twice is not refused: an argument
whose name was given before may have any value. -/
theorem both_ways_refused_and_repeated_key_unseen (t : SymbolTable) (d : Declaration)
    (a : Annotation) :
    (∀ slot : Slot, (∃ v, a.GivesNamed slot.key v) → (∃ v, a.GivesAt slot.index v) →
      ∃ message, read d a = .error (Cause.invalidConfiguration d.name.canonical message) ∧
        (d ∈ t.declarations → d.annotationOf? WellKnown.scopeConfiguration = some a →
          (ScopeGraph.build t).1.configuration? d.name = none ∧
            (Cause.invalidConfiguration d.name.canonical message : Fault) ∈
              (ScopeGraph.build t).2)) ∧
    ∀ front name v w rest, a.arguments = front ++ .named name v :: rest →
      (∃ x ∈ front, x.name = some name) →
      read d { a with arguments := front ++ .named name w :: rest } = read d a := by
  constructor
  · intro slot hNamed hAt
    cases hRead : read d a with
    | ok c => exact absurd ⟨hNamed, hAt⟩ (slot.not_both_of_read hRead)
    | error fault =>
      obtain ⟨message, rfl⟩ := invalidates_of_read hRead
      refine ⟨message, rfl, ?_⟩
      intro hDeclared hCarried
      exact ScopeGraph.left_out_of_read_error hDeclared hCarried hRead
  · intro front name v w rest hArguments hGiven
    obtain ⟨annotationClass, arguments⟩ := a
    subst hArguments
    have hAlike := Annotation.alike_of_repeated annotationClass hGiven w v rest
    exact read_congr hAlike d

end ScopeConfiguration

namespace Sample

/-- The last flag is given at its position and by its name too. -/
def ambiguousConfiguration : Annotation where
  annotationClass := WellKnown.scopeConfiguration
  arguments := [.positional (.bool true), .positional (.bool true), .positional (.bool true),
    .positional (.bool true), .named "addWorkSupport" (.bool true)]

/-- The first flag is given by its name, as true and then as false. -/
def repeatedConfiguration : Annotation where
  annotationClass := WellKnown.scopeConfiguration
  arguments := [.named "addAppcomponentSupport" (.bool true),
    .named "addAppcomponentSupport" (.bool false), .named "addViewModelSupport" (.bool true),
    .named "addFragmentSupport" (.bool true), .named "addWorkSupport" (.bool true)]

def guest (a : Annotation) : Declaration where
  name := guestScope
  annotations := [a]

end Sample

namespace ScopeConfiguration

open Sample

theorem ambiguous_refused_and_repeated_unseen : (∃ message : String,
    read (guest ambiguousConfiguration) ambiguousConfiguration =
      .error (Cause.invalidConfiguration guestScope.canonical message) ∧
    (ScopeGraph.build (.ofList [guest ambiguousConfiguration])).1.configuration? guestScope =
      none ∧
    (Cause.invalidConfiguration guestScope.canonical message : Fault) ∈
      (ScopeGraph.build (.ofList [guest ambiguousConfiguration])).2) ∧
    read (guest repeatedConfiguration)
      { repeatedConfiguration with arguments := ([.named "addAppcomponentSupport" (.bool true)] ++
        .named "addAppcomponentSupport" (.str "unseen") ::
          repeatedConfiguration.arguments.drop 2) } =
      read (guest repeatedConfiguration) repeatedConfiguration := by
  constructor
  · obtain ⟨hBoth, _⟩ := both_ways_refused_and_repeated_key_unseen
      (.ofList [guest ambiguousConfiguration]) (guest ambiguousConfiguration) ambiguousConfiguration
    obtain ⟨message, hRead, hGraph⟩ := hBoth (.flag .work)
      ⟨_, Annotation.named?_eq_some_iff.mp rfl⟩ ⟨_, Annotation.positional?_eq_some_iff.mp rfl⟩
    have hDeclared : guest ambiguousConfiguration ∈
        (SymbolTable.ofList [guest ambiguousConfiguration]).declarations :=
      List.mem_singleton.mpr rfl
    exact ⟨message, hRead, hGraph hDeclared rfl⟩
  · obtain ⟨_, hRepeated⟩ := both_ways_refused_and_repeated_key_unseen
      (.ofList [guest repeatedConfiguration]) (guest repeatedConfiguration) repeatedConfiguration
    exact hRepeated [_] _ _ _ _ rfl ⟨_, List.mem_singleton.mpr rfl, rfl⟩

/-- A scope is configured although a flag of it is given twice, with different values. -/
theorem repeatedConfiguration_read :
    (repeatedConfiguration.arguments.filter
      fun x => x.name = some (Slot.flag .appcomponent).key).length = 2 ∧
    read (guest repeatedConfiguration) repeatedConfiguration =
      .ok { scope := guestScope, parent := none, features := .all } ∧
    (ScopeGraph.build (.ofList [guest repeatedConfiguration])).1.configuration? guestScope =
      some { scope := guestScope, parent := none, features := .all } ∧
    (ScopeGraph.build (.ofList [guest repeatedConfiguration])).2 = [] := by
  refine ⟨rfl, rfl, rfl, rfl⟩

end ScopeConfiguration

end Bindery
