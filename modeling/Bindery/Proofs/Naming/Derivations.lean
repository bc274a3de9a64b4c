import Bindery.Proofs.Creation.Files
import Bindery.Proofs.Integration.Rules

/-! # What names are derived from

The built-in generators derive the names of a file and of its types from a scope or from a marked
declaration. Two derivations meet if a file or a type would get the same name from both. The parts
of nested names are joined, outer names are dropped, and integrations leave their package behind, so
derivations from different sources may meet; the cases below are all there are.
-/

namespace Bindery

open Naming

/-! ## Texts with a suffix -/

/-- The bytes of a text. They take less computing than its characters. -/
def bytes (text : String) : List UInt8 := text.toByteArray.data.toList

theorem bytes_inj {a b : String} : bytes a = bytes b ↔ a = b := by
  constructor
  · intro h
    exact String.toByteArray_inj.mp (ByteArray.ext (Array.toList_inj.mp h))
  · rintro rfl
    rfl

theorem bytes_suffixed (base suffix : String) :
    bytes (base ++ separator ++ suffix) = bytes base ++ 95 :: bytes suffix := by
  have hSeparator : separator.toByteArray.data.toList = [95] := rfl
  simp [bytes, hSeparator]

/-- The text ends with the suffix and a separator in front of it. -/
def EndsWith (text suffix : String) : Prop := (95 :: bytes suffix) <:+ bytes text

instance (text suffix : String) : Decidable (EndsWith text suffix) :=
  inferInstanceAs (Decidable (_ <:+ _))

theorem suffixed_left_inj {base base' suffix : String} :
    base ++ separator ++ suffix = base' ++ separator ++ suffix ↔ base = base' := by
  rw [String.append_left_inj, String.append_left_inj]

/-- If the same text has two suffixes then one of them ends with the other. -/
theorem endsWith_of_suffixed_eq {base base' suffix suffix' : String}
    (h : base ++ separator ++ suffix = base' ++ separator ++ suffix') :
    suffix = suffix' ∨ EndsWith suffix suffix' ∨ EndsWith suffix' suffix := by
  have hBytes := congrArg bytes h
  rw [bytes_suffixed, bytes_suffixed] at hBytes
  rcases List.append_eq_append_iff.mp hBytes with ⟨middle, _, hTail⟩ | ⟨middle, _, hTail⟩
  · cases middle with
    | nil => exact .inl (bytes_inj.mp (List.cons.inj hTail).2)
    | cons c rest => exact .inr (.inl ⟨rest, (List.cons.inj hTail).2.symm⟩)
  · cases middle with
    | nil => exact .inl (bytes_inj.mp (List.cons.inj hTail).2).symm
    | cons c rest => exact .inr (.inr ⟨rest, (List.cons.inj hTail).2.symm⟩)

/-! ## Endings -/

namespace Creation

/-- What the names of the types in a created file end with. -/
def typeSuffixes : Creation → List String
  | injection => ["SealantInjector", "SealantInjector_BindsModule"]
  | fragment => ["BindsModule"]
  | viewModel => ["KeyModule", "BindsModule"]
  | wrapper => ["Wrapper"]
  | worker => ["AssistedFactory", "BindsModule"]

def all : List Creation := [injection, fragment, viewModel, wrapper, worker]

theorem mem_all (c : Creation) : c ∈ all := by
  cases c <;> decide

end Creation

namespace Feature

/-- What the names of the types in an integration end with. -/
def typeSuffixes (f : Feature) (inherited : Bool) : List String :=
  (if inherited then [] else f.sharedSuffixes) ++ f.ownSuffixes

/-- What the name of an integration ends with. -/
def fileSuffix (f : Feature) : String := f.rule.featureName ++ separator ++ "Integration"

end Feature

/-- What the name of a file of child scopes ends with. -/
def childScopesSuffix : String := "SealantChildScopes"

/-- What derived names end with. -/
def endings : List String :=
  childScopesSuffix :: (Creation.all.flatMap fun c => c.fileSuffix :: c.typeSuffixes) ++
    Feature.all.flatMap fun f => f.fileSuffix :: f.typeSuffixes false

theorem mem_endings_of_creation (c : Creation) :
    c.fileSuffix ∈ endings ∧ ∀ suffix ∈ c.typeSuffixes, suffix ∈ endings := by
  have hAll : ∀ suffix ∈ c.fileSuffix :: c.typeSuffixes, suffix ∈ endings := fun _ hMem =>
    List.mem_append_left _ (List.mem_cons_of_mem _ (List.mem_flatMap.mpr ⟨c, c.mem_all, hMem⟩))
  exact List.forall_mem_cons.mp hAll

theorem mem_endings_of_feature (f : Feature) (inherited : Bool) :
    f.fileSuffix ∈ endings ∧ ∀ suffix ∈ f.typeSuffixes inherited, suffix ∈ endings := by
  have hAll : ∀ suffix ∈ f.fileSuffix :: f.typeSuffixes false, suffix ∈ endings := fun _ hMem =>
    List.mem_append_right _ (List.mem_flatMap.mpr ⟨f, by cases f <;> decide, hMem⟩)
  obtain ⟨hFile, hTypes⟩ := List.forall_mem_cons.mp hAll
  refine ⟨hFile, fun suffix hMem => hTypes suffix ?_⟩
  cases inherited with
  | true => exact List.mem_append_right _ hMem
  | false => exact hMem

/-- No ending ends with another one, apart from the module of an injector. -/
theorem endsWith_ending : ∀ a ∈ endings, ∀ b ∈ endings, EndsWith a b →
    a = "SealantInjector_BindsModule" ∧ b = "BindsModule" := by
  decide +kernel

/-- Names with different endings are different, but for the module of an injector: it is named after
the injector, which may be a declaration of its own. -/
theorem suffixed_eq_iff {a b : String} (ha : a ∈ endings) (hb : b ∈ endings)
    {base base' : String} : base ++ separator ++ a = base' ++ separator ++ b ↔
      a = b ∧ base = base' ∨
      a = "SealantInjector_BindsModule" ∧ b = "BindsModule" ∧
        base' = base ++ "_SealantInjector" ∨
      a = "BindsModule" ∧ b = "SealantInjector_BindsModule" ∧
        base = base' ++ "_SealantInjector" := by
  have hModule (text : String) : text ++ separator ++ "SealantInjector_BindsModule" =
      text ++ "_SealantInjector" ++ separator ++ "BindsModule" := by
    rw [String.append_assoc, String.append_assoc, String.append_assoc]
    rfl
  constructor
  · intro h
    rcases endsWith_of_suffixed_eq h with rfl | hEnds | hEnds
    · exact .inl ⟨rfl, suffixed_left_inj.mp h⟩
    · obtain ⟨rfl, rfl⟩ := endsWith_ending a ha b hb hEnds
      rw [hModule] at h
      exact .inr (.inl ⟨rfl, rfl, (suffixed_left_inj.mp h).symm⟩)
    · obtain ⟨rfl, rfl⟩ := endsWith_ending b hb a ha hEnds
      rw [hModule] at h
      exact .inr (.inr ⟨rfl, rfl, suffixed_left_inj.mp h⟩)
  · rintro (⟨rfl, rfl⟩ | ⟨rfl, rfl, rfl⟩ | ⟨rfl, rfl, rfl⟩)
    · rfl
    · exact hModule base
    · exact (hModule base').symm

/-- The ending has no part in what is named after an injector. -/
def IsPlain (ending : String) : Prop :=
  ending ≠ "BindsModule" ∧ ending ≠ "SealantInjector_BindsModule"

theorem suffixed_eq_iff_of_plain {a b : String} (ha : a ∈ endings) (hb : b ∈ endings)
    (hPlain : IsPlain a) {base base' : String} :
    base ++ separator ++ a = base' ++ separator ++ b ↔ a = b ∧ base = base' := by
  rw [suffixed_eq_iff ha hb]
  constructor
  · rintro (h | ⟨hModule, _⟩ | ⟨hModule, _⟩)
    · exact h
    · exact absurd hModule hPlain.2
    · exact absurd hModule hPlain.1
  · exact .inl

theorem plain_childScopes : IsPlain childScopesSuffix := by
  simp [IsPlain, childScopesSuffix]

theorem Creation.plain_file (c : Creation) :
    IsPlain c.fileSuffix ∧ childScopesSuffix ≠ c.fileSuffix := by
  cases c <;> simp [IsPlain, fileSuffix, childScopesSuffix]

theorem Feature.plain (f : Feature) (inherited : Bool) :
    (IsPlain f.fileSuffix ∧ childScopesSuffix ≠ f.fileSuffix) ∧
      ∀ suffix ∈ f.typeSuffixes inherited, IsPlain suffix := by
  cases f <;> cases inherited <;>
    simp [IsPlain, typeSuffixes, sharedSuffixes, ownSuffixes, fileSuffix, rule, childScopesSuffix,
      separator, Appcomponent.featureName, ViewModel.featureName, Fragment.featureName,
      Work.featureName, Appcomponent.integrationRule, ViewModel.integrationRule,
      Fragment.integrationRule, Work.integrationRule]

theorem creation_integration_disjoint (c : Creation) (f : Feature) (inherited : Bool) :
    c.fileSuffix ≠ f.fileSuffix ∧ ∀ suffix ∈ c.typeSuffixes, suffix ∉ f.typeSuffixes inherited := by
  cases f <;> cases inherited <;> cases c <;>
    simp [Creation.fileSuffix, Creation.typeSuffixes, Feature.typeSuffixes, Feature.sharedSuffixes,
      Feature.ownSuffixes, Feature.fileSuffix, Feature.rule, separator, Appcomponent.featureName,
      ViewModel.featureName, Fragment.featureName, Work.featureName, Appcomponent.integrationRule,
      ViewModel.integrationRule, Fragment.integrationRule, Work.integrationRule]

/-- Files that have types with the same ending have the same ending themselves. -/
theorem Creation.file_of_type (c c' : Creation) :
    ∀ suffix ∈ c.typeSuffixes, suffix ∈ c'.typeSuffixes → c.fileSuffix = c'.fileSuffix := by
  cases c <;> cases c' <;> simp [typeSuffixes, fileSuffix]

theorem Creation.injection_of_module {c : Creation}
    (h : "SealantInjector_BindsModule" ∈ c.typeSuffixes) : c = injection := by
  cases c <;> simp [typeSuffixes] at h ⊢

theorem Creation.module_iff {c : Creation} :
    "BindsModule" ∈ c.typeSuffixes ↔ c.fileSuffix = "Creation" := by
  cases c <;> simp [typeSuffixes, fileSuffix]

theorem Feature.package_rule_inj {f f' : Feature} (h : f.rule.package = f'.rule.package) :
    f = f' := by
  revert h
  cases f <;> cases f' <;> simp [rule, Appcomponent.integrationRule, ViewModel.integrationRule,
    Fragment.integrationRule, Work.integrationRule, Appcomponent.integrationPackage,
    ViewModel.integrationPackage, Fragment.integrationPackage, Work.integrationPackage]

/-! ## Derivations -/

/-- What a file is made from: the child scope of a scope, a marked declaration, or the integration
of a feature into a scope, which may inherit a part of it. -/
inductive Derivation where
  | childScope (scope : ClassName)
  | creation (c : Creation) (subject : ClassName)
  | integration (f : Feature) (scope : ClassName) (inherited : Bool)

namespace Derivation

def package : Derivation → String
  | childScope scope => scope.package
  | creation _ subject => subject.package
  | integration f _ _ => f.rule.package

def fileName : Derivation → String
  | childScope scope => flat scope ++ separator ++ childScopesSuffix
  | creation c subject => flat subject ++ separator ++ c.fileSuffix
  | integration f scope _ => flat scope ++ separator ++ f.fileSuffix

def typeNames : Derivation → List String
  | childScope scope => [childScopeStart ++ scope.simpleName]
  | creation c subject => c.typeSuffixes.map fun suffix => flat subject ++ separator ++ suffix
  | integration f scope inherited =>
    (f.typeSuffixes inherited).map fun suffix => flat scope ++ separator ++ suffix

/-- A file or a type would get the same name from both. -/
def Overlaps (x y : Derivation) : Prop :=
  x.package = y.package ∧ (x.fileName = y.fileName ∨ ∃ name ∈ x.typeNames, name ∈ y.typeNames)

theorem overlaps_comm {x y : Derivation} : x.Overlaps y ↔ y.Overlaps x := by
  unfold Overlaps
  rw [eq_comm, eq_comm (a := x.fileName)]
  exact and_congr_right fun _ => or_congr_right <| exists_congr fun _ => and_comm

/-- The child of a scope is named like a type that is derived from another class. -/
def Mimics (scope base : ClassName) (suffixes : List String) : Prop :=
  ∃ suffix ∈ suffixes, childScopeStart ++ scope.simpleName = flat base ++ separator ++ suffix

/-- The ways in which derivations meet. -/
def Meets : Derivation → Derivation → Prop
  | childScope s, childScope s' =>
    s.package = s'.package ∧ (flat s = flat s' ∨ s.simpleName = s'.simpleName)
  | childScope s, creation c d | creation c d, childScope s =>
    s.package = d.package ∧ Mimics s d c.typeSuffixes
  | childScope s, integration f s' inherited | integration f s' inherited, childScope s =>
    s.package = f.rule.package ∧ Mimics s s' (f.typeSuffixes inherited)
  | creation c d, creation c' d' => d.package = d'.package ∧
    (c.fileSuffix = c'.fileSuffix ∧ flat d = flat d' ∨
      -- the module of an injector is named after the injector
      c = .injection ∧ c'.fileSuffix = "Creation" ∧ flat d' = flat d ++ "_SealantInjector" ∨
      c' = .injection ∧ c.fileSuffix = "Creation" ∧ flat d = flat d' ++ "_SealantInjector")
  | creation _ _, integration _ _ _ | integration _ _ _, creation _ _ => False
  | integration f s _, integration f' s' _ => f = f' ∧ flat s = flat s'

theorem shares_suffixed_iff {base base' : ClassName} {l l' : List String} :
    (∃ name ∈ l.map fun suffix => flat base ++ separator ++ suffix,
      name ∈ l'.map fun suffix => flat base' ++ separator ++ suffix) ↔
    ∃ a ∈ l, ∃ b ∈ l', flat base ++ separator ++ a = flat base' ++ separator ++ b := by
  simp only [List.mem_map]
  constructor
  · rintro ⟨_, ⟨a, ha, rfl⟩, b, hb, hSame⟩
    exact ⟨a, ha, b, hb, hSame.symm⟩
  · rintro ⟨a, ha, b, hb, hSame⟩
    exact ⟨_, ⟨a, ha, rfl⟩, b, hb, hSame.symm⟩

theorem shares_child_iff {scope base : ClassName} {l : List String} :
    (∃ name ∈ [childScopeStart ++ scope.simpleName],
      name ∈ l.map fun suffix => flat base ++ separator ++ suffix) ↔ Mimics scope base l := by
  simp [Mimics, eq_comm]

section Meetings

variable {s s' d d' : ClassName} {c c' : Creation} {f f' : Feature} {inherited inherited' : Bool}

theorem childScopes_meet :
    (childScope s).Overlaps (childScope s') ↔ (childScope s).Meets (childScope s') := by
  refine and_congr_right fun _ => or_congr suffixed_left_inj ?_
  simp [typeNames]

theorem childScope_meets_creation :
    (childScope s).Overlaps (creation c d) ↔ (childScope s).Meets (creation c d) := by
  refine and_congr_right fun _ => Iff.trans (or_iff_right fun hFile => ?_) shares_child_iff
  have hSame := (suffixed_eq_iff_of_plain List.mem_cons_self (mem_endings_of_creation c).1
    plain_childScopes).mp hFile
  exact c.plain_file.2 hSame.1

theorem childScope_meets_integration : (childScope s).Overlaps (integration f s' inherited) ↔
    (childScope s).Meets (integration f s' inherited) := by
  refine and_congr_right fun _ => Iff.trans (or_iff_right fun hFile => ?_) shares_child_iff
  have hSame := (suffixed_eq_iff_of_plain List.mem_cons_self
    (mem_endings_of_feature f inherited).1 plain_childScopes).mp hFile
  exact (f.plain inherited).1.2 hSame.1

theorem creations_meet :
    (creation c d).Overlaps (creation c' d') ↔ (creation c d).Meets (creation c' d') := by
  refine and_congr_right fun _ => ?_
  have hFile : (creation c d).fileName = (creation c' d').fileName ↔
      c.fileSuffix = c'.fileSuffix ∧ flat d = flat d' :=
    suffixed_eq_iff_of_plain (mem_endings_of_creation c).1 (mem_endings_of_creation c').1
      c.plain_file.1
  rw [hFile]
  refine ⟨?_, ?_⟩
  · rintro (hSame | hShared)
    · exact .inl hSame
    · obtain ⟨a, ha, b, hb, hSame⟩ := shares_suffixed_iff.mp hShared
      rcases (suffixed_eq_iff ((mem_endings_of_creation c).2 a ha)
        ((mem_endings_of_creation c').2 b hb)).mp hSame with
        ⟨rfl, hFlat⟩ | ⟨rfl, rfl, hFlat⟩ | ⟨rfl, rfl, hFlat⟩
      · exact .inl ⟨Creation.file_of_type c c' a ha hb, hFlat⟩
      · exact .inr (.inl
          ⟨Creation.injection_of_module ha, Creation.module_iff.mp hb, hFlat⟩)
      · exact .inr (.inr
          ⟨Creation.injection_of_module hb, Creation.module_iff.mp ha, hFlat⟩)
  · have hModule : "SealantInjector_BindsModule" ∈ Creation.injection.typeSuffixes := by
      simp [Creation.typeSuffixes]
    have hFirst : "SealantInjector_BindsModule" ∈ endings :=
      (mem_endings_of_creation .injection).2 _ hModule
    have hSecond : "BindsModule" ∈ endings :=
      (mem_endings_of_creation .fragment).2 _ (Creation.module_iff.mpr rfl)
    rintro (hSame | ⟨rfl, hCreation, hFlat⟩ | ⟨rfl, hCreation, hFlat⟩)
    · exact .inl hSame
    · exact .inr (shares_suffixed_iff.mpr ⟨_, hModule, _, Creation.module_iff.mpr hCreation,
        (suffixed_eq_iff hFirst hSecond).mpr (.inr (.inl ⟨rfl, rfl, hFlat⟩))⟩)
    · exact .inr (shares_suffixed_iff.mpr ⟨_, Creation.module_iff.mpr hCreation, _, hModule,
        (suffixed_eq_iff hSecond hFirst).mpr (.inr (.inr ⟨rfl, rfl, hFlat⟩))⟩)

theorem not_creation_overlaps_integration :
    ¬ (creation c d).Overlaps (integration f s inherited) := by
  obtain ⟨hFiles, hTypes⟩ := creation_integration_disjoint c f inherited
  obtain ⟨hFileMem, hTypeMem⟩ := mem_endings_of_feature f inherited
  rintro ⟨_, hFile | hShared⟩
  · exact hFiles ((suffixed_eq_iff_of_plain (mem_endings_of_creation c).1 hFileMem
      c.plain_file.1).mp hFile).1
  · obtain ⟨a, ha, b, hb, hSame⟩ := shares_suffixed_iff.mp hShared
    have hBoth := (suffixed_eq_iff_of_plain (hTypeMem b hb) ((mem_endings_of_creation c).2 a ha)
      ((f.plain inherited).2 b hb)).mp hSame.symm
    exact hTypes a ha (hBoth.1 ▸ hb)

theorem integrations_meet : (integration f s inherited).Overlaps (integration f' s' inherited') ↔
    (integration f s inherited).Meets (integration f' s' inherited') := by
  constructor
  · rintro ⟨hPackage, hFile | hShared⟩
    · obtain rfl := Feature.package_rule_inj hPackage
      exact ⟨rfl, suffixed_left_inj.mp hFile⟩
    · obtain rfl := Feature.package_rule_inj hPackage
      obtain ⟨a, ha, b, hb, hSame⟩ := shares_suffixed_iff.mp hShared
      have hBoth := (suffixed_eq_iff_of_plain ((mem_endings_of_feature f inherited).2 a ha)
        ((mem_endings_of_feature f inherited').2 b hb) ((f.plain inherited).2 a ha)).mp hSame
      exact ⟨rfl, hBoth.2⟩
  · rintro ⟨rfl, hFlat⟩
    exact ⟨rfl, .inl (suffixed_left_inj.mpr hFlat)⟩

/-- Names meet just in these ways. -/
theorem overlaps_iff_meets {x y : Derivation} : x.Overlaps y ↔ x.Meets y := by
  cases x with
  | childScope s =>
    cases y with
    | childScope s' => exact childScopes_meet
    | creation c d => exact childScope_meets_creation
    | integration f s' inherited => exact childScope_meets_integration
  | creation c d =>
    cases y with
    | childScope s => exact overlaps_comm.trans childScope_meets_creation
    | creation c' d' => exact creations_meet
    | integration f s inherited => exact iff_of_false not_creation_overlaps_integration id
  | integration f s inherited =>
    cases y with
    | childScope s' => exact overlaps_comm.trans childScope_meets_integration
    | creation c d =>
      exact iff_of_false (mt overlaps_comm.mp not_creation_overlaps_integration) id
    | integration f' s' inherited' => exact integrations_meet

end Meetings

/-! ## Lists of derivations -/

section Lists

theorem typeNames_nodup (x : Derivation) : x.typeNames.Nodup := by
  have hSuffixed {base : ClassName} {l : List String} (hNodup : l.Nodup) :
      (l.map fun suffix => flat base ++ separator ++ suffix).Nodup :=
    hNodup.map fun a b hSame => String.append_right_inj _ |>.mp hSame
  cases x with
  | childScope s => exact List.nodup_singleton _
  | creation c d =>
    refine hSuffixed ?_
    cases c <;> decide
  | integration f s inherited =>
    refine hSuffixed ?_
    cases f <;> cases inherited <;> decide

/-- The types with their package. -/
def addresses (x : Derivation) : List (String × List String) :=
  x.typeNames.map fun name => (x.package, [name])

def key (x : Derivation) : UnitKey := ⟨x.package, x.fileName⟩

theorem addresses_nodup (x : Derivation) : x.addresses.Nodup := by
  refine x.typeNames_nodup.map fun a b hSame => ?_
  exact (List.cons.inj (Prod.mk.inj hSame).2).1

theorem overlaps_iff {x y : Derivation} :
    x.Overlaps y ↔ x.key = y.key ∨ ∃ a ∈ x.addresses, a ∈ y.addresses := by
  simp only [Overlaps, key, UnitKey.mk.injEq, addresses, List.mem_map, and_or_left]
  refine or_congr_right ?_
  constructor
  · rintro ⟨hPackage, name, hx, hy⟩
    exact ⟨_, ⟨name, hx, rfl⟩, name, hy, by rw [hPackage]⟩
  · rintro ⟨_, ⟨name, hx, rfl⟩, other, hy, hSame⟩
    obtain ⟨hPackage, hName⟩ := Prod.mk.inj hSame
    obtain ⟨rfl, _⟩ := List.cons.inj hName
    exact ⟨hPackage.symm, _, hx, hy⟩

/-- All files and all types of distinct derivations get names of their own just if no two of the
derivations meet. -/
theorem apart_iff {l : List Derivation} (hNodup : l.Nodup) :
    (l.flatMap addresses).Nodup ∧ (l.map key).Nodup ↔
      ∀ x ∈ l, ∀ y ∈ l, x ≠ y → ¬ x.Meets y := by
  simp only [← overlaps_iff_meets, overlaps_iff]
  constructor
  · rintro ⟨hAddresses, hKeys⟩ x hx y hy hNe (hKey | ⟨a, ha, ha'⟩)
    · exact hNe (List.inj_on_of_nodup_map hKeys hx hy hKey)
    · exact hNe (eq_of_mem_flatMap hAddresses hx hy ha ha')
  · intro hApart
    constructor
    · refine List.nodup_flatMap.mpr ⟨fun x _ => x.addresses_nodup, ?_⟩
      refine hNodup.pairwise_of_forall_ne fun x hx y hy hNe a ha ha' => ?_
      exact hApart x hx y hy hNe (.inr ⟨a, ha, ha'⟩)
    · refine hNodup.map_on fun x hx y hy hKey => ?_
      by_contra hNe
      exact hApart x hx y hy hNe (.inl hKey)

end Lists

end Derivation

end Bindery
