import Bindery.Proofs.Declaration.Arguments
import Bindery.Scope.Resolution
import Bindery.WellKnown

/-! # Annotations that agree on a scope

The walk over the annotations of a declaration stops at the first one that speaks against the scope
found so far. It goes through to the end just if no annotation gives the scope in both ways and all
that give it give the same class. These are conditions on the set of annotations, so that the order
in which they stand decides at most what is said about a failure.
-/

namespace Bindery.Resolution

open Annotation (named?_eq_some_iff named?_eq_none_iff positional?_eq_some_iff)

variable {σ : Type} [SymbolSource σ] {t : σ} {d : Declaration} {markers : List ClassName}
  {a : Annotation} {v : AnnotationValue} {s : ClassName} {found next : Finding}

/-- The class of the annotation is known, and the first parameter of its first constructor is the
scope. -/
def DeclaresScopeFirst (t : σ) (a : Annotation) : Prop :=
  ∃ c ∈ SymbolSource.find? t a.annotationClass, ∃ constructor ∈ c.constructors.head?,
    ∃ parameter ∈ constructor.parameters.head?, parameter.name = scopeArgument

def TakesPosition (t : σ) (markers : List ClassName) (a : Annotation) : Prop :=
  a.annotationClass ∈ markers ∨ DeclaresScopeFirst t a

/-- The value is given for the scope, by name or at the front. -/
inductive Bears (t : σ) (markers : List ClassName) (a : Annotation) (v : AnnotationValue) : Prop
  | named (hNamed : a.GivesNamed scopeArgument v)
  | positional (hTakes : TakesPosition t markers a) (hAt : a.GivesAt 0 v)

structure BearsTwice (t : σ) (markers : List ClassName) (a : Annotation) : Prop where
  named : ∃ v, a.GivesNamed scopeArgument v
  takes : TakesPosition t markers a
  positional : ∃ v, a.GivesAt 0 v

/-- Nothing in the annotation speaks against the scope. -/
structure Abides (t : σ) (markers : List ClassName) (s : ClassName) (a : Annotation) : Prop where
  once : ¬ BearsTwice t markers a
  same : ∀ v, Bears t markers a v → v = .classRef s

/-! ## What one annotation says -/

theorem takesScopeFirst_iff : takesScopeFirst t a = true ↔ DeclaresScopeFirst t a := by
  unfold takesScopeFirst DeclaresScopeFirst
  cases SymbolSource.find? t a.annotationClass with
  | none => simp
  | some c =>
    obtain ⟨_, _, _, _, constructors, _⟩ := c
    cases constructors with
    | nil => simp
    | cons constructor others =>
      obtain ⟨_, parameters⟩ := constructor
      cases parameters <;> simp

theorem takesPosition_iff :
    (markers.contains a.annotationClass || takesScopeFirst t a) = true ↔
      TakesPosition t markers a := by
  rw [Bool.or_eq_true, List.contains_iff_mem, takesScopeFirst_iff, TakesPosition]

theorem front_eq_some_iff :
    (if markers.contains a.annotationClass || takesScopeFirst t a then some 0 else none).bind
      a.positional? = some v ↔ TakesPosition t markers a ∧ a.GivesAt 0 v := by
  rw [← takesPosition_iff]
  split
  · next hTakes =>
    rw [Option.bind_some, positional?_eq_some_iff]
    exact (and_iff_right hTakes).symm
  · next hTakes =>
    rw [Option.bind_none]
    constructor
    · intro hNothing
      cases hNothing
    · intro hFront
      exact absurd hFront.1 hTakes

theorem front_eq_none_iff :
    (if markers.contains a.annotationClass || takesScopeFirst t a then some 0 else none).bind
      a.positional? = none ↔ ¬ ∃ v, TakesPosition t markers a ∧ a.GivesAt 0 v :=
  Annotation.eq_none_iff_of_eq_some_iff fun _ => front_eq_some_iff

theorem scopeValue_eq_some_iff : scopeValue t d markers a = .ok (some v) ↔
    Bears t markers a v ∧ ¬ BearsTwice t markers a := by
  rw [scopeValue, readArgument_eq_some_iff, named?_eq_some_iff, named?_eq_none_iff,
    front_eq_some_iff, front_eq_none_iff]
  constructor
  · rintro (⟨hNamed, hNotAt⟩ | ⟨⟨hTakes, hAt⟩, hNotNamed⟩)
    · refine ⟨.named hNamed, ?_⟩
      rintro ⟨_, hTakes, w, hAt⟩
      exact hNotAt ⟨w, hTakes, hAt⟩
    · exact ⟨.positional hTakes hAt, fun hTwice => hNotNamed hTwice.named⟩
  · rintro ⟨hNamed | ⟨hTakes, hAt⟩, hOnce⟩
    · refine .inl ⟨hNamed, ?_⟩
      rintro ⟨w, hTakes, hAt⟩
      exact hOnce ⟨⟨v, hNamed⟩, hTakes, ⟨w, hAt⟩⟩
    · refine .inr ⟨⟨hTakes, hAt⟩, ?_⟩
      intro hNamed
      exact hOnce ⟨hNamed, hTakes, ⟨v, hAt⟩⟩

theorem scopeValue_eq_none_iff :
    scopeValue t d markers a = .ok none ↔ ¬ ∃ v, Bears t markers a v := by
  rw [scopeValue, readArgument_eq_none_iff, named?_eq_none_iff, front_eq_none_iff]
  constructor
  · rintro ⟨hNotNamed, hNotAt⟩ ⟨v, hNamed | ⟨hTakes, hAt⟩⟩
    · exact hNotNamed ⟨v, hNamed⟩
    · exact hNotAt ⟨v, hTakes, hAt⟩
  · intro hNone
    constructor
    · rintro ⟨v, hNamed⟩
      exact hNone ⟨v, .named hNamed⟩
    · rintro ⟨v, hTakes, hAt⟩
      exact hNone ⟨v, .positional hTakes hAt⟩

theorem abides_iff : Abides t markers s a ↔
    scopeValue t d markers a = .ok none ∨ scopeValue t d markers a = .ok (some (.classRef s)) := by
  constructor
  · intro h
    by_cases hBears : ∃ v, Bears t markers a v
    · obtain ⟨v, hBears⟩ := hBears
      obtain rfl := h.same v hBears
      exact .inr (scopeValue_eq_some_iff.mpr ⟨hBears, h.once⟩)
    · exact .inl (scopeValue_eq_none_iff.mpr hBears)
  · rintro (hNone | hSome)
    · have hNever := scopeValue_eq_none_iff.mp hNone
      constructor
      · rintro ⟨⟨v, hNamed⟩, _, _⟩
        exact hNever ⟨v, .named hNamed⟩
      · intro v hBears
        exact absurd ⟨v, hBears⟩ hNever
    · obtain ⟨_, hOnce⟩ := scopeValue_eq_some_iff.mp hSome
      refine ⟨hOnce, ?_⟩
      intro v hBears
      have hOther : scopeValue t d markers a = .ok (some v) :=
        scopeValue_eq_some_iff.mpr ⟨hBears, hOnce⟩
      rw [hSome] at hOther
      cases hOther
      rfl

/-! ## The walk over all annotations -/

theorem agree_eq_ok_iff : agree t d markers found a = .ok next ↔
    (scopeValue t d markers a = .ok none ∧ next = found) ∨
      ∃ r, scopeValue t d markers a = .ok (some (.classRef r)) ∧
        ((found = none ∧ next = some (a.annotationClass, r)) ∨
          ∃ first, found = some (first, r) ∧ next = found) := by
  constructor
  · intro h
    obtain ⟨value, hValue, hNext⟩ := bind_eq_ok_iff.mp h
    split at hNext
    · cases hNext
      exact .inl ⟨hValue, rfl⟩
    · next r =>
      refine .inr ⟨r, hValue, ?_⟩
      split at hNext
      · cases hNext
        exact .inl ⟨rfl, rfl⟩
      · next first firstScope =>
        split at hNext
        · next hSame =>
          cases hNext
          exact .inr ⟨first, by rw [hSame], rfl⟩
        · cases hNext
    · cases hNext
  · rintro (⟨hNone, rfl⟩ | ⟨r, hSome, ⟨rfl, rfl⟩ | ⟨first, rfl, rfl⟩⟩)
    · rw [agree, hNone]
      rfl
    · rw [agree, hSome]
      rfl
    · rw [agree, hSome]
      exact if_pos rfl

theorem of_agreeAll {first : ClassName} {l : List Annotation}
    (h : agreeAll t d markers found l = .ok (some (first, s))) :
    (∀ x ∈ found, x.2 = s) ∧ (∀ a ∈ l, Abides t markers s a) ∧
      (found = none → ∃ a ∈ l, ∃ v, Bears t markers a v) := by
  induction l generalizing found with
  | nil =>
    cases h
    simp
  | cons a rest ih =>
    obtain ⟨next, hAgree, hRest⟩ := bind_eq_ok_iff.mp h
    obtain ⟨hNext, hAbide, hBorne⟩ := ih hRest
    rcases agree_eq_ok_iff.mp hAgree with ⟨hNone, rfl⟩ | ⟨r, hSome, hCases⟩
    · refine ⟨hNext, List.forall_mem_cons.mpr ⟨abides_iff.mpr (.inl hNone), hAbide⟩, ?_⟩
      intro hNothing
      obtain ⟨b, hMem, hBears⟩ := hBorne hNothing
      exact ⟨b, List.mem_cons_of_mem a hMem, hBears⟩
    · -- The rest agrees with what is found once this annotation is read, so it is the scope.
      have hSame : r = s ∧ ∀ x ∈ found, x.2 = s := by
        rcases hCases with ⟨rfl, rfl⟩ | ⟨first, rfl, rfl⟩
        · exact ⟨hNext _ rfl, nofun⟩
        · exact ⟨hNext _ rfl, hNext⟩
      obtain ⟨rfl, hFound⟩ := hSame
      refine ⟨hFound, List.forall_mem_cons.mpr ⟨abides_iff.mpr (.inr hSome), hAbide⟩, ?_⟩
      intro _
      exact ⟨a, List.mem_cons_self, _, (scopeValue_eq_some_iff.mp hSome).1⟩

theorem agreeAll_of_abides {l : List Annotation} (hFound : ∀ x ∈ found, x.2 = s)
    (hAbide : ∀ a ∈ l, Abides t markers s a)
    (hBorne : found = none → ∃ a ∈ l, ∃ v, Bears t markers a v) :
    ∃ first, agreeAll t d markers found l = .ok (some (first, s)) := by
  induction l generalizing found with
  | nil =>
    cases found with
    | none =>
      obtain ⟨a, hMem, _⟩ := hBorne rfl
      cases hMem
    | some x =>
      obtain ⟨first, r⟩ := x
      obtain rfl : r = s := hFound _ rfl
      exact ⟨first, rfl⟩
  | cons a rest ih =>
    obtain ⟨hFirst, hRest⟩ := List.forall_mem_cons.mp hAbide
    have hStep : ∃ next, agree t d markers found a = .ok next ∧ (∀ x ∈ next, x.2 = s) ∧
        (next = none → ∃ b ∈ rest, ∃ v, Bears t markers b v) := by
      rcases abides_iff.mp hFirst with hNone | hSome
      · refine ⟨found, agree_eq_ok_iff.mpr (.inl ⟨hNone, rfl⟩), hFound, ?_⟩
        intro hNothing
        obtain ⟨b, hMem, hBears⟩ := hBorne hNothing
        rcases List.mem_cons.mp hMem with rfl | hMem
        · exact absurd hBears (scopeValue_eq_none_iff.mp hNone)
        · exact ⟨b, hMem, hBears⟩
      · cases found with
        | none =>
          refine ⟨some (a.annotationClass, s), ?_, ?_, nofun⟩
          · exact agree_eq_ok_iff.mpr (.inr ⟨s, hSome, .inl ⟨rfl, rfl⟩⟩)
          · rintro x ⟨⟩
            rfl
        | some x =>
          obtain ⟨first, r⟩ := x
          obtain rfl : r = s := hFound _ rfl
          refine ⟨some (first, r), ?_, hFound, nofun⟩
          exact agree_eq_ok_iff.mpr (.inr ⟨r, hSome, .inr ⟨first, rfl, rfl⟩⟩)
    obtain ⟨next, hAgree, hNext, hBorne⟩ := hStep
    obtain ⟨first, hAll⟩ := ih hNext hRest hBorne
    exact ⟨first, bind_eq_ok_iff.mpr ⟨next, hAgree, hAll⟩⟩

theorem any_hasAnnotation_iff : markers.any d.hasAnnotation = true ↔
    ∃ a ∈ d.annotations, a.annotationClass ∈ markers := by
  simp only [List.any_eq_true, Declaration.hasAnnotation, annotatedWith, decide_eq_true_eq]
  constructor
  · rintro ⟨marker, hMarker, a, hMem, rfl⟩
    exact ⟨a, hMem, hMarker⟩
  · rintro ⟨a, hMem, hMarker⟩
    exact ⟨a.annotationClass, hMarker, a, hMem, rfl⟩

theorem scopeOf_eq_ok_iff : scopeOf t d markers = .ok s ↔
    (∃ a ∈ d.annotations, a.annotationClass ∈ markers) ∧
      (∃ a ∈ d.annotations, ∃ v, Bears t markers a v) ∧
      ∀ a ∈ d.annotations, Abides t markers s a := by
  rw [← any_hasAnnotation_iff]
  unfold scopeOf
  constructor
  · intro h
    split at h
    · next hMarked =>
      obtain ⟨found, hAll, hScope⟩ := bind_eq_ok_iff.mp h
      split at hScope
      · next first scope =>
        cases hScope
        obtain ⟨_, hAbide, hBorne⟩ := of_agreeAll hAll
        exact ⟨hMarked, hBorne rfl, hAbide⟩
      · cases hScope
    · cases h
  · rintro ⟨hMarked, hBorne, hAbide⟩
    have hNothing : ∀ x ∈ (none : Finding), x.2 = s := nofun
    obtain ⟨first, hAll⟩ :=
      agreeAll_of_abides (d := d) hNothing hAbide (fun _ => hBorne)
    rw [if_pos hMarked, hAll]
    rfl

/-- A declaration has a scope just if it carries a marker, no annotation of it gives the scope in
both ways, one gives it at all, and whatever is given is that class. So the order of the annotations
does not matter to the result, nor to whether there is one. -/
theorem scopeOf_agreed_in_any_order (t : σ) (d : Declaration) (markers : List ClassName) :
    (∀ s, scopeOf t d markers = .ok s ↔
      (∃ a ∈ d.annotations, a.annotationClass ∈ markers) ∧
      (∀ a ∈ d.annotations, ¬ BearsTwice t markers a) ∧
      (∃ a ∈ d.annotations, ∃ v, Bears t markers a v) ∧
      ∀ a ∈ d.annotations, ∀ v, Bears t markers a v → v = .classRef s) ∧
    ∀ l, l.Perm d.annotations → ∀ s,
      scopeOf t { d with annotations := l } markers = .ok s ↔ scopeOf t d markers = .ok s := by
  constructor
  · intro s
    rw [scopeOf_eq_ok_iff]
    constructor
    · rintro ⟨hMarked, hBorne, hAbide⟩
      exact ⟨hMarked, fun a hMem => (hAbide a hMem).once, hBorne,
        fun a hMem => (hAbide a hMem).same⟩
    · rintro ⟨hMarked, hOnce, hBorne, hSame⟩
      exact ⟨hMarked, hBorne, fun a hMem => ⟨hOnce a hMem, hSame a hMem⟩⟩
  · intro l hPerm s
    rw [scopeOf_eq_ok_iff, scopeOf_eq_ok_iff]
    simp only [hPerm.mem_iff]

end Bindery.Resolution

namespace Bindery

namespace Sample

def worker : ClassName where
  package := "com.example.work"
  simpleNames := ["MainWorker"]

def workerScope : ClassName where
  package := "com.example.work"
  simpleNames := ["WorkerScope"]

def workerMarker : ClassName where
  package := "com.example.work"
  simpleNames := ["MarksWorker"]

def scopedTo : ClassName where
  package := "com.example.work"
  simpleNames := ["ScopedTo"]

/-- An annotation class whose first parameter is the scope. -/
def scopedToClass : Declaration where
  name := scopedTo
  kind := .annotationKind
  constructors := [{ parameters := [{ name := "scope", type := WellKnown.javaClass }] }]

/-- The scope of a worker by position, for a class that is known and for a marker, and by name. -/
def scopedWorker : Declaration where
  name := worker
  annotations := [⟨scopedTo, [.positional (.classRef workerScope)]⟩,
    ⟨workerMarker, [.positional (.classRef workerScope)]⟩,
    ⟨WellKnown.singleIn, [.named "scope" (.classRef workerScope)]⟩]

end Sample

namespace Resolution

open Sample

theorem scopeOf_scopedWorker :
    scopeOf (SymbolTable.ofList [scopedToClass]) scopedWorker [workerMarker] = .ok workerScope ∧
    scopeOf (SymbolTable.ofList [scopedToClass])
      { scopedWorker with annotations := scopedWorker.annotations.reverse } [workerMarker] =
        .ok workerScope := by
  have hOk : scopeOf (SymbolTable.ofList [scopedToClass]) scopedWorker [workerMarker] =
      .ok workerScope := by
    rfl
  obtain ⟨_, hAnyOrder⟩ :=
    scopeOf_agreed_in_any_order (SymbolTable.ofList [scopedToClass]) scopedWorker [workerMarker]
  exact ⟨hOk, (hAnyOrder _ (List.reverse_perm _) workerScope).mpr hOk⟩

end Resolution

end Bindery
