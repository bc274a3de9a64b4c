import Bindery.Proofs.Results
import Bindery.Symbols.Table

/-! # Arguments of an annotation

Named and unnamed arguments share one row of positions, so a named argument moves all that stands
behind it, but only an argument without a name is found at its position. Of several arguments of one
name the first is found. A value is read where just one of the two ways leads to one. So arguments
of distinct names behind all unnamed ones may stand in any order, and an argument whose name was
given before is never seen.
-/

namespace Bindery

namespace Annotation

variable {a b : Annotation} {name : String} {index : Nat} {v : AnnotationValue}

/-- The first argument of the name has the value. -/
def GivesNamed (a : Annotation) (name : String) (v : AnnotationValue) : Prop :=
  ∃ front rest, a.arguments = front ++ .named name v :: rest ∧ ∀ x ∈ front, x.name ≠ some name

/-- The argument at the position has the value and no name. -/
def GivesAt (a : Annotation) (index : Nat) (v : AnnotationValue) : Prop :=
  a.arguments[index]? = some (.positional v)

/-- Just one of the two ways leads to a value, and it leads to this one. -/
def GivesOnce (a : Annotation) (name : String) (index : Nat) (v : AnnotationValue) : Prop :=
  (a.GivesNamed name v ∧ ¬ ∃ w, a.GivesAt index w) ∨
    (a.GivesAt index v ∧ ¬ ∃ w, a.GivesNamed name w)

def Lacks (a : Annotation) (name : String) (index : Nat) : Prop :=
  (¬ ∃ w, a.GivesNamed name w) ∧ ¬ ∃ w, a.GivesAt index w

theorem named?_eq_some_iff : a.named? name = some v ↔ a.GivesNamed name v := by
  unfold named? GivesNamed
  rw [Option.map_eq_some_iff]
  constructor
  · rintro ⟨x, hFound, rfl⟩
    obtain ⟨hName, front, rest, hSplit, hPassed⟩ := List.find?_eq_some_iff_append.mp hFound
    refine ⟨front, rest, ?_, ?_⟩
    · rw [hSplit, AnnotationArgument.named, ← of_decide_eq_true hName]
    · intro y hMem
      simpa using hPassed y hMem
  · rintro ⟨front, rest, hSplit, hPassed⟩
    refine ⟨.named name v, List.find?_eq_some_iff_append.mpr ⟨?_, front, rest, hSplit, ?_⟩, rfl⟩
    · exact decide_eq_true rfl
    · intro y hMem
      simpa using hPassed y hMem

theorem positional?_eq_some_iff : a.positional? index = some v ↔ a.GivesAt index v := by
  unfold positional? GivesAt
  rw [Option.map_eq_some_iff]
  constructor
  · rintro ⟨⟨givenName, value⟩, hFound, rfl⟩
    obtain ⟨hHere, hUnnamed⟩ := Option.filter_eq_some_iff.mp hFound
    obtain rfl : givenName = none := Option.isNone_iff_eq_none.mp hUnnamed
    exact hHere
  · intro hHere
    exact ⟨.positional v, Option.filter_eq_some_iff.mpr ⟨hHere, rfl⟩, rfl⟩

/-- What tells the values that may be found tells also that there is none. -/
theorem eq_none_iff_of_eq_some_iff {found : Option AnnotationValue} {p : AnnotationValue → Prop}
    (h : ∀ w, found = some w ↔ p w) : found = none ↔ ¬ ∃ w, p w := by
  rw [Option.eq_none_iff_forall_ne_some, not_exists]
  apply forall_congr'
  intro w
  exact not_congr (h w)

theorem named?_eq_none_iff : a.named? name = none ↔ ¬ ∃ w, a.GivesNamed name w :=
  eq_none_iff_of_eq_some_iff fun _ => named?_eq_some_iff

theorem positional?_eq_none_iff : a.positional? index = none ↔ ¬ ∃ w, a.GivesAt index w :=
  eq_none_iff_of_eq_some_iff fun _ => positional?_eq_some_iff

theorem GivesOnce.unique {w : AnnotationValue} (h : a.GivesOnce name index v)
    (h' : a.GivesOnce name index w) : v = w := by
  rcases h with ⟨hNamed, hNotAt⟩ | ⟨hAt, hNotNamed⟩
  · rcases h' with ⟨hNamed', _⟩ | ⟨hAt', _⟩
    · exact Option.some.inj
        ((named?_eq_some_iff.mpr hNamed).symm.trans (named?_eq_some_iff.mpr hNamed'))
    · exact absurd ⟨w, hAt'⟩ hNotAt
  · rcases h' with ⟨hNamed', _⟩ | ⟨hAt', _⟩
    · exact absurd ⟨w, hNamed'⟩ hNotNamed
    · exact Option.some.inj
        ((positional?_eq_some_iff.mpr hAt).symm.trans (positional?_eq_some_iff.mpr hAt'))

/-! ## Annotations with the same answers -/

/-- The annotations are of one class, and every argument is found in both or in neither. -/
structure Alike (a b : Annotation) : Prop where
  annotationClass : a.annotationClass = b.annotationClass
  named : ∀ name, a.named? name = b.named? name
  positional : ∀ index, a.positional? index = b.positional? index

theorem find?_named_perm {l l' : List AnnotationArgument} (hPerm : l.Perm l')
    (hNames : (l.map (·.name)).Nodup) (name : String) :
    (l.find? fun x => x.name = some name) = l'.find? fun x => x.name = some name := by
  induction hPerm with
  | nil => rfl
  | cons x _ ih =>
    rw [List.map_cons, List.nodup_cons] at hNames
    rw [List.find?_cons, List.find?_cons, ih hNames.2]
  | swap x y rest =>
    -- Not both of the swapped arguments have the name.
    have hOther : y.name ≠ x.name := by
      intro hSame
      simp [hSame] at hNames
    by_cases hFirst : y.name = some name
    · have hSecond : x.name ≠ some name := fun h => hOther (hFirst.trans h.symm)
      simp [hFirst, hSecond]
    · simp [List.find?_cons, hFirst]
  | trans hFirst _ ih ih' => exact (ih hNames).trans (ih' ((hFirst.map _).nodup_iff.mp hNames))

/-- At the positions of named arguments nothing is found. -/
theorem positional?_append_named (c : ClassName) (front : List AnnotationArgument)
    {l : List AnnotationArgument} (hNamed : ∀ x ∈ l, x.name.isSome) (index : Nat) :
    (⟨c, front ++ l⟩ : Annotation).positional? index =
      (⟨c, front⟩ : Annotation).positional? index := by
  unfold positional?
  by_cases hFront : index < front.length
  · simp only [List.getElem?_append_left hFront]
  · have hBehind := Nat.le_of_not_lt hFront
    simp only [List.getElem?_append_right hBehind, List.getElem?_eq_none hBehind]
    cases hHere : l[index - front.length]? with
    | none => rfl
    | some x =>
      have hName := hNamed x (List.mem_of_getElem? hHere)
      simp [Option.filter, Option.isNone_eq_false_iff.mpr hName]

theorem alike_of_perm (c : ClassName) (front : List AnnotationArgument)
    {l l' : List AnnotationArgument} (hNamed : ∀ x ∈ l, x.name.isSome)
    (hNames : (l.map (·.name)).Nodup) (hPerm : l.Perm l') :
    Alike ⟨c, front ++ l⟩ ⟨c, front ++ l'⟩ where
  annotationClass := rfl
  named name := by
    simp only [named?, List.find?_append, find?_named_perm hPerm hNames]
  positional index := by
    have hNamed' : ∀ x ∈ l', x.name.isSome := by
      intro x hMem
      exact hNamed x (hPerm.mem_iff.mpr hMem)
    rw [positional?_append_named c front hNamed, positional?_append_named c front hNamed']

theorem alike_of_repeated (c : ClassName) {front : List AnnotationArgument} {name : String}
    (hGiven : ∃ x ∈ front, x.name = some name) (v w : AnnotationValue)
    (rest : List AnnotationArgument) :
    Alike ⟨c, front ++ .named name v :: rest⟩ ⟨c, front ++ .named name w :: rest⟩ where
  annotationClass := rfl
  named asked := by
    unfold named?
    simp only [List.find?_append, List.find?_cons]
    by_cases hAsked : name = asked
    · obtain ⟨x, hMem, hName⟩ := hGiven
      have hFound : (front.find? fun x => x.name = some asked).isSome := by
        rw [List.find?_isSome]
        exact ⟨x, hMem, by simpa [hAsked] using hName⟩
      obtain ⟨y, hFirst⟩ := Option.isSome_iff_exists.mp hFound
      rw [hFirst]
      rfl
    · have hOther : (AnnotationArgument.named name v).name ≠ some asked := by
        simpa [AnnotationArgument.named] using hAsked
      have hOther' : (AnnotationArgument.named name w).name ≠ some asked := by
        simpa [AnnotationArgument.named] using hAsked
      simp only [hOther, hOther', decide_false]
  positional index := by
    unfold positional?
    rcases Nat.lt_trichotomy index front.length with hBefore | rfl | hBehind
    · simp only [List.getElem?_append_left hBefore]
    · simp [AnnotationArgument.named, Option.filter]
    · obtain ⟨k, rfl⟩ := Nat.exists_eq_add_of_lt hBehind
      simp [List.getElem?_append_right, Nat.add_assoc]

end Annotation

open Annotation

variable {owner : Declaration} {a b : Annotation} {name : String} {v : AnnotationValue}

theorem readArgument_eq_some_iff {index : Option Nat} :
    readArgument owner a name index = .ok (some v) ↔
      (a.named? name = some v ∧ index.bind a.positional? = none) ∨
        (index.bind a.positional? = some v ∧ a.named? name = none) := by
  unfold readArgument
  cases a.named? name <;> cases index.bind a.positional? <;> simp

theorem readArgument_eq_none_iff {index : Option Nat} :
    readArgument owner a name index = .ok none ↔
      a.named? name = none ∧ index.bind a.positional? = none := by
  unfold readArgument
  cases a.named? name <;> cases index.bind a.positional? <;> simp

theorem readArgument_eq_some_iff_givesOnce {index : Nat} :
    readArgument owner a name (some index) = .ok (some v) ↔ a.GivesOnce name index v := by
  rw [readArgument_eq_some_iff, Option.bind_some, named?_eq_some_iff, named?_eq_none_iff,
    positional?_eq_some_iff, positional?_eq_none_iff, GivesOnce]

theorem readArgument_eq_none_iff_lacks {index : Nat} :
    readArgument owner a name (some index) = .ok none ↔ a.Lacks name index := by
  rw [readArgument_eq_none_iff, Option.bind_some, named?_eq_none_iff, positional?_eq_none_iff,
    Lacks]

theorem Annotation.Alike.readArgument (h : a.Alike b) (owner : Declaration) (name : String)
    (index : Option Nat) : readArgument owner a name index = readArgument owner b name index := by
  have hPositional : index.bind a.positional? = index.bind b.positional? := by
    rw [funext h.positional]
  rw [Bindery.readArgument, Bindery.readArgument, h.named, hPositional, h.annotationClass]

end Bindery
