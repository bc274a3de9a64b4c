import Bindery.Proofs.Naming.Parsing

/-! # Which texts read as class names

Exactly the dotted identifiers read as names, with white space around them or without. Every such
text is the dotted text of the name it reads as. The other way round, the text of a name that was
put together from its parts may read as another name, because only capitals tell where the package
ends.
-/

namespace Bindery

namespace Text

/-- The core is what is left of a text without the white space around it. -/
structure IsTrimmed (text core : String) (before after : List Char) : Prop where
  whole : text.toList = before ++ core.toList ++ after
  before : ∀ c ∈ before, isBlank c = true
  after : ∀ c ∈ after, isBlank c = true
  first : ∀ c, core.toList.head? = some c → isBlank c = false
  last : ∀ c, core.toList.getLast? = some c → isBlank c = false

theorem head_dropWhile_isBlank {cs : List Char} {c : Char}
    (h : (cs.dropWhile isBlank).head? = some c) : isBlank c = false := by
  have hHead := List.head?_dropWhile_not isBlank cs
  rw [h] at hHead
  simpa using hHead

theorem exists_isTrimmed (text : String) :
    ∃ before after, IsTrimmed text (trim text) before after := by
  let front := text.toList.dropWhile isBlank
  let core := (front.reverse.dropWhile isBlank).reverse
  have hFront : text.toList.takeWhile isBlank ++ front = text.toList :=
    List.takeWhile_append_dropWhile
  have hCore : core ++ (front.reverse.takeWhile isBlank).reverse = front := by
    rw [← List.reverse_append, List.takeWhile_append_dropWhile, List.reverse_reverse]
  have hTrim : (trim text).toList = core := String.toList_ofList
  refine ⟨text.toList.takeWhile isBlank, (front.reverse.takeWhile isBlank).reverse,
    ?_, ?_, ?_, ?_, ?_⟩
  · rw [hTrim, List.append_assoc, hCore, hFront]
  · intro c hMem
    exact List.mem_takeWhile_imp hMem
  · intro c hMem
    exact List.mem_takeWhile_imp (List.mem_reverse.mp hMem)
  · intro c hHead
    rw [hTrim] at hHead
    have hFirst : front.head? = some c := by
      rw [← hCore, List.head?_append, hHead]
      rfl
    exact head_dropWhile_isBlank hFirst
  · intro c hLast
    rw [hTrim, List.getLast?_reverse] at hLast
    exact head_dropWhile_isBlank hLast

end Text

namespace ClassName

variable {c : ClassName}

theorem divide_names_ne_nil {l front names : List String} (hSome : l ≠ [])
    (h : divide l = (front, names)) : names ≠ [] := by
  rw [divide] at h
  split at h
  · obtain ⟨-, rfl⟩ := Prod.mk.inj h
    next lower hSpan =>
    rw [List.span_eq_takeWhile_dropWhile] at hSpan
    obtain ⟨hLower, hRest⟩ := Prod.mk.inj hSpan
    have hWhole := List.takeWhile_append_dropWhile (p := fun p => !startsCapital p) (l := l)
    rw [hLower, hRest, List.append_nil] at hWhole
    simp [hWhole, hSome]
  · next hOther =>
    rintro rfl
    exact hOther front (by rw [h])

theorem isPackage_intercalate {front : List String}
    (h : ∀ part ∈ front, isIdentifier part = true) : isPackage (".".intercalate front) = true := by
  by_cases hNone : front = []
  · rw [hNone]
    decide
  · rw [isPackage, segments_intercalate hNone h, List.all_eq_true.mpr h, Bool.or_true]

/-- A text whose core is made of identifiers with dots between them reads as a name. -/
theorem exists_parse {text : String} {l : List String} (hSome : l ≠ [])
    (hParts : ∀ part ∈ l, isIdentifier part = true) (hText : Text.trim text = ".".intercalate l) :
    ∃ c, parse text = .ok c := by
  have hFilled : ∀ part ∈ l, part ≠ "" := by
    rintro _ hMem rfl
    cases hParts "" hMem
  have hNotEmpty : (".".intercalate l).isEmpty = false := by
    simpa using intercalate_ne_empty hSome hFilled
  have hAny : l.any String.isEmpty = false := List.any_eq_false.mpr fun part hMem => by
    simpa using hFilled part hMem
  cases hDivide : divide l with
  | mk front names =>
    obtain ⟨hWhole, -, -⟩ := divide_spec hDivide
    have hPackage : isPackage (".".intercalate front) = true :=
      isPackage_intercalate fun part hMem => hParts part (hWhole ▸ List.mem_append_left _ hMem)
    have hNames : areSimpleNames names = true := by
      rw [areSimpleNames, Bool.and_eq_true, List.all_eq_true]
      exact ⟨by simpa using divide_names_ne_nil hSome hDivide,
        fun part hMem => hParts part (hWhole ▸ List.mem_append_right _ hMem)⟩
    refine ⟨⟨".".intercalate front, names, hPackage, hNames⟩, ?_⟩
    simp [parse, hText, hNotEmpty, segments_intercalate hSome hParts, hAny, hDivide,
      ofParts_eq_ok hPackage hNames]

/-- The division finds the end of the package again just if capitals show it. -/
theorem divide_parts_iff : divide c.parts = (c.packageParts, c.simpleNames) ↔
    (∀ part ∈ c.packageParts, startsCapital part = false) ∧
      (startsCapital c.outermost = true ∨ c.simpleNames.length = 1) := by
  obtain ⟨first, rest, hNames⟩ := List.exists_cons_of_ne_nil c.simpleNames_ne_nil
  have hOutermost : c.outermost = first := by rw [outermost, hNames]; rfl
  constructor
  · intro hDivide
    obtain ⟨-, hLower, hCapital⟩ := divide_spec hDivide
    refine ⟨hLower, ?_⟩
    cases rest with
    | nil => exact .inr (by rw [hNames]; rfl)
    | cons second rest => exact .inl (hOutermost ▸ hCapital first second rest hNames)
  · rintro ⟨hLower, hEnd⟩
    have hPackage : ∀ part ∈ c.packageParts, (!startsCapital part) = true := fun part hMem => by
      rw [hLower part hMem, Bool.not_false]
    rw [divide, List.span_eq_takeWhile_dropWhile, parts, List.takeWhile_append_of_pos hPackage,
      List.dropWhile_append_of_pos hPackage, hNames]
    cases hCapital : startsCapital first with
    | true => simp [hCapital]
    | false =>
      rw [hOutermost, hCapital, hNames] at hEnd
      have hRest : rest = [] := by simpa using hEnd
      simp [hCapital, hRest]

/-- Exactly the dotted identifiers read as class names, whatever white space is around them, and
each is the dotted text of the name that it reads as, which is read from it again. The dotted text
of an arbitrary name reads as that name just if no part of its package starts with a capital, and
its outermost name does unless the class is not nested. -/
theorem parse_reads_dotted_identifiers :
    (∀ text, (∃ before after, Text.IsTrimmed text (Text.trim text) before after) ∧
      ((∃ c, parse text = .ok c) ↔ ∃ l, l ≠ [] ∧ (∀ part ∈ l, isIdentifier part = true) ∧
        Text.trim text = ".".intercalate l) ∧
      ∀ c, parse text = .ok c → c.canonical = Text.trim text ∧ parse c.canonical = .ok c) ∧
    ∀ c, parse c.canonical = .ok c ↔
      (∀ part ∈ c.packageParts, startsCapital part = false) ∧
        (startsCapital c.outermost = true ∨ c.simpleNames.length = 1) := by
  refine ⟨fun text => ⟨Text.exists_isTrimmed text, ⟨?_, ?_⟩, ?_⟩, fun c => ?_⟩
  · rintro ⟨c, hRead⟩
    refine ⟨c.parts, List.append_ne_nil_of_right_ne_nil _ c.simpleNames_ne_nil,
      isIdentifier_of_mem_parts, ?_⟩
    rw [← canonical_of_parse hRead, canonical_eq_intercalate]
  · rintro ⟨l, hSome, hParts, hText⟩
    exact exists_parse hSome hParts hText
  · intro c hRead
    exact ⟨canonical_of_parse hRead, Read.parse_canonical ⟨text, hRead⟩⟩
  · rw [← divide_parts_iff]
    exact ⟨fun hRead => Read.divide_parts ⟨_, hRead⟩, parse_canonical_of_divide⟩

/-- A nested class is read from a text with white space around. A class that is nested in one
without a capital is not read from its own text. -/
theorem parse_reads_nested_class :
    let inner : ClassName := { package := "com.example", simpleNames := ["Outer", "Inner"] }
    let low : ClassName := { package := "com.example", simpleNames := ["outer", "Inner"] }
    parse " com.example.Outer.Inner\t" = .ok inner ∧ inner.canonical = "com.example.Outer.Inner" ∧
      parse inner.canonical = .ok inner ∧ parse low.canonical ≠ .ok low := by
  intro inner low
  have hRead : parse " com.example.Outer.Inner\t" = .ok inner := by rfl
  have hTrim : Text.trim " com.example.Outer.Inner\t" = "com.example.Outer.Inner" := by rfl
  obtain ⟨hTexts, hNames⟩ := parse_reads_dotted_identifiers
  obtain ⟨hCanonical, hAgain⟩ := (hTexts " com.example.Outer.Inner\t").2.2 inner hRead
  refine ⟨hRead, hCanonical.trans hTrim, hAgain, fun hLow => ?_⟩
  have hEnd := ((hNames low).mp hLow).2
  revert hEnd
  decide

end ClassName

end Bindery
