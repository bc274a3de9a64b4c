import Bindery.Proofs.Naming.Dotted

/-! # Reading dotted names

No character of an identifier is white space, so trimming leaves the dotted text of a class as it
is. A class that was read from some text is therefore read again from its own dotted text.
-/

namespace Bindery

theorem isBlank_eq_false_of_goesOn {c : Char} (h : goesOn c = true) : Text.isBlank c = false := by
  have hAll : ∀ range ∈ Text.blankRanges, ∀ n ∈ List.range' range.1 (range.2 + 1 - range.1),
      goesOn (Char.ofNat n) = false := by
    decide +kernel
  rw [Bool.eq_false_iff]
  intro hBlank
  obtain ⟨range, hRange, hInside⟩ := List.any_eq_true.mp hBlank
  simp only [Bool.and_eq_true, decide_eq_true_eq] at hInside
  have hNot := hAll range hRange c.toNat (List.mem_range'_1.mpr (by omega))
  rw [Char.ofNat_toNat, h] at hNot
  cases hNot

theorem mem_intercalate {α : Type} {a : α} {separator : List α} {parts : List (List α)}
    (h : a ∈ separator.intercalate parts) : a ∈ separator ∨ ∃ part ∈ parts, a ∈ part := by
  induction parts with
  | nil => simp at h
  | cons first rest ih =>
    cases rest with
    | nil => exact .inr ⟨first, List.mem_cons_self, by simpa using h⟩
    | cons second rest =>
      rw [List.intercalate_cons_cons, List.mem_append, List.mem_append] at h
      rcases h with (h | h) | h
      · exact .inr ⟨first, List.mem_cons_self, h⟩
      · exact .inl h
      · obtain hSeparator | ⟨part, hMem, hIn⟩ := ih h
        · exact .inl hSeparator
        · exact .inr ⟨part, List.mem_cons_of_mem _ hMem, hIn⟩

theorem trim_eq_self {s : String} (h : ∀ c ∈ s.toList, Text.isBlank c = false) :
    Text.trim s = s := by
  have hDrop {cs : List Char} (hChars : ∀ c ∈ cs, Text.isBlank c = false) :
      cs.dropWhile Text.isBlank = cs := by
    cases cs with
    | nil => rfl
    | cons c cs => simp [hChars c List.mem_cons_self]
  have hReverse : ∀ c ∈ s.toList.reverse, Text.isBlank c = false := by
    intro c hMem
    exact h c (List.mem_reverse.mp hMem)
  rw [Text.trim, Text.trimChars, hDrop h, hDrop hReverse, List.reverse_reverse,
    String.ofList_toList]

namespace ClassName

variable {c : ClassName}

theorem isBlank_eq_false_of_mem_canonical {a : Char} (h : a ∈ c.canonical.toList) :
    Text.isBlank a = false := by
  by_cases hDot : a = '.'
  · rw [hDot]
    decide
  · rw [canonical_eq_intercalate, String.toList_intercalate] at h
    obtain hSeparator | ⟨cs, hMem, hIn⟩ := mem_intercalate h
    · exact absurd (List.mem_singleton.mp hSeparator) hDot
    obtain ⟨part, hPart, rfl⟩ := List.mem_map.mp hMem
    have hGoesOn := goesOn_of_isIdentifier (isIdentifier_of_mem_parts part hPart)
    exact isBlank_eq_false_of_goesOn (List.all_eq_true.mp hGoesOn a hIn)

/-- A name is read from its own text if dividing its parts gives the name back. -/
theorem parse_canonical_of_divide (h : divide c.parts = (c.packageParts, c.simpleNames)) :
    parse c.canonical = .ok c := by
  have hTrim : Text.trim c.canonical = c.canonical :=
    trim_eq_self fun _ => isBlank_eq_false_of_mem_canonical
  have hFilled : ∀ part ∈ c.parts, ¬ part.isEmpty = true := by
    intro part hMem hEmpty
    have hIdentifier := isIdentifier_of_mem_parts part hMem
    rw [String.isEmpty_iff.mp hEmpty] at hIdentifier
    cases hIdentifier
  have hAny : c.parts.any String.isEmpty = false := List.any_eq_false.mpr hFilled
  have hSome : c.canonical.isEmpty = false := by
    rw [Bool.eq_false_iff]
    intro hEmpty
    have hParts : c.parts = [""] := by
      rw [← segments_canonical, String.isEmpty_iff.mp hEmpty]
      decide
    exact hFilled "" (by simp [hParts]) rfl
  have hParts : ofParts (".".intercalate c.packageParts) c.simpleNames = .ok c := by
    rw [intercalate_packageParts]
    exact ofParts_eq_ok c.isPackage_package c.areSimpleNames_simpleNames
  simp [parse, hTrim, hSome, segments_canonical, hAny, h, hParts]

/-- A name that was read is read again from its own text. -/
theorem Read.parse_canonical (h : c.Read) : parse c.canonical = .ok c :=
  parse_canonical_of_divide h.divide_parts

end ClassName

end Bindery
