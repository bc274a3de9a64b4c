import Bindery.Proofs.Naming.Derived
import Mathlib.Data.List.Basic
import Mathlib.Data.List.TakeDrop
import Mathlib.Data.List.TakeWhile

/-! # Dotted names

The parts of a class are the segments of its package and its simple names. Identifiers hold no dots,
so the segments of the dotted text of a class are its parts again. Where the package ends does not
show in the text, but for a class that was read from text the spelling of its parts decides it.
-/

namespace Bindery

theorem dot_notMem {s : String} (h : isIdentifier s = true) : '.' ∉ s.toList := by
  intro hMem
  have hGoesOn : goesOn '.' = true := List.all_eq_true.mp (goesOn_of_isIdentifier h) '.' hMem
  revert hGoesOn
  decide

theorem intercalate_segments (s : String) : ".".intercalate (segments s) = s := by
  have hChars : (segments s).map String.toList = s.toList.splitOn '.' := by
    rw [segments, List.map_map]
    simp [Function.comp_def]
  apply String.toList_injective
  rw [String.toList_intercalate, hChars]
  exact List.intercalate_splitOn '.'

theorem segments_intercalate {l : List String} (hSome : l ≠ [])
    (h : ∀ s ∈ l, isIdentifier s = true) : segments (".".intercalate l) = l := by
  have hFree : ∀ cs ∈ l.map String.toList, '.' ∉ cs := by
    intro cs hChars
    obtain ⟨s, hMem, rfl⟩ := List.mem_map.mp hChars
    exact dot_notMem (h s hMem)
  rw [segments, String.toList_intercalate]
  change (List.splitOn '.' (['.'].intercalate (l.map String.toList))).map String.ofList = l
  rw [List.splitOn_intercalate '.' hFree (by simpa using hSome), List.map_map]
  simp [Function.comp_def]

namespace ClassName

variable {c d : ClassName}

/-- The segments of the package; the default package has none. -/
def packageParts (c : ClassName) : List String :=
  if c.package.isEmpty then [] else segments c.package

/-- All parts of the dotted text. -/
def parts (c : ClassName) : List String := c.packageParts ++ c.simpleNames

theorem simpleNames_ne_nil (c : ClassName) : c.simpleNames ≠ [] := by
  have hSome := (Bool.and_eq_true_iff.mp c.areSimpleNames_simpleNames).1
  simpa using hSome

theorem isIdentifier_of_mem_parts : ∀ part ∈ c.parts, isIdentifier part = true := by
  refine List.forall_mem_append.mpr ⟨?_, c.isIdentifier_of_mem⟩
  unfold packageParts
  rcases Bool.or_eq_true_iff.mp c.isPackage_package with hEmpty | hAll
  · rw [if_pos hEmpty]
    simp
  · split
    · simp
    · exact List.all_eq_true.mp hAll

theorem intercalate_packageParts (c : ClassName) : ".".intercalate c.packageParts = c.package := by
  unfold packageParts
  split
  · next hEmpty =>
    rw [String.isEmpty_iff.mp hEmpty]
    rfl
  · exact intercalate_segments c.package

theorem eq_of_parts (hPackage : c.packageParts = d.packageParts)
    (hNames : c.simpleNames = d.simpleNames) : c = d := by
  have hSame : c.package = d.package := by
    rw [← intercalate_packageParts, hPackage, intercalate_packageParts]
  cases c
  cases d
  simp_all

theorem packageParts_eq_nil_iff : c.packageParts = [] ↔ c.package = "" := by
  constructor
  · intro hEmpty
    rw [← intercalate_packageParts, hEmpty]
    rfl
  · intro hEmpty
    rw [packageParts, if_pos (String.isEmpty_iff.mpr hEmpty)]

theorem canonical_eq_intercalate (c : ClassName) : c.canonical = ".".intercalate c.parts := by
  unfold canonical qualified parts
  by_cases hEmpty : c.package = ""
  · rw [if_pos (String.isEmpty_iff.mpr hEmpty), packageParts_eq_nil_iff.mpr hEmpty]
    rfl
  · have hSome : c.packageParts ≠ [] := mt packageParts_eq_nil_iff.mp hEmpty
    rw [if_neg (mt String.isEmpty_iff.mp hEmpty),
      String.intercalate_append_of_ne_nil hSome c.simpleNames_ne_nil, intercalate_packageParts]

theorem segments_canonical (c : ClassName) : segments c.canonical = c.parts := by
  have hSome : c.parts ≠ [] := List.append_ne_nil_of_right_ne_nil _ c.simpleNames_ne_nil
  rw [canonical_eq_intercalate, segments_intercalate hSome isIdentifier_of_mem_parts]

theorem segments_joined (c : ClassName) : segments (c.joined ".") = c.simpleNames :=
  segments_intercalate c.simpleNames_ne_nil c.isIdentifier_of_mem

/-- Classes that are not nested are told apart by their dotted text. -/
theorem eq_of_canonical_of_single {a b : String} (hc : c.simpleNames = [a])
    (hd : d.simpleNames = [b]) (h : c.canonical = d.canonical) : c = d := by
  have hParts : c.parts = d.parts := by rw [← segments_canonical, h, segments_canonical]
  unfold parts at hParts
  rw [hc, hd] at hParts
  obtain ⟨hPackage, hName⟩ := List.append_inj' hParts rfl
  exact eq_of_parts hPackage (hc.trans (hName.trans hd.symm))

/-! ## Names that were read -/

/-- The name is what some text reads as. -/
def Read (c : ClassName) : Prop := ∃ text, parse text = .ok c

/-- What dividing tells apart: no part of a package starts with a capital, and the first of several
simple names does. -/
theorem divide_spec {l front names : List String} (h : divide l = (front, names)) :
    front ++ names = l ∧ (∀ part ∈ front, startsCapital part = false) ∧
      ∀ first second rest, names = first :: second :: rest → startsCapital first = true := by
  have hWhole : l.takeWhile (fun p => !startsCapital p) ++ l.dropWhile (fun p => !startsCapital p) =
      l := List.takeWhile_append_dropWhile
  have hFront : ∀ part ∈ l.takeWhile (fun p => !startsCapital p), startsCapital part = false := by
    intro part hMem
    simpa using List.mem_takeWhile_imp hMem
  rw [divide, List.span_eq_takeWhile_dropWhile] at h
  cases hRest : l.dropWhile (fun p => !startsCapital p) with
  | nil =>
    simp only [hRest] at h hWhole
    obtain ⟨rfl, rfl⟩ := Prod.mk.inj h
    rw [List.append_nil] at hWhole
    rw [hWhole] at hFront ⊢
    refine ⟨?_, ?_, ?_⟩
    · cases hLast : l.getLast? with
      | none => simp [List.getLast?_eq_none_iff.mp hLast]
      | some last => exact List.dropLast_append_getLast? last hLast
    · intro part hMem
      exact hFront part ((List.dropLast_sublist l).subset hMem)
    · intro first second rest hNames
      cases hLast : l.getLast? <;> simp [hLast] at hNames
  | cons capital rest =>
    simp only [hRest] at h hWhole
    obtain ⟨rfl, rfl⟩ := Prod.mk.inj h
    refine ⟨hWhole, hFront, ?_⟩
    rintro _ second rest ⟨⟩
    have hHead := List.head?_dropWhile_not (fun p => !startsCapital p) l
    rw [hRest] at hHead
    simpa using hHead

theorem ofParts_inv {package : String} {names : List String} (h : ofParts package names = .ok c) :
    c.package = package ∧ c.simpleNames = names := by
  unfold ofParts at h
  simp only at h
  split at h
  · cases h
  · split at h
    · split at h
      · cases h
        exact ⟨rfl, rfl⟩
      · cases h
    · cases h

theorem parse_inv {text : String} (h : parse text = .ok c) : ∃ front,
    divide (segments (Text.trim text)) = (front, c.simpleNames) ∧
      c.package = ".".intercalate front ∧ ∀ part ∈ segments (Text.trim text), part ≠ "" := by
  unfold parse at h
  generalize Text.trim text = trimmed at h ⊢
  simp only at h
  split at h
  · cases h
  · split at h
    · cases h
    · next hFilled =>
      cases hDivide : divide (segments trimmed) with
      | mk front names =>
        rw [hDivide] at h
        obtain ⟨hPackage, hNames⟩ := ofParts_inv h
        refine ⟨front, hNames ▸ rfl, hPackage, ?_⟩
        intro part hMem hEmpty
        exact hFilled (List.any_eq_true.mpr ⟨part, hMem, String.isEmpty_iff.mpr hEmpty⟩)

theorem intercalate_ne_empty {l : List String} (hSome : l ≠ []) (h : ∀ part ∈ l, part ≠ "") :
    ".".intercalate l ≠ "" := by
  match l with
  | [] => exact absurd rfl hSome
  | [only] =>
    rw [String.intercalate_singleton]
    exact h only List.mem_cons_self
  | first :: second :: rest =>
    rw [String.intercalate_cons_cons]
    simp

/-- The dotted text of a name is the text that it was read from, without white space around. -/
theorem canonical_of_parse {text : String} (h : parse text = .ok c) :
    c.canonical = Text.trim text := by
  obtain ⟨front, hDivide, hPackage, hFilled⟩ := parse_inv h
  obtain ⟨hWhole, _, _⟩ := divide_spec hDivide
  rw [← intercalate_segments (Text.trim text), ← hWhole, canonical, qualified, hPackage]
  by_cases hNone : front = []
  · rw [hNone]
    rfl
  · have hSome : ".".intercalate front ≠ "" := by
      refine intercalate_ne_empty hNone fun part hMem => hFilled part ?_
      exact hWhole ▸ List.mem_append_left _ hMem
    rw [if_neg (mt String.isEmpty_iff.mp hSome),
      String.intercalate_append_of_ne_nil hNone c.simpleNames_ne_nil]

/-- Dividing the parts of a name that was read gives the name back. -/
theorem Read.divide_parts (h : c.Read) : divide c.parts = (c.packageParts, c.simpleNames) := by
  obtain ⟨text, hRead⟩ := h
  obtain ⟨front, hDivide, hPackage, hFilled⟩ := parse_inv hRead
  obtain ⟨hWhole, _, _⟩ := divide_spec hDivide
  have hParts : c.parts = front ++ c.simpleNames := by
    rw [← segments_canonical, canonical_of_parse hRead, hWhole]
  have hFront : c.packageParts = front := List.append_cancel_right hParts
  rw [hParts, hWhole, hDivide, hFront]

theorem Read.eq_of_canonical (hc : c.Read) (hd : d.Read) (h : c.canonical = d.canonical) :
    c = d := by
  have hParts : c.parts = d.parts := by rw [← segments_canonical, h, segments_canonical]
  have hSame := hc.divide_parts
  rw [hParts, hd.divide_parts] at hSame
  obtain ⟨hPackage, hNames⟩ := Prod.mk.inj hSame
  exact (eq_of_parts hPackage hNames).symm

/-- Simple names alone never read as a class of a named package: several of them start with a
capital, and no package does. -/
theorem Read.joined_ne_canonical (hc : c.Read) (hd : d.Read) (hPackage : d.package ≠ "") :
    c.joined "." ≠ d.canonical := by
  intro hSame
  have hNames : c.simpleNames = d.packageParts ++ d.simpleNames := by
    rw [← segments_joined, hSame, segments_canonical]
    rfl
  obtain ⟨_, _, hCapital⟩ := divide_spec hc.divide_parts
  obtain ⟨_, hLower, _⟩ := divide_spec hd.divide_parts
  cases hFront : d.packageParts with
  | nil => exact hPackage (packageParts_eq_nil_iff.mp hFront)
  | cons first front =>
    cases hBehind : front ++ d.simpleNames with
    | nil => exact d.simpleNames_ne_nil (List.append_eq_nil_iff.mp hBehind).2
    | cons second rest =>
      rw [hFront, List.cons_append, hBehind] at hNames
      have hFirst := hLower first (hFront ▸ List.mem_cons_self)
      rw [hCapital first second rest hNames] at hFirst
      cases hFirst

end ClassName

end Bindery
