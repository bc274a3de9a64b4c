import Bindery.Disk.Tree
import Mathlib.Data.List.Basic
import Mathlib.Tactic.SplitIfs

/-! # Paths and their pieces

A path is its pieces between slashes. Joining paths puts their pieces one after the other, so that
the names to follow along a joined path are those of the base and then those of what is below it.
-/

namespace Bindery

namespace Path

/-- A name that an entry of a directory can have. -/
structure IsName (name : String) : Prop where
  filled : name ≠ ""
  notHere : name ≠ "."
  notUp : name ≠ ".."
  noSlash : '/' ∉ name.toList

instance (name : String) : Decidable (IsName name) :=
  decidable_of_iff (name ≠ "" ∧ name ≠ "." ∧ name ≠ ".." ∧ '/' ∉ name.toList)
    ⟨fun h => ⟨h.1, h.2.1, h.2.2.1, h.2.2.2⟩, fun h => ⟨h.filled, h.notHere, h.notUp, h.noSlash⟩⟩

theorem IsName.part?_eq {name : String} (h : IsName name) (isFirst : Bool) :
    part? isFirst name = some (.name name) := by
  unfold part?
  split
  · exact absurd rfl h.filled
  · exact absurd rfl h.notHere
  · exact absurd rfl h.notUp
  · rfl

theorem isAbsolute_iff {path : String} : isAbsolute path = true ↔ path.toList.head? = some '/' := by
  rw [isAbsolute, String.startsWith_string_iff]
  constructor
  · rintro ⟨rest, hRest⟩
    simp [← hRest]
  · intro hHead
    obtain ⟨rest, hRest⟩ := List.head?_eq_some_iff.mp hHead
    exact ⟨rest, by simp [hRest]⟩

theorem endsWith_slash_iff {path : String} :
    path.endsWith "/" = true ↔ ∃ front, path = front ++ "/" := by
  change path.toSlice.endsWith "/" = true ↔ _
  rw [String.Slice.endsWith_string_iff, String.copy_toSlice]
  constructor
  · rintro ⟨front, hFront⟩
    exact ⟨String.ofList front, String.toList_injective (by simpa using hFront.symm)⟩
  · rintro ⟨front, rfl⟩
    exact ⟨front.toList, by simp⟩

/-! What paths begin and end with, in forms that can be evaluated. -/

theorem isAbsolute_eq (path : String) :
    isAbsolute path = decide (path.toList.head? = some '/') := by
  rw [Bool.eq_iff_iff, isAbsolute_iff, decide_eq_true_eq]

theorem endsWith_slash_eq (path : String) :
    path.endsWith "/" = decide (path.toList.getLast? = some '/') := by
  rw [Bool.eq_iff_iff, endsWith_slash_iff, decide_eq_true_eq]
  constructor
  · rintro ⟨front, rfl⟩
    simp
  · intro hLast
    obtain ⟨front, hFront⟩ := List.getLast?_eq_some_iff.mp hLast
    exact ⟨String.ofList front, String.toList_injective (by simpa using hFront)⟩

/-! ## Pieces -/

theorem ofPieces_pieces (path : String) : ofPieces (pieces path) = path := by
  have hChars : (pieces path).map String.toList = path.toList.splitOn '/' := by
    rw [pieces, List.map_map]
    simp [Function.comp_def]
  apply String.toList_injective
  rw [ofPieces, String.toList_intercalate, hChars]
  exact List.intercalate_splitOn '/'

theorem notMem_of_mem_splitOn {separator : Char} {chars piece : List Char}
    (h : piece ∈ chars.splitOn separator) : separator ∉ piece := by
  induction chars generalizing piece with
  | nil =>
    obtain rfl : piece = [] := by simpa using h
    simp
  | cons c rest ih =>
    rw [List.splitOn_cons_eq_if_modifyHead] at h
    obtain ⟨first, more, hRest⟩ := List.exists_cons_of_ne_nil (List.splitOn_ne_nil separator rest)
    simp only [hRest] at ih h
    split at h
    · rcases List.mem_cons.mp h with rfl | h
      · simp
      · exact ih h
    · next hOther =>
      rcases List.mem_cons.mp h with rfl | h
      · have hFirst := ih List.mem_cons_self
        simp only [List.mem_cons, not_or]
        exact ⟨fun hSame => hOther (by simp [hSame]), hFirst⟩
      · exact ih (List.mem_cons_of_mem _ h)

theorem noSlash_of_mem_pieces {path piece : String} (h : piece ∈ pieces path) :
    '/' ∉ piece.toList := by
  obtain ⟨chars, hMem, rfl⟩ := List.mem_map.mp h
  simpa using notMem_of_mem_splitOn hMem

theorem pieces_ofPieces {l : List String} (hSome : l ≠ []) (h : ∀ p ∈ l, '/' ∉ p.toList) :
    pieces (ofPieces l) = l := by
  have hFree : ∀ cs ∈ l.map String.toList, '/' ∉ cs := by
    simpa using h
  rw [pieces, ofPieces, String.toList_intercalate]
  change (List.splitOn '/' (['/'].intercalate (l.map String.toList))).map String.ofList = l
  rw [List.splitOn_intercalate '/' hFree (by simpa using hSome), List.map_map]
  simp [Function.comp_def]

theorem pieces_slash (front rest : String) :
    pieces (front ++ "/" ++ rest) = pieces front ++ pieces rest := by
  unfold pieces
  rw [String.toList_append, String.toList_append, List.append_assoc]
  change ((front.toList ++ '/' :: rest.toList).splitOn '/').map String.ofList = _
  rw [List.splitOn_append_cons_self, List.map_append]

theorem pieces_empty : pieces "" = [""] := by decide

theorem ofPieces_append {l m : List String} (hl : l ≠ []) (hm : m ≠ []) :
    ofPieces (l ++ m) = ofPieces l ++ "/" ++ ofPieces m :=
  String.intercalate_append_of_ne_nil hl hm

theorem isAbsolute_append {front : String} (h : front ≠ "") (rest : String) :
    isAbsolute (front ++ rest) = isAbsolute front := by
  have hSome : front.toList ≠ [] := by simpa using h
  rw [Bool.eq_iff_iff, isAbsolute_iff, isAbsolute_iff, String.toList_append,
    List.head?_append_of_ne_nil _ hSome]

/-! ## Joined paths -/

/-- The pieces of a path that go on in every path below it. -/
def front (base : String) : List String :=
  if base.isEmpty then [] else if base.endsWith "/" then (pieces base).dropLast else pieces base

variable {base path : String}

theorem pieces_join (h : isAbsolute path = false) :
    pieces (join base path) = front base ++ pieces path := by
  unfold join front
  by_cases hEmpty : base.isEmpty = true
  · simp [h, hEmpty]
  by_cases hSlash : base.endsWith "/" = true
  · obtain ⟨above, rfl⟩ := endsWith_slash_iff.mp hSlash
    have hBase : pieces (above ++ "/") = pieces above ++ [""] := by
      simpa [pieces_empty] using pieces_slash above ""
    simp [h, hEmpty, hSlash, pieces_slash, hBase]
  · simp [h, hEmpty, hSlash, pieces_slash]

theorem isAbsolute_join (h : isAbsolute path = false) :
    isAbsolute (join base path) = isAbsolute base := by
  unfold join
  by_cases hEmpty : base = ""
  · have hRelative : isAbsolute "" = false := by decide
    simp [h, hEmpty, hRelative]
  · have hSome : base.isEmpty = false := by simpa using hEmpty
    rw [h, hSome]
    split
    · next hAbsurd => simp at hAbsurd
    · split
      · exact isAbsolute_append hEmpty _
      · rw [String.append_assoc]
        exact isAbsolute_append hEmpty _

/-! ## Paths made of names -/

section Names

variable {l : List String} (hNames : ∀ p ∈ l, IsName p)

include hNames

theorem isAbsolute_ofPieces : isAbsolute (ofPieces l) = false := by
  rw [Bool.eq_false_iff]
  intro hAbsolute
  obtain ⟨rest, hChars⟩ := List.head?_eq_some_iff.mp (isAbsolute_iff.mp hAbsolute)
  cases l with
  | nil => simp [ofPieces] at hChars
  | cons name names =>
    have hName := hNames name List.mem_cons_self
    obtain ⟨c, cs, hName'⟩ := List.exists_cons_of_ne_nil
      (show name.toList ≠ [] by simpa using hName.filled)
    have hSlash : c = '/' := by
      cases names with
      | nil =>
        have hFirst : c :: cs = '/' :: rest := by simpa [ofPieces, hName'] using hChars
        exact (List.cons.inj hFirst).1
      | cons next names =>
        rw [ofPieces, String.intercalate_cons_cons, String.toList_append, String.toList_append,
          hName'] at hChars
        exact (List.cons.inj hChars).1
    exact hName.noSlash (by simp [hName', hSlash])

theorem pieces_ofPieces_names (hSome : l ≠ []) : pieces (ofPieces l) = l :=
  pieces_ofPieces hSome fun p hMem => (hNames p hMem).noSlash

theorem ofPieces_ne_empty (hSome : l ≠ []) : ofPieces l ≠ "" := by
  intro hEmpty
  have hPieces := pieces_ofPieces_names hNames hSome
  rw [hEmpty, pieces_empty] at hPieces
  exact (hNames "" (by simp [← hPieces])).filled rfl

theorem pieces_join_ofPieces (base : String) (hSome : l ≠ []) :
    pieces (join base (ofPieces l)) = front base ++ l := by
  rw [pieces_join (isAbsolute_ofPieces hNames), pieces_ofPieces_names hNames hSome]

end Names

end Path

namespace Disk

open Bindery.Path

theorem refusal?_eq_none_iff {path : String} : refusal? path = none ↔
    path ≠ "" ∧ '\x00' ∉ path.toList ∧ path.utf8ByteSize ≤ maxPathLength := by
  unfold refusal?
  rw [String.contains_char_eq]
  split_ifs <;> simp_all

theorem filter_front (base : String) : (front base).filter (fun p => !p.isEmpty) = names base := by
  unfold front
  split
  · next hEmpty =>
    rw [String.isEmpty_iff.mp hEmpty]
    decide
  · split
    · next hSlash =>
      obtain ⟨above, rfl⟩ := endsWith_slash_iff.mp hSlash
      have hBase : pieces (above ++ "/") = pieces above ++ [""] := by
        simpa [pieces_empty] using pieces_slash above ""
      simp [names, hBase]
    · rfl

theorem names_join {base path : String} (h : isAbsolute path = false) :
    names (join base path) = names base ++ names path := by
  rw [names, pieces_join h, List.filter_append, filter_front]
  rfl

theorem names_ofPieces {l : List String} (hNames : ∀ p ∈ l, IsName p) :
    names (ofPieces l) = l := by
  cases l with
  | nil => decide
  | cons name rest =>
    rw [names, pieces_ofPieces_names hNames (by simp), List.filter_eq_self]
    intro p hMem
    simpa using (hNames p hMem).filled

theorem names_join_ofPieces {base : String} {l : List String} (hNames : ∀ p ∈ l, IsName p) :
    names (join base (ofPieces l)) = names base ++ l := by
  rw [names_join (isAbsolute_ofPieces hNames), names_ofPieces hNames]

/-- A path to a name asks for nothing behind that name. -/
theorem endsWith_join_ofPieces (base : String) {last : String} {above : List String}
    (hNames : ∀ p ∈ above ++ [last], IsName p) :
    (join base (ofPieces (above ++ [last]))).endsWith "/" = false := by
  rw [Bool.eq_false_iff]
  intro hSlash
  obtain ⟨path, hPath⟩ := endsWith_slash_iff.mp hSlash
  have hPieces := pieces_join_ofPieces hNames base (by simp)
  have hEnd : pieces (path ++ "/") = pieces path ++ [""] := by
    simpa [pieces_empty] using pieces_slash path ""
  rw [hPath, hEnd, ← List.append_assoc] at hPieces
  have hLast := (List.append_inj' hPieces rfl).2
  exact (hNames last (by simp)).filled (by simpa using hLast.symm)

theorem join_ofPieces {l m : List String} (hSome : l ≠ []) (hMore : m ≠ [])
    (hNames : ∀ p ∈ l ++ m, IsName p) : join (ofPieces l) (ofPieces m) = ofPieces (l ++ m) := by
  have hl : ∀ p ∈ l, IsName p := fun p hMem => hNames p (List.mem_append_left _ hMem)
  have hm : ∀ p ∈ m, IsName p := fun p hMem => hNames p (List.mem_append_right _ hMem)
  have hFilled : (ofPieces l).isEmpty = false := by
    simpa using ofPieces_ne_empty hl hSome
  have hSlash : (ofPieces l).endsWith "/" = false := by
    obtain ⟨above, last, rfl⟩ := (List.eq_nil_or_concat l).resolve_left hSome
    rw [List.concat_eq_append] at *
    have hEnd := endsWith_join_ofPieces "" hl
    rwa [join, isAbsolute_ofPieces hl] at hEnd
  rw [join, isAbsolute_ofPieces hm, hFilled, hSlash, ofPieces_append hSome hMore]
  rfl

theorem route_join_ofPieces (base : String) {last : String} {above : List String}
    (hNames : ∀ p ∈ above ++ [last], IsName p) :
    route (join base (ofPieces (above ++ [last]))) = names base ++ above ++ [last] := by
  rw [route, endsWith_join_ofPieces base hNames, names_join_ofPieces hNames, List.append_assoc]
  simp

end Disk

end Bindery
