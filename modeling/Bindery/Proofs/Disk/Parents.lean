import Bindery.Proofs.Disk.Paths

/-! # The directory that a path names

The directory of a path starts where the path starts and follows the same names up to the last one,
except for dots in front of it, which change nothing. A path beside another one is the directory of
that path with a name behind it.
-/

namespace Bindery

namespace Path

/-- Dots and empty pieces at the end are dropped, but not a dot at the very beginning. -/
theorem trimmedReverse_spec (reversed : List String) :
    ∃ dropped, reversed = dropped ++ trimmedReverse reversed ∧
      (∀ piece ∈ dropped, piece = "" ∨ piece = ".") ∧
      ∀ last rest, trimmedReverse reversed = last :: rest →
        last ≠ "" ∧ (last = "." → rest = []) := by
  have hBlank {isFirst : Bool} {piece : String} (h : ¬ (part? isFirst piece).isSome = true) :
      piece = "" ∨ piece = "." := by
    unfold part? at h
    split at h <;> simp_all
  have hFilled {isFirst : Bool} {piece : String} (h : (part? isFirst piece).isSome = true) :
      piece ≠ "" ∧ (piece = "." → isFirst = true) := by
    unfold part? at h
    split at h <;> simp_all
  fun_induction trimmedReverse reversed with
  | case1 => exact ⟨[], by simp⟩
  | case2 first hPart => exact ⟨[], by simp [(hFilled hPart).1]⟩
  | case3 first hPart => exact ⟨[first], by simpa using hBlank hPart⟩
  | case4 last rest hRest hPart =>
    refine ⟨[], rfl, by simp, ?_⟩
    rintro _ _ ⟨⟩
    exact ⟨(hFilled hPart).1, fun hDot => absurd ((hFilled hPart).2 hDot) (by simp)⟩
  | case5 last rest hRest hPart ih =>
    obtain ⟨dropped, hSplit, hDropped, hTrimmed⟩ := ih
    refine ⟨last :: dropped, by rw [List.cons_append, ← hSplit], ?_, hTrimmed⟩
    exact List.forall_mem_cons.mpr ⟨hBlank hPart, hDropped⟩

theorem trimmedReverse_cons {name : String} (h : IsName name) (rest : List String) :
    trimmedReverse (name :: rest) = name :: rest := by
  cases rest <;> simp [trimmedReverse, h.part?_eq]

section Last

variable {path last : String} {above : List String} (hPieces : pieces path = above ++ [last])
  (hLast : IsName last)

include hPieces hLast

theorem trimmedReverse_pieces : trimmedReverse (pieces path).reverse = last :: above.reverse := by
  rw [hPieces, List.reverse_append]
  exact trimmedReverse_cons hLast _

theorem fileName?_eq : fileName? path = some last := by
  unfold fileName?
  rw [trimmedReverse_pieces hPieces hLast]
  split
  · next hNone => cases hNone
  · next hDot => exact absurd (List.cons.inj hDot).1 hLast.notHere
  · next hUp => exact absurd (List.cons.inj hUp).1 hLast.notUp
  · next hSome => rw [(List.cons.inj hSome).1]

end Last

theorem parent?_ofPieces {above : List String} {last : String} (hSome : above ≠ [])
    (hNames : ∀ name ∈ above ++ [last], IsName name) :
    parent? (ofPieces (above ++ [last])) = some (ofPieces above) := by
  have hPieces := pieces_ofPieces_names hNames (by simp)
  obtain ⟨front, next, rfl⟩ := (List.eq_nil_or_concat above).resolve_left hSome
  rw [List.concat_eq_append] at *
  have hTrimmed := trimmedReverse_cons (hNames next (by simp)) front.reverse
  rw [parent?, trimmedReverse_pieces hPieces (hNames last (by simp)), List.reverse_concat]
  simp only [hTrimmed, List.reverse_cons, List.reverse_reverse]

end Path

namespace Disk

open Bindery.Path

theorem stretches_eq_map {names : List String}
    (h : ∀ front, names = front ++ ["."] → front = []) : stretches names = names.map ([·]) := by
  induction names with
  | nil => rfl
  | cons name rest ih =>
    have hRest : ∀ front, rest = front ++ ["."] → front = [] := by
      intro front hEnd
      exact absurd (h (name :: front) (by rw [hEnd, List.cons_append])) (by simp)
    unfold stretches
    split
    · next hDots =>
      obtain hNone | ⟨front, last, hEnd⟩ := List.eq_nil_or_concat rest
      · rw [hNone]
        rfl
      · have hDot : last = "." := by simpa [hEnd] using List.all_eq_true.mp hDots last
        exact absurd (h (name :: front) (by simp [hEnd, hDot])) (by simp)
    · rw [ih hRest, List.map_cons]

end Disk

namespace Path

/-- What the directory of a path shares with the path; `dots` are those it leaves out. -/
structure IsParent (path parent last : String) (dots : List String) : Prop where
  eq : parent? path = some parent
  isAbsolute : isAbsolute parent = isAbsolute path
  names : Disk.names path = Disk.names parent ++ dots ++ [last]
  dots : ∀ dot ∈ dots, dot = "."
  stretches : Disk.stretches (Disk.names parent) = (Disk.names parent).map ([·])

section Pieces

variable {path last : String} {kept dropped : List String}
  (hPieces : pieces path = kept ++ dropped ++ [last]) (hLast : IsName last)
  (hDropped : ∀ piece ∈ dropped, piece = "" ∨ piece = ".")

include hPieces hLast in
theorem names_of_pieces : Disk.names path = kept.filter (fun p => !p.isEmpty) ++
    dropped.filter (fun p => !p.isEmpty) ++ [last] := by
  rw [Disk.names, hPieces]
  simp [hLast.filled]

include hDropped in
theorem eq_dot_of_mem_filter : ∀ dot ∈ dropped.filter fun p => !p.isEmpty, dot = "." := by
  intro dot hMem
  obtain ⟨hIn, hFilled⟩ := List.mem_filter.mp hMem
  exact (hDropped dot hIn).resolve_left (by simpa using hFilled)

include hPieces hLast hDropped

/-- Nothing is left of the directory but where the path starts. -/
theorem isParent_of_nil (hNone : kept = [])
    (hTrimmed : trimmedReverse (kept ++ dropped).reverse = []) :
    IsParent path (if isAbsolute path then "/" else "") last
      (dropped.filter fun p => !p.isEmpty) where
  eq := by
    rw [parent?, trimmedReverse_pieces hPieces hLast]
    simp only [hTrimmed]
  isAbsolute := by
    split
    · next hAbsolute =>
      rw [hAbsolute]
      exact isAbsolute_iff.mpr rfl
    · next hRelative =>
      rw [Bool.not_eq_true] at hRelative
      rw [hRelative]
      decide
  names := by
    have hStart : Disk.names (if isAbsolute path then "/" else "") = [] := by split <;> decide
    rw [names_of_pieces hPieces hLast, hNone, hStart]
    rfl
  dots := eq_dot_of_mem_filter hDropped
  stretches := by split <;> decide

/-- The directory is spelled by the pieces that are kept. -/
theorem isParent_of_concat {front : List String} {next : String} (hKept : kept = front ++ [next])
    (hTrimmed : trimmedReverse (kept ++ dropped).reverse = next :: front.reverse)
    (hFilled : next ≠ "") (hDot : next = "." → front = []) :
    IsParent path (ofPieces kept) last (dropped.filter fun p => !p.isEmpty) := by
  have hSome : kept ≠ [] := by simp [hKept]
  have hSlash : ∀ p ∈ kept, '/' ∉ p.toList := by
    intro p hMem
    have hPiece : p ∈ pieces path := by simp [hPieces, hMem]
    exact noSlash_of_mem_pieces hPiece
  have hBack : pieces (ofPieces kept) = kept := pieces_ofPieces hSome hSlash
  have hNames : Disk.names (ofPieces kept) = front.filter (fun p => !p.isEmpty) ++ [next] := by
    rw [Disk.names, hBack, hKept]
    simp [hFilled]
  refine ⟨?_, ?_, ?_, eq_dot_of_mem_filter hDropped, ?_⟩
  · rw [parent?, trimmedReverse_pieces hPieces hLast]
    simp only [hTrimmed, List.reverse_cons, List.reverse_reverse]
    rw [hKept]
  · have hPath : path = ofPieces kept ++ ("/" ++ ofPieces (dropped ++ [last])) := by
      rw [← String.append_assoc, ← ofPieces_append hSome (by simp), ← List.append_assoc,
        ← hPieces, ofPieces_pieces]
    have hText : ofPieces kept ≠ "" := by
      intro hEmpty
      rw [hEmpty, pieces_empty, hKept] at hBack
      have hEnd : [] ++ [""] = front ++ [next] := hBack
      exact hFilled (List.cons.inj (List.append_inj' hEnd rfl).2).1.symm
    rw [hPath, isAbsolute_append hText]
  · rw [names_of_pieces hPieces hLast, hNames, hKept]
    simp [hFilled]
  · rw [hNames]
    apply Disk.stretches_eq_map
    intro above hEnd
    obtain ⟨hFront, hLastDot⟩ := List.append_inj' hEnd rfl
    rw [← hFront, hDot (List.cons.inj hLastDot).1]
    rfl

end Pieces

theorem exists_isParent {path last : String} {above : List String}
    (hPieces : pieces path = above ++ [last]) (hLast : IsName last) :
    ∃ parent dots, IsParent path parent last dots := by
  obtain ⟨dropped, hSplit, hDropped, hFilled⟩ := trimmedReverse_spec above.reverse
  obtain ⟨kept, hKept⟩ : ∃ kept : List String, trimmedReverse above.reverse = kept.reverse :=
    ⟨_, (List.reverse_reverse _).symm⟩
  have hAbove : above = kept ++ dropped.reverse := by
    rw [← List.reverse_reverse above, hSplit, hKept, List.reverse_append, List.reverse_reverse]
  rw [hAbove] at hPieces hKept hFilled
  have hBlank : ∀ piece ∈ dropped.reverse, piece = "" ∨ piece = "." := by
    simpa using hDropped
  obtain hNone | ⟨front, next, hConcat⟩ := List.eq_nil_or_concat kept
  · exact ⟨_, _, isParent_of_nil hPieces hLast hBlank hNone (by rw [hKept, hNone]; rfl)⟩
  · rw [List.concat_eq_append] at hConcat
    have hNext : trimmedReverse (kept ++ dropped.reverse).reverse = next :: front.reverse := by
      rw [hKept, hConcat, List.reverse_concat]
    obtain ⟨hSome, hDot⟩ := hFilled next front.reverse hNext
    exact ⟨_, _, isParent_of_concat hPieces hLast hBlank hConcat hNext hSome fun hSame =>
      List.reverse_eq_nil_iff.mp (hDot hSame)⟩

theorem IsParent.withFileName_eq {path parent last : String} {dots : List String}
    (h : IsParent path parent last dots) (hLast : fileName? path = some last) (name : String) :
    withFileName path name = join parent name := by
  rw [withFileName, hLast, h.eq]
  rfl

end Path

end Bindery
