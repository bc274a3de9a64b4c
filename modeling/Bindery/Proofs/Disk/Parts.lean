import Bindery.Proofs.Disk.Parents
import Bindery.Proofs.Disk.Trees
import Mathlib.Data.List.TakeDrop
import Mathlib.Data.List.TakeWhile

/-! # Where the parts of a path lead

Paths with the same parts lead to the same place, however they are spelled. Whatever leads up to its
last name, a path to a file with an extension leads to an entry of that name.
-/

namespace Bindery

namespace Path

theorem pieces_ne_nil (path : String) : pieces path ≠ [] := by
  simp [pieces, List.splitOn_ne_nil]

theorem pieces_append {path suffix last : String} {above : List String}
    (hPieces : pieces path = above ++ [last]) (hSuffix : '/' ∉ suffix.toList) :
    pieces (path ++ suffix) = above ++ [last ++ suffix] := by
  have hPath : path ++ suffix = ofPieces (above ++ [last ++ suffix]) := by
    rw [← ofPieces_pieces path, hPieces]
    by_cases hNil : above = []
    · simp [hNil, ofPieces]
    · rw [ofPieces_append hNil (by simp), ofPieces_append hNil (by simp)]
      simp [ofPieces, String.append_assoc]
  rw [hPath]
  have hSlash : ∀ piece ∈ above ++ [last], '/' ∉ piece.toList := fun piece hMem =>
    noSlash_of_mem_pieces (hPieces ▸ hMem)
  obtain ⟨hAbove, hLast⟩ := List.forall_mem_append.mp hSlash
  refine pieces_ofPieces (by simp) (List.forall_mem_append.mpr ⟨hAbove, ?_⟩)
  simpa using ⟨hLast last List.mem_cons_self, hSuffix⟩

theorem exists_pieces_eq (path : String) {suffix : String} (hSlash : '/' ∉ suffix.toList)
    (hLong : 2 < suffix.length) : ∃ above stem,
      pieces (path ++ suffix) = above ++ [stem ++ suffix] ∧ IsName (stem ++ suffix) := by
  obtain ⟨above, stem, hPieces⟩ :=
    (List.eq_nil_or_concat (pieces path)).resolve_left (pieces_ne_nil path)
  rw [List.concat_eq_append] at hPieces
  have hWhole := pieces_append hPieces hSlash
  have hOther {short : String} (hShort : short.length ≤ 2) : stem ++ suffix ≠ short := by
    rintro rfl
    rw [String.length_append] at hShort
    omega
  have hPiece : stem ++ suffix ∈ pieces (path ++ suffix) := by simp [hWhole]
  exact ⟨above, stem, hWhole, hOther (by decide), hOther (by decide), hOther (by decide),
    noSlash_of_mem_pieces hPiece⟩

theorem join_append {base path : String} (hRelative : isAbsolute path = false) (hSome : path ≠ "")
    (rest : String) : join base (path ++ rest) = join base path ++ rest := by
  unfold join
  rw [isAbsolute_append hSome, hRelative]
  split
  · rfl
  · split <;> simp [String.append_assoc]

theorem exists_join_eq (base path : String) : ∃ front, join base path = front ++ path := by
  unfold join
  split
  · exact ⟨"", by simp⟩
  · split
    · exact ⟨base, rfl⟩
    · exact ⟨base ++ "/", rfl⟩

theorem join_ne_empty (base : String) {path : String} (hSome : path ≠ "") :
    join base path ≠ "" := by
  obtain ⟨front, hJoin⟩ := exists_join_eq base path
  rw [hJoin]
  intro hEmpty
  exact hSome (String.append_eq_empty_iff.mp hEmpty).2

theorem splitExtension_eq (stem : String) {extension : String} (hDot : '.' ∉ extension.toList) :
    (splitExtension (stem ++ "." ++ extension)).2 =
      if stem = "" then none else some extension := by
  have hSpan : (stem ++ "." ++ extension).toList.reverse.span (· ≠ '.') =
      (extension.toList.reverse, '.' :: stem.toList.reverse) := by
    have hTail : ∀ c ∈ extension.toList.reverse, decide (c ≠ '.') = true := by
      intro c hMem
      refine decide_eq_true ?_
      rintro rfl
      exact hDot (List.mem_reverse.mp hMem)
    have hText : (stem ++ "." ++ extension).toList.reverse =
        extension.toList.reverse ++ '.' :: stem.toList.reverse := by simp
    rw [hText, List.span_eq_takeWhile_dropWhile, List.takeWhile_append_of_pos hTail,
      List.dropWhile_append_of_pos hTail]
    simp
  unfold splitExtension
  rw [hSpan]
  by_cases hNil : stem = ""
  · simp [hNil]
  · have hSome : stem.toList.reverse ≠ [] := by simpa using hNil
    obtain ⟨c, rest, hStem⟩ := List.exists_cons_of_ne_nil hSome
    simp [hStem, hNil]

/-- The extension stands behind the last dot of a name, unless nothing stands before that dot. -/
theorem splitExtension_eq_some_iff {name extension : String} :
    (splitExtension name).2 = some extension ↔
      '.' ∉ extension.toList ∧ ∃ stem, stem ≠ "" ∧ name = stem ++ "." ++ extension := by
  constructor
  · intro h
    have hMem : '.' ∈ name.toList.reverse := by
      by_contra hNone
      have hAll : ∀ c ∈ name.toList.reverse, decide (c ≠ '.') = true := by
        intro c hMem
        exact decide_eq_true fun hDot => hNone (hDot ▸ hMem)
      have hSpan : name.toList.reverse.span (· ≠ '.') = (name.toList.reverse, []) := by
        rw [List.span_eq_takeWhile_dropWhile, List.takeWhile_eq_self_iff.mpr hAll,
          List.dropWhile_eq_nil_iff.mpr hAll]
      rw [splitExtension, hSpan] at h
      cases h
    obtain ⟨tail, stem, hReverse, hTail⟩ := List.eq_append_cons_of_mem hMem
    have hName : name = String.ofList stem.reverse ++ "." ++ String.ofList tail.reverse := by
      apply String.toList_injective
      rw [← List.reverse_reverse name.toList, hReverse]
      simp
    have hDot : '.' ∉ (String.ofList tail.reverse).toList := by simpa using hTail
    rw [hName, splitExtension_eq _ hDot] at h
    split at h
    · cases h
    · next hSome =>
      obtain rfl := Option.some.inj h
      exact ⟨hDot, _, hSome, hName⟩
  · rintro ⟨hDot, stem, hSome, rfl⟩
    rw [splitExtension_eq stem hDot, if_neg hSome]

end Path

namespace Disk

/-- The key that a path leads to, whether or not the names on the way can be followed. -/
def place (disk : Disk) (path : String) : DiskKey := lead (disk.start path) (Disk.names path)

/-- The key that a part of a path leads to. -/
def advance (key : DiskKey) : PathPart → DiskKey
  | .root => []
  | .here => key
  | .up => key.dropLast
  | .name text => key ++ [text]

variable {disk disk' : Disk} {path other : String}

theorem place_eq (hHome : disk'.home = disk.home) (path : String) :
    disk'.place path = disk.place path := by
  rw [place, place, start_eq hHome rfl]

theorem locate_eq_place {key : DiskKey} (h : disk.locate path = .ok key) :
    key = disk.place path := by
  rw [(locate_eq_ok_iff.mp h).2.2, lead_route, place]

theorem lead_piece (isFirst : Bool) (key : DiskKey) (piece : String) :
    lead key ([piece].filter fun p => !p.isEmpty) =
      (Path.part? isFirst piece).toList.foldl advance key := by
  unfold Path.part?
  split
  · rfl
  · cases isFirst <;> rfl
  · rfl
  · next hSome hHere hUp =>
    have hFilled : piece.isEmpty = false := by simpa using hSome
    have hMoved : moved key piece = key ++ [piece] := by rw [moved, if_neg hHere, if_neg hUp]
    simpa [hFilled, lead, advance] using hMoved

theorem lead_pieces (key : DiskKey) (pieces : List String) :
    lead key (pieces.filter fun p => !p.isEmpty) =
      (pieces.filterMap (Path.part? false)).foldl advance key := by
  induction pieces generalizing key with
  | nil => rfl
  | cons piece rest ih =>
    have hParts : (piece :: rest).filterMap (Path.part? false) =
        (Path.part? false piece).toList ++ rest.filterMap (Path.part? false) := by
      cases hPart : Path.part? false piece <;> simp [hPart]
    rw [← List.singleton_append, List.filter_append, lead_append, lead_piece false, ih,
      List.singleton_append, hParts, List.foldl_append]

/-- Only the parts of a path decide where it leads. -/
theorem place_eq_foldl (disk : Disk) (path : String) :
    disk.place path = (Path.parts path).foldl advance disk.home := by
  obtain ⟨first, rest, hPieces⟩ := List.exists_cons_of_ne_nil (Path.pieces_ne_nil path)
  have hNames : Disk.names path =
      [first].filter (fun p => !p.isEmpty) ++ rest.filter (fun p => !p.isEmpty) := by
    rw [Disk.names, hPieces, ← List.filter_append, List.singleton_append]
  have hStart : (if Path.isAbsolute path then [PathPart.root] else []).foldl advance disk.home =
      disk.start path := by
    unfold start
    split <;> rfl
  rw [place, hNames, lead_append, lead_piece true, lead_pieces, Path.parts, hPieces,
    List.foldl_append, List.foldl_append, hStart]

theorem place_eq_of_parts (h : Path.parts path = Path.parts other) :
    disk.place path = disk.place other := by
  rw [place_eq_foldl, h, ← place_eq_foldl]

theorem place_join_ofPieces (base : String) {names : List String}
    (hNames : ∀ name ∈ names, Path.IsName name) :
    disk.place (Path.join base (Path.ofPieces names)) = disk.place base ++ names := by
  rw [place, start_join base hNames, names_join_ofPieces hNames, lead_append,
    lead_of_isName hNames, place]

/-- A path that ends in an extension leads to an entry with that extension. -/
theorem exists_place_eq (disk : Disk) (path : String) {suffix : String}
    (hSlash : '/' ∉ suffix.toList) (hLong : 2 < suffix.length) :
    ∃ above stem, disk.place (path ++ suffix) = above ++ [stem ++ suffix] := by
  obtain ⟨front, stem, hPieces, hName⟩ := Path.exists_pieces_eq path hSlash hLong
  have hNames : Disk.names (path ++ suffix) =
      front.filter (fun p => !p.isEmpty) ++ [stem ++ suffix] := by
    simpa [Disk.names, hPieces] using hName.filled
  refine ⟨lead (disk.start (path ++ suffix)) (front.filter fun p => !p.isEmpty), stem, ?_⟩
  rw [place, hNames, lead_append]
  exact moved_of_isName hName

theorem refusal?_of_append {rest : String} (hSome : path ≠ "")
    (h : refusal? (path ++ rest) = none) : refusal? path = none := by
  rw [refusal?_eq_none_iff] at h ⊢
  obtain ⟨-, hZero, hShort⟩ := h
  rw [String.toList_append, List.mem_append, not_or] at hZero
  rw [String.utf8ByteSize_append] at hShort
  exact ⟨hSome, hZero.1, by omega⟩

end Disk

end Bindery
