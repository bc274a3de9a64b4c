import Bindery.Source.Printer

/-! # The comment on top of a file

Each entry of the comment is written behind a comment sign. The sign reaches as far as the physical
line does, so an entry with a line break in it goes on without a sign. The lines of the comment are
comment lines just if every line that an entry goes on with brings a sign of its own.
-/

namespace Bindery.Source

/-! ## Physical lines -/

/-- Puts a character in front of the first line. -/
def intoFirst (c : Char) : List (List Char) → List (List Char)
  | [] => [[c]]
  | line :: lines => (c :: line) :: lines

/-- The physical lines of a text. A line ends with a line feed, with a carriage return, or with both
in this order; the last line may lack an end. -/
def physicalLines : List Char → List (List Char)
  | [] => []
  | c :: rest =>
    if c = '\n' ∨ c = '\r' ∧ rest.head? ≠ some '\n' then [] :: physicalLines rest
    else if c = '\r' then physicalLines rest
    else intoFirst c (physicalLines rest)

/-- The line starts with a comment sign. -/
def IsComment (line : List Char) : Prop := ['/', '/'] <+: line

instance (line : List Char) : Decidable (IsComment line) :=
  inferInstanceAs (Decidable (_ <+: _))

theorem intoFirst_append {c : Char} {lines : List (List Char)} (hSome : lines ≠ [])
    (more : List (List Char)) : intoFirst c (lines ++ more) = intoFirst c lines ++ more := by
  cases lines with
  | nil => exact absurd rfl hSome
  | cons line lines => rfl

theorem intoFirst_ne_nil (c : Char) (lines : List (List Char)) : intoFirst c lines ≠ [] := by
  cases lines <;> exact List.cons_ne_nil _ _

theorem physicalLines_lineFeed (rest : List Char) :
    physicalLines ('\n' :: rest) = [] :: physicalLines rest := by
  rw [physicalLines, if_pos (.inl rfl)]

theorem physicalLines_of_noBreak {c : Char} (hFeed : c ≠ '\n') (hReturn : c ≠ '\r')
    (rest : List Char) : physicalLines (c :: rest) = intoFirst c (physicalLines rest) := by
  rw [physicalLines, if_neg (by simp [hFeed, hReturn]), if_neg hReturn]

theorem physicalLines_ended_ne_nil (text : List Char) : physicalLines (text ++ ['\n']) ≠ [] := by
  induction text with
  | nil =>
    rw [List.nil_append, physicalLines_lineFeed]
    exact List.cons_ne_nil _ _
  | cons c text ih =>
    rw [List.cons_append, physicalLines]
    split
    · exact List.cons_ne_nil _ _
    · split
      · exact ih
      · exact intoFirst_ne_nil _ _

/-- Behind a line feed the lines start anew. -/
theorem physicalLines_append (text rest : List Char) :
    physicalLines (text ++ '\n' :: rest) =
      physicalLines (text ++ ['\n']) ++ physicalLines rest := by
  induction text with
  | nil =>
    rw [List.nil_append, List.nil_append, physicalLines_lineFeed, physicalLines_lineFeed]
    rfl
  | cons c text ih =>
    have hHead : (text ++ '\n' :: rest).head? = (text ++ ['\n']).head? := by
      cases text <;> rfl
    rw [List.cons_append, List.cons_append, physicalLines, physicalLines, hHead, ih]
    split
    · rfl
    · split
      · rfl
      · exact intoFirst_append (physicalLines_ended_ne_nil text) _

example : physicalLines ['a', '\r', '\n', '\n', 'b'] = [['a'], [], ['b']] := by
  decide

/-! ## Lines of the comment -/

/-- The lines that an entry of the comment goes on with, behind its first line. -/
def continuation (entry : String) : List (List Char) :=
  (physicalLines (entry.toList ++ ['\n'])).tail

def commentLine (entry : String) : String := "// " ++ entry

/-- What is written for the entries of the comment. -/
def File.commentText (file : File) : String :=
  String.join (file.comment.map fun entry => commentLine entry ++ "\n")

theorem toList_commentLine (entry : String) :
    (commentLine entry ++ "\n").toList = '/' :: '/' :: ' ' :: (entry.toList ++ ['\n']) := by
  simp [commentLine]

/-- The sign stands in front of the first line of an entry. -/
theorem physicalLines_commentLine (entry : String) : ∃ line,
    physicalLines (commentLine entry ++ "\n").toList =
      ('/' :: '/' :: ' ' :: line) :: continuation entry := by
  rw [toList_commentLine, physicalLines_of_noBreak (by decide) (by decide),
    physicalLines_of_noBreak (by decide) (by decide),
    physicalLines_of_noBreak (by decide) (by decide), continuation]
  cases hLines : physicalLines (entry.toList ++ ['\n']) with
  | nil => exact absurd hLines (physicalLines_ended_ne_nil entry.toList)
  | cons line lines => exact ⟨line, rfl⟩

theorem isComment_commentLine_iff (entry : String) :
    (∀ line ∈ physicalLines (commentLine entry ++ "\n").toList, IsComment line) ↔
      ∀ line ∈ continuation entry, IsComment line := by
  obtain ⟨line, hLines⟩ := physicalLines_commentLine entry
  rw [hLines, List.forall_mem_cons, and_iff_right ⟨' ' :: line, rfl⟩]

/-- An entry that lacks line breaks stays on one line. -/
theorem continuation_of_noBreak {entry : String} (hFeed : '\n' ∉ entry.toList)
    (hReturn : '\r' ∉ entry.toList) : continuation entry = [] := by
  have hLines (text : List Char) (hFeed : '\n' ∉ text) (hReturn : '\r' ∉ text) :
      physicalLines (text ++ ['\n']) = [text] := by
    induction text with
    | nil => rfl
    | cons c text ih =>
      obtain ⟨hFirst, hFeed⟩ := List.ne_and_not_mem_of_not_mem_cons hFeed
      obtain ⟨hFirst', hReturn⟩ := List.ne_and_not_mem_of_not_mem_cons hReturn
      rw [List.cons_append, physicalLines_of_noBreak hFirst.symm hFirst'.symm, ih hFeed hReturn]
      rfl
  rw [continuation, hLines entry.toList hFeed hReturn]
  rfl

/-- The comment ends with a line feed, if there is any. -/
theorem physicalLines_comment (l : List String) (rest : List Char) :
    physicalLines ((String.join (l.map fun entry => commentLine entry ++ "\n")).toList ++ rest) =
      (l.flatMap fun entry => physicalLines (commentLine entry ++ "\n").toList) ++
        physicalLines rest := by
  induction l with
  | nil => rfl
  | cons entry l ih =>
    have hEntry : (commentLine entry ++ "\n").toList = (commentLine entry).toList ++ ['\n'] :=
      String.toList_append
    rw [List.map_cons, String.join_cons, String.toList_append, hEntry, List.append_assoc,
      List.append_assoc, List.singleton_append, physicalLines_append, ih, List.flatMap_cons, hEntry,
      List.append_assoc]

namespace File

theorem isComment_commentText_iff (file : File) :
    (∀ line ∈ physicalLines file.commentText.toList, IsComment line) ↔
      ∀ entry ∈ file.comment, ∀ line ∈ continuation entry, IsComment line := by
  have hLines := physicalLines_comment file.comment []
  rw [List.append_nil, physicalLines, List.append_nil] at hLines
  rw [commentText, hLines, List.forall_mem_flatMap]
  simp only [isComment_commentLine_iff]

theorem prefix_paragraph (lines : List String) : lines <+: paragraph lines := by
  cases lines with
  | nil => exact List.nil_prefix
  | cons line lines => exact List.prefix_append _ _

/-- The entries of the comment come first, one behind the other. -/
theorem comment_opens_file (spell : Spelling) (imports : List String) (file : File) :
    file.comment.map commentLine <+: file.linesWith spell imports := by
  have hHeader : file.comment.map commentLine <+: file.headerLines spell :=
    (List.prefix_append _ _).trans (prefix_paragraph _)
  unfold linesWith
  rw [List.append_assoc, List.append_assoc]
  exact hHeader.trans (List.prefix_append _ _)

/-- What is written behind the comment. -/
def codeText (file : File) : String :=
  let owners := Owners.ofFile file
  let lines := file.linesWith owners.spell (owners.imports file.package)
  String.join ((lines.drop file.comment.length).map (· ++ "\n"))

theorem render_eq (file : File) : file.render = file.commentText ++ file.codeText := by
  have hLines := List.prefix_iff_eq_append.mp (comment_opens_file (Owners.ofFile file).spell
    ((Owners.ofFile file).imports file.package) file)
  rw [List.length_map] at hLines
  rw [render, ← hLines, List.map_append, String.join_append, List.map_map]
  rfl

theorem physicalLines_render (file : File) : physicalLines file.render.toList =
    physicalLines file.commentText.toList ++ physicalLines file.codeText.toList := by
  have hAlone := physicalLines_comment file.comment []
  rw [List.append_nil, physicalLines, List.append_nil] at hAlone
  rw [render_eq, String.toList_append, commentText, physicalLines_comment, hAlone]

/-- An entry is stamped unless it is empty, and an empty one would go on with nothing. -/
theorem forall_comment_withHeader (file : File) (header : HeaderSettings) :
    (∀ entry ∈ (file.withHeader header).comment, ∀ line ∈ continuation entry, IsComment line) ↔
      ∀ entry ∈ [header.title, header.url], ∀ line ∈ continuation entry, IsComment line := by
  change (∀ entry ∈ [header.title, header.url].filter (fun line => !line.isEmpty), _) ↔ _
  constructor
  · intro h entry hMem
    by_cases hEmpty : entry = ""
    · subst hEmpty
      exact List.forall_mem_nil _
    · exact h entry (List.mem_filter.mpr ⟨hMem, by simpa using hEmpty⟩)
  · intro h entry hMem
    exact h entry (List.mem_filter.mp hMem).1

/-- The lines of a stamped file are those of its comment and then those of its code. All lines of
the comment are comment lines just if the title and the address go on with comment lines only. If
they have no line breaks then each of them makes one line. -/
theorem header_lines_commented_iff (file : File) (header : HeaderSettings) :
    (file.withHeader header).render =
      (file.withHeader header).commentText ++ (file.withHeader header).codeText ∧
    physicalLines (file.withHeader header).render.toList =
      physicalLines (file.withHeader header).commentText.toList ++
        physicalLines (file.withHeader header).codeText.toList ∧
    ((∀ line ∈ physicalLines (file.withHeader header).commentText.toList, IsComment line) ↔
      ∀ entry ∈ [header.title, header.url], ∀ line ∈ continuation entry, IsComment line) ∧
    ∀ entry ∈ [header.title, header.url], '\n' ∉ entry.toList → '\r' ∉ entry.toList →
      continuation entry = [] := by
  refine ⟨render_eq _, physicalLines_render _, ?_, fun entry _ => continuation_of_noBreak⟩
  rw [isComment_commentText_iff, forall_comment_withHeader]

end File

end Bindery.Source

namespace Bindery

open Source

namespace Sample

/-- A title that goes on with a declaration. -/
def injectedHeader : HeaderSettings where
  title := "Generated\npublic object Injected"
  url := ""
  optIn := false

def bareFile : File where
  package := "app"
  name := "C"
  types := [{ kind := .interfaceType, name := "C" }]

end Sample

open Sample

/-- The second line of the title is no comment. -/
theorem Source.File.header_line_is_code :
    (bareFile.withHeader injectedHeader).render =
      "// Generated\npublic object Injected\n\npackage app\n\npublic interface C\n" ∧
    physicalLines (bareFile.withHeader injectedHeader).commentText.toList =
      ["// Generated".toList, "public object Injected".toList] ∧
    ¬ IsComment "public object Injected".toList := by
  decide +kernel

end Bindery
