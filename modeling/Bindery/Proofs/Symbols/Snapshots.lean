import Bindery.Proofs.Declaration.Format
import Bindery.Proofs.Symbols.Table
import Bindery.Symbols.Snapshot

/-! # Snapshots are read as they were written

A list of declarations is written as an array, and the array may be the one member of an object. The
table read from either text holds the declarations of the list.
-/

namespace Bindery.Snapshot

open Json (Decoder Record)

def listed (l : List Declaration) : Json := .ofList Declaration.toJson l

/-- The list as the member that a snapshot has for it. -/
def wrap (l : List Declaration) : Json := .object [("declarations", listed l)]

variable {l : List Declaration}

theorem isExact_listed (h : ∀ d ∈ l, d.IsWritable) : (listed l).IsExact :=
  Json.isExact_ofList fun d hMem => (h d hMem).isExact

theorem knows_listed (h : ∀ d ∈ l, d.IsWritable) :
    (Decoder.list Declaration.decoder).Knows (listed l) l :=
  Decoder.knows_list fun d hMem => (h d hMem).knows

theorem decodeText_listed (h : ∀ d ∈ l, d.IsWritable)
    (hDepth : (listed l).brackets ≤ Json.maxDepth) :
    Json.decodeText decoder (listed l).compact = .ok l := by
  have hRead := knows_listed h 0 (by omega)
  have hForm : recognise? (listed l).draft = some l := by
    rw [listed, Json.ofList, Json.draft] at hRead ⊢
    rw [recognise?, hRead]
    rfl
  exact Json.decodeText_eq_ok (isExact_listed h).spelled_compact
    (Decoder.knows_whole (isExact_listed h) hForm) hDepth

theorem decodeText_wrap (h : ∀ d ∈ l, d.IsWritable) (hDepth : (wrap l).brackets ≤ Json.maxDepth) :
    Json.decodeText decoder (wrap l).compact = .ok l := by
  have hExact : (wrap l).IsExact := .object (by simpa using isExact_listed h)
  have hMembers : wrapped.decoder.Knows (wrap l) l :=
    (Record.knows_field rfl (knows_listed h)).ofMembers (.refl _) (by decide)
  have hRead := hMembers 0 (by omega)
  have hForm : recognise? (wrap l).draft = some l := by
    rw [wrap, Json.draft, Record.decoder] at hRead
    rw [wrap, Json.draft, recognise?, hRead]
    rfl
  exact Json.decodeText_eq_ok hExact.spelled_compact (Decoder.knows_whole hExact hForm) hDepth

theorem load_eq_insertAll {text : String} (h : Json.decodeText decoder text = .ok l) :
    load text = SymbolTable.empty.insertAll l := by
  rw [load, parse, h]
  rfl

theorem load_eq_ofList {text : String} (hNames : (l.map (·.name)).Nodup)
    (h : Json.decodeText decoder text = .ok l) : load text = .ok (.ofList l) := by
  rw [load_eq_insertAll h, SymbolTable.insertAll_eq_foldl hNames fun _ _ => rfl]
  rfl

/-- Both texts of a list give the table that holds its declarations. The object has one bracket more
around the list. -/
theorem load_write (hNames : (l.map (·.name)).Nodup) (h : ∀ d ∈ l, d.IsWritable) :
    ((listed l).brackets ≤ Json.maxDepth → load (write l) = .ok (.ofList l)) ∧
      ((wrap l).brackets ≤ Json.maxDepth → load (wrap l).compact = .ok (.ofList l)) ∧
      (SymbolTable.ofList l).declarations.Perm l := by
  refine ⟨?_, ?_, SymbolTable.declarations_ofList_perm hNames⟩
  · intro hDepth
    exact load_eq_ofList hNames (decodeText_listed h hDepth)
  · intro hDepth
    exact load_eq_ofList hNames (decodeText_wrap h hDepth)

/-- A nested class with every form of literal, and one without anything. -/
def literals : List Declaration :=
  [{ name := ⟨"a.b", ["Outer", "Inner"], by decide, by decide⟩, kind := .interfaceKind
     supertypes := [⟨"", ["Base"], by decide, by decide⟩]
     annotations := [⟨⟨"", ["lower"], by decide, by decide⟩,
       [.named "é\"\n\x00"
         (.array [.int (-9223372036854775808), .array [.bool true, .str "\\𝄞"]]),
        .positional (.classRef ⟨"a.b", ["Outer"], by decide, by decide⟩)]⟩]
     constructors := [{ parameters := [⟨"class", ⟨"", ["Base"], by decide, by decide⟩, []⟩] }]
     sourceFile := some "src/Inner.kt" },
   { name := ⟨"a.b", ["Outer"], by decide, by decide⟩ }]

theorem isWritable_literals : ∀ d ∈ literals, d.IsWritable := by
  have hInner : ClassName.Read ⟨"a.b", ["Outer", "Inner"], by decide, by decide⟩ :=
    ⟨"a.b.Outer.Inner", by decide +kernel⟩
  have hOuter : ClassName.Read ⟨"a.b", ["Outer"], by decide, by decide⟩ :=
    ⟨"a.b.Outer", by decide +kernel⟩
  have hBase : ClassName.Read ⟨"", ["Base"], by decide, by decide⟩ := ⟨"Base", by decide +kernel⟩
  have hLower : ClassName.Read ⟨"", ["lower"], by decide, by decide⟩ := ⟨"lower", by decide +kernel⟩
  have hItems : ∀ item ∈ [AnnotationValue.int (-9223372036854775808),
      .array [.bool true, .str "\\𝄞"]], item.IsWritable := by
    have hInt : (AnnotationValue.int (-9223372036854775808)).IsWritable := .int (by decide)
    simpa using ⟨hInt, .array (by simpa using ⟨.bool true, .str _⟩)⟩
  rw [literals, List.forall_mem_cons, List.forall_mem_singleton]
  refine ⟨⟨hInner, by simpa using hBase, ?_, ?_⟩, ⟨hOuter, by simp, by simp, by simp⟩⟩
  · simpa using ⟨hLower, by simpa using ⟨.array hItems, .classRef hOuter⟩⟩
  · simpa using ⟨by simp, by simpa using ⟨hBase, by simp⟩⟩

theorem load_write_literals :
    load (write literals) = .ok (.ofList literals) ∧
      load (wrap literals).compact = .ok (.ofList literals) := by
  have hBoth := load_write (l := literals) (by decide) isWritable_literals
  exact ⟨hBoth.1 (by decide), hBoth.2.1 (by decide)⟩

end Bindery.Snapshot
