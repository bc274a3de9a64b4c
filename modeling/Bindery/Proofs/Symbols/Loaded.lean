import Bindery.Proofs.Json.Yields
import Bindery.Proofs.Naming.Dotted
import Bindery.Proofs.Symbols.Table
import Bindery.Symbols.Load

/-! # Tables that were loaded

A loaded table has the declarations of its snapshots, and their names were read from text. So the
name of a loaded declaration is found again by its dotted text.
-/

namespace Bindery

open Json (Decoder Record)

theorem ClassName.yields_read : ClassName.decoder.Yields ClassName.Read :=
  Decoder.yields_refine fun text _ h => ⟨text, h⟩

theorem Declaration.yields_read : Declaration.decoder.Yields fun d => d.name.Read := by
  refine Record.Yields.decoder (Record.Yields.map ?_)
  exact (ClassName.yields_read.required "name").zip_left _

namespace Snapshot

/-- A table that comes from a text, or from the files that a path leads to. -/
inductive Loaded (t : SymbolTable) : Prop
  | text {text : String} : load text = .ok t → Loaded t
  | path {disk : Disk} {path : String} : loadPath disk path = .ok t → Loaded t

theorem yields_read : decoder.Yields fun l => ∀ d ∈ l, d.name.Read := by
  refine Decoder.yields_whole fun draft l h => ?_
  unfold recognise? at h
  split at h
  · exact Declaration.yields_read.list _ _ _ (toOption_eq_some_iff.mp h)
  · have hMember := Declaration.yields_read.list.required "declarations"
    exact hMember.ofMembers (toOption_eq_some_iff.mp h)
  · cases h

theorem read_of_parse {context text : String} {l : List Declaration}
    (h : parse context text = .ok l) : ∀ d ∈ l, d.name.Read :=
  yields_read.decodeText (mapError_eq_ok_iff.mp h)

theorem read_of_readFile {disk : Disk} {file : String} {l : List Declaration}
    (h : readFile disk file = .ok l) : ∀ d ∈ l, d.name.Read := by
  unfold readFile at h
  split at h
  · cases h
  · exact read_of_parse h

theorem read_of_loadFiles {disk : Disk} {t u : SymbolTable} {files : List String}
    (hRead : ∀ d ∈ t.declarations, d.name.Read) (h : loadFiles disk t files = .ok u) :
    ∀ d ∈ u.declarations, d.name.Read := by
  induction files generalizing t with
  | nil =>
    cases h
    exact hRead
  | cons file rest ih =>
    obtain ⟨l, hFile, h⟩ := bind_eq_ok_iff.mp h
    obtain ⟨next, hInsert, h⟩ := bind_eq_ok_iff.mp h
    exact ih (SymbolTable.forall_mem_of_insertAll hRead (read_of_readFile hFile) hInsert) h

theorem Loaded.read {t : SymbolTable} (h : Loaded t) : ∀ d ∈ t.declarations, d.name.Read := by
  have hEmpty : ∀ d ∈ SymbolTable.empty.declarations, d.name.Read := fun _ hMem => nomatch hMem
  cases h with
  | text h =>
    obtain ⟨l, hParse, hInsert⟩ := bind_eq_ok_iff.mp h
    exact SymbolTable.forall_mem_of_insertAll hEmpty (read_of_parse hParse) hInsert
  | path h =>
    obtain ⟨files, _, hFiles⟩ := bind_eq_ok_iff.mp h
    exact read_of_loadFiles hEmpty hFiles

end Snapshot

end Bindery
