import Bindery.Declaration.Format
import Bindery.Symbols.Table

/-!
# Snapshots

A snapshot is a text that lists the declarations of a compilation: an array of declarations, or
an object that has them as its member `declarations`.
-/

namespace Bindery.Snapshot

open Json (Decoder Draft Record)

def wrapped : Record (List Declaration) := .required "declarations" (.list Declaration.decoder)

def recognise? : Draft → Option (List Declaration)
  | .array items => (Decoder.list Declaration.decoder 0 (.array items)).toOption
  | .object members => (wrapped.ofMembers 0 members).toOption
  | _ => none

def decoder : Decoder (List Declaration) := .whole "SnapshotRepr" recognise?

def parse (context text : String) : Except Fault (List Declaration) :=
  (Json.decodeText decoder text).mapError fun p => { cause := .json p, context }

def load (text : String) : Except Fault SymbolTable :=
  (parse "Parsing symbol snapshot" text).bind SymbolTable.empty.insertAll

def write (declarations : List Declaration) : String :=
  (Json.ofList Declaration.toJson declarations).compact

end Bindery.Snapshot
