import Bindery.Declaration.Format
import Bindery.Emission.Unit

/-!
# The journal of a run

What a run records besides the units themselves: which units it emitted, which declarations it
rejected, and which integrations it left out on purpose.
-/

namespace Bindery

/-- A problem with one declaration. -/
structure Diagnostic where
  generator : String
  kind : String
  declaration : Option String
  sourceFile : Option String
  message : String
  deriving DecidableEq, Repr

/-- Why an integration was left out, in whole or in part. -/
inductive SkipReason where
  /-- A declaration integrates the scope already. -/
  | duplicateScope (kept : ClassName)
  /-- An ancestor of the scope declares what is shared. -/
  | inheritedFromAncestor (ancestor : ClassName)
  deriving DecidableEq

/-- An integration left out on purpose. -/
structure Skip where
  generator : String
  scope : ClassName
  declaration : ClassName
  reason : SkipReason
  deriving DecidableEq

/-- A unit that a store took. -/
structure EmittedUnit where
  generator : String
  key : UnitKey
  provenance : List String
  deriving DecidableEq, Repr

/-- Everything that a run recorded, each list in the order of recording. -/
structure Journal where
  emitted : List EmittedUnit := []
  diagnostics : List Diagnostic := []
  skips : List Skip := []
  deriving DecidableEq

def Diagnostic.toJson (d : Diagnostic) : Json :=
  .object ([("generator", .string d.generator), ("kind", .string d.kind)] ++
    Json.optional "declaration" .string d.declaration ++
    Json.optional "source_file" .string d.sourceFile ++ [("message", .string d.message)])

def SkipReason.members : SkipReason → List (String × Json)
  | duplicateScope kept => [("reason", .string "duplicate_scope"), ("kept", kept.toJson)]
  | inheritedFromAncestor ancestor =>
    [("reason", .string "inherited_from_ancestor"), ("ancestor", ancestor.toJson)]

def Skip.toJson (s : Skip) : Json :=
  .object ([("generator", .string s.generator), ("scope", s.scope.toJson),
    ("declaration", s.declaration.toJson)] ++ s.reason.members)

def EmittedUnit.toJson (u : EmittedUnit) : Json :=
  .object [("generator", .string u.generator), ("key", u.key.toJson),
    ("provenance", .ofList .string u.provenance)]

def Journal.members (j : Journal) : List (String × Json) :=
  [("emitted", .ofList EmittedUnit.toJson j.emitted),
   ("diagnostics", .ofList Diagnostic.toJson j.diagnostics),
   ("skips", .ofList Skip.toJson j.skips)]

end Bindery
