import Bindery.Declaration.Basic
import Bindery.Json.Decode

/-!
# Declarations in JSON

The format of snapshots. Writing gives every field but an absent name and an absent source file;
reading fills in what is left out.
-/

namespace Bindery

open Json (Decoder Draft Record)

namespace ClassName

def decoder : Decoder ClassName := .refine .string parse

def toJson (c : ClassName) : Json := .string c.canonical

end ClassName

namespace DeclarationKind

def name : DeclarationKind → String
  | classKind => "class"
  | interfaceKind => "interface"
  | objectKind => "object"
  | annotationKind => "annotation"

def all : List DeclarationKind := [classKind, interfaceKind, objectKind, annotationKind]

def decoder : Decoder DeclarationKind := .variant (all.map fun k => (k.name, k))

end DeclarationKind

namespace AnnotationValue

def classMembers : Record ClassName := .required "class" ClassName.decoder

mutual

/-- Recognises a value by its form. An integer has neither point nor exponent and fits 64 bits
with sign. -/
def recognise? : Draft → Option AnnotationValue
  | .bool b => some (bool b)
  | .number spelling =>
    match Draft.integer? spelling with
    | some n => if fitsSigned 63 n then some (int n) else none
    | none => none
  | .text s => s.map str
  | .object members => (classMembers.ofMembers 0 members).toOption.map classRef
  | .array items => (recogniseAll? items).map array
  | _ => none

def recogniseAll? : List Draft → Option (List AnnotationValue)
  | [] => some []
  | item :: rest =>
    match recognise? item, recogniseAll? rest with
    | some v, some vs => some (v :: vs)
    | _, _ => none

end

def decoder : Decoder AnnotationValue := .whole "AnnotationValue" recognise?

mutual

/-- The plain literal; a class reference is an object with one member. -/
def toJson : AnnotationValue → Json
  | bool b => .bool b
  | int n => .integer n
  | str s => .string s
  | classRef c => .object [("class", c.toJson)]
  | array items => .array (toJsonAll items)

def toJsonAll : List AnnotationValue → List Json
  | [] => []
  | item :: rest => toJson item :: toJsonAll rest

end

end AnnotationValue

namespace AnnotationArgument

def fields : Record AnnotationArgument :=
  ((Record.defaulted "name" (.option .string) none).zip
    (.required "value" AnnotationValue.decoder)).map fun (name, value) => ⟨name, value⟩

def toJson (a : AnnotationArgument) : Json :=
  .object (Json.optional "name" .string a.name ++ [("value", a.value.toJson)])

end AnnotationArgument

namespace Annotation

def fields : Record Annotation :=
  ((Record.required "class" ClassName.decoder).zip
    (.defaulted "arguments" (.list AnnotationArgument.fields.decoder) [])).map
      fun (c, arguments) => ⟨c, arguments⟩

def toJson (a : Annotation) : Json :=
  .object [("class", a.annotationClass.toJson), ("arguments", .ofList (·.toJson) a.arguments)]

end Annotation

namespace Parameter

def fields : Record Parameter :=
  ((Record.required "name" .string).zip ((Record.required "type" ClassName.decoder).zip
    (.defaulted "annotations" (.list Annotation.fields.decoder) []))).map
      fun (name, type, annotations) => ⟨name, type, annotations⟩

def toJson (p : Parameter) : Json :=
  .object [("name", .string p.name), ("type", p.type.toJson),
    ("annotations", .ofList (·.toJson) p.annotations)]

end Parameter

namespace Constructor

def fields : Record Constructor :=
  ((Record.defaulted "annotations" (.list Annotation.fields.decoder) []).zip
    (.defaulted "parameters" (.list Parameter.fields.decoder) [])).map
      fun (annotations, parameters) => ⟨annotations, parameters⟩

def toJson (c : Constructor) : Json :=
  .object [("annotations", .ofList (·.toJson) c.annotations),
    ("parameters", .ofList (·.toJson) c.parameters)]

end Constructor

namespace Declaration

def fields : Record Declaration :=
  ((Record.required "name" ClassName.decoder).zip
    ((Record.defaulted "kind" DeclarationKind.decoder .classKind).zip
    ((Record.defaulted "supertypes" (.list ClassName.decoder) []).zip
    ((Record.defaulted "annotations" (.list Annotation.fields.decoder) []).zip
    ((Record.defaulted "constructors" (.list Constructor.fields.decoder) []).zip
    (.defaulted "source_file" (.option .string) none)))))).map
      fun (name, kind, supertypes, annotations, constructors, sourceFile) =>
        ⟨name, kind, supertypes, annotations, constructors, sourceFile⟩

def decoder : Decoder Declaration := fields.decoder

def toJson (d : Declaration) : Json :=
  .object ([("name", d.name.toJson), ("kind", .string d.kind.name),
    ("supertypes", .ofList (·.toJson) d.supertypes),
    ("annotations", .ofList (·.toJson) d.annotations),
    ("constructors", .ofList (·.toJson) d.constructors)] ++
    Json.optional "source_file" .string d.sourceFile)

end Declaration

end Bindery
