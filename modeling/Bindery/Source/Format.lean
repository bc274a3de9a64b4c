import Bindery.Declaration.Format
import Bindery.Source.Tree

/-!
# Source trees in JSON

The stable form of a tree for tools that look at it. Empty lists and missing parts are left out,
except where a reader always expects them.
-/

namespace Bindery.Source

/-- An object whose kind is its first member. -/
def tagged (kind : String) (members : List (String × Json)) : Json :=
  .object (("kind", .string kind) :: members)

def MemberValue.toJson : MemberValue → Json
  | classLiteral c => tagged "class_literal" [("value", c.toJson)]
  | classArray l => tagged "class_array" [("value", .ofList ClassName.toJson l)]
  | str s => tagged "str" [("value", .string s)]

def Member.toJson (m : Member) : Json :=
  .object (Json.optional "name" .string m.name ++ [("value", m.value.toJson)])

def AnnotationUse.toJson (a : AnnotationUse) : Json :=
  .object (("class", a.annotationClass.toJson) :: Json.nonempty "members" Member.toJson a.members)

namespace TypeRef

mutual

def toJson : TypeRef → Json
  | named c => tagged "class" [("name", c.toJson)]
  | applied raw arguments =>
    tagged "parameterized" [("raw", raw.toJson), ("arguments", .array (toJsonAll arguments))]
  | producer bound => tagged "producer" [("bound", toJson bound)]
  | star => tagged "star" []
  | annotated annotations inner =>
    tagged "annotated"
      [("annotations", .ofList AnnotationUse.toJson annotations), ("inner", toJson inner)]

def toJsonAll : List TypeRef → List Json
  | [] => []
  | t :: rest => toJson t :: toJsonAll rest

end

end TypeRef

def Modifier.name : Modifier → String
  | privateAccess => "private"
  | abstractMember => "abstract"
  | overriding => "override"

def Modifier.ofName? (text : String) : Option Modifier :=
  [privateAccess, abstractMember, overriding].find? fun m => m.name = text

def TypeKind.name : TypeKind → String
  | classType => "class"
  | interfaceType => "interface"
  | objectType => "object"
  | companion => "companion_object"

def TypeKind.ofName? (text : String) : Option TypeKind :=
  [classType, interfaceType, objectType, companion].find? fun k => k.name = text

def PropertyKind.name : PropertyKind → String
  | plain => "none"
  | val => "val"
  | overrideVal => "override_val"

def PropertyKind.ofName? (text : String) : Option PropertyKind :=
  [plain, val, overrideVal].find? fun k => k.name = text

def annotationsMember (l : List AnnotationUse) : List (String × Json) :=
  Json.nonempty "annotations" AnnotationUse.toJson l

def modifiersMember (l : List Modifier) : List (String × Json) :=
  Json.nonempty "modifiers" (fun m => .string m.name) l

def Parameter.toJson (p : Parameter) : Json :=
  .object ([("name", .string p.name), ("type", p.type.toJson)] ++ annotationsMember p.annotations ++
    [("property", .string p.property.name)])

def Constructor.toJson (c : Constructor) : Json :=
  .object (annotationsMember c.annotations ++ modifiersMember c.modifiers ++
    [("parameters", .ofList Parameter.toJson c.parameters)])

def Body.toJson : Body → Json
  | returnNew c arguments =>
    tagged "return_new" [("class", c.toJson), ("arguments", .ofList .string arguments)]
  | returnClass c => tagged "return_java_class" [("class", c.toJson)]

def Function.toJson (f : Function) : Json :=
  .object (("name", .string f.name) :: annotationsMember f.annotations ++
    modifiersMember f.modifiers ++ Json.nonempty "parameters" Parameter.toJson f.parameters ++
    Json.optional "returns" TypeRef.toJson f.returns ++ Json.optional "body" Body.toJson f.body)

namespace TypeDecl

mutual

def toJson : TypeDecl → Json
  | ⟨kind, name, modifiers, annotations, supertypes, primaryConstructor, functions, types⟩ =>
    tagged kind.name (("name", .string name) :: modifiersMember modifiers ++
      annotationsMember annotations ++ Json.nonempty "supertypes" TypeRef.toJson supertypes ++
      Json.optional "primary_constructor" Constructor.toJson primaryConstructor ++
      Json.nonempty "functions" Function.toJson functions ++
      (if types.isEmpty then [] else [("types", .array (toJsonAll types))]))

def toJsonAll : List TypeDecl → List Json
  | [] => []
  | t :: rest => toJson t :: toJsonAll rest

end

end TypeDecl

def File.toJson (file : File) : Json :=
  .object ([("package", .string file.package), ("name", .string file.name)] ++
    Json.nonempty "comment" .string file.comment ++ annotationsMember file.annotations ++
    [("types", .array (TypeDecl.toJsonAll file.types))])

end Bindery.Source
