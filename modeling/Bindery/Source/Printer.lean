import Bindery.Source.Imports

/-!
# Printing Kotlin

The conventions of generated Kotlin: visibility is always written, two blanks indent a level,
annotations stand on lines of their own in front of declarations and inline in front of
parameters. Everything is printed relative to a spelling of class names.
-/

namespace Bindery.Source

abbrev Spelling := ClassName → String

def commas (items : List String) : String := ", ".intercalate items

/-- Puts a backslash in front of a character wherever it stands. -/
def escapeEach (mark : Char) (cs : List Char) : List Char :=
  cs.flatMap fun c => if c = mark then ['\\', c] else [c]

/-- A text between the quotes of a literal. The backslashes come first: those that the others get
stay as they are. -/
def escapeChars (cs : List Char) : List Char :=
  escapeEach '$' (escapeEach '"' (escapeEach '\\' cs))

def literal (s : String) : String := "\"" ++ String.ofList (escapeChars s.toList) ++ "\""

def indent (depth : Nat) (line : String) : String := "".pushn ' ' (2 * depth) ++ line

def classLiteral (spell : Spelling) (c : ClassName) : String := spell c ++ "::class"

def MemberValue.print (spell : Spelling) : MemberValue → String
  | classLiteral c => Source.classLiteral spell c
  | classArray l => "[" ++ commas (l.map (Source.classLiteral spell)) ++ "]"
  | str s => literal s

def Member.print (spell : Spelling) (m : Member) : String :=
  (match m.name with
    | some name => name ++ " = "
    | none => "") ++ m.value.print spell

/-- An annotation behind a target such as `file:`. -/
def AnnotationUse.printAt (target : String) (spell : Spelling) (a : AnnotationUse) : String :=
  "@" ++ target ++ spell a.annotationClass ++
    match a.members with
    | [] => ""
    | members => "(" ++ commas (members.map (Member.print spell)) ++ ")"

def AnnotationUse.print (spell : Spelling) (a : AnnotationUse) : String := a.printAt "" spell

def printInline (spell : Spelling) (l : List AnnotationUse) : String :=
  String.join (l.map fun a => a.print spell ++ " ")

namespace TypeRef

mutual

def print (spell : Spelling) : TypeRef → String
  | named c => spell c
  | applied raw arguments => spell raw ++ "<" ++ commas (printAll spell arguments) ++ ">"
  | producer bound => "out " ++ print spell bound
  | star => "*"
  | annotated annotations inner => printInline spell annotations ++ print spell inner

def printAll (spell : Spelling) : List TypeRef → List String
  | [] => []
  | t :: rest => print spell t :: printAll spell rest

end

end TypeRef

def PropertyKind.words : PropertyKind → String
  | plain => ""
  | val => "val "
  | overrideVal => "override val "

def Parameter.print (spell : Spelling) (p : Parameter) : String :=
  printInline spell p.annotations ++ p.property.words ++ p.name ++ ": " ++ p.type.print spell

def printParameters (spell : Spelling) (l : List Parameter) : String :=
  "(" ++ commas (l.map (Parameter.print spell)) ++ ")"

/-- A primary constructor behind the name of its class. The keyword stands only where annotations
or modifiers need it. -/
def Constructor.print (spell : Spelling) (c : Constructor) : String :=
  let keyword :=
    if c.annotations.isEmpty && c.modifiers.isEmpty then ""
    else
      String.join (c.annotations.map fun a => " " ++ a.print spell) ++
        (if c.modifiers.contains .privateAccess then " private" else "") ++ " constructor"
  keyword ++ printParameters spell c.parameters

def Body.print (spell : Spelling) : Body → String
  | returnNew c arguments => "return " ++ spell c ++ "(" ++ commas arguments ++ ")"
  | returnClass c => "return " ++ classLiteral spell c ++ ".java"

/-- The words in front of a function. Members of interfaces are abstract without saying so. -/
def Function.modifierWords (owner : TypeKind) (modifiers : List Modifier) : String :=
  (if modifiers.contains .overriding then "override "
    else if modifiers.contains .privateAccess then "private "
    else "public ") ++
    if modifiers.contains .abstractMember && owner ≠ .interfaceType then "abstract " else ""

def Function.lines (spell : Spelling) (depth : Nat) (owner : TypeKind) (f : Function) :
    List String :=
  let head := modifierWords owner f.modifiers ++ "fun " ++ f.name ++
    printParameters spell f.parameters ++
    match f.returns with
    | some t => ": " ++ t.print spell
    | none => ""
  f.annotations.map (fun a => indent depth (a.print spell)) ++
    match f.body with
    | none => [indent depth head]
    | some body =>
      [indent depth (head ++ " \x7b"), indent (depth + 1) (body.print spell), indent depth "\x7d"]

def separated : List (List String) → List String
  | [] => []
  | [lines] => lines
  | lines :: rest => lines ++ "" :: separated rest

namespace TypeDecl

def title : TypeKind → String → String
  | .classType, name => "class " ++ name
  | .interfaceType, name => "interface " ++ name
  | .objectType, name => "object " ++ name
  | .companion, _ => "companion object"

def head (spell : Spelling) (kind : TypeKind) (name : String) (modifiers : List Modifier)
    (supertypes : List TypeRef) (primaryConstructor : Option Constructor) : String :=
  (if modifiers.contains .privateAccess then "private " else "public ") ++
    (if modifiers.contains .abstractMember then "abstract " else "") ++ title kind name ++
    (match primaryConstructor with
      | some c => c.print spell
      | none => "") ++
    match supertypes with
    | [] => ""
    | l => " : " ++ commas (l.map (TypeRef.print spell))

mutual

/-- The lines of a type: its functions, then the types inside it. -/
def lines (spell : Spelling) (depth : Nat) : TypeDecl → List String
  | ⟨kind, name, modifiers, annotations, supertypes, primaryConstructor, functions, types⟩ =>
    let head := head spell kind name modifiers supertypes primaryConstructor
    let members := functions.map (Function.lines spell (depth + 1) kind) ++
      linesOfAll spell (depth + 1) types
    annotations.map (fun a => indent depth (a.print spell)) ++
      if members.isEmpty then [indent depth head]
      else indent depth (head ++ " \x7b") :: separated members ++ [indent depth "\x7d"]

def linesOfAll (spell : Spelling) (depth : Nat) : List TypeDecl → List (List String)
  | [] => []
  | t :: rest => lines spell depth t :: linesOfAll spell depth rest

end

end TypeDecl

namespace File

def paragraph : List String → List String
  | [] => []
  | lines => lines ++ [""]

def headerLines (spell : Spelling) (file : File) : List String :=
  paragraph (file.comment.map ("// " ++ ·) ++ file.annotations.map (·.printAt "file:" spell))

/-- The lines of a file under a spelling of class names and with a list of imports. -/
def linesWith (spell : Spelling) (imports : List String) (file : File) : List String :=
  file.headerLines spell ++
    (if file.package.isEmpty then [] else ["package " ++ file.package, ""]) ++
    paragraph (imports.map ("import " ++ ·)) ++
    separated (TypeDecl.linesOfAll spell 0 file.types)

def render (file : File) : String :=
  let owners := Owners.ofFile file
  let lines := file.linesWith owners.spell (owners.imports file.package)
  String.join (lines.map (· ++ "\n"))

end File

end Bindery.Source
