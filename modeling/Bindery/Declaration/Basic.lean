import Bindery.ClassName

/-!
# Declarations

What a compiler tells about a class: its direct supertypes, its constructors, and its annotations
with their arguments in order. An argument is either named or stands at its position.
-/

namespace Bindery

/-- What sort of class a declaration declares. -/
inductive DeclarationKind where
  | classKind
  | interfaceKind
  | objectKind
  | annotationKind
  deriving DecidableEq, Repr

/-- The literal value of an annotation argument. -/
inductive AnnotationValue where
  | bool (value : Bool)
  | int (value : Int)
  | str (value : String)
  | classRef (name : ClassName)
  | array (items : List AnnotationValue)

namespace AnnotationValue

instance : Inhabited AnnotationValue := ⟨.bool false⟩

def asBool? : AnnotationValue → Option Bool
  | bool b => some b
  | _ => none

def asClass? : AnnotationValue → Option ClassName
  | classRef c => some c
  | _ => none

def asStr? : AnnotationValue → Option String
  | str s => some s
  | _ => none

/-- The classes of a list of references; a single reference counts as a list of one. -/
def asClasses? : AnnotationValue → Option (List ClassName)
  | classRef c => some [c]
  | array items => items.mapM asClass?
  | _ => none

mutual

def describe : AnnotationValue → String
  | bool b => "Bool(" ++ (if b then "true" else "false") ++ ")"
  | int n => "Int(" ++ toString n ++ ")"
  | str s => "Str(" ++ Text.quoted s ++ ")"
  | classRef c => "Class \x7b class: " ++ c.describe ++ " \x7d"
  | array items => "Array([" ++ ", ".intercalate (describeAll items) ++ "])"

def describeAll : List AnnotationValue → List String
  | [] => []
  | item :: rest => describe item :: describeAll rest

end

end AnnotationValue

/-- An argument of an annotation; without a name it stands at its position. -/
structure AnnotationArgument where
  name : Option String := none
  value : AnnotationValue

namespace AnnotationArgument

def named (name : String) (value : AnnotationValue) : AnnotationArgument := ⟨some name, value⟩

def positional (value : AnnotationValue) : AnnotationArgument := ⟨none, value⟩

end AnnotationArgument

/-- An annotation with its arguments in order. -/
structure Annotation where
  annotationClass : ClassName
  arguments : List AnnotationArgument := []

namespace Annotation

def named? (a : Annotation) (name : String) : Option AnnotationValue :=
  (a.arguments.find? fun x => x.name = some name).map (·.value)

/-- The value at a position, if it was given without a name. -/
def positional? (a : Annotation) (index : Nat) : Option AnnotationValue :=
  (a.arguments[index]?.filter fun x => x.name.isNone).map (·.value)

end Annotation

def annotatedWith (annotations : List Annotation) (c : ClassName) : Bool :=
  annotations.any fun a => a.annotationClass = c

/-- A parameter of a constructor. -/
structure Parameter where
  name : String
  type : ClassName
  annotations : List Annotation := []

/-- A constructor with its annotations. -/
structure Constructor where
  annotations : List Annotation := []
  parameters : List Parameter := []

/-- The parameters with the simple names of their types, such as `(context: Context)`. -/
def Constructor.signature (c : Constructor) : String :=
  "(" ++ ", ".intercalate (c.parameters.map fun p => p.name ++ ": " ++ p.type.simpleName) ++ ")"

/-- The characters of a signature: between parentheses the parameters, with a comma and a blank
between each two of them. -/
theorem Constructor.toList_signature (c : Constructor) : c.signature.toList =
    '(' :: [',', ' '].intercalate (c.parameters.map fun p =>
      p.name.toList ++ ':' :: ' ' :: p.type.simpleName.toList) ++ [')'] := by
  rw [signature, String.toList_append, String.toList_append, String.toList_intercalate,
    List.map_map]
  simp [Function.comp_def]

/-- A class as the compiler sees it. Only direct supertypes are listed. -/
structure Declaration where
  name : ClassName
  kind : DeclarationKind := .classKind
  supertypes : List ClassName := []
  annotations : List Annotation := []
  constructors : List Constructor := []
  sourceFile : Option String := none

namespace Declaration

def annotationOf? (d : Declaration) (c : ClassName) : Option Annotation :=
  d.annotations.find? fun a => a.annotationClass = c

def hasAnnotation (d : Declaration) (c : ClassName) : Bool := annotatedWith d.annotations c

end Declaration

end Bindery
