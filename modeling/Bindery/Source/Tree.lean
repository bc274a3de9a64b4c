import Bindery.Fault
import Bindery.Settings.Basic
import Bindery.WellKnown

/-!
# Source trees

The logical shape of generated Kotlin: files of types with annotations, supertypes, constructors
and functions. How a tree is spelled is the printer's business.
-/

namespace Bindery.Source

/-- The value of a member of an annotation. -/
inductive MemberValue where
  | classLiteral (c : ClassName)
  | classArray (l : List ClassName)
  | str (s : String)
  deriving DecidableEq

/-- A member of an annotation; without a name it stands at its position. -/
structure Member where
  name : Option String := none
  value : MemberValue
  deriving DecidableEq

/-- An annotation as it is written on something. -/
structure AnnotationUse where
  annotationClass : ClassName
  members : List Member := []
  deriving DecidableEq

namespace AnnotationUse

def withClass (a : AnnotationUse) (c : ClassName) : AnnotationUse :=
  { a with members := a.members ++ [{ value := .classLiteral c }] }

def withNamedClass (a : AnnotationUse) (name : String) (c : ClassName) : AnnotationUse :=
  { a with members := a.members ++ [⟨some name, .classLiteral c⟩] }

def withNamedClasses (a : AnnotationUse) (name : String) (l : List ClassName) : AnnotationUse :=
  { a with members := a.members ++ [⟨some name, .classArray l⟩] }

def withString (a : AnnotationUse) (s : String) : AnnotationUse :=
  { a with members := a.members ++ [{ value := .str s }] }

def contributesTo (scope : ClassName) : AnnotationUse :=
  withNamedClass ⟨WellKnown.contributesTo, []⟩ "scope" scope

end AnnotationUse

/-- A reference to a type. -/
inductive TypeRef where
  | named (c : ClassName)
  | applied (raw : ClassName) (arguments : List TypeRef)
  /-- A type argument of which values are only read. -/
  | producer (bound : TypeRef)
  | star
  | annotated (annotations : List AnnotationUse) (inner : TypeRef)

namespace TypeRef

instance : Inhabited TypeRef := ⟨star⟩

/-- Keeps wildcards out of the type on the other side of the compiler. -/
def suppressWildcards (t : TypeRef) : TypeRef := annotated [⟨WellKnown.suppressWildcards, []⟩] t

def mapOf (key value : TypeRef) : TypeRef := applied WellKnown.mapClass [key, value]

def setOf (item : TypeRef) : TypeRef := applied WellKnown.setClass [item]

def classOut (bound : ClassName) : TypeRef :=
  applied WellKnown.javaClass [producer (named bound)]

mutual

/-- The classes that a reference names, outermost first. Members of annotations on the way are
not looked at. -/
def classes : TypeRef → List ClassName
  | named c => [c]
  | applied raw arguments => raw :: classesOfAll arguments
  | producer bound => classes bound
  | star => []
  | annotated annotations inner => annotations.map (·.annotationClass) ++ classes inner

def classesOfAll : List TypeRef → List ClassName
  | [] => []
  | t :: rest => classes t ++ classesOfAll rest

end

end TypeRef

/-- Words in front of a declaration. -/
inductive Modifier where
  | privateAccess
  | abstractMember
  | overriding
  deriving DecidableEq, Repr

/-- What sort of type is declared. -/
inductive TypeKind where
  | classType
  | interfaceType
  | objectType
  | companion
  deriving DecidableEq, Repr

/-- Whether a constructor parameter is also a property. -/
inductive PropertyKind where
  | plain
  | val
  | overrideVal
  deriving DecidableEq, Repr

/-- A parameter of a function or a constructor. -/
structure Parameter where
  name : String
  type : TypeRef
  annotations : List AnnotationUse := []
  property : PropertyKind := .plain

/-- The primary constructor of a class. -/
structure Constructor where
  annotations : List AnnotationUse := []
  modifiers : List Modifier := []
  parameters : List Parameter := []

/-- What a function returns; generated functions do nothing else. -/
inductive Body where
  /-- A new instance, with the arguments as they are spelled. -/
  | returnNew (c : ClassName) (arguments : List String)
  /-- The class object of a class. -/
  | returnClass (c : ClassName)

def Body.className : Body → ClassName
  | returnNew c _ => c
  | returnClass c => c

/-- A function; without a body it is only declared. -/
structure Function where
  name : String
  annotations : List AnnotationUse := []
  modifiers : List Modifier := []
  parameters : List Parameter := []
  returns : Option TypeRef := none
  body : Option Body := none

/-- A type and everything declared inside it. A companion has no name. -/
structure TypeDecl where
  kind : TypeKind
  name : String := ""
  modifiers : List Modifier := []
  annotations : List AnnotationUse := []
  supertypes : List TypeRef := []
  primaryConstructor : Option Constructor := none
  functions : List Function := []
  types : List TypeDecl := []

instance : Inhabited TypeDecl := ⟨{ kind := .companion }⟩

/-- A file: its header and its top-level types. -/
structure File where
  package : String
  name : String
  comment : List String := []
  annotations : List AnnotationUse := []
  types : List TypeDecl := []

namespace File

/-- Puts the configured lines into the comment, and opts in to the runtime's own declarations if
the settings say so. -/
def withHeader (file : File) (header : HeaderSettings) : File :=
  { file with
    comment := [header.title, header.url].filter fun line => !line.isEmpty
    annotations :=
      if header.optIn then
        file.annotations ++ [(AnnotationUse.mk WellKnown.optIn []).withClass WellKnown.internalApi
          |>.withClass WellKnown.experimentalApi]
      else file.annotations }

def withTypes (file : File) (types : List TypeDecl) : File :=
  { file with types := file.types ++ types }

/-- The names of the top-level types, with the package of the file. -/
def topLevelNames (file : File) : Except DomainFault (List ClassName) :=
  file.types.mapM fun t => ClassName.ofParts file.package [t.name]

end File

end Bindery.Source
