import Bindery.OrderedMap
import Bindery.Source.Tree

/-!
# Imports

A file may write a class by its simple names if one package owns the simple name of its outermost
class in that file. The first class that claims a simple name gets it, and types declared in the
file come before all others; later classes stay qualified.
-/

namespace Bindery.Source

/-! ## Classes that a tree mentions -/

def MemberValue.classes : MemberValue → List ClassName
  | classLiteral c => [c]
  | classArray l => l
  | str _ => []

def AnnotationUse.classes (a : AnnotationUse) : List ClassName :=
  a.annotationClass :: a.members.flatMap fun m => m.value.classes

def Parameter.classes (p : Parameter) : List ClassName :=
  p.annotations.flatMap AnnotationUse.classes ++ p.type.classes

def Constructor.classes (c : Constructor) : List ClassName :=
  c.annotations.flatMap AnnotationUse.classes ++ c.parameters.flatMap Parameter.classes

def Function.classes (f : Function) : List ClassName :=
  f.annotations.flatMap AnnotationUse.classes ++ f.parameters.flatMap Parameter.classes ++
    (f.returns.map TypeRef.classes).getD [] ++ (f.body.map Body.className).toList

namespace TypeDecl

mutual

def classes : TypeDecl → List ClassName
  | ⟨_, _, _, annotations, supertypes, primaryConstructor, functions, types⟩ =>
    annotations.flatMap AnnotationUse.classes ++ supertypes.flatMap TypeRef.classes ++
      (primaryConstructor.map Constructor.classes).getD [] ++
      functions.flatMap Function.classes ++ classesOfAll types

def classesOfAll : List TypeDecl → List ClassName
  | [] => []
  | t :: rest => classes t ++ classesOfAll rest

end

end TypeDecl

/-- The classes that a file mentions, in the order in which they claim simple names. -/
def File.classes (file : File) : List ClassName :=
  file.annotations.flatMap AnnotationUse.classes ++ TypeDecl.classesOfAll file.types

/-! ## Ownership of simple names -/

/-- The package that owns each outermost simple name in one file. -/
abbrev Owners := OrderedMap String String

namespace Owners

/-- The types declared in a file belong to its package. -/
def declared (file : File) : Owners :=
  file.types.foldl (fun owners t => owners.insert t.name file.package) .empty

/-- A class claims its outermost simple name unless it is taken. -/
def claim (owners : Owners) (c : ClassName) : Owners :=
  if owners.contains c.outermost then owners else owners.insert c.outermost c.package

def ofFile (file : File) : Owners := file.classes.foldl claim (declared file)

def spell (owners : Owners) (c : ClassName) : String :=
  if owners.get? c.outermost = some c.package then c.joined "." else c.canonical

def defaultPackages : List String := ["kotlin", "kotlin.collections", "kotlin.jvm", "java.lang"]

/-- Whether names of a package have to be imported into a file of another. -/
def needsImport (filePackage package : String) : Bool :=
  package ≠ filePackage && !package.isEmpty && !defaultPackages.contains package

def imports (owners : Owners) (filePackage : String) : List String :=
  let needed := owners.entries.filter fun entry => needsImport filePackage entry.2
  (needed.map fun entry => entry.2 ++ "." ++ entry.1).mergeSort fun a b => compare a b != .gt

end Owners

end Bindery.Source
