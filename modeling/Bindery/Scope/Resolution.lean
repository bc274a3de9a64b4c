import Bindery.Symbols.Table

/-!
# Resolving the scope of a declaration

An annotation bears a scope if it gives an argument `scope` by name, or if it is a marker, or a
known annotation class whose first parameter is the scope, and gives it by position. All
annotations of a declaration that bear a scope have to agree.
-/

namespace Bindery.Resolution

/-- The name of the argument that makes an annotation bear a scope. -/
def scopeArgument : String := "scope"

variable {σ : Type} [SymbolSource σ]

/-- Whether the class of an annotation takes the scope as its first parameter. -/
def takesScopeFirst (t : σ) (a : Annotation) : Bool :=
  match SymbolSource.find? t a.annotationClass with
  | none => false
  | some d =>
    match d.constructors with
    | ⟨_, parameter :: _⟩ :: _ => parameter.name = scopeArgument
    | _ => false

def scopeValue (t : σ) (d : Declaration) (markers : List ClassName)
    (a : Annotation) : Except Fault (Option AnnotationValue) :=
  let byPosition := markers.contains a.annotationClass || takesScopeFirst t a
  readArgument d a scopeArgument (if byPosition then some 0 else none)

/-- The annotation class that named a scope first, with that scope. -/
abbrev Finding := Option (ClassName × ClassName)

def agree (t : σ) (d : Declaration) (markers : List ClassName) (found : Finding)
    (a : Annotation) : Except Fault Finding :=
  (scopeValue t d markers a).bind fun
    | none => .ok found
    | some (.classRef scope) =>
      match found with
      | none => .ok (some (a.annotationClass, scope))
      | some (first, firstScope) =>
        if firstScope = scope then .ok found
        else .error (Cause.inconsistentScope d.name.canonical
          ("@" ++ first.simpleName ++ " names " ++ firstScope.canonical ++ " but @" ++
            a.annotationClass.simpleName ++ " names " ++ scope.canonical))
    | some _ => .error (Cause.missingScope d.name.canonical
        ("scope of @" ++ a.annotationClass.simpleName ++ " is not a class reference"))

def agreeAll (t : σ) (d : Declaration) (markers : List ClassName) (found : Finding) :
    List Annotation → Except Fault Finding
  | [] => .ok found
  | a :: rest =>
    (agree t d markers found a).bind fun found => agreeAll t d markers found rest

def scopeOf (t : σ) (d : Declaration) (markers : List ClassName) :
    Except Fault ClassName :=
  if markers.any d.hasAnnotation then
    (agreeAll t d markers none d.annotations).bind fun
      | some (_, scope) => .ok scope
      | none => .error (Cause.missingScope d.name.canonical
          "no scope argument on the marker annotation")
  else
    .error (Cause.missingScope d.name.canonical
      ("none of @" ++ ", @".intercalate (markers.map ClassName.simpleName) ++ " is present"))

end Bindery.Resolution
