import Bindery.Declaration.Basic
import Bindery.Fault
import Bindery.OrderedMap

/-!
# The symbol table

All declarations of one compilation, by name. The table answers what generators ask: which
declarations carry an annotation, what a declaration inherits, and what an argument says.
-/

namespace Bindery

/-- What knows declarations by their names. -/
class SymbolSource (σ : Type) where
  find? : σ → ClassName → Option Declaration

/-- Declarations stored under their own names. -/
structure SymbolTable where
  byName : OrderedMap ClassName Declaration
  keyed : ∀ e ∈ byName.entries, e.2.name = e.1

namespace SymbolTable

def empty : SymbolTable := ⟨.empty, fun _ h => by cases h⟩

instance : Inhabited SymbolTable := ⟨empty⟩

def declarations (t : SymbolTable) : List Declaration := t.byName.values

def find? (t : SymbolTable) (name : ClassName) : Option Declaration := t.byName.get? name

instance : SymbolSource SymbolTable := ⟨find?⟩

theorem source_find? (t : SymbolTable) (name : ClassName) :
    SymbolSource.find? t name = t.find? name := rfl

def size (t : SymbolTable) : Nat := t.byName.size

/-- Stores a declaration; one of the same name gives way. -/
def put (t : SymbolTable) (d : Declaration) : SymbolTable where
  byName := t.byName.insert d.name d
  keyed e h := by
    rcases OrderedMap.mem_place h with rfl | h
    · rfl
    · exact t.keyed e h

/-- Stores a declaration under a name that is still free. -/
def insert (t : SymbolTable) (d : Declaration) : Except Fault SymbolTable :=
  if (t.find? d.name).isSome then
    .error (Cause.invalidSnapshot ("duplicate declaration " ++ d.name.canonical))
  else .ok (t.put d)

/-- Stores declarations one after the other under names that are free. -/
def insertAll (t : SymbolTable) : List Declaration → Except Fault SymbolTable
  | [] => .ok t
  | d :: rest => (t.insert d).bind fun t => t.insertAll rest

/-- The table of the declarations; of several with one name the last stays. -/
def ofList (l : List Declaration) : SymbolTable := l.foldl put empty

@[simp] theorem find?_put (t : SymbolTable) (d : Declaration) (name : ClassName) :
    (t.put d).find? name = if d.name = name then some d else t.find? name :=
  OrderedMap.get?_insert t.byName d.name name d

/-- The declarations that carry an annotation, in the order of their names. -/
def annotated (t : SymbolTable) (annotationClass : ClassName) : List Declaration :=
  t.declarations.filter fun d => d.hasAnnotation annotationClass

/-- The supertypes that a name declares itself; a name that is not in the table declares none. -/
def directSupertypes (t : SymbolTable) (name : ClassName) : List ClassName :=
  ((t.find? name).map (·.supertypes)).getD []

/-- The names of a list that were not seen before, each once. -/
def unseen (seen names : List ClassName) : List ClassName :=
  names.eraseDups.filter fun n => !seen.contains n

/-- Names reached from a level of names, level by level. The bound on the levels is met because
every level but the last meets a declared name for the first time. -/
def reach (t : SymbolTable) : Nat → List ClassName → List ClassName → List ClassName
  | 0, _, _ => []
  | bound + 1, seen, names =>
    match unseen seen names with
    | [] => []
    | found => found ++ t.reach bound (seen ++ found) (found.flatMap t.directSupertypes)

/-- Every supertype of a declaration, nearest first and each once. A cycle does no harm. -/
def allSupertypes (t : SymbolTable) (d : Declaration) : List ClassName :=
  t.reach (t.size + 1) [d.name] d.supertypes

def isSubtype (t : SymbolTable) (d : Declaration) (c : ClassName) : Bool :=
  d.name = c || (t.allSupertypes d).contains c

end SymbolTable

/-- Reads an argument of an annotation by its name, or else by its position. An argument given in
both ways is ambiguous. -/
def readArgument (owner : Declaration) (a : Annotation) (name : String)
    (index : Option Nat) : Except Fault (Option AnnotationValue) :=
  match a.named? name, index.bind a.positional? with
  | some _, some _ =>
    .error (Cause.invalidConfiguration owner.name.canonical
      ("argument '" ++ name ++ "' of " ++ a.annotationClass.canonical ++
        " is given both by name and at position " ++ toString (index.getD 0)))
  | some value, none => .ok (some value)
  | none, positional => .ok positional

end Bindery
