import Bindery.DomainFault
import Bindery.Text.Blank
import Bindery.Text.Letter
import Bindery.Text.Quoted

/-!
# Class names

A class name is a package and the simple names of a class, outermost first. In dotted text the
first segment that starts with an ASCII capital opens the simple names; a text without one names
a class by its last segment.
-/

namespace Bindery

/-- A letter or underscore, followed by letters, digits, underscores and dollar signs. -/
def isIdentifierChars : List Char → Bool
  | [] => false
  | first :: rest =>
    (Text.isAlphabetic first || first == '_') &&
      rest.all fun c => Text.isAlphanumeric c || c == '_' || c == '$'

def isIdentifier (s : String) : Bool := isIdentifierChars s.toList

/-- The texts between the dots; a text without dots is its own only segment. -/
def segments (s : String) : List String := (s.toList.splitOn '.').map String.ofList

/-- The default package, or identifiers joined by dots. -/
def isPackage (s : String) : Bool := s.isEmpty || (segments s).all isIdentifier

/-- At least one simple name, each an identifier. -/
def areSimpleNames (names : List String) : Bool := !names.isEmpty && names.all isIdentifier

/-- The name of a class: its package, and its simple names from the outermost class inwards. -/
structure ClassName where
  package : String
  simpleNames : List String
  isPackage_package : isPackage package = true := by decide
  areSimpleNames_simpleNames : areSimpleNames simpleNames = true := by decide
  deriving DecidableEq

namespace ClassName

/-- Names are ordered by package, then by their simple names. -/
instance : Ord ClassName := ⟨compareLex (compareOn package) (compareOn simpleNames)⟩

instance : Std.TransOrd ClassName :=
  inferInstanceAs (Std.TransCmp (compareLex (compareOn package) (compareOn simpleNames)))

instance : Std.LawfulEqOrd ClassName where
  compare_self := Std.ReflCmp.compare_self
  eq_of_compare {a b} h := by
    have h' : (compare a.package b.package).then (compare a.simpleNames b.simpleNames) = .eq := h
    obtain ⟨hp, hs⟩ := Ordering.then_eq_eq.1 h'
    have hp := Std.LawfulEqOrd.eq_of_compare hp
    have hs := Std.LawfulEqOrd.eq_of_compare hs
    cases a
    cases b
    simp_all

/-- Package and nested name with a dot between them; the default package leaves no dot. -/
def qualified (package nested : String) : String :=
  if package.isEmpty then nested else package ++ "." ++ nested

/-- Dotted source form, such as `com.example.Outer.Inner`. -/
def canonical (c : ClassName) : String := qualified c.package (".".intercalate c.simpleNames)

instance : ToString ClassName := ⟨canonical⟩

/-- Form used by class loaders, such as `com.example.Outer$Inner`. -/
def reflection (c : ClassName) : String := qualified c.package ("$".intercalate c.simpleNames)

def joined (c : ClassName) (separator : String) : String := separator.intercalate c.simpleNames

def simpleName (c : ClassName) : String := c.simpleNames.getLast?.getD ""

def outermost (c : ClassName) : String := c.simpleNames.head?.getD ""

def ofParts (package : String) (simpleNames : List String) : Except DomainFault ClassName :=
  let text := qualified package (".".intercalate simpleNames)
  if simpleNames.isEmpty then
    .error (.invalidClassName text "at least one simple name is required")
  else if hp : isPackage package then
    if hs : areSimpleNames simpleNames then .ok ⟨package, simpleNames, hp, hs⟩
    else .error (.invalidClassName text "simple names must be identifiers")
  else .error (.invalidClassName text "package segments must be identifiers")

/-- The outermost enclosing class, which is the class itself unless it is nested. -/
def topLevel (c : ClassName) : ClassName where
  package := c.package
  simpleNames := c.simpleNames.take 1
  isPackage_package := c.isPackage_package
  areSimpleNames_simpleNames := by
    obtain ⟨_, names, _, h⟩ := c
    cases names with
    | nil => exact h
    | cons first rest =>
      simp only [areSimpleNames, List.all_cons, Bool.and_eq_true] at h
      simp [areSimpleNames, h.2.1]

def nested (c : ClassName) (name : String) : Except DomainFault ClassName :=
  ofParts c.package (c.simpleNames ++ [name])

/-- A top-level class of the same package. -/
def peer (c : ClassName) (name : String) : Except DomainFault ClassName := ofParts c.package [name]

def startsCapital (segment : String) : Bool :=
  match segment.toList with
  | [] => false
  | first :: _ => first.isUpper

def divide (parts : List String) : List String × List String :=
  match parts.span fun p => !startsCapital p with
  | (lower, []) => (lower.dropLast, lower.getLast?.toList)
  | divided => divided

/-- Reads dotted text; white space around it does not count. -/
def parse (text : String) : Except DomainFault ClassName :=
  let trimmed := Text.trim text
  if trimmed.isEmpty then .error (.invalidClassName text "name is empty")
  else
    let parts := segments trimmed
    if parts.any String.isEmpty then .error (.invalidClassName trimmed "empty segment")
    else
      let (package, simpleNames) := divide parts
      ofParts (".".intercalate package) simpleNames

def describe (c : ClassName) : String :=
  "ClassName \x7b package: " ++ Text.quoted c.package ++ ", simple_names: [" ++
    ", ".intercalate (c.simpleNames.map Text.quoted) ++ "] \x7d"

end ClassName

end Bindery
