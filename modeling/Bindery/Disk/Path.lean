/-!
# Path texts

A path is a text. Repeated slashes, a slash at the end, and dots that stand for the directory at
hand make no difference between paths, except for a dot at the very beginning; paths are compared
by what is left. Operations on paths keep the spelling of the parts that they keep.
-/

namespace Bindery

/-- A part of a path that makes a difference. -/
inductive PathPart where
  | root
  | here
  | up
  | name (text : String)
  deriving DecidableEq, Repr

namespace PathPart

/-- The root sorts before a leading dot, that before two dots, and these before all names. -/
def rank : PathPart → Nat
  | root => 0
  | here => 1
  | up => 2
  | name _ => 3

/-- The text of a name; the other parts have none. -/
def text : PathPart → String
  | name text => text
  | _ => ""

theorem eq_of_rank_text {a b : PathPart} (hr : a.rank = b.rank) (ht : a.text = b.text) :
    a = b := by
  cases a <;> cases b <;> simp_all [rank, text]

instance : Ord PathPart := ⟨compareLex (compareOn rank) (compareOn text)⟩

instance : Std.TransOrd PathPart :=
  inferInstanceAs (Std.TransCmp (compareLex (compareOn rank) (compareOn text)))

instance : Std.LawfulEqOrd PathPart where
  compare_self := Std.ReflCmp.compare_self
  eq_of_compare {a b} h := by
    have h' : (compare a.rank b.rank).then (compare a.text b.text) = .eq := h
    obtain ⟨hr, ht⟩ := Ordering.then_eq_eq.1 h'
    exact eq_of_rank_text (Std.LawfulEqOrd.eq_of_compare hr) (Std.LawfulEqOrd.eq_of_compare ht)

end PathPart

namespace Path

/-- The texts between the slashes. -/
def pieces (path : String) : List String := (path.toList.splitOn '/').map String.ofList

def ofPieces (l : List String) : String := "/".intercalate l

def isAbsolute (path : String) : Bool := path.startsWith "/"

/-- The part that a piece stands for, if it makes a difference. -/
def part? (isFirst : Bool) : String → Option PathPart
  | "" => none
  | "." => if isFirst then some .here else none
  | ".." => some .up
  | text => some (.name text)

def parts (path : String) : List PathPart :=
  match pieces path with
  | [] => []
  | first :: rest =>
    (if isAbsolute path then [PathPart.root] else []) ++ (part? true first).toList ++
      rest.filterMap (part? false)

/-- A path below another one. An absolute path stands for itself. -/
def join (base path : String) : String :=
  if isAbsolute path || base.isEmpty then path
  else if base.endsWith "/" then base ++ path
  else base ++ "/" ++ path

/-- The pieces up to the last one that makes a difference, in reverse. -/
def trimmedReverse (reversed : List String) : List String :=
  match reversed with
  | [] => []
  | [first] => if (part? true first).isSome then [first] else []
  | last :: rest => if (part? false last).isSome then last :: rest else trimmedReverse rest

/-- The last name of a path, unless its last part is no name. -/
def fileName? (path : String) : Option String :=
  match trimmedReverse (pieces path).reverse with
  | [] => none
  | "." :: _ => none
  | ".." :: _ => none
  | last :: _ => some last

/-- The path without its last part. -/
def parent? (path : String) : Option String :=
  match trimmedReverse (pieces path).reverse with
  | [] => none
  | _ :: rest =>
    match trimmedReverse rest with
    | [] => some (if isAbsolute path then "/" else "")
    | kept => some (ofPieces kept.reverse)

def withFileName (path name : String) : String :=
  match fileName? path with
  | none => join path name
  | some _ => join ((parent? path).getD "") name

/-- A name without its extension, and the extension. The extension follows the last dot, unless
that dot is the first character. -/
def splitExtension (name : String) : String × Option String :=
  match name.toList.reverse.span (· ≠ '.') with
  | (_, []) => (name, none)
  | (_, [_]) => (name, none)
  | (tail, _ :: stem) => (String.ofList stem.reverse, some (String.ofList tail.reverse))

def extension? (path : String) : Option String :=
  (fileName? path).bind fun name => (splitExtension name).2

/-- The path up to its last name, which gets another extension. A path whose last part is no name
stays as it is. -/
def withExtension (path extension : String) : String :=
  match fileName? path, trimmedReverse (pieces path).reverse with
  | some name, _ :: above =>
    ofPieces (above.reverse ++ [(splitExtension name).1 ++ "." ++ extension])
  | _, _ => path

end Path

end Bindery
