/-!
# JSON values and their texts

Values to be written. Members keep the order in which they are given. The compact text has no
white space; the indented text puts every element and member on a line of its own.
-/

namespace Bindery

/-- A JSON value. A number is an integer, or a decimal kept as it is spelled. -/
inductive Json where
  | null
  | bool (value : Bool)
  | integer (value : Int)
  | decimal (spelling : String)
  | string (value : String)
  | array (items : List Json)
  | object (members : List (String × Json))
  deriving Repr

namespace Json

instance : Inhabited Json := ⟨null⟩

instance : Coe String Json := ⟨string⟩

instance : Coe Bool Json := ⟨bool⟩

def ofOption {α : Type} (f : α → Json) : Option α → Json
  | none => null
  | some a => f a

def ofList {α : Type} (f : α → Json) (l : List α) : Json := array (l.map f)

def ofNat (n : Nat) : Json := integer n

/-- A member that stands only if there is a value. -/
def optional {α : Type} (name : String) (f : α → Json) : Option α → List (String × Json)
  | none => []
  | some a => [(name, f a)]

/-- A member that stands only if the list has elements. -/
def nonempty {α : Type} (name : String) (f : α → Json) : List α → List (String × Json)
  | [] => []
  | l => [(name, ofList f l)]

def hexDigit (n : Nat) : Char := Nat.digitChar (n % 16)

def escapeChar (c : Char) : List Char :=
  if c = '"' then ['\\', '"']
  else if c = '\\' then ['\\', '\\']
  else if c = '\n' then ['\\', 'n']
  else if c = '\r' then ['\\', 'r']
  else if c = '\t' then ['\\', 't']
  else if c = '\x08' then ['\\', 'b']
  else if c = '\x0c' then ['\\', 'f']
  else if c.toNat < 32 then ['\\', 'u', '0', '0', hexDigit (c.toNat / 16), hexDigit c.toNat]
  else [c]

def escapeChars (cs : List Char) : List Char := cs.flatMap escapeChar

def quote (s : String) : String := "\"" ++ String.ofList (escapeChars s.toList) ++ "\""

mutual

def compact : Json → String
  | null => "null"
  | bool true => "true"
  | bool false => "false"
  | integer n => toString n
  | decimal spelling => spelling
  | string s => quote s
  | array items => "[" ++ ",".intercalate (compactItems items) ++ "]"
  | object members => "\x7b" ++ ",".intercalate (compactMembers members) ++ "\x7d"

def compactItems : List Json → List String
  | [] => []
  | item :: rest => compact item :: compactItems rest

def compactMembers : List (String × Json) → List String
  | [] => []
  | (name, value) :: rest => (quote name ++ ":" ++ compact value) :: compactMembers rest

end

def indentation (depth : Nat) : String := "".pushn ' ' (2 * depth)

/-- Lines between two brackets; nothing between the brackets if there are no lines. -/
def block (opening closing : String) (depth : Nat) : List String → String
  | [] => opening ++ closing
  | lines =>
    let inner := "\n" ++ indentation (depth + 1)
    opening ++ inner ++ ("," ++ inner).intercalate lines ++ "\n" ++ indentation depth ++ closing

mutual

def prettyAt (depth : Nat) : Json → String
  | array items => block "[" "]" depth (prettyItems (depth + 1) items)
  | object members => block "\x7b" "\x7d" depth (prettyMembers (depth + 1) members)
  | value => compact value

def prettyItems (depth : Nat) : List Json → List String
  | [] => []
  | item :: rest => prettyAt depth item :: prettyItems depth rest

def prettyMembers (depth : Nat) : List (String × Json) → List String
  | [] => []
  | (name, value) :: rest =>
    (quote name ++ ": " ++ prettyAt depth value) :: prettyMembers depth rest

end

def pretty (value : Json) : String := prettyAt 0 value

end Json

end Bindery
