import Bindery.Json.Reader
import Bindery.Toml.Scalar
import Bindery.Toml.Tree

/-!
# Reading TOML text

A document is a sequence of lines: headers, definitions and comments. Lines end with a line feed,
which may have a carriage return in front of it; a carriage return stands nowhere else. A text over
lines keeps its line ends as they are.
-/

namespace Bindery.Toml

/-- The number of brackets that may be open at once, and of names that may stand in a path. -/
def maxDepth : Nat := 80

/-- Whether every carriage return stands in front of a line feed. -/
def hasPairedReturns : List Char → Bool
  | [] => true
  | '\r' :: '\n' :: rest => hasPairedReturns rest
  | c :: rest => c != '\r' && hasPairedReturns rest

def isLineEnd (c : Char) : Bool := c = '\n' || c = '\r'

def isBlank (c : Char) : Bool := c = ' ' || c = '\t'

def skipBlank (cs : List Char) : List Char := cs.dropWhile isBlank

/-- Characters that stand nowhere in a document but at the end of a line. -/
def isControl (c : Char) : Bool := (c.toNat < 32 && c != '\t') || c.toNat = 127

/-- Goes past blanks, line ends and comments. The flag tells whether a comment is open. -/
def skipTrivia : Bool → List Char → Option (List Char)
  | _, [] => some []
  | true, c :: rest =>
    if isLineEnd c then skipTrivia false rest
    else if isControl c then none
    else skipTrivia true rest
  | false, c :: rest =>
    if isLineEnd c || isBlank c then skipTrivia false rest
    else if c = '#' then skipTrivia true rest
    else some (c :: rest)

/-- Goes past what is left of a line: blanks and a comment. -/
def finishLine (cs : List Char) : Option (List Char) :=
  match skipBlank cs with
  | [] => some []
  | '\n' :: rest => some rest
  | '\r' :: '\n' :: rest => some rest
  | '#' :: rest =>
    if (rest.takeWhile fun c => !isLineEnd c).any isControl then none
    else some ((rest.dropWhile (· ≠ '\n')).drop 1)
  | _ => none

/-! ## Quoted texts -/

def scalar? (n : Nat) : Option Char :=
  if n < 0xD800 ∨ (0xDFFF < n ∧ n < 0x110000) then some (Char.ofNat n) else none

def hexNumber? (cs : List Char) : Option Nat :=
  (cs.mapM Json.hexValue).map fun digits => digits.foldl (fun n d => 16 * n + d) 0

def simpleEscape? : Char → Option Char
  | 'b' => some '\x08'
  | 't' => some '\t'
  | 'n' => some '\n'
  | 'f' => some '\x0c'
  | 'r' => some '\r'
  | 'e' => some '\x1b'
  | '"' => some '"'
  | '\\' => some '\\'
  | _ => none

abbrev Scanned := Option (List Char × List Char)

def Scanned.cons (c : Char) (s : Scanned) : Scanned := s.map fun (text, rest) => (c :: text, rest)

/-- Puts a character in front of a scanned text, if there is one. -/
def Scanned.cons? (c : Option Char) (s : Scanned) : Scanned := c.bind fun c => s.cons c

/-- How a quoted text goes on over lines. -/
inductive Span where
  /-- It ends in its line. -/
  | line
  | lines
  /-- Over lines, and white space does not count for now. -/
  | joining
  deriving DecidableEq, Repr

/-- Whether a backslash ends its line, but for blanks. -/
def endsLine (cs : List Char) : Bool := (skipBlank cs).head?.any isLineEnd

/-- Reads a text with escapes up to its closing quotes. Of five quotes at the end of a text over
lines, the first two are part of it. -/
def scanBasic : Span → List Char → Scanned
  | _, [] => none
  | span, '"' :: rest =>
    match span, rest with
    | .line, _ => some ([], rest)
    | _, '"' :: '"' :: '"' :: '"' :: rest => some (['"', '"'], rest)
    | _, '"' :: '"' :: '"' :: rest => some (['"'], rest)
    | _, '"' :: '"' :: rest => some ([], rest)
    | _, _ => (scanBasic .lines rest).cons '"'
  | span, '\\' :: 'u' :: a :: b :: c :: d :: rest =>
    (scanBasic (settle span) rest).cons? ((hexNumber? [a, b, c, d]).bind scalar?)
  | span, '\\' :: 'U' :: a :: b :: c :: d :: e :: f :: g :: h :: rest =>
    (scanBasic (settle span) rest).cons? ((hexNumber? [a, b, c, d, e, f, g, h]).bind scalar?)
  | span, '\\' :: 'x' :: a :: b :: rest =>
    (scanBasic (settle span) rest).cons? ((hexNumber? [a, b]).bind scalar?)
  | span, '\\' :: c :: rest =>
    if span ≠ .line && endsLine (c :: rest) then scanBasic .joining rest
    else (scanBasic (settle span) rest).cons? (simpleEscape? c)
  | span, c :: rest =>
    if span = .joining && (isLineEnd c || isBlank c) then scanBasic .joining rest
    else if isLineEnd c then if span = .line then none else (scanBasic .lines rest).cons c
    else if c = '\\' || isControl c then none
    else (scanBasic (settle span) rest).cons c
where
  /-- The span behind a character that counts. -/
  settle : Span → Span
    | .line => .line
    | _ => .lines

def scanLiteral (overLines : Bool) : List Char → Scanned
  | [] => none
  | '\'' :: rest =>
    if overLines then
      match rest with
      | '\'' :: '\'' :: '\'' :: '\'' :: rest => some (['\'', '\''], rest)
      | '\'' :: '\'' :: '\'' :: rest => some (['\''], rest)
      | '\'' :: '\'' :: rest => some ([], rest)
      | _ => (scanLiteral overLines rest).cons '\''
    else some ([], rest)
  | c :: rest =>
    if isLineEnd c then if overLines then (scanLiteral overLines rest).cons c else none
    else if isControl c then none
    else (scanLiteral overLines rest).cons c

/-- Drops the line end right behind the opening quotes of a text over lines. -/
def dropLineEnd : List Char → List Char
  | '\n' :: rest => rest
  | '\r' :: '\n' :: rest => rest
  | cs => cs

/-- Reads a quoted text of any kind; there is none if no quote stands in front. -/
def scanQuoted? : List Char → Option Scanned
  | '"' :: '"' :: '"' :: rest => some (scanBasic .lines (dropLineEnd rest))
  | '"' :: rest => some (scanBasic .line rest)
  | '\'' :: '\'' :: '\'' :: rest => some (scanLiteral true (dropLineEnd rest))
  | '\'' :: rest => some (scanLiteral false rest)
  | _ => none

/-! ## Names -/

/-- Whether a character may stand in a name without quotes. -/
def isBare (c : Char) : Bool := c.isAlphanum || c = '_' || c = '-'

def scanName : List Char → Scanned
  | '"' :: rest => scanBasic .line rest
  | '\'' :: rest => scanLiteral false rest
  | cs =>
    match cs.takeWhile isBare with
    | [] => none
    | name => some (name, cs.dropWhile isBare)

/-- Reads names with dots between them; the first argument bounds their number. -/
def scanNames : Nat → List Char → Option (List String × List Char)
  | 0, _ => none
  | bound + 1, cs => do
    let (name, rest) ← scanName (skipBlank cs)
    match skipBlank rest with
    | '.' :: rest =>
      let (names, rest) ← scanNames bound rest
      return (String.ofList name :: names, rest)
    | rest => return ([String.ofList name], rest)

def scanPath : List Char → Option (List String × List Char) := scanNames maxDepth

/-! ## Values -/

def isWordChar (c : Char) : Bool := c.isAlphanum || ['_', '-', '+', '.', ':'].contains c

/-- Reads a word. A date may be divided from a time by a blank. -/
def scanWord (cs : List Char) : List Char × List Char :=
  let first := cs.takeWhile isWordChar
  match (takeDate? first), cs.dropWhile isWordChar with
  | some (_, []), ' ' :: d :: rest =>
    if d.isDigit then (first ++ ' ' :: (d :: rest).takeWhile isWordChar, rest.dropWhile isWordChar)
    else (first, ' ' :: d :: rest)
  | _, rest => (first, rest)

/-- Reads a path up to the value behind its equals sign, on whatever line they stand. -/
def assigned? (cs : List Char) : Option (List String × List Char) := do
  let (names, rest) ← scanPath cs
  match ← skipTrivia false rest with
  | '=' :: rest => return (names, ← skipTrivia false rest)
  | _ => none

abbrev ScannedValue := Option (LooseValue × List Char)

mutual

/-- Reads a value below a number of open brackets; the first argument bounds the steps. -/
def scanValue : Nat → Nat → List Char → ScannedValue
  | 0, _, _ => none
  | fuel + 1, depth, cs =>
    match scanQuoted? cs with
    | some scanned => scanned.map fun (text, rest) => (.text (String.ofList text), rest)
    | none =>
      match cs with
      | '[' :: rest =>
        if depth < maxDepth then
          (scanItems fuel (depth + 1) rest).map fun (items, rest) => (.list items, rest)
        else none
      | '\x7b' :: rest =>
        if depth < maxDepth then
          (scanMembers fuel (depth + 1) [] rest).map fun (members, rest) =>
            (.table (looseMembers members), rest)
        else none
      | cs =>
        let (word, rest) := scanWord cs
        (word? word).map fun v => (v, rest)

def scanItems : Nat → Nat → List Char → Option (List LooseValue × List Char)
  | 0, _, _ => none
  | fuel + 1, depth, cs =>
    match skipTrivia false cs with
    | none => none
    | some (']' :: rest) => some ([], rest)
    | some cs =>
      match scanValue fuel depth cs with
      | none => none
      | some (item, rest) =>
        match skipTrivia false rest with
        | some (']' :: rest) => some ([item], rest)
        | some (',' :: rest) =>
          (scanItems fuel depth rest).map fun (items, rest) => (item :: items, rest)
        | _ => none

def scanMembers : Nat → Nat → Members → List Char → Option (Members × List Char)
  | 0, _, _, _ => none
  | fuel + 1, depth, members, cs =>
    match skipTrivia false cs with
    | none => none
    | some ('\x7d' :: rest) => some (members, rest)
    | some cs =>
      match assigned? cs with
      | none => none
      | some (names, cs) =>
        match scanValue fuel depth cs with
        | none => none
        | some (v, rest) =>
          match members.define v names, skipTrivia false rest with
          | some members, some ('\x7d' :: rest) => some (members, rest)
          | some members, some (',' :: rest) => scanMembers fuel depth members rest
          | _, _ => none

end

/-! ## Documents -/

/-- A document as far as it was read: its tables, and the header whose table is open. -/
structure Document where
  root : Members := []
  header : List String := []

/-- Takes a header. -/
def Document.open? (d : Document) (names : List String)
    (step : String → Members → Option Members) : Option Document :=
  (d.root.update (step (names.getLast?.getD "")) names.dropLast).map fun root =>
    { root, header := names }

def readLine (d : Document) : List Char → Option (Document × List Char)
  | '[' :: '[' :: cs => do
    let (names, rest) ← scanPath cs
    match rest with
    | ']' :: ']' :: rest =>
      let d ← d.open? names Members.openElement
      return (d, ← finishLine rest)
    | _ => none
  | '[' :: cs => do
    let (names, rest) ← scanPath cs
    match rest with
    | ']' :: rest =>
      let d ← d.open? names Members.openTable
      return (d, ← finishLine rest)
    | _ => none
  | cs => do
    let (names, rest) ← scanPath cs
    match rest with
    | '=' :: rest =>
      let cs := skipBlank rest
      let (v, rest) ← scanValue (2 * cs.length + 2) 0 cs
      let root ← d.root.update (Members.define v names) d.header
      return ({ d with root }, ← finishLine rest)
    | _ => none

/-- Reads lines to the end of a document; the first argument bounds their number. -/
def readLines : Nat → Document → List Char → Option Document
  | 0, d, _ => some d
  | bound + 1, d, cs =>
    match skipTrivia false cs with
    | none => none
    | some [] => some d
    | some cs => (readLine d cs).bind fun (d, rest) => readLines bound d rest

/-- The table that a document spells. A mark of the byte order may stand in front of it. -/
def parse? (s : String) : Option LooseValue :=
  let cs := match s.toList with
    | '\ufeff' :: rest => rest
    | cs => cs
  if hasPairedReturns cs then
    (readLines (cs.length + 1) {} cs).map fun d => .table (looseMembers d.root)
  else none

end Bindery.Toml
