import Bindery.Json.Draft

/-!
# Reading JSON text

A text is followed from left to right as far as it goes. What is read is a draft; behind the
place where the text breaks off nothing is read.
-/

namespace Bindery.Json

def isSpace (c : Char) : Bool := c = ' ' || c = '\n' || c = '\t' || c = '\r'

def skipSpace (cs : List Char) : List Char := cs.dropWhile isSpace

def hexValue (c : Char) : Option Nat :=
  if '0' ≤ c && c ≤ '9' then some (c.toNat - '0'.toNat)
  else if 'a' ≤ c && c ≤ 'f' then some (c.toNat - 'a'.toNat + 10)
  else if 'A' ≤ c && c ≤ 'F' then some (c.toNat - 'A'.toNat + 10)
  else none

def unit? (a b c d : Char) : Option Nat :=
  match hexValue a, hexValue b, hexValue c, hexValue d with
  | some a, some b, some c, some d => some (((a * 16 + b) * 16 + c) * 16 + d)
  | _, _, _, _ => none

def simpleEscape? : Char → Option Char
  | '"' => some '"'
  | '\\' => some '\\'
  | '/' => some '/'
  | 'b' => some '\x08'
  | 'f' => some '\x0c'
  | 'n' => some '\n'
  | 'r' => some '\r'
  | 't' => some '\t'
  | _ => none

/-- A character of a text, or a code unit given by its number. -/
inductive Piece where
  | char (c : Char)
  | unit (code : Nat)

def scanPieces : List Char → Option (List Piece × List Char)
  | [] => none
  | '"' :: rest => some ([], rest)
  | '\\' :: 'u' :: a :: b :: c :: d :: rest =>
    match unit? a b c d with
    | none => none
    | some code => (scanPieces rest).map fun (pieces, rest) => (.unit code :: pieces, rest)
  | '\\' :: c :: rest =>
    match simpleEscape? c with
    | none => none
    | some c => (scanPieces rest).map fun (pieces, rest) => (.char c :: pieces, rest)
  | c :: rest =>
    if c.toNat < 32 || c = '\\' then none
    else (scanPieces rest).map fun (pieces, rest) => (.char c :: pieces, rest)

def isHighSurrogate (code : Nat) : Bool := 0xD800 ≤ code && code ≤ 0xDBFF

def isLowSurrogate (code : Nat) : Bool := 0xDC00 ≤ code && code ≤ 0xDFFF

/-- The text of the pieces; there is none if a surrogate stands alone. -/
def joinPieces : List Piece → Option (List Char)
  | [] => some []
  | .char c :: rest => (joinPieces rest).map (c :: ·)
  | .unit high :: .unit low :: rest =>
    if isHighSurrogate high then
      if isLowSurrogate low then
        let code := 0x10000 + (high - 0xD800) * 0x400 + (low - 0xDC00)
        (joinPieces rest).map (Char.ofNat code :: ·)
      else none
    else if isLowSurrogate high then none
    else (joinPieces (.unit low :: rest)).map (Char.ofNat high :: ·)
  | .unit code :: rest =>
    if isHighSurrogate code || isLowSurrogate code then none
    else (joinPieces rest).map (Char.ofNat code :: ·)

/-- Reads a text up to its closing quote. The text is missing if a surrogate stands alone. -/
def scanText (cs : List Char) : Option (Option (List Char) × List Char) :=
  (scanPieces cs).map fun (pieces, rest) => (joinPieces pieces, rest)

/-- A nonempty run of digits, and what follows it. -/
def scanDigits (cs : List Char) : Option (List Char × List Char) :=
  match cs.takeWhile Char.isDigit with
  | [] => none
  | digits => some (digits, cs.dropWhile Char.isDigit)

/-- The digits before the point: no zero stands in front of another digit. -/
def scanWhole : List Char → Option (List Char × List Char)
  | '0' :: c :: rest => if c.isDigit then none else some (['0'], c :: rest)
  | cs => scanDigits cs

/-- The point and the digits behind it, if there is a point. -/
def scanFraction : List Char → Option (List Char × List Char)
  | '.' :: rest => (scanDigits rest).map fun (digits, rest) => ('.' :: digits, rest)
  | cs => some ([], cs)

def scanExponent : List Char → Option (List Char × List Char)
  | e :: rest =>
    if e = 'e' || e = 'E' then
      match rest with
      | sign :: digits =>
        if sign = '+' || sign = '-' then
          (scanDigits digits).map fun (digits, rest) => (e :: sign :: digits, rest)
        else (scanDigits rest).map fun (digits, rest) => (e :: digits, rest)
      | [] => none
    else some ([], e :: rest)
  | [] => some ([], [])

def scanMagnitude (cs : List Char) : Option (List Char × List Char) :=
  (scanWhole cs).bind fun (whole, cs) =>
    (scanFraction cs).bind fun (fraction, cs) =>
      (scanExponent cs).map fun (exponent, cs) => (whole ++ fraction ++ exponent, cs)

def scanNumber : List Char → Option (List Char × List Char)
  | '-' :: rest => (scanMagnitude rest).map fun (spelling, rest) => ('-' :: spelling, rest)
  | cs => scanMagnitude cs

/-- A draft and the text behind it; nothing is behind a text that breaks off. -/
abbrev Scanned (α : Type) := α × Option (List Char)

namespace Draft

/-- A leaf read in one piece, or the place where the text breaks off. -/
def leaf {α : Type} (f : α → Draft) : Option (α × List Char) → Scanned Draft
  | some (a, rest) => (f a, some rest)
  | none => (malformed, none)

def afterWord : List Char → List Char → Option (List Char)
  | [], rest => some rest
  | c :: word, d :: rest => if c = d then afterWord word rest else none
  | _ :: _, [] => none

def scanWord (word : List Char) (draft : Draft) (cs : List Char) : Scanned Draft :=
  leaf (fun _ => draft) ((afterWord word cs).map fun rest => ((), rest))

def scanString (cs : List Char) : Scanned Draft :=
  leaf (fun s => text (s.map String.ofList)) (scanText cs)

mutual

/-- Reads one value; the first argument bounds the number of steps. -/
def scanValue : Nat → List Char → Scanned Draft
  | 0, _ => (malformed, none)
  | fuel + 1, cs =>
    match skipSpace cs with
    | 'n' :: rest => scanWord ['u', 'l', 'l'] null rest
    | 't' :: rest => scanWord ['r', 'u', 'e'] (bool true) rest
    | 'f' :: rest => scanWord ['a', 'l', 's', 'e'] (bool false) rest
    | '"' :: rest => scanString rest
    | '[' :: rest =>
      match skipSpace rest with
      | ']' :: rest => (array [], some rest)
      | rest =>
        let (items, rest) := scanItems fuel rest
        (array items, rest)
    | '\x7b' :: rest =>
      match skipSpace rest with
      | '\x7d' :: rest => (object [], some rest)
      | rest =>
        let (members, rest) := scanMembers fuel rest
        (object members, rest)
    | cs => leaf number (scanNumber cs)

def scanItems : Nat → List Char → Scanned (List Draft)
  | 0, _ => ([malformed], none)
  | fuel + 1, cs =>
    match scanValue fuel cs with
    | (item, none) => ([item], none)
    | (item, some rest) =>
      match skipSpace rest with
      | ']' :: rest => ([item], some rest)
      | ',' :: rest =>
        let (items, rest) := scanItems fuel rest
        (item :: items, rest)
      | _ => ([item, malformed], none)

def scanMembers : Nat → List Char → Scanned (List (Draft × Draft))
  | 0, _ => ([(malformed, malformed)], none)
  | fuel + 1, cs =>
    match scanValue fuel cs with
    | (key, none) => ([(key, malformed)], none)
    | (text key, some rest) =>
      match skipSpace rest with
      | ':' :: rest =>
        match scanValue fuel rest with
        | (value, none) => ([(text key, value)], none)
        | (value, some rest) =>
          match skipSpace rest with
          | '\x7d' :: rest => ([(text key, value)], some rest)
          | ',' :: rest =>
            let (members, rest) := scanMembers fuel rest
            ((text key, value) :: members, rest)
          | _ => ([(text key, value), (malformed, malformed)], none)
      | _ => ([(text key, malformed)], none)
    | (key, some _) => ([(key, malformed)], none)

end

end Draft

/-- A whole text: its first value, and whether only blanks follow. -/
structure Document where
  root : Draft
  endsThere : Bool

def scan (s : String) : Document :=
  let cs := s.toList
  match Draft.scanValue (2 * cs.length + 2) cs with
  | (root, none) => ⟨root, true⟩
  | (root, some rest) => ⟨root, (skipSpace rest).isEmpty⟩

def parse? (s : String) : Option Json :=
  let document := scan s
  if document.endsThere then document.root.value? 0 else none

end Bindery.Json
