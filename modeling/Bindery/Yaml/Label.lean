import Bindery.Toml.Reader
import Bindery.Yaml.Cursor
import Bindery.Yaml.Token

/-!
# Labels of YAML nodes

Names of anchors, tags, and the directives that say what the handles of tags stand for.
-/

namespace Bindery.Yaml

def isAnchorChar (c : Char) : Bool :=
  !isBlank c && !isBreak c && !isFlowMark c && c != '\ufeff'

/-- Reads the name of an anchor, which has one character at least. -/
def anchorName? (c : Cursor) : Option (String × Cursor) :=
  match c.run isAnchorChar with
  | [] => none
  | name => some (String.ofList name, c.skip isAnchorChar)

/-! ## Tags -/

def isAddressChar (c : Char) : Bool :=
  c.isAlphanum || "-#;/?:@&=+$,_.!~*'()[]%".toList.contains c

def isTagChar (c : Char) : Bool := isAddressChar c && !isFlowMark c && c != '!'

def escapedByte? : List Char → Option Nat
  | '%' :: a :: b :: _ => do
    let high ← Json.hexValue a
    let low ← Json.hexValue b
    return 16 * high + low
  | _ => none

/-- How many escapes a first byte asks for. -/
def escapeWidth? (byte : Nat) : Option Nat :=
  if byte < 0x80 then some 1
  else if 0xC0 ≤ byte ∧ byte < 0xE0 then some 2
  else if 0xE0 ≤ byte ∧ byte < 0xF0 then some 3
  else if 0xF0 ≤ byte ∧ byte < 0xF8 then some 4
  else none

def escapedCode? : Nat → Nat → List Char → Option Nat
  | 0, code, _ => some code
  | left + 1, code, cs => do
    let byte ← escapedByte? cs
    if byte < 0x80 ∨ 0xC0 ≤ byte then none
    escapedCode? left (256 * code + byte) (cs.drop 3)

/-- The character of escapes at the beginning of a text, and their length. The bytes are the code
of the character as they stand. -/
def escapedChar? (cs : List Char) : Option (Char × Nat) := do
  let byte ← escapedByte? cs
  let width ← escapeWidth? byte
  let code ← escapedCode? (width - 1) byte (cs.drop 3)
  let char ← Toml.scalar? code
  return (char, 3 * width)

/-- Reads the characters of an address that pass a test; the first argument bounds their number. -/
def address? (p : Char → Bool) : Nat → Cursor → Option (List Char × Cursor)
  | 0, c => some ([], c)
  | fuel + 1, c =>
    match c.rest with
    | '%' :: _ =>
      (escapedChar? c.rest).bind fun (d, length) =>
        (address? p fuel (c.advance length)).map fun (text, c) => (d :: text, c)
    | d :: _ =>
      if p d then (address? p fuel c.next).map fun (text, c) => (d :: text, c) else some ([], c)
    | [] => some ([], c)

/-- Reads a handle: an exclamation mark, a name and another mark; only the first one is a must. -/
def handle? (c : Cursor) : Option (String × Cursor) :=
  match c.rest with
  | '!' :: _ =>
    let name := c.next.run isNameChar
    let d := c.next.skip isNameChar
    match d.rest with
    | '!' :: _ => some (String.ofList ('!' :: name ++ ['!']), d.next)
    | _ => some (String.ofList ('!' :: name), d)
  | _ => none

/-- Whether a handle ends with a mark of its own. -/
def isClosedHandle (handle : String) : Bool := 2 ≤ handle.length && handle.endsWith "!"

def fullTag? (c : Cursor) : Option (TagSpelling × Cursor) :=
  (address? isAddressChar (c.rest.length + 1) (c.advance 2)).bind fun (text, c) =>
    match c.rest with
    | '>' :: _ => some (⟨"", String.ofList text⟩, c.next)
    | _ => none

/-- Reads a tag with a handle. A name behind an open handle is part of the suffix, and a mark alone
is a tag too. -/
def shortTag? (c : Cursor) : Option (TagSpelling × Cursor) :=
  (handle? c).bind fun (handle, c) =>
    (address? isTagChar (c.rest.length + 1) c).bind fun (text, c) =>
      if isClosedHandle handle then
        if text.isEmpty then none else some (⟨handle, String.ofList text⟩, c)
      else
        match handle.toList.drop 1 ++ text with
        | [] => some (⟨"", "!"⟩, c)
        | suffix => some (⟨"!", String.ofList suffix⟩, c)

/-- Reads a tag. It ends at a gap, and in brackets also at their marks. -/
def tag? (inFlow : Bool) (c : Cursor) : Option (TagSpelling × Cursor) :=
  (match c.rest with
    | _ :: '<' :: _ => fullTag? c
    | _ => shortTag? c).bind fun (tag, c) =>
    if atGap c.rest || (inFlow && atFlowMark c.rest) then some (tag, c) else none

/-! ## Directives -/

def maxVersionDigits : Nat := 9

def versionPart? (c : Cursor) : Option Cursor :=
  let digits := (c.run Char.isDigit).length
  if digits = 0 || maxVersionDigits < digits then none else some (c.skip Char.isDigit)

def version? (c : Cursor) : Option (Token × Cursor) := do
  let c ← versionPart? (c.skip isBlank)
  match c.rest with
  | '.' :: _ => return (.versionDirective, ← versionPart? c.next)
  | _ => none

/-- Reads what a handle stands for. It may begin with any mark of a tag. -/
def stem? (c : Cursor) : Option (List Char × Cursor) :=
  match c.rest with
  | '!' :: _ => (address? isAddressChar c.rest.length c.next).map fun (text, c) => ('!' :: text, c)
  | d :: _ => if isTagChar d then address? isAddressChar (c.rest.length + 1) c else none
  | [] => none

def handleStem? (c : Cursor) : Option (Token × Cursor) := do
  let (handle, c) ← handle? (c.skip isBlank)
  let (stem, c) ← stem? (c.skip isBlank)
  if (handle = "!" || isClosedHandle handle) && atGap c.rest then
    return (.handleDirective handle (String.ofList stem), c)
  else none

/-- Reads a directive up to the end of its line. One with an unknown name says nothing, but stands
as one for the empty handle. -/
def directive? (c : Cursor) : Option (Token × Cursor) := do
  let name := c.next.run isNameChar
  let d := c.next.skip isNameChar
  if name.isEmpty || !atGap d.rest then none
  let (token, d) ← match String.ofList name with
    | "YAML" => version? d
    | "TAG" => handleStem? d
    | _ => some (.handleDirective "" "", d.toLineEnd)
  let d ← d.pastRemark?
  if atLineEnd d.rest then return (token, d.next) else none

end Bindery.Yaml
