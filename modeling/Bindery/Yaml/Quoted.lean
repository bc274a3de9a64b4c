import Bindery.Toml.Reader
import Bindery.Yaml.Plain

/-!
# Quoted scalars

A scalar between quotes goes on over lines as long as these are indented. Between double quotes a
backslash stands in front of escapes, between single quotes a quote is written twice.
-/

namespace Bindery.Yaml.Quoted

def simpleEscape? : Char → Option Char
  | '0' => some '\x00'
  | 'a' => some '\x07'
  | 'b' => some '\x08'
  | 't' => some '\t'
  | '\t' => some '\t'
  | 'n' => some '\n'
  | 'v' => some '\x0b'
  | 'f' => some '\x0c'
  | 'r' => some '\r'
  | 'e' => some '\x1b'
  | ' ' => some ' '
  | '"' => some '"'
  | '/' => some '/'
  | '\\' => some '\\'
  | 'N' => some '\u0085'
  | '_' => some '\u00a0'
  | 'L' => some '\u2028'
  | 'P' => some '\u2029'
  | _ => none

/-- The number of hexadecimal digits behind an escape that is a code. -/
def codeLength? : Char → Option Nat
  | 'x' => some 2
  | 'u' => some 4
  | 'U' => some 8
  | _ => none

/-- The character of an escape behind its backslash, and the length of the escape. -/
def escape? : List Char → Option (Char × Nat)
  | [] => none
  | c :: rest =>
    match codeLength? c with
    | none => (simpleEscape? c).map fun d => (d, 1)
    | some length =>
      let digits := rest.take length
      if digits.length < length then none
      else ((Toml.hexNumber? digits).bind Toml.scalar?).map fun d => (d, length + 1)

/-- How a run of characters without a gap ends. -/
structure Run where
  text : List Char
  cursor : Cursor
  /-- Whether a backslash ended its line. -/
  isJoined : Bool

namespace Run

def cons (c : Char) (r : Run) : Run := { r with text := c :: r.text }

end Run

def run? (isSingle : Bool) : Nat → Cursor → Option Run
  | 0, c => some ⟨[], c, false⟩
  | fuel + 1, c =>
    match c.rest with
    | '\'' :: '\'' :: _ =>
      if isSingle then (run? isSingle fuel (c.advance 2)).map (.cons '\'')
      else (run? isSingle fuel c.next).map (.cons '\'')
    | '\\' :: rest =>
      if isSingle then (run? isSingle fuel c.next).map (.cons '\\')
      else if !rest.isEmpty && atLineEnd rest then some ⟨[], c.advance 2, true⟩
      else
        (escape? rest).bind fun (d, length) =>
          (run? isSingle fuel (c.advance (length + 1))).map (.cons d)
    | d :: rest =>
      if atGap (d :: rest) || d = (if isSingle then '\'' else '"') then some ⟨[], c, false⟩
      else (run? isSingle fuel c.next).map (.cons d)
    | [] => some ⟨[], c, false⟩

/-- Goes past the gap behind a run. The flag tells whether a line has ended since the run. -/
def gap? (indent : Int) : Nat → Bool → Cursor → Gap → Option (Cursor × Gap)
  | 0, _, c, g => some (c, g)
  | fuel + 1, hasEnded, c, g =>
    match c.rest with
    | [] => some (c, g)
    | d :: _ =>
      if isBlank d then
        if !hasEnded then gap? indent fuel hasEnded c.next { g with blanks := g.blanks ++ [d] }
        else if d = '\t' && c.isLeftOf indent then none
        else gap? indent fuel hasEnded c.next g
      else if isBreak d then
        gap? indent fuel true c.next
          (if hasEnded then { g with empties := g.empties + 1 }
            else { g with blanks := [], isFolded := true })
      else some (c, g)

/-- Reads runs and the gaps between them up to the closing quote, behind the text that was read. -/
def runs? (isSingle : Bool) (indent : Int) : Nat → Cursor → List Char → Option (List Char × Cursor)
  | 0, _, _ => none
  | fuel + 1, c, text =>
    if c.rest.isEmpty || c.atDivider || c.isLeftOf indent then none
    else
      match run? isSingle (c.rest.length + 1) c with
      | none => none
      | some r =>
        let text := text ++ r.text
        if r.cursor.rest.head? = some (if isSingle then '\'' else '"') then
          some (text, r.cursor.next)
        else
          match gap? indent (r.cursor.rest.length + 1) r.isJoined r.cursor {} with
          | none => none
          | some (c, g) => runs? isSingle indent fuel c (text ++ g.text)

/-- Whether what follows a scalar may follow it: the end of the line, the end of an element, or the
colon behind a key, which stands on one line unless it is in brackets. -/
def mayFollow (inFlow : Bool) (first last : Cursor) : Bool :=
  match last.rest with
  | ':' :: _ => inFlow || first.line = last.line
  | d :: rest => atLineEnd (d :: rest) || (inFlow && [',', '\x7d', ']'].contains d)
  | [] => true

/-- Reads a quoted scalar and the blanks behind it. Its lines do not reach left of a column. -/
def scan? (inFlow : Bool) (indent : Int) (c : Cursor) : Option (String × Cursor) := do
  let isSingle := c.rest.head? = some '\''
  let (text, last) ← runs? isSingle indent (c.rest.length + 1) c.next []
  let last ← last.pastRemark?
  if mayFollow inFlow c last then some (String.ofList text, last) else none

end Bindery.Yaml.Quoted
