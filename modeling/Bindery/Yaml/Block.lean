import Bindery.Yaml.Cursor

/-!
# Block scalars

A scalar whose lines stand as they are below a mark, or are folded as in other scalars. The first
line with content sets the indentation, unless the mark does.
-/

namespace Bindery.Yaml.Block

/-- What becomes of the line ends behind the last line. -/
inductive Chomping where
  | strip
  /-- One stays. -/
  | clip
  | keep
  deriving DecidableEq

/-- What the mark of a block scalar says. -/
structure Header where
  chomping : Chomping := .clip
  /-- How much farther its lines are indented, if the mark says so. -/
  increment : Option Nat := none

def chomping? : Char → Option Chomping
  | '+' => some .keep
  | '-' => some .strip
  | _ => none

/-- Reads the signs behind a mark, in either order. The increment is no zero. -/
def header? (c : Cursor) : Option (Header × Cursor) :=
  match c.rest with
  | s :: rest =>
    match chomping? s with
    | some chomping =>
      match rest with
      | d :: _ =>
        if d = '0' then none
        else if d.isDigit then some ({ chomping, increment := digit d }, c.advance 2)
        else some ({ chomping }, c.next)
      | [] => some ({ chomping }, c.next)
    | none =>
      if s = '0' then none
      else if s.isDigit then
        match rest.head?.bind chomping? with
        | some chomping => some ({ chomping, increment := digit s }, c.advance 2)
        | none => some ({ increment := digit s }, c.next)
      else some ({}, c)
  | [] => some ({}, c)
where
  /-- The value of a digit. -/
  digit (d : Char) : Nat := d.toNat - '0'.toNat

/-- Goes past blanks that do not reach beyond a column, if one is given. -/
def pastIndent (column : Option Nat) (c : Cursor) : Cursor :=
  let blanks := (c.run (· = ' ')).length
  c.advance (match column with
    | none => blanks
    | some column => min blanks (column - c.column))

/-- Goes past empty lines and the indentation of the next one. Also gives how many there are, and
the farthest column of any of them, if it is farther than the given one. -/
def pastEmpties (column : Option Nat) : Nat → Cursor → Nat → Nat → Cursor × Nat × Nat
  | 0, c, empties, farthest => (c, empties, farthest)
  | fuel + 1, c, empties, farthest =>
    let c := pastIndent column c
    let farthest := max farthest c.column
    match c.rest with
    | d :: _ =>
      if isBreak d then pastEmpties column fuel c.next (empties + 1) farthest
      else (c, empties, farthest)
    | [] => (c, empties, farthest)

/-- The lines of a scalar as far as they were read. -/
structure Lines where
  text : List Char := []
  cursor : Cursor
  /-- Whether the last line has ended. -/
  hasEnded : Bool := false
  /-- Empty lines behind the last one. -/
  empties : Nat := 0
  /-- Whether the last line begins with a blank. -/
  isIndented : Bool := false

namespace Lines

/-- What divides the next line from the text. Folding leaves lines alone that begin with a blank. -/
def division (l : Lines) (isLiteral : Bool) : List Char :=
  let isKept := isLiteral || !l.hasEnded || l.isIndented || l.cursor.rest.head?.any isBlank
  if isKept then (if l.hasEnded then ['\n'] else []) ++ List.replicate l.empties '\n'
  else if l.empties = 0 then [' ']
  else List.replicate l.empties '\n'

/-- Reads the lines that stand at a column; the first argument bounds their number. -/
def read (isLiteral : Bool) (column : Nat) : Nat → Lines → Lines
  | 0, l => l
  | fuel + 1, l =>
    if l.cursor.column ≠ column || l.cursor.rest.isEmpty || l.cursor.atDocumentEnd then l
    else
      let isIndented := l.cursor.rest.head?.any isBlank
      let text := l.text ++ l.division isLiteral ++ l.cursor.run fun _ => true
      let c := l.cursor.toLineEnd
      if c.rest.isEmpty then { text, cursor := c, isIndented }
      else
        let (cursor, empties, _) := pastEmpties (some column) (c.rest.length + 1) c.next 0 0
        read isLiteral column fuel { text, cursor, hasEnded := true, empties, isIndented }

/-- The text of the scalar. A last line that the text ends with, and not a line end, gets one. -/
def finish (l : Lines) (chomping : Chomping) (column : Nat) : List Char :=
  let ending := if l.hasEnded then ['\n'] else []
  let missing := if l.cursor.rest.isEmpty && max column 1 ≤ l.cursor.column then ['\n'] else []
  match chomping with
  | .strip => l.text
  | .clip => l.text ++ ending ++ missing
  | .keep => l.text ++ ending ++ missing ++ List.replicate l.empties '\n'

end Lines

/-- The text of a scalar without content at the end of the text. -/
def emptyText (chomping : Chomping) (hasEnded isSameLine : Bool) (empties : Nat) : List Char :=
  if chomping = .strip || isSameLine then []
  else if chomping = .keep && empties ≠ 0 then List.replicate empties '\n'
  else if hasEnded then ['\n']
  else []

/-- Reads a block scalar inside an indentation, from its mark on. -/
def scan? (indent : Int) (c : Cursor) : Option (String × Cursor) := do
  let isLiteral := c.rest.head? = some '|'
  let (header, d) ← header? c.next
  let d ← d.pastRemark?
  if !atLineEnd d.rest then none
  let hasEnded := !d.rest.isEmpty
  let d := d.next
  if d.rest.head? = some '\t' then none
  let set := header.increment.map fun n => (max indent 0).toNat + n
  let (d, empties, farthest) := pastEmpties set (d.rest.length + 1) d 0 0
  let column := set.getD (max farthest (indent + 1).toNat)
  if d.rest.isEmpty then
    some (String.ofList (emptyText header.chomping hasEnded (c.line = d.line) empties), d)
  else if d.isLeftOf column && !d.isLeftOf (indent + 1) then none
  else
    let l := Lines.read isLiteral column (d.rest.length + 1) { cursor := d, empties }
    some (String.ofList (l.finish header.chomping column), l.cursor)

end Bindery.Yaml.Block
