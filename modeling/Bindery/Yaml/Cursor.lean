/-!
# Places in a YAML text

A place knows its line and its column, because both carry meaning, and whether anything but blanks
stands before it on its line.
-/

namespace Bindery.Yaml

/-! ## Characters -/

def isBlank (c : Char) : Bool := c = ' ' || c = '\t'

def isBreak (c : Char) : Bool := c = '\n' || c = '\r'

/-- Characters that open, divide and close collections in brackets. -/
def isFlowMark (c : Char) : Bool := [',', '[', ']', '\x7b', '\x7d'].contains c

def isNameChar (c : Char) : Bool := c.isAlphanum || c = '_' || c = '-'

/-- Whether a text is at its end or at the end of a line. -/
def atLineEnd : List Char → Bool
  | [] => true
  | c :: _ => isBreak c

/-- Whether a text is at its end, at the end of a line, or at a blank. -/
def atGap : List Char → Bool
  | [] => true
  | c :: _ => isBlank c || isBreak c

/-- Whether a text goes on with a mark of a collection in brackets. -/
def atFlowMark : List Char → Bool
  | [] => false
  | c :: _ => isFlowMark c

/-! ## Places -/

/-- A place in a text, with all that follows. -/
structure Cursor where
  rest : List Char
  index : Nat := 0
  line : Nat := 0
  column : Nat := 0
  /-- Whether nothing but blanks stands before the place on its line. -/
  isFresh : Bool := true

namespace Cursor

/-- The place behind one character. A carriage return with a line feed counts as one end of a
line. -/
def next (c : Cursor) : Cursor :=
  match c.rest with
  | [] => c
  | '\r' :: '\n' :: rest => { rest, index := c.index + 2, line := c.line + 1 }
  | d :: rest =>
    if isBreak d then { rest, index := c.index + 1, line := c.line + 1 }
    else
      { c with
        rest, index := c.index + 1, column := c.column + 1, isFresh := c.isFresh && isBlank d }

def advance (c : Cursor) : Nat → Cursor
  | 0 => c
  | n + 1 => c.next.advance n

/-- The characters of the line that pass a test, as long as they do. -/
def run (c : Cursor) (p : Char → Bool) : List Char := c.rest.takeWhile fun d => p d && !isBreak d

/-- The place behind the characters of the line that pass a test. -/
def skip (c : Cursor) (p : Char → Bool) : Cursor := c.advance (c.run p).length

def toLineEnd (c : Cursor) : Cursor := c.skip fun _ => true

/-- The place behind blanks and a comment. A comment needs a blank in front of it. -/
def pastRemark? (c : Cursor) : Option Cursor :=
  let d := c.skip isBlank
  match d.rest with
  | '#' :: _ => if d.index = c.index then none else some d.toLineEnd
  | _ => some d

def isLeftOf (c : Cursor) (column : Int) : Bool := (c.column : Int) < column

def atDocumentStart (c : Cursor) : Bool :=
  match c.column, c.rest with
  | 0, '-' :: '-' :: '-' :: rest => atGap rest
  | _, _ => false

def atDocumentEnd (c : Cursor) : Bool :=
  match c.column, c.rest with
  | 0, '.' :: '.' :: '.' :: rest => atGap rest
  | _, _ => false

def atDivider (c : Cursor) : Bool := c.atDocumentStart || c.atDocumentEnd

/-- The place behind blanks, ends of lines and comments. A tab does not indent: left of the given
column it may only stand on a line with nothing else. The first argument bounds the steps. -/
def pastGaps? (column : Option Int) : Nat → Cursor → Option Cursor
  | 0, c => some c
  | fuel + 1, c =>
    match c.rest with
    | '\t' :: _ =>
      if c.isFresh && column.any c.isLeftOf then
        match c.pastRemark? with
        | some d => if atLineEnd d.rest then pastGaps? column fuel d else none
        | none => none
      else pastGaps? column fuel c.next
    | '#' :: _ => pastGaps? column fuel c.toLineEnd
    | d :: _ => if d = ' ' || isBreak d then pastGaps? column fuel c.next else some c
    | [] => some c

/-- The place behind blanks without tabs, ends of lines and comments. -/
def pastSpaces : Nat → Cursor → Cursor
  | 0, c => c
  | fuel + 1, c =>
    match c.rest with
    | '#' :: _ => pastSpaces fuel c.toLineEnd
    | d :: _ => if d = ' ' || isBreak d then pastSpaces fuel c.next else c
    | [] => c

end Cursor

end Bindery.Yaml
