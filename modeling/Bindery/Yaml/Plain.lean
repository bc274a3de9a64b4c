import Bindery.Yaml.Cursor

/-!
# Plain scalars

A scalar without quotes goes on over lines as long as these are indented. One end of a line within
it counts as a blank, and empty lines count as themselves.
-/

namespace Bindery.Yaml

/-- What stands between two words of a scalar. -/
structure Gap where
  blanks : List Char := []
  /-- Whether a line ends in the gap. -/
  isFolded : Bool := false
  /-- How many lines in the gap are empty. -/
  empties : Nat := 0

namespace Gap

def text (g : Gap) : List Char :=
  if !g.isFolded then g.blanks ++ List.replicate g.empties '\n'
  else if g.empties = 0 then [' ']
  else List.replicate g.empties '\n'

end Gap

namespace Plain

/-- Whether a plain scalar may go on with the next character. -/
def goesOn (inFlow : Bool) : List Char → Bool
  | [] => false
  | ':' :: rest => !(atGap rest || (inFlow && atFlowMark rest))
  | c :: _ => !(inFlow && isFlowMark c)

def word (inFlow : Bool) : List Char → List Char
  | [] => []
  | c :: rest =>
    if atGap (c :: rest) || !goesOn inFlow (c :: rest) then [] else c :: word inFlow rest

/-- Goes past the gap behind a word. A tab does not indent: left of the column of the scalar it may
only stand on a line with nothing else. -/
def gap? (column : Int) : Nat → Cursor → Gap → Option (Cursor × Gap)
  | 0, c, g => some (c, g)
  | fuel + 1, c, g =>
    match c.rest with
    | [] => some (c, g)
    | d :: _ =>
      if isBlank d then
        if !c.isFresh then gap? column fuel c.next { g with blanks := g.blanks ++ [d] }
        else if d = '\t' && c.isLeftOf column then
          match c.pastRemark? with
          | some c => if atLineEnd c.rest then gap? column fuel c g else none
          | none => none
        else gap? column fuel c.next g
      else if isBreak d then
        gap? column fuel c.next
          (if c.isFresh then { g with empties := g.empties + 1 }
            else { g with blanks := [], isFolded := true })
      else some (c, g)

/-- Reads words and the gaps between them, behind the text and the gap that were read. -/
def words? (inFlow : Bool) (column : Int) :
    Nat → Cursor → List Char → Gap → Option (List Char × Cursor)
  | 0, c, text, _ => some (text, c)
  | fuel + 1, c, text, g =>
    if c.atDivider || c.rest.head? = some '#' then some (text, c)
    else if inFlow && c.rest.head? = some '-' && atFlowMark (c.rest.drop 1) then none
    else
      let added := word inFlow c.rest
      let c := c.advance added.length
      let (text, g) := if added.isEmpty then (text, g) else (text ++ g.text ++ added, {})
      if c.rest.isEmpty || !atGap c.rest then some (text, c)
      else
        match gap? column (c.rest.length + 1) c g with
        | none => none
        | some (c, g) =>
          if !inFlow && c.isLeftOf column then some (text, c)
          else words? inFlow column fuel c text g

/-- Reads a plain scalar; its lines reach from a column to the right. -/
def scan? (inFlow : Bool) (column : Int) (c : Cursor) : Option (String × Cursor) :=
  if inFlow && c.isLeftOf column then none
  else
    (words? inFlow column (c.rest.length + 1) c [] {}).map fun (text, c) => (String.ofList text, c)

end Plain

end Bindery.Yaml
