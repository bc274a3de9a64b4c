import Bindery.Yaml.Cursor
import Bindery.Yaml.Token

/-!
# Layout of YAML tokens

What is known while tokens are read: the columns of the collections that are open, and the places
that turn out to be keys if a colon follows. A collection by indentation opens where something
stands farther to the right than before, and closes where something stands farther to the left.
-/

namespace Bindery.Yaml

/-- A column that a collection or a value behind a mark has taken the place of. -/
structure Level where
  /-- The column that counts again at the end. -/
  outer : Int
  /-- Whether the level is a collection, whose end is a token. -/
  isCollection : Bool

/-- A place where a key may have begun. -/
structure KeyPlace where
  isPossible : Bool := false
  /-- Whether nothing but a key may stand there. -/
  isRequired : Bool := false
  /-- How many tokens stand before it. -/
  position : Nat := 0
  cursor : Cursor := { rest := [] }

/-- The longest way from the beginning of a key to its colon. -/
def maxKeyLength : Nat := 1024

/-- The greatest number of open brackets. -/
def maxFlowDepth : Nat := 255

/-- Tokens as far as they were read, and what counts for the next one. -/
structure Layout where
  cursor : Cursor
  /-- The last token first. -/
  reversed : List Token := []
  count : Nat := 0
  /-- The column of the innermost collection. -/
  indent : Int := -1
  levels : List Level := []
  flowDepth : Nat := 0
  /-- For every open bracket and the text around them, the innermost first. -/
  keys : List KeyPlace := [{}]
  keyAllowed : Bool := true
  /-- Where a colon may stand without a gap behind it. -/
  adjacentAt : Option Nat := none
  mappingStarted : Bool := false
  /-- For every open square bracket, whether a mapping without braces is open in it. -/
  pairs : List Bool := []

namespace Layout

def inFlow (l : Layout) : Bool := 0 < l.flowDepth

def goTo (l : Layout) (cursor : Cursor) : Layout := { l with cursor }

def push (l : Layout) (t : Token) : Layout :=
  { l with reversed := t :: l.reversed, count := l.count + 1 }

def insertAt (l : Layout) (position : Nat) (t : Token) : Layout :=
  let later := l.count - position
  { l with
    reversed := l.reversed.take later ++ t :: l.reversed.drop later, count := l.count + 1 }

/-! ## Columns -/

def inCollection (l : Layout) : Bool := l.levels.head?.any (·.isCollection)

/-- Closes the levels right of a column. Brackets close by themselves. -/
def close (l : Layout) (column : Int) : Layout :=
  if l.inFlow then l else go l.levels l
where
  /-- Closes levels from the innermost one on. -/
  go : List Level → Layout → Layout
    | [], l => l
    | level :: outer, l =>
      if l.indent ≤ column then l
      else
        let l := { l with indent := level.outer, levels := outer }
        go outer (if level.isCollection then l.push .blockEnd else l)

/-- Closes the innermost levels that are no collections. -/
def closeValues (l : Layout) : Layout :=
  go l.levels l
where
  /-- Closes levels from the innermost one on. -/
  go : List Level → Layout → Layout
    | [], l => l
    | level :: outer, l =>
      if level.isCollection then l else go outer { l with indent := level.outer, levels := outer }

/-- Asks what follows a mark of the innermost collection to stand right of its column. -/
def openValue (l : Layout) : Layout :=
  if !l.inFlow && l.inCollection then
    { l with levels := ⟨l.indent, false⟩ :: l.levels, indent := l.indent + 1 }
  else l

/-- Opens a collection at a column, unless it is open or brackets are; its token stands at a
position. -/
def openCollection (l : Layout) (column position : Nat) (t : Token) : Layout :=
  if l.inFlow then l
  else
    let l := match l.levels with
      | ⟨outer, false⟩ :: levels =>
        if l.indent ≤ (column : Int) then { l with indent := outer, levels } else l
      | _ => l
    if l.indent < (column : Int) then
      { (l.insertAt position t) with levels := ⟨l.indent, true⟩ :: l.levels, indent := column }
    else l

/-! ## Keys -/

def key (l : Layout) : KeyPlace := l.keys.headD {}

def withKey (l : Layout) (k : KeyPlace) : Layout := { l with keys := k :: l.keys.drop 1 }

def allowKey (l : Layout) (keyAllowed : Bool) : Layout := { l with keyAllowed }

def markKey (l : Layout) : Layout :=
  if l.keyAllowed then
    l.withKey
      { isPossible := true
        isRequired := !l.inFlow && l.indent = l.cursor.column && l.inCollection
        position := l.count
        cursor := l.cursor }
  else l

/-- Forgets the innermost place of a key. There is no layout if a key was required. -/
def dropKey? (l : Layout) : Option Layout :=
  if l.key.isPossible && l.key.isRequired then none
  else some (l.withKey { l.key with isPossible := false })

def isStale (l : Layout) (k : KeyPlace) : Bool :=
  k.isPossible && !l.inFlow &&
    (k.cursor.line < l.cursor.line || k.cursor.index + maxKeyLength < l.cursor.index)

def dropStale? (l : Layout) : Option Layout :=
  if l.keys.any fun k => l.isStale k && k.isRequired then none
  else
    some { l with
      keys := l.keys.map fun k => { k with isPossible := k.isPossible && !l.isStale k } }

/-! ## Brackets -/

def enter? (l : Layout) : Option Layout :=
  if l.flowDepth < maxFlowDepth then
    some { l with flowDepth := l.flowDepth + 1, keys := {} :: l.keys }
  else none

def leave (l : Layout) : Layout :=
  if l.inFlow then { l with flowDepth := l.flowDepth - 1, keys := l.keys.drop 1 } else l

/-- Ends the mapping without braces in the innermost square brackets, if one is open. -/
def closePair (l : Layout) : Layout :=
  match l.pairs with
  | true :: rest =>
    { (l.push .flowMappingEnd) with pairs := false :: rest, mappingStarted := false }
  | _ => l

end Layout

end Bindery.Yaml
