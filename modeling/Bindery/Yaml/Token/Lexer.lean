import Bindery.Yaml.Block
import Bindery.Yaml.Label
import Bindery.Yaml.Quoted
import Bindery.Yaml.Token.Layout

/-!
# Reading YAML tokens

A text becomes tokens from left to right. There are none if it breaks a rule of the format on the
way.
-/

namespace Bindery.Yaml

namespace Layout

/-- Goes to the next token. A key may stand at the beginning of a line. -/
def pastGaps? (l : Layout) : Option Layout :=
  let column := if l.levels.isEmpty then none else some l.indent
  (l.cursor.pastGaps? column (l.cursor.rest.length + 1)).map fun c =>
    { l with cursor := c, keyAllowed := l.keyAllowed || (!l.inFlow && l.cursor.line < c.line) }

def pastRemark? (l : Layout) : Option Layout := l.cursor.pastRemark?.map l.goTo

/-- Ends everything before a mark between documents. -/
def endDocument? (l : Layout) : Option Layout :=
  (l.close (-1)).dropKey?.map fun l => l.allowKey false

/-! ## Marks -/

def streamEnd? (l : Layout) : Option Layout :=
  if l.keys.any fun k => k.isPossible && k.isRequired then none
  else some ((l.close (-1)).push .streamEnd)

def directive? (l : Layout) : Option Layout :=
  l.endDocument?.bind fun l => (Yaml.directive? l.cursor).map fun (t, c) => (l.push t).goTo c

def documentStart? (l : Layout) : Option Layout :=
  l.endDocument?.map fun l => (l.push .documentStart).goTo (l.cursor.advance 3)

/-- Reads the mark behind a document, which stands alone on its line. -/
def documentEnd? (l : Layout) : Option Layout := do
  let l ← l.endDocument?
  let l ← ((l.push .documentEnd).goTo (l.cursor.advance 3)).pastRemark?
  if atLineEnd l.cursor.rest then return l else none

def flowStart? (isMapping : Bool) (l : Layout) : Option Layout := do
  let l ← l.markKey.openValue.enter?
  let l := (l.allowKey true).push (if isMapping then .flowMappingStart else .flowSequenceStart)
  let l := if isMapping then { l with mappingStarted := true }
    else { l with pairs := false :: l.pairs }
  (l.goTo l.cursor.next).pastRemark?

/-- Reads a closing bracket. In brackets, a colon may follow it without a gap. -/
def flowEnd? (isMapping : Bool) (l : Layout) : Option Layout := do
  let l ← l.dropKey?
  let l := l.leave.allowKey false
  let l := if isMapping then l else { l.closePair with pairs := l.pairs.drop 1 }
  let l := l.push (if isMapping then .flowMappingEnd else .flowSequenceEnd)
  let l ← (l.goTo l.cursor.next).pastRemark?
  return if l.inFlow then { l with adjacentAt := some l.cursor.index } else l

def flowEntry? (l : Layout) : Option Layout := do
  let l ← l.dropKey?
  let l := (l.allowKey true).closePair.push .flowEntry
  (l.goTo l.cursor.next).pastRemark?

def blockEntry? (l : Layout) : Option Layout := do
  if l.inFlow || !l.keyAllowed then none
  let l := l.openCollection l.cursor.column l.count .blockSequenceStart
  let c := l.cursor.next
  let hasTab := (c.run isBlank).contains '\t'
  let c ← c.pastRemark?
  if hasTab && c.rest.head? = some '-' && atGap (c.rest.drop 1) then none
  let l := if !c.rest.isEmpty && (atLineEnd c.rest || atFlowMark c.rest) then l.openValue else l
  let l ← l.dropKey?
  return ((l.allowKey true).push .blockEntry).goTo c

def explicitKey? (l : Layout) : Option Layout := do
  if !l.inFlow && !l.keyAllowed then none
  let l := if l.inFlow then { l with mappingStarted := true }
    else l.openCollection l.cursor.column l.count .blockMappingStart
  let l ← l.dropKey?
  let mark := l.cursor.next
  let c := mark.pastSpaces (mark.rest.length + 1)
  let hasSpace := match mark.rest with
    | d :: _ => d = ' ' || isBreak d
    | [] => false
  if !hasSpace || c.rest.head? = some '\t' then none
  return ((l.allowKey !l.inFlow).push .key).goTo c

/-- Whether a tab alone divides a colon from a word. -/
def isTabbed (c : Cursor) : Bool :=
  c.rest.head? = some '\t' && !(c.run isBlank).contains ' ' &&
    (c.skip isBlank).rest.head?.any isNameChar

def pastColon? (l : Layout) : Option Layout :=
  let l := l.goTo l.cursor.next
  if isTabbed l.cursor then none
  else if l.cursor.rest.head? = some '\t' then l.pastRemark?
  else some l

/-- Reads the colon behind a key. In square brackets it opens a mapping of one member, unless a
mapping has been opened before. -/
def value? (l : Layout) : Option Layout := do
  let colon := l.cursor
  let k := l.key
  let isPair := !l.pairs.isEmpty && !l.mappingStarted
  let l := if isPair then { l with pairs := true :: l.pairs.drop 1 } else l
  let l ← l.pastColon?
  if k.isPossible then
    if isPair && k.cursor.line < colon.line then none
    let l := l.insertAt k.position .key
    let l := if isPair then l.insertAt k.position .flowMappingStart else l
    let l := (l.openCollection k.cursor.column k.position .blockMappingStart).openValue
    return ((l.withKey { l.key with isPossible := false }).allowKey false).push .value
  else
    let l := if isPair then l.push .flowMappingStart else l
    if !l.inFlow && !l.keyAllowed then none
    let l := (l.openCollection colon.column l.count .blockMappingStart).openValue
    return (l.allowKey !l.inFlow).push .value

/-! ## Labels and scalars -/

def anchor? (l : Layout) : Option Layout :=
  (anchorName? l.cursor.next).map fun (name, c) =>
    ((l.markKey.allowKey false).push (.anchor name)).goTo c

def alias? (l : Layout) : Option Layout :=
  (anchorName? l.cursor.next).map fun (name, c) =>
    ((l.markKey.allowKey false).push (.alias name)).goTo c

def tag? (l : Layout) : Option Layout :=
  (Yaml.tag? l.inFlow l.cursor).map fun (spelling, c) =>
    ((l.markKey.allowKey false).push (.tag spelling)).goTo c

def blockScalar? (l : Layout) : Option Layout :=
  let l := (l.markKey.allowKey true).closeValues
  (Block.scan? l.indent l.cursor).map fun (text, c) => (l.push (.scalar false text)).goTo c

/-- Reads a quoted scalar. In brackets, a colon may follow it without a gap. -/
def quotedScalar? (l : Layout) : Option Layout := do
  let l := l.markKey.allowKey false
  let (text, c) ← Quoted.scan? l.inFlow l.indent l.cursor
  let l ← (l.goTo c).pastGaps?
  return { (l.push (.scalar false text)) with adjacentAt := some l.cursor.index }

/-- Reads a plain scalar. A key may follow it on a line of its own. -/
def plainScalar? (l : Layout) : Option Layout :=
  let l := (l.markKey.allowKey false).closeValues
  (Plain.scan? l.inFlow (l.indent + 1) l.cursor).map fun (text, c) =>
    ((l.push (.scalar true text)).allowKey c.isFresh).goTo c

/-! ## Tokens -/

/-- Whether the colon at the place stands behind a key. -/
def atValue (l : Layout) : Bool :=
  let behind := l.cursor.rest.drop 1
  atGap behind || (l.inFlow && (atFlowMark behind || l.adjacentAt = some l.cursor.index))

def token? (l : Layout) (c : Char) : Option Layout :=
  let isMark := atGap (l.cursor.rest.drop 1)
  match c with
  | '[' => l.flowStart? false
  | '\x7b' => l.flowStart? true
  | ']' => l.flowEnd? false
  | '\x7d' => l.flowEnd? true
  | ',' => l.flowEntry?
  | '-' => if isMark then l.blockEntry? else l.plainScalar?
  | '?' => if isMark then l.explicitKey? else l.plainScalar?
  | ':' => if l.atValue then l.value? else l.plainScalar?
  | '*' => l.alias?
  | '&' => l.anchor?
  | '!' => l.tag?
  | '|' => if l.inFlow then l.plainScalar? else l.blockScalar?
  | '>' => if l.inFlow then l.plainScalar? else l.blockScalar?
  | '\'' => l.quotedScalar?
  | '"' => l.quotedScalar?
  | '%' => none
  | '@' => none
  | '\x60' => none
  | _ => l.plainScalar?

def next? (l : Layout) : Option Layout := do
  let l ← l.pastGaps?
  let l ← l.dropStale?
  let l := l.close l.cursor.column
  match l.cursor.rest with
  | [] => l.streamEnd?
  | c :: _ =>
    if l.cursor.column = 0 && c = '%' then l.directive?
    else if l.cursor.atDocumentStart then l.documentStart?
    else if l.cursor.atDocumentEnd then l.documentEnd?
    else if l.cursor.isLeftOf l.indent then none
    else l.token? c

/-- Reads tokens up to the end of the text; the first argument bounds their number. -/
def all? : Nat → Layout → Option Layout
  | 0, _ => none
  | fuel + 1, l =>
    match l.next? with
    | none => none
    | some l => if l.reversed.head? = some .streamEnd then some l else all? fuel l

end Layout

/-- The tokens of a text, which ends at the first null character. -/
def Token.scan? (s : String) : Option (List Token) :=
  let cs := s.toList.takeWhile (· ≠ '\x00')
  (Layout.all? (cs.length + 1) { cursor := { rest := cs } }).map fun l => l.reversed.reverse

end Bindery.Yaml
