import Bindery.Yaml.Node
import Bindery.Yaml.Token.Lexer

/-!
# YAML documents

Tokens become the nodes of a document. What an anchor names is kept as soon as it is complete, and
an alias stands for it from then on.
-/

namespace Bindery.Yaml

/-- Tokens that are left, and the labels that count for them. -/
structure Reading where
  tokens : List Token
  /-- What handles stand for. -/
  handles : List (String × String) := []
  /-- The number of the node that an anchor names, the latest first. -/
  anchors : List (String × Nat) := []
  /-- The nodes with anchors that are complete, by number. -/
  finished : List (Nat × Node) := []
  /-- How many anchors there are. -/
  count : Nat := 0

abbrev ReadNode := Option (Node × Reading)

namespace Reading

def past (r : Reading) (tokens : List Token) : Reading := { r with tokens }

/-- Whether the next token is one of some. -/
def isAt (r : Reading) (tokens : List Token) : Bool := r.tokens.head?.any tokens.contains

def stem? (r : Reading) (handle : String) : Option String :=
  (r.handles.find? fun h => h.1 = handle).map (·.2)

/-- A tag with its handle replaced. The handle of the core family need not be declared; any other
closed handle has to be. -/
def tag? (r : Reading) (spelling : TagSpelling) : Option Tag :=
  let ⟨handle, suffix⟩ := spelling
  match r.stem? handle with
  | some stem => some ⟨stem, suffix⟩
  | none =>
    if handle = "!!" then some ⟨coreStem, suffix⟩
    else if isClosedHandle handle then none
    else some ⟨handle, suffix⟩

/-- The labels of a node. -/
structure Labels where
  /-- The number of the node, if it has an anchor. -/
  number : Option Nat := none
  tag : Option Tag := none

def anchor (r : Reading) (name : String) : Nat × Reading :=
  (r.count, { r with anchors := (name, r.count) :: r.anchors, count := r.count + 1 })

/-- Takes an anchor and a tag in either order; both may be missing. -/
def labels? (r : Reading) : Option (Labels × Reading) :=
  match r.tokens with
  | .anchor name :: .tag spelling :: rest => do
    let tag ← r.tag? spelling
    let (number, r) := r.anchor name
    return ({ number, tag }, r.past rest)
  | .anchor name :: rest =>
    let (number, r) := r.anchor name
    some ({ number }, r.past rest)
  | .tag spelling :: .anchor name :: rest => do
    let tag ← r.tag? spelling
    let (number, r) := r.anchor name
    return ({ number, tag }, r.past rest)
  | .tag spelling :: rest => do
    let tag ← r.tag? spelling
    return ({ tag }, r.past rest)
  | _ => some ({}, r)

def named? (r : Reading) (name : String) : Option Node :=
  (r.anchors.find? fun a => a.1 = name).map fun a =>
    ((r.finished.find? fun f => f.1 = a.2).map (·.2)).getD .unfinished

/-- Keeps a node that is complete under its number. -/
def finish (labels : Labels) (n : Node) (r : Reading) : Node × Reading :=
  match labels.number with
  | none => (n, r)
  | some number => (n, { r with finished := (number, n) :: r.finished })

/-- What may stand in place of a node. -/
inductive Position where
  | inFlow
  | inBlock
  /-- The elements of a sequence may stand at the column of the mapping around it. -/
  | inMapping
  deriving DecidableEq

/-- Nothing, if one of some tokens comes next. -/
def nothing? (tokens : List Token) (r : Reading) : ReadNode :=
  if r.isAt tokens then some (.null, r) else none

mutual

/-- Reads a node; the first argument bounds the number of steps. -/
def node? (p : Position) : Nat → Reading → ReadNode
  | 0, _ => none
  | fuel + 1, r =>
    match r.tokens with
    | .alias name :: rest => (r.named? name).map fun n => (n, r.past rest)
    | _ =>
      r.labels?.bind fun (labels, r) =>
        (content? p labels fuel r).map fun (n, r) => finish labels n r

def content? (p : Position) (labels : Labels) : Nat → Reading → ReadNode
  | 0, _ => none
  | fuel + 1, r =>
    match r.tokens with
    | .scalar isPlain text :: rest =>
      some (.word (.ofScalar isPlain labels.tag text), r.past rest)
    | .flowSequenceStart :: rest =>
      (flowItems? true fuel (r.past rest)).map fun (l, r) => (.sequence l, r)
    | .flowMappingStart :: rest =>
      (flowMembers? true fuel (r.past rest)).map fun (l, r) => (.mapping l, r)
    | t :: rest =>
      if t = .blockEntry && p = .inMapping then
        (indentlessItems? fuel r).map fun (l, r) => (.sequence l, r)
      else if t = .blockSequenceStart && p ≠ .inFlow then
        (blockItems? fuel (r.past rest)).map fun (l, r) => (.sequence l, r)
      else if t = .blockMappingStart && p ≠ .inFlow then
        (blockMembers? fuel (r.past rest)).map fun (l, r) => (.mapping l, r)
      else if labels.number.isSome || labels.tag.isSome then
        some (.word (.ofScalar true labels.tag ""), r)
      else none
    | [] => none

def optional? (p : Position) (ending : List Token) : Nat → Reading → ReadNode
  | 0, _ => none
  | fuel + 1, r => (nothing? ending r).or (node? p fuel r)

def blockItems? : Nat → Reading → Option (List Node × Reading)
  | 0, _ => none
  | fuel + 1, r =>
    match r.tokens with
    | .blockEnd :: rest => some ([], r.past rest)
    | .blockEntry :: rest =>
      match optional? .inBlock [.blockEntry, .blockEnd] fuel (r.past rest) with
      | none => none
      | some (n, r) => (blockItems? fuel r).map fun (l, r) => (n :: l, r)
    | _ => none

/-- Reads elements that stand at the column of the mapping around them. -/
def indentlessItems? : Nat → Reading → Option (List Node × Reading)
  | 0, _ => none
  | fuel + 1, r =>
    match r.tokens with
    | .blockEntry :: rest =>
      match optional? .inBlock [.blockEntry, .key, .value, .blockEnd] fuel (r.past rest) with
      | none => none
      | some (n, r) => (indentlessItems? fuel r).map fun (l, r) => (n :: l, r)
    | _ => some ([], r)

/-- Reads keys and values up to the end of their collection. -/
def blockMembers? : Nat → Reading → Option (List Node × Reading)
  | 0, _ => none
  | fuel + 1, r =>
    match r.tokens with
    | .blockEnd :: rest => some ([], r.past rest)
    | .key :: rest =>
      match optional? .inMapping [.key, .value, .blockEnd] fuel (r.past rest) with
      | none => none
      | some (k, r) => blockValue? k fuel r
    | .value :: _ => blockValue? .null fuel r
    | _ => none

/-- Reads the value of a key, and all that follows in the collection. -/
def blockValue? (k : Node) : Nat → Reading → Option (List Node × Reading)
  | 0, _ => none
  | fuel + 1, r =>
    let value := match r.tokens with
      | .value :: rest => optional? .inMapping [.key, .value, .blockEnd] fuel (r.past rest)
      | _ => some (.null, r)
    match value with
    | none => none
    | some (v, r) => (blockMembers? fuel r).map fun (l, r) => (k :: v :: l, r)

/-- Reads elements up to the closing bracket. Those behind the first one follow a comma. -/
def flowItems? (isFirst : Bool) : Nat → Reading → Option (List Node × Reading)
  | 0, _ => none
  | fuel + 1, r =>
    match r.tokens with
    | .flowSequenceEnd :: rest => some ([], r.past rest)
    | .flowEntry :: rest => if isFirst then none else flowItem? fuel (r.past rest)
    | _ => if isFirst then flowItem? fuel r else none

/-- Reads an element, if there is one, and all that follow. -/
def flowItem? : Nat → Reading → Option (List Node × Reading)
  | 0, _ => none
  | fuel + 1, r =>
    match r.tokens with
    | .flowSequenceEnd :: rest => some ([], r.past rest)
    | .key :: rest =>
      match flowPair? fuel (r.past rest) with
      | none => none
      | some (n, r) => (flowItems? false fuel r).map fun (l, r) => (n :: l, r)
    | _ =>
      match node? .inFlow fuel r with
      | none => none
      | some (n, r) => (flowItems? false fuel r).map fun (l, r) => (n :: l, r)

/-- Reads a mapping of one member without braces, behind the mark of its key. A mark in place of
the key is passed over. -/
def flowPair? : Nat → Reading → ReadNode
  | 0, _ => none
  | fuel + 1, r =>
    let key := if r.isAt [.value, .flowEntry, .flowSequenceEnd] then
        some (.null, r.past (r.tokens.drop 1))
      else node? .inFlow fuel r
    match key with
    | none => none
    | some (k, r) =>
      let value := match r.tokens with
        | .value :: rest => optional? .inFlow [.flowEntry, .flowSequenceEnd] fuel (r.past rest)
        | _ => some (.null, r)
      value.map fun (v, r) => (.mapping [k, v], r)

/-- Reads keys and values up to the closing brace. Those behind the first ones follow a comma. -/
def flowMembers? (isFirst : Bool) : Nat → Reading → Option (List Node × Reading)
  | 0, _ => none
  | fuel + 1, r =>
    match r.tokens with
    | .flowMappingEnd :: rest => some ([], r.past rest)
    | .flowEntry :: rest => if isFirst then none else flowMember? fuel (r.past rest)
    | _ => if isFirst then flowMember? fuel r else none

/-- Reads a key and its value, if there are any, and all that follow. -/
def flowMember? : Nat → Reading → Option (List Node × Reading)
  | 0, _ => none
  | fuel + 1, r =>
    match r.tokens with
    | .flowMappingEnd :: rest => some ([], r.past rest)
    | .key :: rest =>
      match optional? .inFlow [.value, .flowEntry, .flowMappingEnd] fuel (r.past rest) with
      | none => none
      | some (k, r) => flowValue? k fuel r
    | .value :: _ => flowValue? .null fuel r
    | _ =>
      match node? .inFlow fuel r with
      | none => none
      | some (k, r) => (flowMembers? false fuel r).map fun (l, r) => (k :: .null :: l, r)

/-- Reads the value of a key, and all that follows in the braces. -/
def flowValue? (k : Node) : Nat → Reading → Option (List Node × Reading)
  | 0, _ => none
  | fuel + 1, r =>
    let value := match r.tokens with
      | .value :: rest => optional? .inFlow [.flowEntry, .flowMappingEnd] fuel (r.past rest)
      | _ => some (.null, r)
    match value with
    | none => none
    | some (v, r) => (flowMembers? false fuel r).map fun (l, r) => (k :: v :: l, r)

end

/-- Takes directives. Only the last one counts for handles, and a version is given once. -/
def directives? : Bool → List Token → Reading → Option Reading
  | hasVersion, .versionDirective :: rest, r =>
    if hasVersion then none else directives? true rest { r with handles := [] }
  | hasVersion, .handleDirective handle stem :: rest, r =>
    directives? hasVersion rest { r with handles := [(handle, stem)] }
  | _, tokens, r => some (r.past tokens)

end Reading

/-- Steps enough to read some tokens: of each token, a few functions ask in turn. -/
def Reading.enough (r : Reading) : Nat := 8 * r.tokens.length + 8

def Token.opensDocument : Token → Bool
  | documentStart => true
  | versionDirective => true
  | handleDirective _ _ => true
  | _ => false

def Token.endsDocument (t : Token) : Bool := t.opensDocument || t = documentEnd || t = streamEnd

def Node.read? (tokens : List Token) : ReadNode :=
  match tokens with
  | [] => none
  | t :: _ =>
    let r : Reading := { tokens }
    if t.opensDocument then
      (r.directives? false tokens).bind fun r =>
        match r.tokens with
        | .documentStart :: rest =>
          let r := r.past rest
          if rest.head?.any Token.endsDocument then some (.null, r)
          else r.node? .inBlock r.enough
        | _ => none
    else r.node? .inBlock r.enough

/-- The only document of some tokens; the outer option is none if there is not at most one. -/
def Node.ofTokens? (tokens : List Token) : Option (Option Node) :=
  match tokens.dropWhile (· = .documentEnd) with
  | [.streamEnd] => some none
  | tokens =>
    (Node.read? tokens).bind fun (n, r) =>
      match r.tokens.dropWhile (· = .documentEnd) with
      | [.streamEnd] => some (some n)
      | _ => none

/-- The value that a text spells. A text without a document is an empty table. -/
def parse? (s : String) : Option LooseValue :=
  (Token.scan? s).bind fun tokens =>
    (Node.ofTokens? tokens).bind fun
      | none => some (.table [])
      | some n => n.toLoose?

end Bindery.Yaml
