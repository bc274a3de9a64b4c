import Bindery.Json.Reader
import Bindery.Text.Letter
import Bindery.Text.Pattern
import Bindery.Toml.Reader

/-!
# Reading patterns

The written form of patterns. Classes of characters beyond ASCII and letters in either case are not
known unless a pattern confines itself to bytes, and in bytes a pattern has to keep to ASCII.
Repetitions by count, which need braces, are not known either.
-/

namespace Bindery.Pattern

/-- What flags ask for. -/
structure Flags where
  ignoresCase : Bool := false
  hasLines : Bool := false
  dotTakesLineFeed : Bool := false
  isLazy : Bool := false
  /-- Whether characters are meant, and not bytes. -/
  isWide : Bool := true
  anyLineEnd : Bool := false
  ignoresBlanks : Bool := false

def Flags.set? (f : Flags) (value : Bool) : Char → Option Flags
  | 'i' => some { f with ignoresCase := value }
  | 'm' => some { f with hasLines := value }
  | 's' => some { f with dotTakesLineFeed := value }
  | 'U' => some { f with isLazy := value }
  | 'u' => some { f with isWide := value }
  | 'R' => some { f with anyLineEnd := value }
  | 'x' => some { f with ignoresBlanks := value }
  | _ => none

/-- What is left of a pattern, and what counts for it. -/
structure Reader where
  rest : List Char
  flags : Flags := {}
  /-- The names of groups so far. -/
  names : List String := []

/-- The greatest number of constructs inside one another. -/
def maxNesting : Nat := 250

/-- A pattern, and how deep its constructs are nested. -/
structure Part where
  pattern : Pattern
  nesting : Nat := 0

/-- A set of characters, and how deep its constructs are nested. -/
structure SetPart where
  set : CharSet
  nesting : Nat := 0

namespace Reader

def past (r : Reader) (rest : List Char) : Reader := { r with rest }

/-- Goes past blanks and comments, where they do not count. The flag tells whether a comment is
open. -/
def skipBlanks : Bool → List Char → List Char
  | _, [] => []
  | true, c :: rest => skipBlanks (c != '\n') rest
  | false, c :: rest =>
    if Text.isBlank c then skipBlanks false rest
    else if c = '#' then skipBlanks true rest
    else c :: rest

/-- The reader at the next character that counts. -/
def settle (r : Reader) : Reader :=
  if r.flags.ignoresBlanks then r.past (skipBlanks false r.rest) else r

/-! ## Single characters -/

/-- What stands in place of a character. -/
inductive Single where
  | char (c : Char)
  | set (s : CharSet)
  | look (l : Look)

def digits : CharSet := .range '0' '9'

def letters : CharSet := .union (.range 'a' 'z') (.range 'A' 'Z')

def wordChars : CharSet := .ofList [letters, digits, .single '_']

def blanks : CharSet := .union (.range '\t' '\r') (.single ' ')

/-- Characters of ASCII that are no letters, digits, blanks or controls. -/
def punctuation : CharSet :=
  .ofList [.range '!' '/', .range ':' '@', .range '[' '\x60', .range '\x7b' '~']

def named? : String → Option CharSet
  | "alnum" => some (.union letters digits)
  | "alpha" => some letters
  | "ascii" => some (.range '\x00' '\x7f')
  | "blank" => some (.union (.single '\t') (.single ' '))
  | "cntrl" => some (.union (.range '\x00' '\x1f') (.single '\x7f'))
  | "digit" => some digits
  | "graph" => some (.range '!' '~')
  | "lower" => some (.range 'a' 'z')
  | "print" => some (.range ' ' '~')
  | "punct" => some punctuation
  | "space" => some blanks
  | "upper" => some (.range 'A' 'Z')
  | "word" => some wordChars
  | "xdigit" => some (.ofList [digits, .range 'a' 'f', .range 'A' 'F'])
  | _ => none

/-- The number of hexadecimal digits behind an escape that is a code. -/
def codeLength? : Char → Option Nat
  | 'x' => some 2
  | 'u' => some 4
  | 'U' => some 8
  | _ => none

def simpleEscape? : Char → Option Char
  | 'a' => some '\x07'
  | 'f' => some '\x0c'
  | 't' => some '\t'
  | 'n' => some '\n'
  | 'r' => some '\r'
  | 'v' => some '\x0b'
  | _ => none

/-- Whether a character stands for itself behind a backslash. -/
def isQuotable (c : Char) : Bool := c.toNat < 128 && !c.isAlphanum && c != '<' && c != '>'

/-- The class of an escape. There is none of characters beyond ASCII. -/
def classEscape? : Char → Option CharSet
  | 'd' => some digits
  | 's' => some blanks
  | 'w' => some wordChars
  | _ => none

/-- The condition of an escape, and whether it depends on what the characters of words are. -/
def lookEscape? : Char → Option (Look × Bool)
  | 'A' => some (.textStart, false)
  | 'z' => some (.textEnd, false)
  | 'b' => some (.wordBoundary, true)
  | 'B' => some (.noWordBoundary, true)
  | '<' => some (.wordStart, true)
  | '>' => some (.wordEnd, true)
  | _ => none

def letterEscape? (isWide : Bool) (c : Char) : Option Single :=
  if isQuotable c then some (.char c)
  else
    match simpleEscape? c, classEscape? c, lookEscape? c with
    | some d, _, _ => some (.char d)
    | _, some s, _ => if isWide then none else some (.set s)
    | _, _, some (l, dependsOnWords) =>
      if isWide && dependsOnWords then none else some (.look l)
    | _, _, _ => none

def escape? (r : Reader) : Option (Single × Reader) :=
  match r.rest with
  | [] => none
  | c :: rest =>
    match codeLength? c with
    | none => (letterEscape? r.flags.isWide c).map fun single => (single, r.past rest)
    | some length =>
      let digits := rest.take length
      if digits.length < length then none
      else
        ((Toml.hexNumber? digits).bind Toml.scalar?).map fun d =>
          (.char d, r.past (rest.drop length))

def mayStand (f : Flags) (c : Char) : Bool := f.isWide || c.toNat < 128

def charPattern? (f : Flags) (c : Char) : Option Pattern :=
  if !mayStand f c || (f.ignoresCase && f.isWide) then none
  else some (.char (if f.ignoresCase then .anyCase (.single c) else .single c))

def dotPattern? (f : Flags) : Option Pattern :=
  if !f.isWide then none
  else
    let ends : CharSet :=
      if f.dotTakesLineFeed then .empty
      else if f.anyLineEnd then .union (.single '\n') (.single '\r')
      else .single '\n'
    some (.char (.complement ends))

def startLook (f : Flags) : Look :=
  if !f.hasLines then .textStart else if f.anyLineEnd then .anyLineStart else .lineStart

def endLook (f : Flags) : Look :=
  if !f.hasLines then .textEnd else if f.anyLineEnd then .anyLineEnd else .lineEnd

/-- Reads what stands for one character outside of brackets. -/
def single? (r : Reader) : Option (Pattern × Reader) :=
  match r.rest with
  | [] => none
  | '.' :: rest => (dotPattern? r.flags).map fun p => (p, r.past rest)
  | '^' :: rest => some (.look (startLook r.flags), r.past rest)
  | '$' :: rest => some (.look (endLook r.flags), r.past rest)
  | '\\' :: rest =>
    (r.past rest).escape?.bind fun
      | (.char c, r) => (charPattern? r.flags c).map fun p => (p, r)
      | (.set s, r) => some (.char s, r)
      | (.look l, r) => some (.look l, r)
  | c :: rest => (charPattern? r.flags c).map fun p => (p, r.past rest)

/-! ## Classes in brackets -/

/-- How two sets in brackets are combined. -/
inductive SetOperation where
  | intersection
  | difference
  | symmetricDifference

/-- The operation that a text begins with, which is two marks of one kind. -/
def operation? : List Char → Option (SetOperation × List Char)
  | '&' :: '&' :: rest => some (.intersection, rest)
  | '-' :: '-' :: rest => some (.difference, rest)
  | '~' :: '~' :: rest => some (.symmetricDifference, rest)
  | _ => none

/-- A set in brackets as far as it was read. -/
structure OpenSet where
  isNegated : Bool := false
  /-- What stands before the last operation. -/
  left : Option (SetPart × SetOperation) := none
  /-- What was read since, the last item first. -/
  items : List SetPart := []

namespace OpenSet

def add (s : OpenSet) (item : SetPart) : OpenSet := { s with items := item :: s.items }

/-- The union of the items since the last operation. -/
def right (f : Flags) (s : OpenSet) : SetPart :=
  let set := CharSet.ofList (s.items.map (·.set))
  let deepest := (s.items.map (·.nesting)).foldl max 0
  { set := if f.ignoresCase then .anyCase set else set
    nesting := if s.items.length < 2 then deepest else deepest + 1 }

def upToHere (f : Flags) (s : OpenSet) : SetPart :=
  let right := s.right f
  match s.left with
  | none => right
  | some (left, operation) =>
    { set := match operation with
        | .intersection => .intersection left.set right.set
        | .difference => .difference left.set right.set
        | .symmetricDifference => .symmetricDifference left.set right.set
      nesting := max left.nesting right.nesting + 1 }

def operate (f : Flags) (s : OpenSet) (operation : SetOperation) : OpenSet :=
  { s with left := some (s.upToHere f, operation), items := [] }

/-- The set with its closing bracket. In bytes, no set reaches beyond ASCII. -/
def close? (f : Flags) (s : OpenSet) : Option SetPart :=
  if (f.isWide && f.ignoresCase) || (!f.isWide && s.isNegated) then none
  else
    let whole := s.upToHere f
    some
      { set := if s.isNegated then .complement whole.set else whole.set
        nesting := whole.nesting + 1 }

end OpenSet

def namedClass? (r : Reader) : Option (CharSet × Reader) :=
  match r.rest with
  | '[' :: ':' :: rest =>
    let (isNegated, rest) := match rest with
      | '^' :: rest => (true, rest)
      | rest => (false, rest)
    match rest.dropWhile (· ≠ ':') with
    | ':' :: ']' :: behind =>
      (named? (String.ofList (rest.takeWhile (· ≠ ':')))).map fun s =>
        (if isNegated then .complement s else s, r.past behind)
    | _ => none
  | _ => none

def isNegatedClass (r : Reader) : Bool := r.rest[2]? = some '^'

/-- Reads one item of a set: a character, or a class that is an escape. -/
def item? (r : Reader) : Option (Single × Reader) :=
  match r.rest with
  | [] => none
  | '\\' :: rest => (r.past rest).escape?
  | c :: rest => some (.char c, r.past rest)

/-- Whether a dash makes a range. In front of a closing bracket or another dash it does not. -/
def opensRange (r : Reader) : Bool :=
  match r.rest with
  | '-' :: rest =>
    let behind := (r.past rest).settle.rest.head?
    behind != some ']' && behind != some '-'
  | _ => false

def range? (r : Reader) : Option (CharSet × Reader) :=
  r.item?.bind fun (first, r) =>
    let r := r.settle
    if r.opensRange then
      match first, (r.past (r.rest.drop 1)).settle.item? with
      | .char first, some (.char last, r) =>
        if first ≤ last && mayStand r.flags last then some (.range first last, r)
        else none
      | _, _ => none
    else
      match first with
      | .char c => if mayStand r.flags c then some (.single c, r) else none
      | .set s => some (s, r)
      | .look _ => none

/-- Takes dashes, which stand for themselves at the beginning of a set. -/
def dashes : Nat → OpenSet → Reader → OpenSet × Reader
  | 0, s, r => (s, r)
  | bound + 1, s, r =>
    match r.rest with
    | '-' :: rest => dashes bound (s.add { set := .single '-' }) (r.past rest).settle
    | _ => (s, r)

/-- Begins a set behind its opening bracket. A closing bracket at the very beginning stands for
itself. -/
def openSet (r : Reader) : OpenSet × Reader :=
  let r := r.settle
  let (s, r) : OpenSet × Reader := match r.rest with
    | '^' :: rest => ({ isNegated := true }, (r.past rest).settle)
    | _ => ({}, r)
  let (s, r) := dashes r.rest.length s r
  match s.items, r.rest with
  | [], ']' :: rest => (s.add { set := .single ']' }, r.past rest)
  | _, _ => (s, r)

/-- Reads a set up to its closing bracket; the first argument bounds the number of steps. -/
def set? : Nat → OpenSet → Reader → Option (SetPart × Reader)
  | 0, _, _ => none
  | fuel + 1, s, r =>
    let r := r.settle
    match r.rest with
    | [] => none
    | ']' :: rest => (s.close? r.flags).map fun whole => (whole, r.past rest)
    | '[' :: rest =>
      match r.namedClass? with
      | some (set, behind) =>
        if !r.flags.isWide && r.isNegatedClass then none
        else set? fuel (s.add { set }) behind
      | none =>
        let (inner, r) := (r.past rest).openSet
        (set? fuel inner r).bind fun (inner, r) =>
          set? fuel (s.add { inner with nesting := inner.nesting }) r
    | _ =>
      match operation? r.rest with
      | some (operation, rest) => set? fuel (s.operate r.flags operation) (r.past rest)
      | none => r.range?.bind fun (set, r) => set? fuel (s.add { set }) r

/-! ## Groups -/

/-- Reads flags up to a colon or a closing bracket. A dash clears those behind it; no flag stands
twice, and a dash has one behind it. -/
def flags? (seen : List Char) (f : Flags) : List Char → Option (Flags × List Char)
  | [] => none
  | c :: rest =>
    if c = ':' || c = ')' then
      if seen.head? = some '-' || (c = ')' && seen.isEmpty) then none
      else some (f, c :: rest)
    else if seen.contains c then none
    else if c = '-' then flags? ('-' :: seen) f rest
    else (f.set? (!seen.contains '-') c).bind fun f => flags? (c :: seen) f rest

def isGroupName : List Char → Bool
  | [] => false
  | c :: rest =>
    (c = '_' || Text.isAlphabetic c) &&
      rest.all fun d => ['_', '.', '[', ']'].contains d || Text.isAlphanumeric d

/-- Reads the name of a group and the bracket behind it. No two groups have one name. -/
def groupName? (r : Reader) : Option Reader :=
  let name := r.rest.takeWhile (· ≠ '>')
  match r.rest.dropWhile (· ≠ '>') with
  | _ :: rest =>
    if isGroupName name && !r.names.contains (String.ofList name) then
      some { r with rest, names := String.ofList name :: r.names }
    else none
  | [] => none

/-- What an opening bracket begins. -/
inductive Opening where
  /-- Flags for what is left of the group around them. -/
  | flags
  | group

/-- Reads what says how a group is meant, behind its opening bracket. -/
def opening? (r : Reader) : Option (Opening × Reader) :=
  let r := r.settle
  match r.rest with
  | '?' :: 'P' :: '<' :: rest => (r.past rest).groupName?.map fun r => (.group, r)
  | '?' :: '<' :: rest => (r.past rest).groupName?.map fun r => (.group, r)
  | '?' :: rest =>
    (flags? [] r.flags rest).map fun (flags, rest) =>
      (if rest.head? = some ')' then .flags else .group, { r with rest := rest.drop 1, flags })
  | _ => some (.group, r)

/-! ## Whole patterns -/

/-- Parts one behind the other. Flags stand among them as nothing. -/
def sequence (reversed : List (Option Part)) : Part :=
  let parts := reversed.reverse.filterMap id
  let deepest := (parts.map (·.nesting)).foldl max 0
  { pattern := .ofList (parts.map (·.pattern))
    nesting := if reversed.length < 2 then deepest else deepest + 1 }

def alternatives (parts : List Part) : Part :=
  let deepest := (parts.map (·.nesting)).foldl max 0
  { pattern := .anyOf (parts.map (·.pattern))
    nesting := if parts.length < 2 then deepest else deepest + 1 }

/-- The pattern that a mark of repetition makes of another one. -/
def repeated? (isGreedy : Bool) (p : Pattern) : Char → Option Pattern
  | '?' => some (p.optional isGreedy)
  | '*' => some (p.many isGreedy)
  | '+' => some (.plus isGreedy p)
  | _ => none

/-- Takes a mark of repetition for the last part. A question mark behind it turns its preference
around. -/
def repeat? (mark : Char) (reversed : List (Option Part)) (r : Reader) :
    Option (List (Option Part) × Reader) :=
  match reversed with
  | some part :: before =>
    let (isPlain, r) := match r.rest with
      | '?' :: rest => (false, r.past rest)
      | _ => (true, r)
    (repeated? (isPlain != r.flags.isLazy) part.pattern mark).map fun pattern =>
      (some { pattern, nesting := part.nesting + 1 } :: before, r)
  | _ => none

mutual

/-- Reads alternatives up to the end of their group; the first argument bounds the steps. -/
def branches? : Nat → Reader → Option (List Part × Reader)
  | 0, _ => none
  | fuel + 1, r =>
    match items? fuel [] r with
    | none => none
    | some (part, r) =>
      match r.rest with
      | '|' :: rest => (branches? fuel (r.past rest)).map fun (parts, r) => (part :: parts, r)
      | _ => some ([part], r)

/-- Reads parts up to the end of their alternative, behind those already read. -/
def items? : Nat → List (Option Part) → Reader → Option (Part × Reader)
  | 0, _, _ => none
  | fuel + 1, reversed, r =>
    let r := r.settle
    match r.rest with
    | [] => some (sequence reversed, r)
    | c :: rest =>
      if c = ')' || c = '|' then some (sequence reversed, r)
      else if c = '(' then
        match (r.past rest).opening? with
        | none => none
        | some (.flags, r) => items? fuel (none :: reversed) r
        | some (.group, inner) =>
          match branches? fuel inner with
          | some (parts, behind) =>
            let part := alternatives parts
            match behind.rest with
            | ')' :: rest =>
              items? fuel (some { part with nesting := part.nesting + 1 } :: reversed)
                { behind with rest, flags := r.flags }
            | _ => none
          | none => none
      else if c = '[' then
        let (s, inner) := (r.past rest).openSet
        match set? (inner.rest.length + 1) s inner with
        | none => none
        | some (whole, r) =>
          items? fuel (some ⟨.char whole.set, whole.nesting⟩ :: reversed) r
      else if c = '?' || c = '*' || c = '+' then
        match repeat? c reversed (r.past rest) with
        | none => none
        | some (reversed, r) => items? fuel reversed r
      else if c = '\x7b' then none
      else
        match r.single? with
        | none => none
        | some (pattern, r) => items? fuel (some { pattern } :: reversed) r

end

end Reader

def parse? (s : String) : Option Pattern :=
  let r : Reader := { rest := s.toList }
  (r.branches? (2 * r.rest.length + 4)).bind fun (parts, r) =>
    let whole := Reader.alternatives parts
    if r.rest.isEmpty && whole.nesting ≤ maxNesting then some whole.pattern else none

end Bindery.Pattern
