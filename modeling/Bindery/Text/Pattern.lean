/-!
# Patterns

Regular expressions, and when one accepts a text. A pattern may begin anywhere in a text but has
to end with it. The ways to go on are tried in the order of preference that the pattern gives them,
all at once: where a preferred way is complete, those behind it are given up, and so a pattern that
would rather stop early does not reach the end of the text.
-/

namespace Bindery

/-- Characters that stand for each other in a pattern. -/
inductive CharSet where
  | empty
  | range (first last : Char)
  | union (a b : CharSet)
  | intersection (a b : CharSet)
  | difference (a b : CharSet)
  | symmetricDifference (a b : CharSet)
  | complement (s : CharSet)
  /-- Letters of ASCII in either case. -/
  | anyCase (s : CharSet)
  deriving DecidableEq, Repr

namespace CharSet

def single (c : Char) : CharSet := range c c

def ofList (l : List CharSet) : CharSet := l.foldr union empty

def holds : CharSet → Char → Bool
  | empty, _ => false
  | range first last, c => first ≤ c && c ≤ last
  | union a b, c => a.holds c || b.holds c
  | intersection a b, c => a.holds c && b.holds c
  | difference a b, c => a.holds c && !b.holds c
  | symmetricDifference a b, c => a.holds c != b.holds c
  | complement s, c => !s.holds c
  | anyCase s, c => s.holds c || s.holds c.toLower || s.holds c.toUpper

end CharSet

/-- A condition on a place in a text. -/
inductive Look where
  | textStart
  | textEnd
  /-- Lines end with a line feed. -/
  | lineStart
  | lineEnd
  /-- Lines end with a line feed, a carriage return, or both. -/
  | anyLineStart
  | anyLineEnd
  | wordBoundary
  | noWordBoundary
  | wordStart
  | wordEnd
  deriving DecidableEq, Repr

namespace Look

def isWordChar (c : Char) : Bool := c.isAlphanum || c = '_'

/-- Whether a condition holds between two neighbours. -/
def holds (l : Look) (before after : Option Char) : Bool :=
  let wordBefore := before.any isWordChar
  let wordAfter := after.any isWordChar
  match l with
  | textStart => before.isNone
  | textEnd => after.isNone
  | lineStart => before.all (· = '\n')
  | lineEnd => after.all (· = '\n')
  | anyLineStart => before.all fun c => c = '\n' || (c = '\r' && after != some '\n')
  | anyLineEnd => after.all fun c => c = '\r' || (c = '\n' && before != some '\r')
  | wordBoundary => wordBefore != wordAfter
  | noWordBoundary => wordBefore == wordAfter
  | wordStart => !wordBefore && wordAfter
  | wordEnd => wordBefore && !wordAfter

end Look

/-- A pattern. Where it leaves a choice, the first way is preferred. -/
inductive Pattern where
  | nothing
  | look (l : Look)
  | char (s : CharSet)
  | seq (a b : Pattern)
  | either (a b : Pattern)
  /-- Any number of times; greedy patterns prefer to go on. -/
  | star (isGreedy : Bool) (p : Pattern)
  /-- One time, and then any number of times. -/
  | plus (isGreedy : Bool) (p : Pattern)
  deriving DecidableEq, Repr

namespace Pattern

def isNullable : Pattern → Bool
  | nothing => true
  | look _ => true
  | char _ => false
  | seq a b => a.isNullable && b.isNullable
  | either a b => a.isNullable || b.isNullable
  | star _ _ => true
  | plus _ p => p.isNullable

def choice (isGreedy : Bool) (a b : Pattern) : Pattern :=
  if isGreedy then either a b else either b a

def optional (isGreedy : Bool) (p : Pattern) : Pattern := choice isGreedy p nothing

/-- A pattern any number of times. One that may take no character is taken once or left out, so
that a round without a character ends the rounds. -/
def many (isGreedy : Bool) (p : Pattern) : Pattern :=
  if p.isNullable then optional isGreedy (plus isGreedy p) else star isGreedy p

def ofList : List Pattern → Pattern
  | [] => nothing
  | [p] => p
  | p :: rest => seq p (ofList rest)

def anyOf : List Pattern → Pattern
  | [] => char .empty
  | [p] => p
  | p :: rest => either p (anyOf rest)

def size : Pattern → Nat
  | seq a b => a.size + b.size + 1
  | either a b => a.size + b.size + 1
  | star _ p => p.size + 1
  | plus _ p => p.size + 1
  | _ => 1

/-! ## Accepting -/

/-- A way to go on: the patterns that are left, one behind the other. -/
abbrev Way := List Pattern

/-- The ways into which a way divides at a place before a character is taken. A way that asks for a
character, or for nothing more, is none of these. -/
def divide (before after : Option Char) : Way → Option (List Way)
  | nothing :: rest => some [rest]
  | look l :: rest => some (if l.holds before after then [rest] else [])
  | seq a b :: rest => some [a :: b :: rest]
  | either a b :: rest => some [a :: rest, b :: rest]
  | star isGreedy p :: rest =>
    let further := p :: star isGreedy p :: rest
    some (if isGreedy then [further, rest] else [rest, further])
  | plus isGreedy p :: rest => some [p :: star isGreedy p :: rest]
  | char _ :: _ => none
  | [] => none

/-- The ways that ask for a character or for nothing more, in order of preference. A way that was
seen before is not followed again. The first argument bounds the number of steps. -/
def settle (before after : Option Char) : Nat → List Way → List Way → List Way
  | 0, _, _ => []
  | _, _, [] => []
  | fuel + 1, seen, way :: rest =>
    if seen.contains way then settle before after fuel seen rest
    else
      match divide before after way with
      | none => way :: settle before after fuel (way :: seen) rest
      | some ways => settle before after fuel (way :: seen) (ways ++ rest)

def taking (c : Char) : Way → Option Way
  | char s :: rest => if s.holds c then some rest else none
  | _ => none

/-- Whether a text ends with a pattern, with some ways that are on the way already. As long as
nothing is complete, the pattern may also begin at the place at hand. -/
def reaches (p : Pattern) (before : Option Char) (mayBegin : Bool) (ways : List Way) :
    List Char → Bool
  | [] => (settled [] ways).contains []
  | c :: rest =>
    let live := (settled (c :: rest) ways).takeWhile fun way => !way.isEmpty
    let isDone := (settled (c :: rest) ways).contains []
    p.reaches (some c) (mayBegin && !isDone) (live.filterMap (taking c)) rest
where
  /-- The ways at hand in front of some characters. -/
  settled (cs : List Char) (ways : List Way) : List Way :=
    settle before cs.head? (8 * (p.size + 2)) [] (ways ++ if mayBegin then [[p]] else [])

def accepts (p : Pattern) (s : String) : Bool := p.reaches none true [] s.toList

end Pattern

end Bindery
