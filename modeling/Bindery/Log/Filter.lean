import Bindery.Log.FieldTest
import Bindery.Text.Blank
import Bindery.Text.Letter

/-!
# Filters of notes

A filter is a list of directives behind commas. A directive names the least important level that it
lets through, and may say for which notes: those of some part of the program, those that come with
some values, or those made during some stretch of a run. Of the directives about a note itself the
most specific one decides; a directive about a stretch lets more notes through, never fewer.
-/

namespace Bindery

/-- The least important level that is let through. No level lets nothing through. -/
abbrev Threshold := Option Level

namespace Threshold

def admits (t : Threshold) (level : Level) : Bool :=
  match t with
  | none => false
  | some least => level.rank ≤ least.rank

/-- The thresholds in the order in which they let more and more through. -/
def all : List Threshold :=
  [none, some .error, some .warn, some .info, some .debug, some .trace]

/-- The words for the thresholds, in the same order. -/
def words : List String := ["off", "error", "warn", "info", "debug", "trace"]

/-- The threshold that a word names in any case of letters, or a number by its place. -/
def parse? (text : String) : Option Threshold :=
  match FieldValue.digits? text.toList with
  | some digits => all[Double.digitsValue digits]?
  | none => (words.idxOf? (text.map Char.toLower)).bind fun n => all[n]?

end Threshold

/-- What a filter says about some notes. -/
structure Directive where
  /-- How the name of the part of the program begins. -/
  target : Option String := none
  /-- The name of a stretch of the run. -/
  stretch : Option String := none
  fields : List FieldTest := []
  threshold : Threshold := some .trace
  deriving DecidableEq, Repr

namespace Directive

/-! ## Reading directives -/

/-- What part of a directive is being read, with the place where it started. -/
inductive Part where
  | start
  | word (place : Nat)
  | stretch (place : Nat)
  | field (place : Nat)
  | closing
  | behind
  | level (place : Nat)
  deriving DecidableEq, Repr

def cut (text : List Char) (first last : Nat) : List Char := (text.drop first).take (last - first)

/-- The characters that a directive may start with, a bracket apart. -/
def isStart (c : Char) : Bool := c = '-' || c = ':' || c = '_' || Text.isAlphanumeric c

def addField (d : Directive) (text : List Char) (first last : Nat) : Option Directive :=
  match cut text first last with
  | [] => none
  | field => (FieldTest.parse? field).map fun test => { d with fields := d.fields ++ [test] }

/-- Sets the threshold that a text names; no text is the widest one. -/
def withThreshold (d : Directive) (text : List Char) : Option Directive :=
  match text with
  | [] => some { d with threshold := some .trace }
  | _ => (Threshold.parse? (String.ofList text)).map fun threshold => { d with threshold }

def step (text : List Char) (d : Directive) (place : Nat) (c : Char) :
    Part → Option (Directive × Part)
  | .start =>
    if c = '[' then some (d, .stretch (place + 1))
    else if isStart c then some (d, .word place)
    else none
  | .word first =>
    if c = '=' then
      some ({ d with target := some (String.ofList (cut text first place)) }, .level (place + 1))
    else if c = '[' then
      some ({ d with target := some (String.ofList (cut text first place)) }, .stretch (place + 1))
    else some (d, .word first)
  | .stretch first =>
    if c = ']' then
      some ({ d with stretch := some (String.ofList (cut text first place)) }, .behind)
    else if c = '\x7b' then
      let name := cut text first place
      let stretch := if name.isEmpty then none else some (String.ofList name)
      some ({ d with stretch }, .field (place + 1))
    else some (d, .stretch first)
  | .field first =>
    if c = '\x7d' then (d.addField text first place).map fun d => (d, .closing)
    else some (d, .field first)
  | .closing => if c = ']' then some (d, .behind) else none
  | .behind => if c = '=' then some (d, .level (place + 1)) else none
  | .level first => some (d, .level first)

def scan (text : List Char) : Directive → Nat → Part → List Char → Option (Directive × Part)
  | d, _, part, [] => some (d, part)
  | d, place, part, c :: rest =>
    (d.step text place c part).bind fun (d, part) => scan text d (place + 1) part rest

/-- The directive at the end of its text. A lone word is a threshold if it names one, and else the
part of the program for which everything is let through. -/
def close (text : List Char) (d : Directive) : Part → Option Directive
  | .word first =>
    let word := text.drop first
    match d.withThreshold word with
    | some d => some d
    | none => some { d with target := some (String.ofList word), threshold := some .trace }
  | .level first => d.withThreshold (text.drop first)
  | .behind => some d
  | _ => none

/-- Reads a directive. White space around it is not looked at, but places count from it, and the
parts are cut from the whole text. -/
def parse? (text : List Char) : Option Directive :=
  (scan text {} 0 .start (Text.trimChars text)).bind fun (d, part) => close text d part

/-! ## What directives are about -/

def sameSubject (a b : Directive) : Bool :=
  a.target = b.target && a.stretch = b.stretch && a.fields = b.fields

/-- Whether the directive is about the part of the program with a name. -/
def coversTarget (d : Directive) (target : String) : Bool :=
  match d.target with
  | none => true
  | some start => start.toList.isPrefixOf target.toList

def isAboutNotes (d : Directive) : Bool :=
  d.stretch.isNone && d.fields.all fun f => f.value.isNone

def isAboutStretches (d : Directive) : Bool := d.stretch.isSome || !d.fields.isEmpty

/-- The name of the value that holds the message. -/
def messageField : String := "message"

def coversNote (d : Directive) (note : Note) : Bool :=
  d.coversTarget note.target &&
    d.fields.all fun f => f.name = messageField || note.fields.contains f.name

def coversStretch (d : Directive) (s : Stretch) : Bool :=
  d.coversTarget s.target && (d.stretch.isNone || d.stretch = some s.name) &&
    d.fields.all fun f => f.admits s.fields

/-- How specific a directive about notes is: a longer target counts more than more fields. -/
def specificity (d : Directive) : Nat × Nat × List String :=
  (match d.target with
    | none => 0
    | some target => target.utf8ByteSize + 1,
   d.fields.length, d.fields.map (·.name))

def compareSpecificity (a b : Directive) : Ordering :=
  let (aTarget, aFields, aNames) := a.specificity
  let (bTarget, bFields, bNames) := b.specificity
  ((compare aTarget bTarget).then (compare aFields bFields)).then (compare aNames bNames)

end Directive

/-- A filter: its directives in the order of the text. -/
structure Filter where
  directives : List Directive
  deriving DecidableEq, Repr

namespace Filter

def parseAll : List (List Char) → Option (List Directive)
  | [] => some []
  | text :: rest =>
    (Directive.parse? text).bind fun d => (parseAll rest).map fun l => d :: l

/-- Reads a filter. Nothing between two commas is no directive. -/
def parse? (text : String) : Option Filter :=
  (parseAll ((text.toList.splitOn ',').filter fun part => !part.isEmpty)).map Filter.mk

/-- The filter that lets through the notes of a level and more important ones. -/
def ofLevel (level : Level) : Filter := ⟨[{ threshold := some level }]⟩

/-- The filter with a level for the case that it says nothing. -/
def orLevel (f : Filter) (level : Level) : Filter :=
  if f.directives.isEmpty then ofLevel level else f

/-- Of directives about the same notes, the last one. -/
def effective : List Directive → List Directive
  | [] => []
  | d :: rest => if rest.any d.sameSubject then effective rest else d :: effective rest

/-- The more specific one of two directives; of equals the second. -/
def moreSpecific (best : Option Directive) (d : Directive) : Option Directive :=
  match best with
  | none => some d
  | some b => if b.compareSpecificity d = .gt then some b else some d

def deciding? (f : Filter) (note : Note) : Option Directive :=
  (((effective f.directives).filter fun d => d.isAboutNotes && d.coversNote note).foldl
    moreSpecific none)

/-- Whether stretches are looked at: only if some directive reaches down to their level. -/
def seesStretches (f : Filter) : Bool :=
  f.directives.any fun d =>
    d.threshold.admits Stretch.level || d.fields.any fun field => field.value.isSome

def admitsDuring (f : Filter) (level : Level) (s : Stretch) : Bool :=
  (effective f.directives).any fun d =>
    d.isAboutStretches && d.coversStretch s && d.threshold.admits level

def admits (f : Filter) (note : Note) : Bool :=
  (match f.deciding? note with
    | none => false
    | some d => d.threshold.admits note.level) ||
    (f.seesStretches && note.stretches.any (f.admitsDuring note.level))

end Filter

end Bindery
