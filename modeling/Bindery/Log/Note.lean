/-!
# Log notes

A note is what a run says about itself on the way. Notes are collected in order; whoever holds
them decides which to show.
-/

namespace Bindery

/-- How much a note matters. -/
inductive Level where
  | error
  | warn
  | info
  | debug
  | trace
  deriving DecidableEq, Repr

namespace Level

/-- The weight of a level: the smaller, the more important. -/
def rank : Level → Nat
  | error => 1
  | warn => 2
  | info => 3
  | debug => 4
  | trace => 5

def label : Level → String
  | error => "ERROR"
  | warn => "WARN"
  | info => "INFO"
  | debug => "DEBUG"
  | trace => "TRACE"

def word : Level → String
  | error => "error"
  | warn => "warn"
  | info => "info"
  | debug => "debug"
  | trace => "trace"

/-- The level that flags on the command line ask for. Quietness beats any wish for more. -/
def ofFlags (verbose : Nat) (quiet : Bool) : Level :=
  if quiet then error
  else
    match verbose with
    | 0 => info
    | 1 => debug
    | _ => trace

end Level

/-- A value that is known about a stretch of a run. -/
inductive StretchValue where
  | count (value : Nat)
  | text (value : String)
  deriving DecidableEq, Repr

/-- A stretch of a run: its name, the part of the program that it belongs to, and the values that
are known about it. -/
structure Stretch where
  name : String
  target : String
  fields : List (String × StretchValue) := []
  deriving DecidableEq, Repr

def Stretch.level : Level := .info

/-- A note: its level, the part of the program that speaks, and what it says. -/
structure Note where
  level : Level
  target : String
  message : String
  /-- The names of the values that come with the message. -/
  fields : List String := []
  /-- The stretches of the run in which the note was made, the outermost first. -/
  stretches : List Stretch := []
  deriving DecidableEq, Repr

def Note.during (stretch : Stretch) (note : Note) : Note :=
  { note with stretches := stretch :: note.stretches }

end Bindery
