import Bindery.Command.Basic

/-!
# Options

Options stand on the command line in a long form, and some in a short one. A value stands in the
same word behind the name, or in the next word. An option whose value stands apart is open until
something is read that must follow it: only then is it checked.
-/

namespace Bindery

/-- The options of all commands. -/
inductive CommandOption where
  | config
  | verbose
  | quiet
  | help
  | version
  | symbols
  | out
  | dryRun
  | failFast
  | feature
  | clean
  | report
  deriving DecidableEq, Repr

namespace CommandOption

def long : CommandOption → String
  | config => "config"
  | verbose => "verbose"
  | quiet => "quiet"
  | help => "help"
  | version => "version"
  | symbols => "symbols"
  | out => "out"
  | dryRun => "dry-run"
  | failFast => "fail-fast"
  | feature => "feature"
  | clean => "clean"
  | report => "report"

def short? : CommandOption → Option Char
  | verbose => some 'v'
  | quiet => some 'q'
  | help => some 'h'
  | version => some 'V'
  | symbols => some 's'
  | out => some 'o'
  | _ => none

def takesValue : CommandOption → Bool
  | config | symbols | out | feature | report => true
  | _ => false

def isRepeatable : CommandOption → Bool
  | verbose | feature => true
  | _ => false

/-- Checks a value. A path must not be empty, and a feature has to be known. -/
def check (o : CommandOption) (value : String) : Except UsageFault Unit :=
  match o with
  | feature => if (Feature.parse? value).isSome then .ok () else .error .refusedValue
  | _ => if value.isEmpty then .error .invalidValue else .ok ()

end CommandOption

/-- A word of the command line by its form. -/
inductive ArgumentForm where
  /-- Two dashes: no options follow. -/
  | terminator
  | long (name : String) (value : Option String)
  /-- Letters behind one dash. -/
  | short (letters : List Char)
  | word
  deriving DecidableEq, Repr

/-- The form of a word. A single dash is a word like any other. -/
def ArgumentForm.of (text : String) : ArgumentForm :=
  match text.toList with
  | ['-', '-'] => terminator
  | '-' :: '-' :: rest =>
    let (name, behind) := rest.span (· ≠ '=')
    long (String.ofList name) (match behind with
      | [] => none
      | _ :: value => some (String.ofList value))
  | '-' :: c :: rest => short (c :: rest)
  | _ => word

/-- What was read of the options of one command. -/
structure OptionReading where
  /-- The options given so far with their values; an option without values has an empty one. -/
  given : List (CommandOption × String) := []
  /-- The option that is open, with its value once it was read. -/
  opened : Option (CommandOption × Option String) := none
  deriving DecidableEq, Repr

namespace OptionReading

def has (r : OptionReading) (o : CommandOption) : Bool := r.given.any fun g => g.1 = o

def count (r : OptionReading) (o : CommandOption) : Nat := r.given.countP fun g => g.1 = o

def values (r : OptionReading) (o : CommandOption) : List String :=
  r.given.filterMap fun g => if g.1 = o then some g.2 else none

def value? (r : OptionReading) (o : CommandOption) : Option String := (r.values o).head?

def add (r : OptionReading) (o : CommandOption) (value : String) : OptionReading :=
  { r with given := r.given ++ [(o, value)] }

def take (r : OptionReading) (o : CommandOption) (value : String) :
    Except UsageFault OptionReading :=
  if r.has o && !o.isRepeatable then .error .repeatedArgument
  else (o.check value).map fun () => r.add o value

def settle (r : OptionReading) : Except UsageFault OptionReading :=
  match r.opened with
  | none => .ok r
  | some (_, none) => .error .invalidValue
  | some (o, some value) => { r with opened := none }.take o value

def raise (r : OptionReading) (o : CommandOption) : Except UsageFault OptionReading :=
  r.settle.bind fun r =>
    match o with
    | .help => .error .helpWanted
    | .version => .error .versionWanted
    | _ => if r.has o && !o.isRepeatable then .error .repeatedArgument else .ok (r.add o "")

/-- Takes an option with the value that stands in the same word. -/
def takeAttached (r : OptionReading) (o : CommandOption) (value : String) :
    Except UsageFault OptionReading :=
  r.settle.bind fun r => r.take o value

def openFor (r : OptionReading) (o : CommandOption) : Except UsageFault OptionReading :=
  r.settle.map fun r => { r with opened := some (o, none) }

def readLong (options : List CommandOption) (r : OptionReading) (name : String)
    (value : Option String) : Except UsageFault OptionReading :=
  match options.find? fun o => o.long = name with
  | none => .error .unknownArgument
  | some o =>
    match o.takesValue, value with
    | true, some value => r.takeAttached o value
    | true, none => r.openFor o
    | false, some _ => .error .surplusValue
    | false, none => r.raise o

/-- Reads letters. The first one whose option has a value takes the other letters for it. -/
def readShort (options : List CommandOption) (r : OptionReading) :
    List Char → Except UsageFault OptionReading
  | [] => .ok r
  | c :: rest =>
    match options.find? fun o => o.short? = some c with
    | none => .error .unknownArgument
    | some o =>
      if o.takesValue then
        match rest with
        | [] => r.openFor o
        | '=' :: value => r.takeAttached o (String.ofList value)
        | value => r.takeAttached o (String.ofList value)
      else (r.raise o).bind fun r => readShort options r rest

/-- Takes a word as the value of the option that is open, if it lacks one. -/
def offer? (r : OptionReading) (text : String) : Option OptionReading :=
  match r.opened with
  | some (o, none) => some { r with opened := some (o, some text) }
  | _ => none

/-- Reads all words of a command that has options and nothing else. -/
def readAll (options : List CommandOption) (r : OptionReading) :
    List String → Except UsageFault OptionReading
  | [] => r.settle
  | text :: rest =>
    match ArgumentForm.of text with
    | .terminator => if rest.isEmpty then r.settle else .error .unknownArgument
    | .long name value => (r.readLong options name value).bind fun r => readAll options r rest
    | .short letters => (r.readShort options letters).bind fun r => readAll options r rest
    | .word =>
      match r.offer? text with
      | some r => readAll options r rest
      | none => .error .unknownArgument

end OptionReading

end Bindery
