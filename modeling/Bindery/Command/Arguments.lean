import Bindery.Command.Options

/-!
# Command lines

A command line has general options, the name of a command, and the options of the command. General
options may stand behind the name of the command too; what stands there counts more.
-/

namespace Bindery

/-- The names of commands. -/
inductive CommandName where
  | generate
  | scopes
  | check
  deriving DecidableEq, Repr

namespace CommandName

def all : List CommandName := [generate, scopes, check]

def word : CommandName → String
  | generate => "generate"
  | scopes => "scopes"
  | check => "check"

def ofWord? (text : String) : Option CommandName := all.find? fun c => c.word = text

def generalOptions : List CommandOption := [.config, .verbose, .quiet, .help]

def options : CommandName → List CommandOption
  | generate =>
    [.symbols, .out, .dryRun, .failFast, .feature, .clean, .report] ++ generalOptions
  | scopes => .symbols :: generalOptions
  | check => [.symbols, .report] ++ generalOptions

end CommandName

namespace Invocation

def helpWord : String := "help"

def frontOptions : List CommandOption := CommandName.generalOptions ++ [.version]

def isCommandWord (text : String) : Bool :=
  text = helpWord || (CommandName.ofWord? text).isSome

/-- The words behind the one that asks for help may name one command, or help itself. -/
def helpFault : List String → UsageFault
  | [] => .helpWanted
  | [text] => if isCommandWord text then .helpWanted else .unknownCommand
  | _ => .unknownCommand

def commandOf (c : CommandName) (own : OptionReading) : Except UsageFault Command :=
  match own.value? .symbols with
  | none => .error .missingArgument
  | some symbols =>
    .ok (match c with
      | .generate =>
        .generate
          { symbols
            out := own.value? .out
            dryRun := own.has .dryRun
            failFast := own.has .failFast
            features := (own.values .feature).filterMap Feature.parse?
            clean := own.has .clean
            report := own.value? .report }
      | .scopes => .scopes symbols
      | .check => .check symbols (own.value? .report))

/-- The invocation of a command with its own options and those in front of its name. -/
def assemble (command : Command) (front own : OptionReading) : Invocation where
  config := (own.value? .config).or (front.value? .config)
  verbose := if own.has .verbose then own.count .verbose else front.count .verbose
  quiet := own.has .quiet || front.has .quiet
  command := command

/-- Reads what follows the name of a command. What stands in front of it is checked last. -/
def readCommand (front : OptionReading) (c : CommandName) (rest : List String) :
    Except UsageFault Invocation :=
  (OptionReading.readAll c.options {} rest).bind fun own =>
    (commandOf c own).bind fun command =>
      front.settle.map fun front => assemble command front own

/-- The fault of a command line that ends in front of the name of a command. -/
def endFault (front : OptionReading) : UsageFault :=
  match front.settle with
  | .error fault => fault
  | .ok front => if front.given.isEmpty then .nothingGiven else .missingCommand

def readFrom (front : OptionReading) : List String → Except UsageFault Invocation
  | [] => .error (endFault front)
  | text :: rest =>
    match ArgumentForm.of text with
    | .terminator =>
      .error (match rest with
        | [] => endFault front
        | word :: _ => if isCommandWord word then .unknownArgument else .unknownCommand)
    | .long name value =>
      (front.readLong frontOptions name value).bind fun front => readFrom front rest
    | .short letters =>
      (front.readShort frontOptions letters).bind fun front => readFrom front rest
    | .word =>
      match front.offer? text with
      | some front => readFrom front rest
      | none =>
        if text = helpWord then .error (helpFault rest)
        else
          match CommandName.ofWord? text with
          | some c => readCommand front c rest
          | none => .error .unknownCommand

def parse (arguments : List String) : Except UsageFault Invocation := readFrom {} arguments

end Invocation

end Bindery
