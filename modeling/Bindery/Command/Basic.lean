import Bindery.Feature

/-!
# Commands

What a user can ask for on the command line, and what a command line can be refused for.
-/

namespace Bindery

/-- What to generate and where to write it. What is not said here is left to the settings. -/
structure GenerateRequest where
  /-- A snapshot file, or a directory of them. -/
  symbols : String
  out : Option String := none
  /-- List the units instead of writing them. -/
  dryRun : Bool := false
  failFast : Bool := false
  /-- The features to generate for; none stands for those of the settings. -/
  features : List Feature := []
  /-- Remove sources of an earlier run. -/
  clean : Bool := false
  /-- Where to write the report. -/
  report : Option String := none
  deriving DecidableEq, Repr

/-- A command with what it needs. -/
inductive Command where
  /-- Generates sources from a snapshot. -/
  | generate (request : GenerateRequest)
  /-- Prints the forest of scopes. -/
  | scopes (symbols : String)
  /-- Generates without writing sources. -/
  | check (symbols : String) (report : Option String)
  deriving DecidableEq, Repr

/-- A command line that was understood. -/
structure Invocation where
  /-- The settings file. -/
  config : Option String := none
  verbose : Nat := 0
  quiet : Bool := false
  command : Command
  deriving DecidableEq, Repr

/-- Why a command line leads to no command. Help and version are asked for on purpose. -/
inductive UsageFault where
  | helpWanted
  | versionWanted
  | nothingGiven
  | missingCommand
  | unknownCommand
  | unknownArgument
  | missingArgument
  | invalidValue
  | refusedValue
  | surplusValue
  | repeatedArgument
  deriving DecidableEq, Repr

namespace UsageFault

def kind : UsageFault → String
  | helpWanted => "DisplayHelp"
  | versionWanted => "DisplayVersion"
  | nothingGiven => "DisplayHelpOnMissingArgumentOrSubcommand"
  | missingCommand => "MissingSubcommand"
  | unknownCommand => "InvalidSubcommand"
  | unknownArgument => "UnknownArgument"
  | missingArgument => "MissingRequiredArgument"
  | invalidValue => "InvalidValue"
  | refusedValue => "ValueValidation"
  | surplusValue => "TooManyValues"
  | repeatedArgument => "ArgumentConflict"

def exitStatus : UsageFault → Nat
  | helpWanted => 0
  | versionWanted => 0
  | _ => 2

end UsageFault

end Bindery
