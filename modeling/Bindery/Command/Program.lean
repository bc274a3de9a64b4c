import Bindery.Command.Arguments
import Bindery.Command.Run
import Bindery.Log.Setup

/-!
# The program

From a command line and an environment to what the program prints, writes and returns. Settings are
loaded first, then logging is set up, and then the command runs.
-/

namespace Bindery

/-- How the program ended. -/
structure Ended where
  exitStatus : Nat
  disk : Disk
  /-- What goes to standard output. -/
  printed : String := ""
  /-- What is said about a failure. -/
  complaint : List String := []
  /-- The logging, if it was set up. -/
  logging : Option Logging := none
  /-- The notes of the run that the filter lets through. -/
  notes : List Note := []

namespace Program

def name : String := "sealant"

def versionText : String := name ++ " " ++ Manifest.currentVersion ++ "\n"

def helpText : String :=
  "Generates DI integration sources from a symbol snapshot\n\n" ++
  "Usage: sealant [OPTIONS] <COMMAND>\n\n" ++
  "Commands:\n" ++
  "  generate  Generate sources from a symbol snapshot\n" ++
  "  scopes    Print the scope forest with the features each scope enables\n" ++
  "  check     Validate scopes and contributions without writing anything\n" ++
  "  help      Print this message\n\n" ++
  "Options:\n" ++
  "  -s, --symbols <PATH>  Snapshot file, or a directory of .json snapshots\n" ++
  "  -o, --out <DIR>       Output directory (generate)\n" ++
  "      --dry-run         List the units instead of writing them (generate)\n" ++
  "      --fail-fast       Stop at the first rejected declaration (generate)\n" ++
  "      --feature <NAME>  Generate only for these features, repeatable (generate)\n" ++
  "      --clean           Remove sources left over from a previous run (generate)\n" ++
  "      --report <FILE>   Write the run report as JSON (generate, check)\n" ++
  "      --config <FILE>   Generator settings (TOML, JSON or YAML)\n" ++
  "  -v, --verbose...      More logging; repeat for trace output\n" ++
  "  -q, --quiet           Only log errors\n" ++
  "  -h, --help            Print help\n" ++
  "  -V, --version         Print version\n"

/-- The end of a program whose command line leads to no command. -/
def refuse (disk : Disk) (fault : UsageFault) : Ended :=
  let ended : Ended := { exitStatus := fault.exitStatus, disk }
  match fault with
  | .helpWanted => { ended with printed := helpText }
  | .versionWanted => { ended with printed := versionText }
  | .nothingGiven => { ended with complaint := [helpText] }
  | fault => { ended with complaint := [fault.kind] }

def verdictStatus : Verdict → Nat
  | .clean => 0
  | .diagnostics => 1

def finish (around : Surroundings) (logging : Logging) (result : Except Failure Verdict)
    (desk : Desk) : Ended :=
  let ended : Ended :=
    { exitStatus := 1
      disk := logging.write desk.disk around.clock desk.notes
      printed := desk.printed
      logging
      notes := logging.shown desk.notes }
  match result with
  | .ok verdict => { ended with exitStatus := verdictStatus verdict }
  | .error failure => { ended with complaint := "sealant failed" :: failure.sentences }

def invoke (around : Surroundings) (disk : Disk) (environment : List (String × String))
    (i : Invocation) : Ended :=
  match i.loadSettings disk environment with
  | .error failure => { exitStatus := 1, disk, complaint := failure.sentences }
  | .ok settings =>
    match Logging.setUp disk around.clock name i.level settings.logging with
    | (.error fault, disk) =>
      { exitStatus := 1, disk, complaint := ["Failed to initialize logging", fault.message] }
    | (.ok logging, disk) =>
      let (result, desk) := i.command.run around settings disk
      finish around logging result desk

/-! ## Places on disk -/

def settingsPlaces (home : String) (i : Invocation) : List String :=
  i.config.toList.flatMap (Settings.candidates home)

def commandPlaces (settings : Settings) : Command → List String
  | .generate request =>
    [request.symbols, (request.adjust settings).output.dir] ++ request.report.toList
  | .scopes symbols => [symbols]
  | .check symbols report => symbols :: report.toList

/-- The paths that an invocation reads or writes besides those of the settings. -/
def places (settings : Settings) (i : Invocation) : List String :=
  commandPlaces settings i.command ++ settings.logging.directory.toList

def run (around : Surroundings) (disk : Disk) (environment : List (String × String))
    (arguments : List String) : Ended :=
  match Invocation.parse arguments with
  | .error fault => refuse disk fault
  | .ok i => invoke around disk environment i

end Program

end Bindery
