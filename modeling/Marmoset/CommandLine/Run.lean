import Marmoset.CommandLine.Arguments
import Marmoset.CommandLine.Dialogue

/-! # Running the command line

`CommandLine.run` is the whole program as a function of its arguments, its input and the files that
it can read. -/

namespace Marmoset
namespace CommandLine

/-- The answer to a request for the version. -/
def versionText : String :=
  "monkey 0.1.0\n"

/-- The answer to a request for help. -/
def helpText : String :=
  "Usage: monkey [OPTIONS] [CONTENTS]\n\n" ++
  "Arguments:\n" ++
  "  [CONTENTS]  The script to run, or its path with --file. Without it, lines are read and run\n\n" ++
  "Options:\n" ++
  "  -f, --file       Take the contents as the path of a script\n" ++
  "  -p, --pipe-mode  Print the value of the script\n" ++
  "  -h, --help       Print help\n" ++
  "  -V, --version    Print version\n"

/-- The answer to arguments that cannot be read. -/
def misuseText : String :=
  "error: unexpected arguments\n\nUsage: monkey [OPTIONS] [CONTENTS]\n"

/-- The message about a script that cannot be read from a file. -/
def unreadable (path : String) : String :=
  "Failed to read the input file '" ++ path ++ "'. Perhaps this file does not exist?\n"

/-- Runs a script; its result is shown on request. -/
def runScript (script : String) (showResult : Bool) : Exit :=
  let (scope, store) := Store.empty.newScope
  let (result, store) := runSource 0 scope script store
  match result with
  | .error errors => ⟨1, store.output, ParseError.report errors ++ "\n"⟩
  | .ok (some (.error e)) => ⟨1, store.output, "ERROR: " ++ e.message ++ "\n"⟩
  | .ok (some value) =>
    ⟨0, store.output ++ (if showResult then value.render ++ "\n" else ""), ""⟩
  | .ok none => ⟨0, store.output, ""⟩

/-- Runs the script in a file with the given contents, if there is one. -/
def runFile (path : String) (contents : Option (List UInt8)) (showResult : Bool) : Exit :=
  match contents.bind Dialogue.decodeUtf8? with
  | some script => runScript script showResult
  | none => ⟨1, "", unreadable path⟩

/-- Does what is asked for. -/
def perform (readFile : String → Option (List UInt8)) (input : List UInt8) : Action → Exit
  | .interact => Dialogue.transcript input
  | .runScript script showResult => runScript script showResult
  | .runFile path showResult => runFile path (readFile path) showResult
  | .showHelp => ⟨0, helpText, ""⟩
  | .showVersion => ⟨0, versionText, ""⟩
  | .misuse => ⟨2, "", misuseText⟩

/-- The whole program. -/
def run (args : List String) (readFile : String → Option (List UInt8)) (input : List UInt8) :
    Exit :=
  perform readFile input (Action.ofArguments args)

end CommandLine
end Marmoset
