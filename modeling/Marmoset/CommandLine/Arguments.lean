/-! # Arguments

What the arguments of the program ask for.  There are two flags, `-f`/`--file` and
`-p`/`--pipe-mode`, and at most one other argument, the contents: a script or, with the first flag,
the path of one.  Short flags may share a dash, flags may follow the contents, and `--` ends the
flags.  Arguments are read from left to right, and the first that settles the matter does: a request
for help or for the version, or a misuse. -/

namespace Marmoset
namespace CommandLine

/-- What the program is asked to do. -/
inductive Action where
  /-- Read and run lines. -/
  | interact
  /-- Run a script. -/
  | runScript (script : String) (showResult : Bool)
  /-- Run the script in a file. -/
  | runFile (path : String) (showResult : Bool)
  | showHelp
  | showVersion
  | misuse
deriving DecidableEq, Repr

/-- The arguments read so far. -/
structure Seen where
  file : Bool
  pipe : Bool
  contents : Option String
deriving DecidableEq, Repr

namespace Seen

/-- No argument. -/
def nothing : Seen :=
  ⟨false, false, none⟩

/-- Reads `-f`; no flag may be given twice. -/
def setFile (seen : Seen) : Except Action Seen :=
  if seen.file then .error .misuse else .ok { seen with file := true }

/-- Reads `-p`; no flag may be given twice. -/
def setPipe (seen : Seen) : Except Action Seen :=
  if seen.pipe then .error .misuse else .ok { seen with pipe := true }

/-- Reads the contents, of which there is only one. -/
def setContents (seen : Seen) (contents : String) : Except Action Seen :=
  if seen.contents.isSome then .error .misuse else .ok { seen with contents := some contents }

/-- Reads a short flag. -/
def shortFlag (seen : Seen) : Char → Except Action Seen
  | 'f' => seen.setFile
  | 'p' => seen.setPipe
  | 'h' => .error .showHelp
  | 'V' => .error .showVersion
  | _ => .error .misuse

/-- Reads a long flag. -/
def longFlag (seen : Seen) : String → Except Action Seen
  | "--file" => seen.setFile
  | "--pipe-mode" => seen.setPipe
  | "--help" => .error .showHelp
  | "--version" => .error .showVersion
  | _ => .error .misuse

/-- Reads an argument in front of `--`.  A dash by itself is no flag. -/
def argument (seen : Seen) (arg : String) : Except Action Seen :=
  match arg.toList with
  | '-' :: '-' :: _ => seen.longFlag arg
  | '-' :: flag :: flags => (flag :: flags).foldlM shortFlag seen
  | _ => seen.setContents arg

/-- Reads all arguments. -/
def arguments (seen : Seen) : List String → Except Action Seen
  | [] => .ok seen
  | arg :: args =>
    if arg = "--" then args.foldlM setContents seen
    else (seen.argument arg).bind fun seen => seen.arguments args

/-- What the arguments ask for once all have been read. -/
def action (seen : Seen) : Action :=
  match seen.contents with
  | none => .interact
  | some contents =>
    if seen.file then .runFile contents seen.pipe else .runScript contents seen.pipe

end Seen

/-- What the arguments ask for. -/
def Action.ofArguments (args : List String) : Action :=
  match Seen.nothing.arguments args with
  | .ok seen => seen.action
  | .error action => action

end CommandLine
end Marmoset
