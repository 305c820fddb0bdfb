import Marmoset.CommandLine.Run

/-! # The executable

Reads arguments, files and lines, and writes what `Marmoset.CommandLine` and `Marmoset.Dialogue`
answer. -/

namespace Marmoset
namespace Terminal

/-- Reads bytes up to a line feed or the end of the input. -/
partial def readLineBytes (input : IO.FS.Stream) (line : List UInt8) : IO (List UInt8) := do
  let chunk ← input.read 1
  match chunk.toList with
  | [] => return line.reverse
  | byte :: _ =>
    if byte = 10 then return (byte :: line).reverse else readLineBytes input (byte :: line)

/-- Reads and answers lines up to the end of the dialogue. -/
partial def converseWith (input output : IO.FS.Stream) (d : Dialogue) : IO UInt32 := do
  output.putStr Dialogue.prompt
  output.flush
  let bytes ← readLineBytes input []
  if bytes.isEmpty then return 0
  match d.turn bytes with
  | .ended code errors =>
    IO.eprint errors
    return code.toUInt32
  | .answered answer next =>
    output.putStr answer
    converseWith input output next

/-- Writes what a run has written and gives its exit code. -/
def finish (exit : Exit) : IO UInt32 := do
  IO.print exit.output
  IO.eprint exit.errors
  return exit.code.toUInt32

/-- The contents of a file that can be read. -/
def fileBytes (path : String) : IO (Option (List UInt8)) := do
  try
    return some (← IO.FS.readBinFile path).toList
  catch _ =>
    return none

end Terminal
end Marmoset

open Marmoset Terminal

/-- Does what the arguments ask for. -/
def main (args : List String) : IO UInt32 := do
  match CommandLine.Action.ofArguments args with
  | .interact => converseWith (← IO.getStdin) (← IO.getStdout) Dialogue.start
  | .runFile path showResult =>
    finish (CommandLine.runFile path (← fileBytes path) showResult)
  | action => finish (CommandLine.perform (fun _ => none) [] action)
