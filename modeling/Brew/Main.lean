import Brew.Session

/-!
# The command line

The outer layer: it reads the file or the lines that a session needs, and writes what the session
says.  Lines are read byte by byte up to their end, since a line need not be valid UTF-8.
-/

namespace Brew.Session

/-- The bytes of a file, if it can be read. -/
def readFile? (path : String) : IO (Option ByteArray) := do
  try
    return some (← IO.FS.readBinFile path)
  catch _ =>
    return none

/-- Reads up to the next line feed or to the end of the input; at the end there is nothing left. -/
partial def readLine (input : IO.FS.Stream) (line : List UInt8) : IO (List UInt8) := do
  match (← input.read 1).toList with
  | [] => return line.reverse
  | b :: _ => if b = lineFeed then return (b :: line).reverse else readLine input (b :: line)

/-- Holds the conversation at the prompt, answering each line when it is typed. -/
partial def converseLive (input output errors : IO.FS.Stream) : IO Unit := do
  output.putStr prompt
  output.flush
  match ← readLine input [] with
  | [] => output.putStr farewell
  | bytes =>
    let answer := reply bytes
    output.putStr answer.stdout
    errors.putStr answer.stderr
    converseLive input output errors

end Brew.Session

open Brew Brew.Session in
/-- Runs one session. -/
def main (args : List String) : IO UInt32 := do
  let output ← IO.getStdout
  let errors ← IO.getStderr
  match Command.ofArgs args with
  | .ok .converse =>
    converseLive (← IO.getStdin) output errors
    return 0
  | .ok (.showFile _ path) =>
    let content ← readFile? path
    let result := run args (fun _ => content) []
    output.putStr result.stdout
    errors.putStr result.stderr
    return result.exit.toUInt32
  | .error _ =>
    let result := run args (fun _ => none) []
    errors.putStr result.stderr
    return result.exit.toUInt32
