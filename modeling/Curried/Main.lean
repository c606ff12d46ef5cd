import Curried.Program

/-!
The executable. The loop reads and answers line by line; everything else is printed at once.
-/

namespace Curried.Program

/-- Reads the bytes of a line behind those in `line`, which has the latest first. There is none at
the end of the input. -/
partial def readLine (stdin : IO.FS.Stream) (line : List UInt8) : IO (Option (List UInt8)) := do
  match (← stdin.read 1).toList with
  | [] => return if line.isEmpty then none else some line.reverse
  | b :: _ =>
    if b = Repl.lineFeed then return some (Repl.closeLine line)
    else readLine stdin (b :: line)

/-- Answers lines until the input ends, `:quit`, or a line that is not text. -/
partial def interact (session : Session) (stdin stdout : IO.FS.Stream) : IO (Option Failure) := do
  match ← readLine stdin [] with
  | none =>
    stdout.putStr "\n"
    return none
  | some line =>
    match Repl.reply session line with
    | .write text =>
      stdout.putStr text
      stdout.flush
      interact session stdin stdout
    | .quit =>
      stdout.putStr "\n"
      return none
    | .fail cause => return some cause

end Curried.Program

open Curried in
def main (args : List String) : IO UInt32 := do
  let stdout ← IO.getStdout
  let run ← match CommandLine.parse args with
    | .ok (.repl options) => do
      stdout.putStr options.prompt
      stdout.flush
      pure (Program.finish ("", ← Program.interact (.standard options) (← IO.getStdin) stdout))
    | _ => pure (Program.run args [])
  stdout.putStr run.stdout
  (← IO.getStderr).putStr run.stderr
  return run.code.toUInt32
