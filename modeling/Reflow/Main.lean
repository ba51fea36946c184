import Reflow.CommandLine.Run

/-! # The program

Gives the command access to the files of the system. -/

namespace Reflow

/-- A failed access to a file. -/
def FileFault.ofError (name : FileName) (e : IO.Error) : FileFault :=
  match e with
  | .noFileOrDirectory .. => .notFound name.text
  | .inappropriateType _ code _ =>
    if code = 20 then .notDirectory name.text else .isDirectory name.text
  | e => .other 5 (toString e) name.text

/-- All that is left of a stream. -/
partial def readAll (stream : IO.FS.Stream) (text : String) : IO String := do
  let line ← stream.getLine
  if line.isEmpty then return text
  readAll stream (text ++ line)

/-- Access to the files of the system. -/
def systemFiles : FileAccess IO where
  read name := do
    try return .ok (← IO.FS.readFile name.text)
    catch e => return .error (.ofError name e)
  write name text := do
    try
      IO.FS.writeFile name.text text
      return .ok ()
    catch e => return .error (.ofError name e)
  readInput := do readAll (← IO.getStdin) ""

/-- The hint that is shown for arguments that make no sense. -/
def usage : String := "usage: vxfmt [options] FILE [FILE ...]"

end Reflow

/-- Runs the command with the given arguments. -/
def main (arguments : List String) : IO UInt32 := do
  match ← Reflow.CommandLine.run Reflow.systemFiles arguments with
  | .done progress =>
    IO.print progress.output
    IO.eprint progress.errors
    return progress.status.toUInt32
  | .refused .help =>
    IO.println Reflow.usage
    return 0
  | .refused .usage =>
    IO.eprintln Reflow.usage
    return 2
  | .crashed crash =>
    IO.eprintln crash.message
    return 1
