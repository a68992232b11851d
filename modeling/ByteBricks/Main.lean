import ByteBricks.CommandLine.Command

/-! # The Program

  Carries the dialogue of the command on with the files of the system. -/

namespace ByteBricks.CommandLine

/-- The contents of a file, if it can be read. -/
def fileContents (path : String) : IO (Option ByteArray) :=
  try pure (some (← IO.FS.readBinFile path)) catch _ => pure none

/-- Everything that is left on the standard input. -/
partial def inputContents (stream : IO.FS.Stream) (front : ByteArray) : IO ByteArray := do
  let chunk ← stream.read 65536
  if chunk.isEmpty then pure front else inputContents stream (front ++ chunk)

/-- Answers what the command asks for, and writes what it ends with. -/
def Dialogue.perform : Dialogue → IO UInt32
  | finished exit => do
    (← IO.getStdout).putStr exit.output
    (← IO.getStderr).putStr exit.errors
    pure exit.code.toUInt32
  | readFile path next => do (next (← fileContents path)).perform
  | readInput next => do (next (← inputContents (← IO.getStdin) ByteArray.empty)).perform

end ByteBricks.CommandLine

/-- Runs the command with the arguments of the process. -/
def main (arguments : List String) : IO UInt32 :=
  (ByteBricks.CommandLine.command arguments).perform
