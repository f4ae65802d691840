import JsonScript.CommandLine.Invocation
import JsonScript.Text.Unprintable

/-!
# The program

Carries the arguments, the settings, the bytes of the file and the lines of a
dialogue to the library, and what the library answers to the two outputs.
-/

namespace JsonScript

/-- The platform that the program runs on. -/
def platform : Platform where
  unprintable := Text.isUnprintable
  refusal _ := "the text is not JSON"

/-- Reads the bytes of a file. -/
def readFile (path : String) : IO FileRead := do
  try
    return .bytes (← IO.FS.readBinFile path)
  catch
    | .noFileOrDirectory .. => return .missing
    | e => return .unavailable (toString e)

/-- The two settings that the limits are read from. -/
def readSettings : IO (String → Option String) := do
  let depth ← IO.getEnv Limits.depthSetting
  let steps ← IO.getEnv Limits.stepsSetting
  return fun name =>
    if name = Limits.depthSetting then depth
    else if name = Limits.stepsSetting then steps
    else none

/-- Writes texts to the two outputs. -/
def write (output errors : String) : IO Unit := do
  let stdout ← IO.getStdout
  stdout.putStr output
  stdout.flush
  let stderr ← IO.getStderr
  stderr.putStr errors
  stderr.flush

/-- Answers one line of input after the other. -/
partial def converse (m : Machine) : IO Unit := do
  let line ← (← IO.getStdin).getLine
  if line.isEmpty then
    write Texts.farewell ""
  else
    match Dialogue.turn platform Machine.ampleFuel m line with
    | .next reply m =>
        write reply.output reply.errors
        converse m
    | .over reply => write reply.output reply.errors
    | .outOfFuel => return ()

/-- Answers an invocation. -/
def answer (inv : Invocation) : IO UInt32 := do
  match inv.respond Machine.ampleFuel with
  | some response =>
      write response.output response.errors
      return response.exitCode.toUInt32
  | none => return 1

end JsonScript

open JsonScript in
/-- Runs what the arguments ask for. -/
def main (arguments : List String) : IO UInt32 := do
  let settings ← readSettings
  match Command.ofArguments arguments with
  | .dialogue =>
      write Texts.banner ""
      converse (Dialogue.start (.ofSettings settings))
      return 0
  | .runFile path _ =>
      let file ← readFile path
      answer { platform, arguments, settings, files := fun _ => file, input := "" }
  | _ => answer { platform, arguments, settings, files := fun _ => .missing, input := "" }
