import JsonScript.CommandLine.Dialogue
import JsonScript.CommandLine.Options
import JsonScript.Report

/-!
# Invocations

An invocation of the program is its arguments, the settings, the files it can
read, and its input, on some platform. The response is what it writes to the two outputs and its
exit code. All of it is a function here; the outer layer only carries bytes.

## Main results

* `ofArguments_run` — what follows the word `run` is a path, even a command.
-/

namespace JsonScript

/-- What the arguments ask for. -/
inductive Command where
  /-- Nothing; a file is missing. -/
  | noFile
  /-- A file is to be run. -/
  | runFile (path : String) (flags : List String)
  /-- A dialogue. -/
  | dialogue
  /-- Help. -/
  | help
  /-- The version. -/
  | version
  deriving DecidableEq, Repr, Inhabited

/-- The command that arguments spell. -/
def Command.ofArguments : List String → Command
  | [] => .noFile
  | "run" :: rest =>
      match rest with
      | [] => .noFile
      | path :: flags => .runFile path flags
  | "repl" :: _ => .dialogue
  | "help" :: _ => .help
  | "--help" :: _ => .help
  | "-h" :: _ => .help
  | "version" :: _ => .version
  | "--version" :: _ => .version
  | "-v" :: _ => .version
  | path :: flags => .runFile path flags

/-- What the program is called with. -/
structure Invocation where
  platform : Platform
  arguments : List String
  settings : String → Option String
  files : String → FileRead
  input : String
  deriving Inhabited

/-- What the program answers. -/
structure Response where
  exitCode : UInt8
  output : String
  errors : String
  deriving DecidableEq, Repr, Inhabited

namespace Response

/-- A response without complaints. -/
def success (output : String) : Response := ⟨0, output, ""⟩

/-- A complaint about the invocation. -/
def misuse (message : String) : Response :=
  ⟨1, "", "error: " ++ message ++ "\n" ++ Texts.usage⟩

/-- The response after a file was run. -/
def ofRun (m : Machine) (error : Option Diagnostic) : Response :=
  let warnings := Dialogue.warningLines m.warnings
  match error with
  | none => ⟨0, m.sink.written, warnings⟩
  | some d => ⟨1, m.sink.written, warnings ++ "error: " ++ d.render ++ "\n"⟩

/-- The response after a dialogue. -/
def ofReplies (replies : List Reply) : Response :=
  ⟨0, Texts.banner ++ String.join (replies.map Reply.output),
    String.join (replies.map Reply.errors)⟩

end Response

namespace Invocation

/-- Whether a path ends as document files do. -/
def hasExtension (path : String) : Bool := Texts.extension.toList.isSuffixOf path.toList

/-- Runs a file: the path and the options are checked before the file is read. -/
def runFile (fuel : Nat) (inv : Invocation) (path : String) (flags : List String) :
    Option Response :=
  if hasExtension path then
    match Options.parse (Limits.ofSettings inv.settings) flags with
    | .error e => some (.misuse e.message)
    | .ok limits =>
        match (Machine.start limits (.console "")).runFile inv.platform.refusal fuel path
          (inv.files path) with
        | .done m => some (.ofRun m none)
        | .failed d m => some (.ofRun m (some d))
        | .outOfFuel => none
  else
    some (.misuse ("the file must have a " ++ Texts.extension ++ " extension: '" ++ path ++ "'"))

/-- The lines of a dialogue's input. -/
def lines (inv : Invocation) : List String := inv.input.splitOn "\n"

/-- Answers an invocation; `none` when the fuel does not suffice. -/
def respond (fuel : Nat) (inv : Invocation) : Option Response :=
  match Command.ofArguments inv.arguments with
  | .noFile => some (.misuse "missing file argument")
  | .runFile path flags => inv.runFile fuel path flags
  | .dialogue =>
      (Dialogue.converse inv.platform fuel (Dialogue.start (Limits.ofSettings inv.settings))
        inv.lines).map Response.ofReplies
  | .help => some (.success Texts.help)
  | .version => some (.success (Texts.languageName ++ " " ++ Texts.version ++ "\n"))

end Invocation

/-- What follows the word `run` is a path, even if it is a command's name. -/
theorem Command.ofArguments_run (path : String) (flags : List String) :
    Command.ofArguments ("run" :: path :: flags) = .runFile path flags := rfl

end JsonScript
