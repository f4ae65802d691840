import JsonScript.CommandLine.Texts
import JsonScript.Document.Program
import JsonScript.Machine.Run
import JsonScript.Platform

/-!
# The dialogue

A dialogue runs one line of input after the other on the same machine, so that
variables stay bound from line to line. A few words are commands; every other
line that is not blank holds an operation or a block of them. Diagnostics of a
line are shown after what it printed: first the warnings, then the error.

A dialogue is a fold of `Dialogue.turn` over the lines; it ends with a command
or with the input.

## Main results

* `turn_blank` — a blank line says and changes nothing.
-/

namespace JsonScript

/-- What a line of a dialogue writes. -/
structure Reply where
  output : String
  errors : String
  deriving DecidableEq, Repr, Inhabited

/-- What a line of a dialogue leads to. -/
inductive Turn where
  /-- The dialogue goes on with this machine. -/
  | next (reply : Reply) (machine : Machine)
  /-- The dialogue is over. -/
  | over (reply : Reply)
  /-- The fuel did not suffice. -/
  | outOfFuel
  deriving Inhabited

namespace Dialogue

/-- A line that warns. -/
def warningLine (d : Diagnostic) : String := "warning: " ++ d.render ++ "\n"

/-- The lines that warn, in the order in which the warnings were noted. -/
def warningLines (ds : Array Diagnostic) : String :=
  String.join (ds.toList.map warningLine)

/-- Nothing written. -/
def silence : Reply := ⟨"", ""⟩

/-- The listing of one variable. -/
def variableLine (platform : Platform) (binding : String × Value) : String :=
  "  " ++ binding.1 ++ " = " ++ binding.2.inspect platform.unprintable ++ "\n"

/-- The listing of all variables. -/
def listing (platform : Platform) (env : Environment) : String :=
  if env.isEmpty then "No variables.\n"
  else String.join (env.toList.map (variableLine platform))

/-- What running a line wrote, and the machine for the next line. -/
def conclude (m : Machine) (error : String) : Turn :=
  .next ⟨m.sink.written, warningLines m.warnings ++ error⟩
    { m with sink := m.sink.shown, warnings := #[] }

/-- Runs the operations of a line. -/
def execute (platform : Platform) (fuel : Nat) (m : Machine) (line : String) : Turn :=
  match Block.readInput platform.refusal line with
  | .error d => .next ⟨"", d.render ++ "\n"⟩ m
  | .ok operations =>
      match m.runBlock fuel operations with
      | .done m' => conclude m' ""
      | .failed d m' => conclude m' (d.render ++ "\n")
      | .outOfFuel => .outOfFuel

/-- Answers a line. -/
def turn (platform : Platform) (fuel : Nat) (m : Machine) (line : String) : Turn :=
  match Text.trim line with
  | "" => .next silence m
  | "exit" | "quit" => .over ⟨Texts.farewell, ""⟩
  | "help" => .next ⟨Texts.dialogueHelp, ""⟩ m
  | "clear" => .next ⟨"State cleared.\n", ""⟩ m.reset
  | "vars" => .next ⟨listing platform m.environment, ""⟩ m
  | command => execute platform fuel m command

/-- The machine that a dialogue starts with. -/
def start (limits : Limits) : Machine := .start limits (.console "")

/-- The whole dialogue from some machine on: what it writes, line by line. -/
def converse (platform : Platform) (fuel : Nat) (m : Machine) :
    List String → Option (List Reply)
  | [] => some [⟨Texts.farewell, ""⟩]
  | line :: rest =>
      match turn platform fuel m line with
      | .next reply m' => (converse platform fuel m' rest).map (reply :: ·)
      | .over reply => some [reply]
      | .outOfFuel => none

theorem turn_blank (platform : Platform) (fuel : Nat) (m : Machine) {line : String}
    (h : Text.trim line = "") : turn platform fuel m line = .next silence m := by
  simp [turn, h]

end Dialogue

end JsonScript
