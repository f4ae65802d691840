import JsonScript.Document.File
import JsonScript.Document.Program
import JsonScript.Machine.Run

/-!
# From a document to its result

Running a document on a machine of its own, with the printed lines captured,
gives a `Report`, unless a fatal diagnostic ends the run. All runs take fuel
and answer `none` when it does not suffice.

## Main results

* `ofText?_of_error` — a text that is no program is reported, whatever the fuel.
-/

namespace JsonScript

/-- What a run that ends well leaves behind. -/
structure Report where
  output : String
  warnings : Array Diagnostic
  environment : Environment
  deriving Inhabited

namespace Report

/-- The report on a machine that has ended its run. -/
def ofMachine (m : Machine) : Report := ⟨m.sink.captured, m.warnings, m.environment⟩

/-- Runs a program with captured output. -/
def ofProgram? (fuel : Nat) (limits : Limits) (p : Program) : Option (Except Diagnostic Report) :=
  match (Machine.start limits .emptyBuffer).run fuel p with
  | .done m => some (.ok (ofMachine m))
  | .failed d _ => some (.error d)
  | .outOfFuel => none

/-- Reads a program and runs it with captured output. -/
def ofText? (refusal : String → String) (fuel : Nat) (limits : Limits) (text : String) :
    Option (Except Diagnostic Report) :=
  match Program.read refusal text with
  | .error d => some (.error d)
  | .ok p => ofProgram? fuel limits p

theorem ofText?_of_error {refusal : String → String} (fuel : Nat) (limits : Limits)
    {text : String} {d : Diagnostic} (h : Program.read refusal text = .error d) :
    ofText? refusal fuel limits text = some (.error d) := by
  simp [ofText?, h]

end Report

namespace Machine

/-- Runs the program in a file. When there is none, nothing is run. -/
def runFile (refusal : String → String) (fuel : Nat) (path : String) (file : FileRead)
    (m : Machine) : Outcome :=
  match (file.textOf path).bind (Program.read refusal) with
  | .error d => .failed d m
  | .ok p => m.run fuel p

end Machine

end JsonScript
