import JsonScript.Location
import JsonScript.Value

/-!
# Faults and diagnostics

A `Fault` is what went wrong; a `Diagnostic` is a fault together with the place
in the document where it did. Two faults are only reported: writing to a name
that was never declared, and an operation nobody knows. All others end the run.

The wording of every fault is in `Fault.message`.

## Main results

* `Diagnostic.located_of_located` — a place once attached is never replaced.
-/

namespace JsonScript

/-- What can go wrong, from reading a document to running it. -/
inductive Fault where
  /-- The document cannot be read from its file. -/
  | unreadable (message : String)
  /-- The text is not a JSON text. -/
  | invalidJson (detail : String)
  /-- The JSON tree is not a program. -/
  | malformed (detail : String)
  /-- A variable is read that is not bound. -/
  | undefinedVariable (name : String)
  /-- A routine is called that is not defined. -/
  | undefinedFunction (name : String)
  /-- A value is of the wrong type. -/
  | typeMismatch (expected got : String)
  /-- The divisor is zero. -/
  | divisionByZero
  /-- A routine is called with the wrong number of arguments. -/
  | arityMismatch (expected got : Nat)
  /-- A repetition count is below zero. -/
  | negativeCount (count : Float)
  /-- Too many calls are active at once. -/
  | stackOverflow (limit : Nat)
  /-- Too many operations were run. -/
  | stepLimitExceeded (limit : Nat)
  /-- A variable is written that is not bound. -/
  | undeclaredAssignment (name : String)
  /-- An operation has a key that nobody knows. -/
  | unknownOperation (key : String)
  deriving Inhabited

namespace Fault

/-- Whether a fault ends the run. -/
def isFatal : Fault → Bool
  | .undeclaredAssignment _ | .unknownOperation _ => false
  | _ => true

/-- The wording of a fault. -/
def message : Fault → String
  | .unreadable message => message
  | .invalidJson detail => "invalid JSON: " ++ detail
  | .malformed detail => "malformed program: " ++ detail
  | .undefinedVariable name => "undefined variable '" ++ name ++ "'"
  | .undefinedFunction name => "undefined function '" ++ name ++ "'"
  | .typeMismatch expected got => "type mismatch: expected " ++ expected ++ ", got " ++ got
  | .divisionByZero => "division by zero"
  | .arityMismatch expected got =>
      "expected " ++ toString expected ++ " arguments, got " ++ toString got
  | .negativeCount count => "loop count must not be negative, got " ++ Value.plainNumber count
  | .stackOverflow limit => "stack overflow: call depth exceeded " ++ toString limit
  | .stepLimitExceeded limit => "step limit of " ++ toString limit ++ " operations exceeded"
  | .undeclaredAssignment name => "variable '" ++ name ++ "' not declared"
  | .unknownOperation key => "unknown operation '" ++ key ++ "'"

end Fault

/-- A fault and, once known, its place in the document. -/
structure Diagnostic where
  fault : Fault
  location : Option Location
  deriving Inhabited

namespace Diagnostic

/-- Attaches a place, unless a more precise one is attached already. -/
def located (d : Diagnostic) (location : Location) : Diagnostic :=
  { d with location := some (d.location.getD location) }

/-- Whether a diagnostic ends the run. -/
def isFatal (d : Diagnostic) : Bool := d.fault.isFatal

/-- The line that reports a diagnostic. -/
def render (d : Diagnostic) : String :=
  match d.location with
  | some location => "[at " ++ location.render ++ "] Error: " ++ d.fault.message
  | none => "Error: " ++ d.fault.message

theorem located_of_located (d : Diagnostic) (inner outer : Location) :
    (d.located inner).located outer = d.located inner := by
  simp [located]

end Diagnostic

end JsonScript
