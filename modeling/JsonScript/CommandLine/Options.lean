import JsonScript.Limits

/-!
# Options

Options follow the path of the file: each is a flag and a counter, and a later
one wins over an earlier one. Unlike settings, counters have no blanks around
them here. A flag without a value is noticed before its name is looked at.

## Main results

* `parse_pair` — options are read two arguments at a time.
-/

namespace JsonScript

/-- What keeps arguments from being options. -/
inductive OptionError where
  /-- The last flag has no value. -/
  | missingValue (flag : String)
  /-- The number of steps is no counter. -/
  | invalidSteps (value : String)
  /-- The number of active calls is no counter. -/
  | invalidDepth (value : String)
  /-- Nobody knows the flag. -/
  | unknownFlag (flag : String)
  deriving DecidableEq, Repr, Inhabited

/-- The wording of an option error. -/
def OptionError.message : OptionError → String
  | .missingValue flag => "missing value for '" ++ flag ++ "'"
  | .invalidSteps value => "invalid step count '" ++ value ++ "'"
  | .invalidDepth value => "invalid call depth '" ++ value ++ "'"
  | .unknownFlag flag => "unknown option '" ++ flag ++ "'"

namespace Options

/-- One flag with its value, on top of other limits. -/
def applyFlag (limits : Limits) (flag value : String) : Except OptionError Limits :=
  if flag = "--max-steps" then
    match Counter.read? value with
    | some n => .ok { limits with maxSteps := some n }
    | none => .error (.invalidSteps value)
  else if flag = "--max-depth" then
    match Counter.read? value with
    | some n => .ok { limits with maxDepth := n }
    | none => .error (.invalidDepth value)
  else .error (.unknownFlag flag)

/-- All options, on top of other limits. The first error is the one reported. -/
def parse (limits : Limits) : List String → Except OptionError Limits
  | [] => .ok limits
  | [flag] => .error (.missingValue flag)
  | flag :: value :: rest =>
      match applyFlag limits flag value with
      | .ok limits => parse limits rest
      | .error e => .error e

theorem parse_pair (limits : Limits) (flag value : String) (rest : List String) :
    parse limits (flag :: value :: rest) =
      match applyFlag limits flag value with
      | .ok limits => parse limits rest
      | .error e => .error e := rfl

end Options

end JsonScript
