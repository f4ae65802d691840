import JsonScript.Limits
import JsonScript.Program
import JsonScript.Sink

/-!
# The machine that runs programs

A `Machine` is everything that running can read or change: the limits, the
variables, the routines, the receiver of printed lines, the warnings, the
number of active calls and the number of steps taken.

This module holds what a machine does at once. An action is done in two
stages: `Action.effect` decides from the variables alone what is to happen, or
that nothing can, and `Machine.commit` makes it happen. So an action that
fails leaves no trace, and what it does depends on nothing but the variables.
A call is prepared in the same way before its scope is entered.

Steps are counted without an upper end. A counter of 64 bits comes to the same:
under a step limit that leaves room for one step more it is never overrun
(`Runs.steps_lt_bound`), and without a limit the count is not looked at
(`Runs.later_iff`).

## Main results

* `effect_assign_of_contains`, `effect_update_of_contains` — an update in place
  is the assignment of the operation.
* `leave_enter` — leaving a call undoes entering it.
-/

namespace JsonScript

/-! ## Effects of actions -/

/-- What an action makes happen. -/
inductive Effect where
  /-- The variables change. -/
  | become (environment : Environment)
  /-- A line is printed. -/
  | print (line : String)
  /-- A warning is noted. -/
  | warn (fault : Fault)
  deriving Inhabited

/-- The effect of an assignment: a warning when the name is not bound. -/
def Effect.ofAssignment (env : Environment) (name : String) (v : Value) : Effect :=
  match env.assign name v with
  | .ok env' => .become env'
  | .error fault => .warn fault

namespace Action

/-- What an action is to make happen. The value of an assignment is evaluated
before its name is looked up; an update in place looks up the name first and
evaluates nothing when it is not bound. All values to be printed are evaluated
before anything is printed. -/
def effect (env : Environment) : Action → Except Fault Effect
  | .declare name e => do
      let v ← e.eval env
      return .become (env.declare name v)
  | .assign name e => do
      let v ← e.eval env
      return Effect.ofAssignment env name v
  | .update op name e =>
      if env.contains name then do
        let current ← env.get name
        let operand ← e.eval env
        let result ← op.apply current operand
        let env' ← env.update name result
        return .become env'
      else .ok (.warn (.undeclaredAssignment name))
  | .print es => do
      let vs ← Expr.evalAll env es
      return .print (" ".intercalate (vs.map Value.text))
  | .unknown key => .ok (.warn (.unknownOperation key))

theorem effect_assign_of_contains {env : Environment} {name : String} (e : Expr)
    (h : env.contains name = true) :
    (Action.assign name e).effect env =
      (e.eval env).map fun v => .become (env.declare name v) := by
  cases hv : e.eval env with
  | error f => simp [effect, hv, bind, Except.bind, Except.map]
  | ok v =>
      simp [effect, hv, bind, Except.bind, pure, Except.pure, Except.map,
        Effect.ofAssignment, Environment.assign, Environment.rebind_eq_ite, h]

theorem effect_update_of_contains {env : Environment} {op : Operator} {name : String} (e : Expr)
    (h : env.contains name = true) :
    (Action.update op name e).effect env =
      (Action.assign name (.binary op (.variable name) e)).effect env := by
  rw [effect_assign_of_contains _ h, effect, if_pos h]
  simp only [Expr.eval, Environment.update, Environment.rebind_eq_ite, h, if_true]
  cases env.get name with
  | error f => rfl
  | ok current =>
      cases e.eval env with
      | error f => rfl
      | ok operand => cases hr : op.apply current operand <;>
          simp [bind, Except.bind, pure, Except.pure, Except.map, hr]

end Action

/-- The state of a run. -/
structure Machine where
  limits : Limits
  environment : Environment
  routines : RoutineTable
  sink : Sink
  warnings : Array Diagnostic
  depth : Nat
  steps : Nat
  deriving Inhabited

namespace Machine

/-! ## Setting up -/

/-- A machine that has not run anything. -/
def start (limits : Limits) (sink : Sink) : Machine :=
  { limits, sink, environment := .empty, routines := .empty, warnings := #[], depth := 0
    steps := 0 }

/-- Forgets everything but the limits and what was printed. -/
def reset (m : Machine) : Machine := start m.limits m.sink

/-- The machine at the start of a program: everything forgotten, then its
variables bound and its routines defined. -/
def load (m : Machine) (p : Program) : Machine :=
  { m.reset with environment := .ofList p.bindings, routines := p.routines }

/-- The value of an expression in the current variables. -/
def evaluate (m : Machine) (e : Expr) : Except Fault Value := e.eval m.environment

/-- The machine after its warnings were taken. -/
def withoutWarnings (m : Machine) : Machine := { m with warnings := #[] }

/-- Prints a line. -/
def println (m : Machine) (line : String) : Machine := { m with sink := m.sink.println line }

/-- The machine after its captured text was taken. -/
def withoutCaptured (m : Machine) : Machine := { m with sink := m.sink.taken }

/-! ## Steps -/

/-- Counts a step. -/
def tick (m : Machine) : Machine := { m with steps := m.steps + 1 }

/-- The fault of a machine that has taken more steps than it may. -/
def exhausted? (m : Machine) : Option Fault :=
  match m.limits.maxSteps with
  | some limit => if limit < m.steps then some (.stepLimitExceeded limit) else none
  | none => none

/-! ## Actions -/

/-- Notes a warning about a place. -/
def warn (m : Machine) (fault : Fault) (place : Location) : Machine :=
  { m with warnings := m.warnings.push ⟨fault, some place⟩ }

/-- Makes the effect of an action at some place happen. -/
def commit (m : Machine) (place : Location) : Effect → Machine
  | .become environment => { m with environment }
  | .print line => m.println line
  | .warn fault => m.warn fault place

/-! ## Calls -/

/-- The routine that a call runs, and the variables its body starts with: the
parameters bound to the arguments and nothing else. The name is looked up
first, then the number of arguments is checked, then the number of active
calls; only then are the arguments evaluated. -/
def prepareCall (m : Machine) (name : String) (arguments : List Expr) :
    Except Fault (Routine × Environment) :=
  match m.routines.find name with
  | .error fault => .error fault
  | .ok r =>
      if r.parameters.length ≠ arguments.length then
        .error (.arityMismatch r.parameters.length arguments.length)
      else if m.limits.maxDepth ≤ m.depth then
        .error (.stackOverflow m.limits.maxDepth)
      else
        (Expr.evalAll m.environment arguments).map fun vs =>
          (r, .ofList (r.parameters.zip vs))

/-- Starts a call with the variables of its own. -/
def enter (m : Machine) (environment : Environment) : Machine :=
  { m with environment, depth := m.depth + 1 }

/-- Ends a call and takes up the caller's variables again. -/
def leave (m : Machine) (environment : Environment) : Machine :=
  { m with environment, depth := m.depth - 1 }

theorem leave_enter (m : Machine) (environment : Environment) :
    (m.enter environment).leave m.environment = m := rfl

end Machine

end JsonScript
