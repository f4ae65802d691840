import JsonScript.Environment
import JsonScript.Operator

/-!
# Expressions

An expression is a literal, a variable, or an operator on expressions. It has
a value in an environment, or a fault; it changes nothing and takes no steps.
Operands are evaluated from left to right, all of them, also where the left
one decides the result.

## Main results

* `eval_binary_eq_ok_iff` — an operator has a value exactly when both operands
  have and the operator accepts them.
-/

namespace JsonScript

/-- Anything that has a value. -/
inductive Expr where
  /-- A value taken as it is written. -/
  | literal (v : Value)
  /-- The value of a variable. -/
  | variable (name : String)
  /-- An operator on two operands. -/
  | binary (op : Operator) (left right : Expr)
  /-- Negation of a truth value. -/
  | not (operand : Expr)
  deriving Inhabited

namespace Expr

/-- Negation of a truth value. -/
def negate : Value → Except Fault Value
  | .bool b => .ok (.bool (!b))
  | v => .error (.typeMismatch "bool" v.typeName)

/-- The value of an expression. -/
def eval (env : Environment) : Expr → Except Fault Value
  | .literal v => .ok v
  | .variable name => env.get name
  | .binary op left right => do
      let x ← left.eval env
      let y ← right.eval env
      op.apply x y
  | .not operand => do
      let x ← operand.eval env
      negate x

/-- The values of several expressions, from left to right. -/
def evalAll (env : Environment) : List Expr → Except Fault (List Value)
  | [] => .ok []
  | e :: rest => do
      let v ← e.eval env
      let vs ← evalAll env rest
      return v :: vs

/-- The value of an expression that decides something. -/
def evalCondition (env : Environment) (e : Expr) : Except Fault Bool := do
  let v ← e.eval env
  match v.asBool? with
  | some b => .ok b
  | none => .error (.typeMismatch "bool condition" v.typeName)

/-- The largest number of repetitions. -/
def maxCount : Nat := Nat.pow 2 64 - 1

/-- The number of repetitions that a number asks for: a whole number that is
not below zero. A count of exactly `2 ^ 64` is accepted too and means one
repetition less; larger ones are refused. -/
def countOf (x : Float) : Except Fault Nat :=
  if x < 0 then .error (.negativeCount x)
  else
    match (Double.ofFloat x).toNat? with
    | some n =>
        if n ≤ maxCount + 1 then .ok (min n maxCount)
        else .error (.typeMismatch "whole number" (Value.plainNumber x))
    | none => .error (.typeMismatch "whole number" (Value.plainNumber x))

/-- The value of an expression that says how often to repeat something. -/
def evalCount (env : Environment) (e : Expr) : Except Fault Nat := do
  let v ← e.eval env
  match v.asNumber? with
  | some x => countOf x
  | none => .error (.typeMismatch "number" v.typeName)

theorem eval_binary_eq_ok_iff (env : Environment) (op : Operator) (left right : Expr) (v : Value) :
    (binary op left right).eval env = .ok v ↔
      ∃ x y, left.eval env = .ok x ∧ right.eval env = .ok y ∧ op.apply x y = .ok v := by
  rw [eval]
  cases left.eval env with
  | error f => simp [bind, Except.bind]
  | ok x => cases right.eval env <;> simp [bind, Except.bind]

end Expr

end JsonScript
