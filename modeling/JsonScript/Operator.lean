import JsonScript.Diagnostic

/-!
# Operators

The nine operators with two operands, how documents spell them, and what they
compute. Four are arithmetic; only those can update a variable in place. Some
operators have two spellings; `Operator.name` is the one that messages use.

## Main results

* `ofName?_name` — the name of an operator spells it.
* `exists_numbers_of_isArithmetic` — arithmetic that succeeds had two numbers
  and gave one.
-/

namespace JsonScript

/-- An operator with two operands. -/
inductive Operator where
  | add
  | subtract
  | multiply
  | divide
  | equals
  | greaterThan
  | lessThan
  | and
  | or
  deriving DecidableEq, Repr, Inhabited

namespace Operator

/-! ## Spelling -/

/-- The name of an operator. -/
def name : Operator → String
  | .add => "add"
  | .subtract => "subtract"
  | .multiply => "multiply"
  | .divide => "divide"
  | .equals => "equals"
  | .greaterThan => "greater_than"
  | .lessThan => "less_than"
  | .and => "and"
  | .or => "or"

/-- The operator that a key of a document spells. -/
def ofName? : String → Option Operator
  | "add" => some .add
  | "subtract" => some .subtract
  | "multiply" => some .multiply
  | "divide" => some .divide
  | "equals" => some .equals
  | "eq" => some .equals
  | "greater_than" => some .greaterThan
  | "greaterThan" => some .greaterThan
  | "less_than" => some .lessThan
  | "lessThan" => some .lessThan
  | "and" => some .and
  | "or" => some .or
  | _ => none

theorem ofName?_name (op : Operator) : ofName? op.name = some op := by
  cases op <;> rfl

/-- Whether an operator computes a number from numbers. -/
def isArithmetic : Operator → Bool
  | .add | .subtract | .multiply | .divide => true
  | _ => false

/-! ## Meaning -/

/-- The complaint about two operands of the wrong types. -/
def mismatch (expected : String) (left right : Value) : Fault :=
  .typeMismatch expected (left.typeName ++ " and " ++ right.typeName)

/-- Two operands as numbers. -/
def numbers (left right : Value) : Except Fault (Float × Float) :=
  match left, right with
  | .number x, .number y => .ok (x, y)
  | _, _ => .error (mismatch "numbers" left right)

/-- Two operands as truth values. -/
def bools (left right : Value) : Except Fault (Bool × Bool) :=
  match left, right with
  | .bool a, .bool b => .ok (a, b)
  | _, _ => .error (mismatch "bools" left right)

/-- Division, which a zero of either sign refuses. -/
def quotient (x y : Float) : Except Fault Value :=
  if y == 0 then .error .divisionByZero else .ok (.number (x / y))

/-- Equality of two values of one type. Nothing may be compared with a value of
any type. -/
def equality (left right : Value) : Except Fault Value :=
  match left, right with
  | .null, _ | _, .null => .ok (.bool (left == right))
  | _, _ =>
      if left.typeName = right.typeName then .ok (.bool (left == right))
      else .error (mismatch "values of the same type" left right)

/-- The result of an operator on two values. -/
def apply (op : Operator) (left right : Value) : Except Fault Value :=
  match op with
  | .add => (numbers left right).map fun (x, y) => .number (x + y)
  | .subtract => (numbers left right).map fun (x, y) => .number (x - y)
  | .multiply => (numbers left right).map fun (x, y) => .number (x * y)
  | .divide => (numbers left right).bind fun (x, y) => quotient x y
  | .equals => equality left right
  | .greaterThan => (numbers left right).map fun (x, y) => .bool (x > y)
  | .lessThan => (numbers left right).map fun (x, y) => .bool (x < y)
  | .and => (bools left right).map fun (a, b) => .bool (a && b)
  | .or => (bools left right).map fun (a, b) => .bool (a || b)

theorem exists_numbers_of_isArithmetic {op : Operator} {left right v : Value}
    (hop : op.isArithmetic = true) (h : op.apply left right = .ok v) :
    (∃ x, left = .number x) ∧ (∃ y, right = .number y) ∧ ∃ z, v = .number z := by
  have hnum : ∀ {k : Float × Float → Except Fault Value},
      (numbers left right).bind k = .ok v →
        ∃ x y, left = .number x ∧ right = .number y ∧ k (x, y) = .ok v := by
    intro k hk
    cases left <;> cases right <;> simp_all [numbers, Except.bind]
  cases op <;> simp only [isArithmetic, Bool.false_eq_true] at hop
  all_goals
    obtain ⟨x, y, rfl, rfl, hk⟩ := hnum h
    refine ⟨⟨x, rfl⟩, ⟨y, rfl⟩, ?_⟩
    simp only [quotient] at hk
  · simp at hk
    exact ⟨_, hk.symm⟩
  · simp at hk
    exact ⟨_, hk.symm⟩
  · simp at hk
    exact ⟨_, hk.symm⟩
  · split at hk
    · simp at hk
    · simp at hk
      exact ⟨_, hk.symm⟩

end Operator

end JsonScript
