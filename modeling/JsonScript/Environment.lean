import JsonScript.Diagnostic
import JsonScript.NameMap

/-!
# Environments

The variables that are bound at one moment, with their values. Declaring binds
a name whether it was bound or not; assigning and updating change a bound name
and never add one. They differ only in the fault they report.

A call runs in an environment of its own, so there is no nesting: to enter a
scope is to start another environment, and to leave it is to take the old one
up again.

## Main results

* `get?_declare` — declaring changes one name.
* `assign_eq_error_iff`, `update_eq_error_iff` — writing fails exactly on
  unbound names.
-/

namespace JsonScript

/-- The variables bound at one moment. -/
structure Environment where
  bindings : NameMap Value
  deriving Inhabited

namespace Environment

/-- No variables. -/
def empty : Environment := ⟨.empty⟩

/-- Variables bound from left to right; a later binding of a name wins. -/
def ofList (bindings : List (String × Value)) : Environment := ⟨.ofList bindings⟩

/-- The variables in the order of their names. -/
def toList (env : Environment) : List (String × Value) := env.bindings.entries

/-- The number of variables. -/
def size (env : Environment) : Nat := env.bindings.size

/-- Whether there are no variables. -/
def isEmpty (env : Environment) : Bool := env.bindings.isEmpty

/-- The value of a name, if it is bound. -/
def get? (env : Environment) (name : String) : Option Value := env.bindings.get? name

/-- Whether a name is bound. -/
def contains (env : Environment) (name : String) : Bool := env.bindings.contains name

/-- The value of a variable. -/
def get (env : Environment) (name : String) : Except Fault Value :=
  match env.get? name with
  | some v => .ok v
  | none => .error (.undefinedVariable name)

/-- Binds a name, whether it was bound or not. -/
def declare (env : Environment) (name : String) (v : Value) : Environment :=
  ⟨env.bindings.insert name v⟩

/-- Changes a bound name, or gives a fault. -/
def rebind (env : Environment) (name : String) (v : Value) (unbound : Fault) :
    Except Fault Environment :=
  match env.bindings.insertIfBound? name v with
  | some bindings => .ok ⟨bindings⟩
  | none => .error unbound

/-- Gives a variable another value. Doing so to a name never declared is a
mistake of the program that need not end it. -/
def assign (env : Environment) (name : String) (v : Value) : Except Fault Environment :=
  env.rebind name v (.undeclaredAssignment name)

/-- Gives a variable another value, where the name must be bound already. -/
def update (env : Environment) (name : String) (v : Value) : Except Fault Environment :=
  env.rebind name v (.undefinedVariable name)

/-- Equality of environments, with values compared as the language does. -/
def equal (a b : Environment) : Bool :=
  a.size == b.size &&
    (a.toList.zip b.toList).all fun (x, y) => x.1 == y.1 && x.2 == y.2

/-! ## What the operations do -/

@[simp] theorem get?_declare (env : Environment) (name x : String) (v : Value) :
    (env.declare name v).get? x = if x = name then some v else env.get? x :=
  NameMap.get?_insert ..

theorem rebind_eq_ite (env : Environment) (name : String) (v : Value) (unbound : Fault) :
    env.rebind name v unbound =
      if env.contains name then .ok (env.declare name v) else .error unbound := by
  simp only [rebind, NameMap.insertIfBound?, contains]
  split <;> simp_all [declare]

theorem assign_eq_error_iff (env : Environment) (name : String) (v : Value) (f : Fault) :
    env.assign name v = .error f ↔
      env.contains name = false ∧ f = .undeclaredAssignment name := by
  rw [assign, rebind_eq_ite]
  cases env.contains name <;> simp [eq_comm]

theorem update_eq_error_iff (env : Environment) (name : String) (v : Value) (f : Fault) :
    env.update name v = .error f ↔
      env.contains name = false ∧ f = .undefinedVariable name := by
  rw [update, rebind_eq_ite]
  cases env.contains name <;> simp [eq_comm]

end Environment

end JsonScript
