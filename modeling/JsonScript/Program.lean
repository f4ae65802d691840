import JsonScript.Expr

/-!
# Programs

A program binds some variables, defines some routines, and has a main block. A
block is a list of operations, and every operation knows its place in the
document.

Operations come in two sorts. An `Action` is done at once: it binds, changes,
prints or complains, and holds no further operations. The other operations
decide which blocks run, and how often.

A routine is found by name in a `RoutineTable`. The first definition of a name
stays.

## Main results

* `RoutineTable.define?_eq_none_iff` — a definition is refused exactly when the
  name is taken.
-/

namespace JsonScript

/-- What is done at once. -/
inductive Action where
  /-- Binds a variable. -/
  | declare (name : String) (value : Expr)
  /-- Gives a bound variable another value. -/
  | assign (name : String) (value : Expr)
  /-- Gives a bound variable the result of an operator on its value. -/
  | update (op : Operator) (name : String) (value : Expr)
  /-- Prints values on one line. -/
  | print (values : List Expr)
  /-- Nothing that anybody knows. -/
  | unknown (key : String)
  deriving Inhabited

/-- A piece of a block. Each constructor starts with the operation's place. -/
inductive Operation where
  /-- An action. -/
  | act (place : Location) (action : Action)
  /-- One of two blocks. -/
  | choose (place : Location) (condition : Expr) (thenBlock elseBlock : List Operation)
  /-- A block as often as a count says. -/
  | times (place : Location) (count : Expr) (body : List Operation)
  /-- A block as long as a condition holds. -/
  | whilst (place : Location) (condition : Expr) (body : List Operation)
  /-- The body of a routine. -/
  | call (place : Location) (routine : String) (arguments : List Expr)
  deriving Inhabited

/-- The place of an operation in the document. -/
def Operation.place : Operation → Location
  | .act place _ => place
  | .choose place _ _ _ => place
  | .times place _ _ => place
  | .whilst place _ _ => place
  | .call place _ _ => place

/-- A block with a name and parameters. -/
structure Routine where
  name : String
  parameters : List String
  body : List Operation
  deriving Inhabited

/-- The routines of a program, by name. -/
structure RoutineTable where
  routines : NameMap Routine
  deriving Inhabited

namespace RoutineTable

/-- No routines. -/
def empty : RoutineTable := ⟨.empty⟩

/-- The number of routines. -/
def size (t : RoutineTable) : Nat := t.routines.size

/-- Whether there are no routines. -/
def isEmpty (t : RoutineTable) : Bool := t.routines.isEmpty

/-- Adds a routine under its own name, unless the name is taken. -/
def define? (t : RoutineTable) (r : Routine) : Option RoutineTable :=
  if t.routines.contains r.name then none else some ⟨t.routines.insert r.name r⟩

/-- The routine of a name. -/
def find (t : RoutineTable) (name : String) : Except Fault Routine :=
  match t.routines.get? name with
  | some r => .ok r
  | none => .error (.undefinedFunction name)

theorem define?_eq_none_iff (t : RoutineTable) (r : Routine) :
    t.define? r = none ↔ t.routines.contains r.name = true := by
  simp [define?]

theorem find_define? {t t' : RoutineTable} {r : Routine} (h : t.define? r = some t')
    (name : String) : t'.find name = if name = r.name then .ok r else t.find name := by
  simp only [define?, Option.ite_none_left_eq_some, Option.some.injEq] at h
  rw [← h.2]
  simp only [find, NameMap.get?_insert]
  by_cases hn : name = r.name <;> simp [hn]

end RoutineTable

/-- A program: variables bound at the start, in document order, routines, and
the main block. -/
structure Program where
  bindings : List (String × Value)
  routines : RoutineTable
  main : List Operation
  deriving Inhabited

/-- The program that does nothing. -/
def Program.empty : Program := ⟨[], .empty, []⟩

end JsonScript
