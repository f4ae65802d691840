import JsonScript.Document.Operand
import JsonScript.Program

/-!
# Blocks in a document

A block is an array of statement objects. A statement object may hold several
keys; each becomes an operation of its own, in document order, and all of them
have the place of the object. While an operation's body is read, complaints
name the place below the key.

A key that nobody knows is kept as an operation, to be complained about when
it is run. A value in the place of a statement is refused, with one exception:
arithmetic whose left operand is a variable updates that variable.

## Main results

* `readAction_eq` — the action of a key, for each form that the key may have.
* `readOperations_nil`, `readStatements_nil` — empty statements and blocks hold
  no operation.
-/

namespace JsonScript

namespace Block

open Reading

/-! ## Actions -/

/-- The variable that an operation writes, and the operand it writes. -/
def readTarget (place : Location) (body : Json) : Reading (String × Expr) := do
  let ⟨members, _⟩ ← requireObject "target" place body
  let ⟨target, _⟩ ← requireMember "var" place members
  let name ← requireString .targetNotString (place.key "var") target
  let ⟨operand, _⟩ ← requireMember "value" place members
  let value ← Operand.read (place.key "value") operand
  return (name, value)

/-- The operands that are printed: the items of an array, or one operand. -/
def readPrinted (place : Location) (body : Json) : Reading (List Expr) :=
  match body with
  | .array items => Operand.readAll place 0 items
  | single => (Operand.read place single).map fun e => [e]

/-- An operator in the place of a statement. Arithmetic on a variable updates
it; anything else would compute a value for nothing. -/
def readOperatorStatement (place : Location) (op : Operator) (body : Json) : Reading Action :=
  if op.isArithmetic then do
    match ← Operand.readPair place body with
    | (.variable name, value) => return .update op name value
    | _ => fail (.unusedValue op.name) place
  else fail (.unusedValue op.name) place

/-- A key that may stand for a value, in the place of a statement. -/
def readValueStatement (place : Location) (key : String) (body : Json) : Reading Action :=
  match Operator.ofName? key with
  | some op => readOperatorStatement place op body
  | none => fail (.unusedValue key) place

/-- The action of a key that is no control operation. -/
def readAction (place : Location) (key : String) (body : Json) : Reading Action :=
  match key with
  | "declare" => (readTarget place body).map fun (name, value) => .declare name value
  | "assign" => (readTarget place body).map fun (name, value) => .assign name value
  | "print" => (readPrinted place body).map .print
  | _ =>
      if isUpdate key body then do
        let (name, value) ← readTarget place body
        match Operator.ofName? key with
        | some op => return .update op name value
        | none => fail .unknownUpdate place
      else if Operand.isOperandKey key then readValueStatement place key body
      else .ok (.unknown key)

/-- The second look at the key of an update finds the operator that the first look found. -/
theorem readAction_eq (place : Location) (key : String) (body : Json) :
    readAction place key body =
      match key with
      | "declare" => (readTarget place body).map fun (name, value) => .declare name value
      | "assign" => (readTarget place body).map fun (name, value) => .assign name value
      | "print" => (readPrinted place body).map .print
      | "not" | "literal" => fail (.unusedValue key) place
      | _ =>
          match Operator.ofName? key with
          | none => .ok (.unknown key)
          | some op =>
              if isUpdate key body then
                (readTarget place body).map fun (name, value) => .update op name value
              else readOperatorStatement place op body := by
  split
  case h_1 | h_2 | h_3 | h_4 | h_5 => rfl
  case h_6 hdeclare hassign hprint hnot hliteral =>
    rw [readAction.eq_4 _ _ _ hdeclare hassign hprint]
    cases hop : Operator.ofName? key with
    | none =>
        have hkey := (Operand.isOperandKey_eq_false_iff key).2 ⟨hop, hnot, hliteral⟩
        have hupdate : isUpdate key body = false := by rw [isUpdate.eq_def, hop]
        rw [hupdate, hkey]
        rfl
    | some op =>
        rw [readValueStatement, hop, Operand.isOperandKey_of_ofName? hop, if_pos rfl]
        cases isUpdate key body with
        | true => cases readTarget place body <;> rfl
        | false => rfl

/-! ## Control operations -/

/-- The count of a repetition and the key it stands under. -/
def readCount (place : Location) (members : Json.Members) : Reading Expr :=
  match members.lookup "times", members.lookup "count" with
  | some j, none => Operand.read (place.key "times") j
  | none, some j => Operand.read (place.key "count") j
  | _, _ => fail .notOneCount place

/-- The arguments of a call, none if there is no such member. -/
def readArguments (place : Location) (members : Json.Members) : Reading (List Expr) :=
  match members.lookup "arguments" with
  | some (.array items) => Operand.readAll (place.key "arguments") 0 items
  | some _ => fail .argumentsNotArray (place.key "arguments")
  | none => .ok []

/-- The condition that decides about a block. -/
def readCondition (place : Location) (members : Json.Members) : Reading Expr := do
  let ⟨j, _⟩ ← requireMember "condition" place members
  Operand.read (place.key "condition") j

/-- The name and the arguments of a call. -/
def readCall (place : Location) (body : Json) : Reading (String × List Expr) := do
  let ⟨members, _⟩ ← requireObject "'call'" place body
  let ⟨j, _⟩ ← requireMember "function" place members
  let name ← requireString .functionNameNotString (place.key "function") j
  let arguments ← readArguments place members
  return (name, arguments)

mutual

/-- The operations of a block. -/
def read (place : Location) (j : Json) : Reading (List Operation) :=
  match j with
  | .array items => readStatements place 0 items
  | _ => fail .notABlock place
termination_by sizeOf j
decreasing_by simp only [Json.array.sizeOf_spec]; omega

/-- The operations of statement objects, numbered from `i`. -/
def readStatements (place : Location) (i : Nat) (items : List Json) :
    Reading (List Operation) :=
  match items with
  | [] => .ok []
  | j :: rest => do
      let operations ← readStatement (place.item i) j
      let more ← readStatements place (i + 1) rest
      return operations ++ more
termination_by sizeOf items
decreasing_by all_goals simp only [List.cons.sizeOf_spec]; omega

/-- The operations of one statement object. -/
def readStatement (place : Location) (j : Json) : Reading (List Operation) :=
  match j with
  | .object members => readOperations place members
  | _ => fail (.notAnObject "operation") place
termination_by sizeOf j
decreasing_by simp only [Json.object.sizeOf_spec]; omega

/-- The operations of the members of a statement object. -/
def readOperations (place : Location) (members : Json.Members) : Reading (List Operation) :=
  match members with
  | [] => .ok []
  | (key, body) :: rest => do
      let operation ← readOperation place key body
      let more ← readOperations place rest
      return operation :: more
termination_by sizeOf members
decreasing_by all_goals simp only [List.cons.sizeOf_spec, Prod.mk.sizeOf_spec]; omega

/-- The operation of one member of the statement object at `place`. -/
def readOperation (place : Location) (key : String) (body : Json) : Reading Operation :=
  let inner := place.key key
  match key with
  | "if" => do
      let ⟨members, _⟩ ← requireObject "'if'" inner body
      let condition ← readCondition inner members
      let ⟨j, _⟩ ← requireMember "then" inner members
      let thenBlock ← read (inner.key "then") j
      let elseBlock ←
        match _h : members.lookup "else" with
        | some j => read (inner.key "else") j
        | none => .ok []
      return .choose place condition thenBlock elseBlock
  | "loop" => do
      let ⟨members, _⟩ ← requireObject "'loop'" inner body
      let count ← readCount inner members
      let ⟨j, _⟩ ← requireMember "body" inner members
      let block ← read (inner.key "body") j
      return .times place count block
  | "while" => do
      let ⟨members, _⟩ ← requireObject "'while'" inner body
      let condition ← readCondition inner members
      let ⟨j, _⟩ ← requireMember "body" inner members
      let block ← read (inner.key "body") j
      return .whilst place condition block
  | "call" => (readCall inner body).map fun (name, arguments) => .call place name arguments
  | _ => (readAction inner key body).map (.act place)
termination_by sizeOf body
decreasing_by all_goals subst ‹body = _›; exact Json.sizeOf_lt_of_lookup ‹_›

end

theorem readStatements_nil (place : Location) (i : Nat) : readStatements place i [] = .ok [] := by
  rw [readStatements]

theorem readOperations_nil (place : Location) : readOperations place [] = .ok [] := by
  rw [readOperations]

end Block

end JsonScript
