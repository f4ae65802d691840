import JsonScript.Document.Malformation
import JsonScript.Expr

/-!
# Operands in a document

A JSON node stands for an expression: a string for a variable, another scalar
for itself, and an object with one key for an operator, a negation, or a
literal that may also be a string.

Operators take their operands as an array of two or as an object with `left`
and `right`. Arithmetic on an object with a member `var` is an update in place
and has no value.

A key is looked at once to see whether it may stand for a value, and once more
when its body is read. The second look has a complaint of its own, as has a
scalar without a value; neither is ever made.

## Main results

* `read_string`, `read_scalar`, `read_not`, `read_operator` and their likes — what
  a node reads to, for each form that it may have.
* `read_induct` — induction over the nodes that are read one after the other.
-/

namespace JsonScript

/-- The value that a scalar node is. -/
def Json.toValue? : Json → Option Value
  | .null => some .null
  | .bool b => some (.bool b)
  | .number x => some (.number x)
  | .string s => some (.string s)
  | .array _ | .object _ => none

theorem Json.eq_string_of_toValue? {j : Json} {s : String} (h : j.toValue? = some (.string s)) :
    j = .string s := by
  cases j with
  | string t => exact congrArg Json.string (Value.string.inj (Option.some.inj h))
  | null | bool | number | array | object => cases h

/-- Whether a key with its body is an update in place: an arithmetic operator on
an object that names the variable. -/
def isUpdate (key : String) (body : Json) : Bool :=
  match Operator.ofName? key, body with
  | some op, .object members => op.isArithmetic && (members.lookup "var").isSome
  | _, _ => false

/-- The keys of operators are others than the two keys that stand for values by themselves. -/
theorem Operator.ne_of_ofName? {key : String} {op : Operator}
    (h : Operator.ofName? key = some op) : key ≠ "not" ∧ key ≠ "literal" := by
  constructor
  · rintro rfl
    cases h
  · rintro rfl
    cases h

namespace Operand

open Reading

/-- Whether a key may stand for a value. -/
def isOperandKey (key : String) : Bool :=
  (Operator.ofName? key).isSome || key == "not" || key == "literal"

theorem isOperandKey_of_ofName? {key : String} {op : Operator}
    (h : Operator.ofName? key = some op) : isOperandKey key = true := by
  rw [isOperandKey, h]
  rfl

theorem isOperandKey_eq_false_iff (key : String) :
    isOperandKey key = false ↔
      Operator.ofName? key = none ∧ key ≠ "not" ∧ key ≠ "literal" := by
  simp [isOperandKey, and_assoc]

mutual

/-- The expression that a node stands for. -/
def read (place : Location) (j : Json) : Reading Expr :=
  match j with
  | .string name => .ok (.variable name)
  | .array _ => fail .arrayAsValue place
  | .object [(key, body)] =>
      let inner := place.key key
      if isUpdate key body then fail (.updateAsValue key) inner
      else if isOperandKey key then readKeyed inner key body
      else fail (.noValue key) inner
  | .object _ => fail .notOneKey place
  | scalar =>
      match scalar.toValue? with
      | some v => .ok (.literal v)
      | none => fail .unrepresentableNumber place
termination_by (sizeOf j, 0)
decreasing_by exact .left _ _ (Json.sizeOf_lt_of_mem_members List.mem_cons_self)

/-- The expression of a key that may stand for a value, from its body. -/
def readKeyed (place : Location) (key : String) (body : Json) : Reading Expr :=
  match key with
  | "not" => (read place body).map .not
  | "literal" =>
      match body.toValue? with
      | some v => .ok (.literal v)
      | none => fail .literalNotScalar place
  | _ =>
      match Operator.ofName? key with
      | some op => (readPair place body).map fun (left, right) => .binary op left right
      | none => fail (.unknownOperator key) place
termination_by (sizeOf body, 1)
decreasing_by all_goals exact .right _ Nat.zero_lt_one

/-- The two operands that the body of an operator stands for. -/
def readPair (place : Location) (j : Json) : Reading (Expr × Expr) :=
  match j with
  | .array [l, r] => do
      let left ← read (place.item 0) l
      let right ← read (place.item 1) r
      return (left, right)
  | .object members => do
      let ⟨l, _⟩ ← requireMember "left" place members
      let left ← read (place.key "left") l
      let ⟨r, _⟩ ← requireMember "right" place members
      let right ← read (place.key "right") r
      return (left, right)
  | _ => fail .notTwoOperands place
termination_by (sizeOf j, 0)
decreasing_by
  · exact .left _ _ (Json.sizeOf_lt_of_mem_items List.mem_cons_self)
  · exact .left _ _ (Json.sizeOf_lt_of_mem_items (List.mem_cons_of_mem _ List.mem_cons_self))
  · exact .left _ _ (Json.sizeOf_lt_of_lookup ‹_›)
  · exact .left _ _ (Json.sizeOf_lt_of_lookup ‹_›)

end

/-- The expressions that the items of an array stand for, numbered from `i`. -/
def readAll (place : Location) (i : Nat) : List Json → Reading (List Expr)
  | [] => .ok []
  | j :: rest => do
      let e ← read (place.item i) j
      let es ← readAll place (i + 1) rest
      return e :: es

/-! ## What a node reads to -/

theorem read_string (place : Location) (name : String) :
    read place (.string name) = .ok (.variable name) := by
  rw [read]

theorem read_scalar (place : Location) {j : Json} {v : Value} (h : j.toValue? = some v)
    (hs : ∀ s, v ≠ .string s) : read place j = .ok (.literal v) := by
  cases j <;> simp only [Json.toValue?, Option.some.injEq, reduceCtorEq] at h
  case string s => exact absurd h.symm (hs s)
  all_goals
    rw [read, ← h]
    · rfl
    all_goals exact nofun

theorem read_array (place : Location) (items : List Json) :
    read place (.array items) = fail .arrayAsValue place := by
  rw [read]

theorem read_of_isUpdate (place : Location) {key : String} {body : Json}
    (h : isUpdate key body = true) :
    read place (.object [(key, body)]) = fail (.updateAsValue key) (place.key key) := by
  rw [read, if_pos h]

theorem read_of_isOperandKey (place : Location) {key : String} {body : Json}
    (hupdate : isUpdate key body = false) (hkey : isOperandKey key = true) :
    read place (.object [(key, body)]) = readKeyed (place.key key) key body := by
  rw [read, hupdate, if_neg Bool.false_ne_true, if_pos hkey]

theorem read_of_not_isOperandKey (place : Location) {key : String} (body : Json)
    (hkey : isOperandKey key = false) :
    read place (.object [(key, body)]) = fail (.noValue key) (place.key key) := by
  have hupdate : isUpdate key body = false := by
    rw [isUpdate.eq_def, ((isOperandKey_eq_false_iff key).1 hkey).1]
  rw [read, hupdate, if_neg Bool.false_ne_true, hkey, if_neg Bool.false_ne_true]

theorem read_not (place : Location) (body : Json) :
    read place (.object [("not", body)]) = (read (place.key "not") body).map .not := by
  rw [read_of_isOperandKey place rfl rfl, readKeyed]

theorem read_literal (place : Location) (body : Json) {v : Value} (h : body.toValue? = some v) :
    read place (.object [("literal", body)]) = .ok (.literal v) := by
  rw [read_of_isOperandKey place rfl rfl, readKeyed, h]

theorem read_literal_of_none (place : Location) {body : Json} (h : body.toValue? = none) :
    read place (.object [("literal", body)]) = fail .literalNotScalar (place.key "literal") := by
  rw [read_of_isOperandKey place rfl rfl, readKeyed, h]

theorem read_operator (place : Location) {key : String} {op : Operator} {body : Json}
    (hop : Operator.ofName? key = some op) (hvalue : isUpdate key body = false) :
    read place (.object [(key, body)]) =
      (readPair (place.key key) body).map fun (left, right) => .binary op left right := by
  obtain ⟨hnot, hliteral⟩ := Operator.ne_of_ofName? hop
  rw [read_of_isOperandKey place hvalue (isOperandKey_of_ofName? hop), readKeyed, hop]
  · exact hnot
  · exact hliteral

theorem read_of_not_single (place : Location) {members : Json.Members}
    (h : ∀ key body, members ≠ [(key, body)]) :
    read place (.object members) = fail .notOneKey place := by
  rw [read]
  exact h

/-! ## Induction over operands -/

/-- A property of nodes and one of pairs hold throughout if they hold for each way in which
a node may be read, given that they hold for the parts that are read with it. -/
theorem read_induct {node pair : Location → Json → Prop}
    (string : ∀ place name, node place (.string name))
    (scalar : ∀ place j v, j.toValue? = some v → (∀ s, v ≠ .string s) → node place j)
    (array : ∀ place items, node place (.array items))
    (update : ∀ place key body, isUpdate key body = true → node place (.object [(key, body)]))
    (not : ∀ place body, node (place.key "not") body → node place (.object [("not", body)]))
    (literal : ∀ place body, node place (.object [("literal", body)]))
    (operator : ∀ place key body op, Operator.ofName? key = some op →
      isUpdate key body = false → pair (place.key key) body → node place (.object [(key, body)]))
    (noValue : ∀ place key body, isOperandKey key = false → node place (.object [(key, body)]))
    (notOneKey : ∀ place members, (∀ key body, members ≠ [(key, body)]) →
      node place (.object members))
    (arrayPair : ∀ place l r, node (place.item 0) l → node (place.item 1) r →
      pair place (.array [l, r]))
    (objectPair : ∀ place members,
      (∀ l, members.lookup "left" = some l → node (place.key "left") l) →
      (∀ r, members.lookup "right" = some r → node (place.key "right") r) →
      pair place (.object members))
    (notPair : ∀ place j, (∀ l r, j ≠ .array [l, r]) → (∀ members, j ≠ .object members) →
      pair place j) :
    (∀ place j, node place j) ∧ ∀ place j, pair place j := by
  -- A key that may stand for a value is read with its body in a place of its own.
  suffices h : (∀ place j, node place j) ∧
      (∀ inner key body, ∀ place : Location, inner = place.key key → isUpdate key body = false →
        isOperandKey key = true → node place (.object [(key, body)])) ∧
      ∀ place j, pair place j from ⟨h.1, h.2.2⟩
  apply read.mutual_induct
  case case1 => exact string
  case case2 => exact array
  case case3 => exact update
  case case4 =>
    intro place key body inner hupdate hkey ih
    exact ih place rfl (Bool.eq_false_iff.2 hupdate) hkey
  case case5 =>
    intro place key body _ hkey
    exact noValue place key body (Bool.eq_false_iff.2 hkey)
  case case6 => exact notOneKey
  case case7 =>
    intro place j hstring _ _ _ v hv
    refine scalar place j v hv ?_
    rintro s rfl
    exact hstring s (Json.eq_string_of_toValue? hv)
  -- Scalars have values.
  case case8 =>
    intro place j _ harray _ hobject hv
    cases j with
    | array items => exact (harray items rfl).elim
    | object members => exact (hobject members rfl).elim
    | null | bool | number | string => cases hv
  case case9 =>
    rintro _ body ih place rfl _ _
    exact not place body ih
  case case10 =>
    rintro _ body _ _ place rfl _ _
    exact literal place body
  case case11 =>
    rintro _ body _ place rfl _ _
    exact literal place body
  case case12 =>
    rintro _ key body op hop _ _ ih place rfl hupdate _
    exact operator place key body op hop hupdate ih
  -- Keys that may stand for values, but for two, are operators.
  case case13 =>
    rintro _ key body hop hnot hliteral place rfl _ hkey
    have hneither := (isOperandKey_eq_false_iff key).2 ⟨hop, hnot, hliteral⟩
    exact absurd hkey (Bool.eq_false_iff.1 hneither)
  case case14 => exact arrayPair
  case case15 => exact objectPair
  case case16 => exact notPair

end Operand

end JsonScript
