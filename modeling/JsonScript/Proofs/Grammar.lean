import JsonScript.Document.Program

/-!
# The grammar of documents

Which JSON trees are programs, said without the readers: a grammar of operands,
operations, blocks, routines and documents, over keys and shapes only. It names
no operator and no place, and it builds nothing.

An object may have members that its rule does not mention. A key outside the
vocabulary makes an operation whatever its body. A key of the vocabulary makes
an operation only with a body of the right shape: in the place of a statement,
an arithmetic key must name the variable that it updates, and the keys of the
other operators, `not` and `literal` are refused.
-/

namespace JsonScript

/-! ## Vocabulary -/

/-- The keys of the operators that can update a variable. -/
def arithmeticKeys : List String := ["add", "subtract", "multiply", "divide"]

/-- The keys of all operators, in both spellings. -/
def operatorKeys : List String :=
  arithmeticKeys ++
    ["equals", "eq", "greater_than", "greaterThan", "less_than", "lessThan", "and", "or"]

/-- The keys of the operations that have no value. -/
def statementKeys : List String :=
  ["declare", "assign", "print", "if", "loop", "while", "call"]

/-- All keys that mean something in a statement or an operand. -/
def vocabulary : List String := statementKeys ++ operatorKeys ++ ["not", "literal"]

/-! ## Operands -/

/-- The tree is neither an array nor an object. -/
def Json.IsScalar : Json → Prop
  | .array _ | .object _ => False
  | _ => True

/-- The tree is a string. -/
def Json.IsString (j : Json) : Prop := ∃ s, j = .string s

/-- The tree is an object with a member `var`. -/
def Json.NamesVariable (j : Json) : Prop :=
  ∃ members target, j = .object members ∧ members.lookup "var" = some target

/-- Two parts, written as an array of two or as the members `left` and `right`. -/
inductive IsPair (IsLeft IsRight : Json → Prop) : Json → Prop where
  | array {l r : Json} (left : IsLeft l) (right : IsRight r) :
      IsPair IsLeft IsRight (.array [l, r])
  | object {members : Json.Members} {l r : Json} (hl : members.lookup "left" = some l)
      (hr : members.lookup "right" = some r) (left : IsLeft l) (right : IsRight r) :
      IsPair IsLeft IsRight (.object members)

/-- The tree can stand for a value. -/
inductive IsOperand : Json → Prop where
  | scalar {j : Json} (h : j.IsScalar) : IsOperand j
  | not {body : Json} (h : IsOperand body) : IsOperand (.object [("not", body)])
  | literal {body : Json} (h : body.IsScalar) : IsOperand (.object [("literal", body)])
  | operator {key : String} {body : Json} (hkey : key ∈ operatorKeys)
      (hvalue : ¬ (key ∈ arithmeticKeys ∧ body.NamesVariable))
      (h : IsPair IsOperand IsOperand body) : IsOperand (.object [(key, body)])

/-- The tree names a variable and holds the operand to write to it. -/
inductive IsTarget : Json → Prop where
  | intro {members : Json.Members} {target value : Json}
      (htarget : members.lookup "var" = some target) (hstring : target.IsString)
      (hvalue : members.lookup "value" = some value) (h : IsOperand value) :
      IsTarget (.object members)

/-- The tree is what can be printed: an operand or an array of operands. -/
inductive IsPrinted : Json → Prop where
  | one {j : Json} (h : IsOperand j) : IsPrinted j
  | items {items : List Json} (h : ∀ j ∈ items, IsOperand j) : IsPrinted (.array items)

/-- Exactly one of the members `times` and `count` is there, and it is an
operand. -/
inductive HasCount (members : Json.Members) : Prop where
  | times {j : Json} (h : members.lookup "times" = some j)
      (hother : members.lookup "count" = none) (hj : IsOperand j)
  | count {j : Json} (h : members.lookup "count" = some j)
      (hother : members.lookup "times" = none) (hj : IsOperand j)

/-- The member `arguments`, if it is there, is an array of operands. -/
def ArgumentsOk (members : Json.Members) : Prop :=
  ∀ j, members.lookup "arguments" = some j →
    ∃ items, j = .array items ∧ ∀ i ∈ items, IsOperand i

/-- The member `condition` is there and is an operand. -/
def HasCondition (members : Json.Members) : Prop :=
  ∃ j, members.lookup "condition" = some j ∧ IsOperand j

/-! ## Blocks -/

mutual

/-- The tree is a block. -/
inductive IsBlock : Json → Prop where
  | intro {items : List Json} (h : ∀ j ∈ items, IsStatement j) : IsBlock (.array items)

/-- The tree is a statement object. -/
inductive IsStatement : Json → Prop where
  | intro {members : Json.Members} (h : ∀ m ∈ members, IsOperation m.1 m.2) :
      IsStatement (.object members)

/-- The key with its body is an operation. -/
inductive IsOperation : String → Json → Prop where
  | declare {body : Json} (h : IsTarget body) : IsOperation "declare" body
  | assign {body : Json} (h : IsTarget body) : IsOperation "assign" body
  | print {body : Json} (h : IsPrinted body) : IsOperation "print" body
  | choose {members : Json.Members} {j : Json} (hcondition : HasCondition members)
      (hthen : members.lookup "then" = some j) (h : IsBlock j)
      (helse : ∀ j, members.lookup "else" = some j → IsBlock j) :
      IsOperation "if" (.object members)
  | times {members : Json.Members} {j : Json} (hcount : HasCount members)
      (hbody : members.lookup "body" = some j) (h : IsBlock j) :
      IsOperation "loop" (.object members)
  | whilst {members : Json.Members} {j : Json} (hcondition : HasCondition members)
      (hbody : members.lookup "body" = some j) (h : IsBlock j) :
      IsOperation "while" (.object members)
  | call {members : Json.Members} {j : Json} (hname : members.lookup "function" = some j)
      (hstring : j.IsString) (harguments : ArgumentsOk members) :
      IsOperation "call" (.object members)
  | update {key : String} {body : Json} (hkey : key ∈ arithmeticKeys) (h : IsTarget body) :
      IsOperation key body
  | updatePair {key : String} {body : Json} (hkey : key ∈ arithmeticKeys)
      (hvalue : ¬ body.NamesVariable) (h : IsPair Json.IsString IsOperand body) :
      IsOperation key body
  | unknown {key : String} {body : Json} (hkey : key ∉ vocabulary) : IsOperation key body

end

/-! ## Documents -/

/-- The tree is the definition of a routine. -/
inductive IsDefinition : Json → Prop where
  | intro {members : Json.Members} {names : List String} {body : Json}
      (hparameters : members.lookup "parameters" = some (.array (names.map .string)))
      (hdistinct : names.Nodup) (hbody : members.lookup "body" = some body)
      (h : IsBlock body) : IsDefinition (.object members)

/-- The key with its content is a section of a program. -/
inductive IsSection : String → Json → Prop where
  | bindings {members : Json.Members} (h : ∀ m ∈ members, m.2.IsScalar) :
      IsSection "variables" (.object members)
  | routines {members : Json.Members} (h : ∀ m ∈ members, IsDefinition m.2) :
      IsSection "functions" (.object members)
  | main {content : Json} (h : IsBlock content) : IsSection "main" content

/-- The tree is a document. -/
inductive IsDocument : Json → Prop where
  | block {j : Json} (h : IsBlock j) : IsDocument j
  | program {sections : Json.Members} (h : ∀ m ∈ sections, IsSection m.1 m.2) :
      IsDocument (.object [("program", .object sections)])

/-! ## Inversion -/

theorem isPair_array_iff {P Q : Json → Prop} (l r : Json) :
    IsPair P Q (.array [l, r]) ↔ P l ∧ Q r := by
  constructor
  · intro h
    cases h with
    | array left right => exact ⟨left, right⟩
  · rintro ⟨left, right⟩
    exact .array left right

theorem isPair_object_iff {P Q : Json → Prop} (members : Json.Members) :
    IsPair P Q (.object members) ↔
      (∃ l, members.lookup "left" = some l ∧ P l) ∧
        (∃ r, members.lookup "right" = some r ∧ Q r) := by
  constructor
  · intro h
    cases h with
    | object hl hr left right => exact ⟨⟨_, hl, left⟩, ⟨_, hr, right⟩⟩
  · rintro ⟨⟨l, hl, left⟩, ⟨r, hr, right⟩⟩
    exact .object hl hr left right

theorem isOperand_single_iff (key : String) (body : Json) :
    IsOperand (.object [(key, body)]) ↔
      key = "not" ∧ IsOperand body ∨ key = "literal" ∧ body.IsScalar ∨
        key ∈ operatorKeys ∧ ¬ (key ∈ arithmeticKeys ∧ body.NamesVariable) ∧
          IsPair IsOperand IsOperand body := by
  constructor
  · intro h
    cases h with
    | scalar h => exact absurd h id
    | not h => exact .inl ⟨rfl, h⟩
    | literal h => exact .inr (.inl ⟨rfl, h⟩)
    | operator hkey hvalue h => exact .inr (.inr ⟨hkey, hvalue, h⟩)
  · rintro (⟨rfl, h⟩ | ⟨rfl, h⟩ | ⟨hkey, hvalue, h⟩)
    · exact .not h
    · exact .literal h
    · exact .operator hkey hvalue h

theorem not_isOperand_object {members : Json.Members}
    (h : ∀ key body, members ≠ [(key, body)]) : ¬ IsOperand (.object members) := by
  intro hop
  cases hop with
  | scalar hs => exact hs
  | not | literal | operator => exact h _ _ rfl

theorem isTarget_iff (body : Json) :
    IsTarget body ↔ ∃ members, body = .object members ∧
      (∃ j, members.lookup "var" = some j ∧ j.IsString) ∧
        ∃ j, members.lookup "value" = some j ∧ IsOperand j := by
  constructor
  · intro h
    cases h with
    | intro htarget hstring hvalue h => exact ⟨_, rfl, ⟨_, htarget, hstring⟩, _, hvalue, h⟩
  · rintro ⟨members, rfl, ⟨target, htarget, hstring⟩, value, hvalue, h⟩
    exact .intro htarget hstring hvalue h

theorem IsTarget.namesVariable {body : Json} (h : IsTarget body) : body.NamesVariable := by
  cases h with
  | @intro members target value htarget => exact ⟨members, target, rfl, htarget⟩

/-- The shape that each key asks of its body. -/
theorem isOperation_iff (key : String) (body : Json) :
    IsOperation key body ↔
      key = "declare" ∧ IsTarget body ∨ key = "assign" ∧ IsTarget body ∨
      key = "print" ∧ IsPrinted body ∨
      key = "if" ∧ (∃ members, body = .object members ∧ HasCondition members ∧
        (∃ j, members.lookup "then" = some j ∧ IsBlock j) ∧
        ∀ j, members.lookup "else" = some j → IsBlock j) ∨
      key = "loop" ∧ (∃ members, body = .object members ∧ HasCount members ∧
        ∃ j, members.lookup "body" = some j ∧ IsBlock j) ∨
      key = "while" ∧ (∃ members, body = .object members ∧ HasCondition members ∧
        ∃ j, members.lookup "body" = some j ∧ IsBlock j) ∨
      key = "call" ∧ (∃ members, body = .object members ∧
        (∃ j, members.lookup "function" = some j ∧ j.IsString) ∧ ArgumentsOk members) ∨
      key ∈ arithmeticKeys ∧
        (IsTarget body ∨ ¬ body.NamesVariable ∧ IsPair Json.IsString IsOperand body) ∨
      key ∉ vocabulary := by
  constructor
  · intro h
    cases h with
    | declare h | assign h | print h => simp only [h, and_self, true_or, or_true]
    | choose hc hj h he =>
        exact .inr (.inr (.inr (.inl ⟨rfl, _, rfl, hc, ⟨_, hj, h⟩, he⟩)))
    | times hc hj h => exact .inr (.inr (.inr (.inr (.inl ⟨rfl, _, rfl, hc, _, hj, h⟩))))
    | whilst hc hj h =>
        exact .inr (.inr (.inr (.inr (.inr (.inl ⟨rfl, _, rfl, hc, _, hj, h⟩)))))
    | call hj h ha =>
        exact .inr (.inr (.inr (.inr (.inr (.inr (.inl ⟨rfl, _, rfl, ⟨_, hj, h⟩, ha⟩))))))
    | update hkey h => simp only [hkey, h, true_and, true_or, or_true]
    | updatePair hkey hv h =>
        simp only [hkey, hv, h, not_false_eq_true, and_self, or_true, true_or]
    | unknown hkey => simp only [hkey, not_false_eq_true, or_true]
  · rintro (⟨rfl, h⟩ | ⟨rfl, h⟩ | ⟨rfl, h⟩ | ⟨rfl, members, rfl, hc, ⟨j, hj, h⟩, he⟩ |
      ⟨rfl, members, rfl, hc, j, hj, h⟩ | ⟨rfl, members, rfl, hc, j, hj, h⟩ |
      ⟨rfl, members, rfl, ⟨j, hj, h⟩, ha⟩ | ⟨hkey, h | ⟨hv, h⟩⟩ | hkey)
    · exact .declare h
    · exact .assign h
    · exact .print h
    · exact .choose hc hj h he
    · exact .times hc hj h
    · exact .whilst hc hj h
    · exact .call hj h ha
    · exact .update hkey h
    · exact .updatePair hkey hv h
    · exact .unknown hkey

/-- An operator in the place of a statement. -/
theorem isOperation_operator_iff {key : String} (hkey : key ∈ operatorKeys) (body : Json) :
    IsOperation key body ↔
      key ∈ arithmeticKeys ∧
        (IsTarget body ∨ ¬ body.NamesVariable ∧ IsPair Json.IsString IsOperand body) := by
  constructor
  · intro h
    cases h with
    | update hkey h => exact ⟨hkey, .inl h⟩
    | updatePair hkey hvalue h => exact ⟨hkey, .inr ⟨hvalue, h⟩⟩
    | unknown hunknown =>
        exact absurd (List.mem_append_left _ (List.mem_append_right _ hkey)) hunknown
    | declare | assign | print | choose | times | whilst | call =>
        exact absurd hkey (by decide)
  · rintro ⟨hkey, h | ⟨hvalue, h⟩⟩
    · exact .update hkey h
    · exact .updatePair hkey hvalue h

theorem isBlock_array_iff (items : List Json) :
    IsBlock (.array items) ↔ ∀ j ∈ items, IsStatement j := by
  constructor
  · intro h
    cases h with
    | intro h => exact h
  · exact .intro

theorem isStatement_object_iff (members : Json.Members) :
    IsStatement (.object members) ↔ ∀ m ∈ members, IsOperation m.1 m.2 := by
  constructor
  · intro h
    cases h with
    | intro h => exact h
  · exact .intro

theorem isSection_iff (key : String) (content : Json) :
    IsSection key content ↔
      key = "variables" ∧ (∃ members, content = .object members ∧
        ∀ m ∈ members, m.2.IsScalar) ∨
      key = "functions" ∧ (∃ members, content = .object members ∧
        ∀ m ∈ members, IsDefinition m.2) ∨
      key = "main" ∧ IsBlock content := by
  constructor
  · intro h
    cases h with
    | bindings h => exact .inl ⟨rfl, _, rfl, h⟩
    | routines h => exact .inr (.inl ⟨rfl, _, rfl, h⟩)
    | main h => exact .inr (.inr ⟨rfl, h⟩)
  · rintro (⟨rfl, members, rfl, h⟩ | ⟨rfl, members, rfl, h⟩ | ⟨rfl, h⟩)
    · exact .bindings h
    · exact .routines h
    · exact .main h

end JsonScript
