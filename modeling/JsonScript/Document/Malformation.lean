import JsonScript.Diagnostic
import JsonScript.Json.Basic

/-!
# What keeps a JSON tree from being a program

Each way in which a tree can miss the form of a program is a `Malformation`;
`Malformation.message` words it. A `LoadError` adds the place of the offending
node, or of the object that lacks a member. Only a document of the wrong
overall form has no place.

Readers look some things up that they have looked at before, and need a
complaint for the case that nothing is found after all: that an update or a key
of a value is no operator, that a scalar has no value, that the name of a
routine is taken.

The two small readers at the end, of an object and of a member, hand out a proof
with what they find, so that recursion over the tree is seen to end.
-/

namespace JsonScript

/-- A way in which a JSON tree misses the form of a program. -/
inductive Malformation where
  /-- The document is neither a block nor a program object. -/
  | notADocument
  /-- A line of input is neither an operation nor a block. -/
  | notAnInput
  /-- The program object has a section nobody knows. -/
  | unexpectedSection (name : String)
  /-- Something that must be an object is none. -/
  | notAnObject (what : String)
  /-- An object lacks a member. -/
  | missingField (name : String)
  /-- A variable starts as an array or an object. -/
  | variableNotScalar
  /-- The parameters of a routine are not an array. -/
  | parametersNotArray
  /-- A parameter is not a string. -/
  | parameterNotString
  /-- A routine has a parameter twice. -/
  | duplicateParameter (name : String)
  /-- A name of a routine is taken. -/
  | definedTwice (name : String)
  /-- A block is not an array. -/
  | notABlock
  /-- A repetition has no count, or two. -/
  | notOneCount
  /-- The name in a call is not a string. -/
  | functionNameNotString
  /-- The arguments of a call are not an array. -/
  | argumentsNotArray
  /-- The name of a variable to be written is not a string. -/
  | targetNotString
  /-- A value is computed for nothing. -/
  | unusedValue (what : String)
  /-- An array stands for a value. -/
  | arrayAsValue
  /-- An object that stands for a value does not have exactly one key. -/
  | notOneKey
  /-- An update in place stands for a value. -/
  | updateAsValue (key : String)
  /-- An operation without a value stands for one. -/
  | noValue (key : String)
  /-- A literal is an array or an object. -/
  | literalNotScalar
  /-- An operator does not have two operands. -/
  | notTwoOperands
  /-- The key of an update in place is no operator. -/
  | unknownUpdate
  /-- A key that may stand for a value is no operator. -/
  | unknownOperator (key : String)
  /-- A scalar has no value. -/
  | unrepresentableNumber
  deriving DecidableEq, Repr, Inhabited

/-- The wording of a malformation. -/
def Malformation.message : Malformation → String
  | .notADocument => "expected an array of operations or a \x7b\"program\": ...\x7d object"
  | .notAnInput => "expected an operation object or an array of them"
  | .unexpectedSection name => "unexpected section '" ++ name ++ "'"
  | .notAnObject what => what ++ " must be an object"
  | .missingField name => "missing field '" ++ name ++ "'"
  | .variableNotScalar => "variable value must be a scalar"
  | .parametersNotArray => "'parameters' must be an array"
  | .parameterNotString => "parameter name must be a string"
  | .duplicateParameter name => "duplicate parameter '" ++ name ++ "'"
  | .definedTwice name => "function '" ++ name ++ "' defined twice"
  | .notABlock => "expected an array of operations"
  | .notOneCount => "'loop' needs exactly one of 'times' or 'count'"
  | .functionNameNotString => "function name must be a string"
  | .argumentsNotArray => "'arguments' must be an array"
  | .targetNotString => "'var' must be a string"
  | .unusedValue what => "the value of '" ++ what ++ "' is never used"
  | .arrayAsValue => "an array cannot be used as a value"
  | .notOneKey => "an operation used as a value must have exactly one key"
  | .updateAsValue key => "in-place '" ++ key ++ "' cannot be used as a value"
  | .noValue key => "'" ++ key ++ "' does not produce a value"
  | .literalNotScalar => "'literal' must be a scalar"
  | .notTwoOperands => "expected two operands as [left, right] or \x7b\"left\", \"right\"\x7d"
  | .unknownUpdate => "unknown update"
  | .unknownOperator key => "unknown operator '" ++ key ++ "'"
  | .unrepresentableNumber => "unrepresentable number"

/-- A malformation and its place in the document. -/
structure LoadError where
  malformation : Malformation
  location : Option Location
  deriving DecidableEq, Repr, Inhabited

/-- A malformation as a diagnostic. -/
def LoadError.toDiagnostic (e : LoadError) : Diagnostic :=
  ⟨.malformed e.malformation.message, e.location⟩

/-- The result of reading a part of a document. -/
abbrev Reading (α : Type) := Except LoadError α

namespace Reading

/-- A malformation at some place. -/
def fail {α : Type} (m : Malformation) (place : Location) : Reading α :=
  .error ⟨m, some place⟩

/-- The members of a node that must be an object. -/
def requireObject (what : String) (place : Location) (j : Json) :
    Reading { members : Json.Members // j = .object members } :=
  match j with
  | .object members => .ok ⟨members, rfl⟩
  | _ => fail (.notAnObject what) place

/-- The member that an object must have. -/
def requireMember (name : String) (place : Location) (members : Json.Members) :
    Reading { content : Json // members.lookup name = some content } :=
  match members.lookup name with
  | some content => .ok ⟨content, rfl⟩
  | none => fail (.missingField name) place

/-- The string that a node must be. -/
def requireString (m : Malformation) (place : Location) : Json → Reading String
  | .string s => .ok s
  | _ => fail m place

end Reading

end JsonScript
