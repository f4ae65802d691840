/-!
# What keeps a text from being JSON

The causes are told apart for whoever follows the reader. Which of several
causes comes first is of no consequence: a text is JSON or it is not. They have
no wording here; what is said about a text that is refused is not for this
reader to decide.
-/

namespace JsonScript

/-- What keeps a text from being JSON. -/
inductive JsonError where
  /-- The text ends before the value does. -/
  | unexpectedEnd
  /-- No token starts with this character. -/
  | unexpectedCharacter (c : Char)
  /-- A token stands where the grammar has no place for it. -/
  | unexpectedToken
  /-- A string holds a control character or an escape that is none. -/
  | invalidString
  /-- A numeral lacks a digit. -/
  | invalidNumber
  /-- A numeral denotes no finite double. -/
  | numberOutOfRange
  /-- Arrays and objects are nested too deeply. -/
  | nestedTooDeeply
  deriving DecidableEq, Repr, Inhabited

end JsonScript
