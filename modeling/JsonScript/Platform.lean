/-!
# The platform

What a program writes depends on two things that it does not decide. A listing of variables
quotes strings, and whether a character has a printed form is told by tables of Unicode, which
change with its versions. And what is wrong with a text that is not JSON is said in the words of
the reader of JSON that is at hand.

Both are data here, and nothing is assumed of either.
-/

namespace JsonScript

/-- What the texts that are written depend on besides the program. -/
structure Platform where
  /-- Whether a character has no printed form of its own. -/
  unprintable : Char → Bool
  /-- What is said about a text that is not JSON. -/
  refusal : String → String
  deriving Inhabited

end JsonScript
