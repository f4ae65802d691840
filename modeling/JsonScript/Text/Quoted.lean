/-!
# Quoted text

A text between double quotes on one line of printable characters. The quote
and the backslash get a backslash, tab, line feed, carriage return and the null
character have letters, and every other character that has no printed form is
written by its code point in braces.

Which characters these are is a matter of the tables of Unicode in use, so it is
a parameter.

## Main results

* `quote_eq_cons` — a quoted text starts with a double quote.
-/

namespace JsonScript.Text

/-- The code point of a character in hexadecimal, in lower case. -/
def codePoint (c : Char) : List Char := Nat.toDigits 16 c.toNat

/-- How one character stands inside quotes. -/
def quoteChar (unprintable : Char → Bool) (c : Char) : List Char :=
  if c = '"' then ['\\', '"']
  else if c = '\\' then ['\\', '\\']
  else if c = '\n' then ['\\', 'n']
  else if c = '\r' then ['\\', 'r']
  else if c = '\t' then ['\\', 't']
  else if c = Char.ofNat 0 then ['\\', '0']
  else if unprintable c then
    '\\' :: 'u' :: '{' :: codePoint c ++ ['}']
  else [c]

/-- A text in double quotes. -/
def quote (unprintable : Char → Bool) (cs : List Char) : List Char :=
  '"' :: cs.flatMap (quoteChar unprintable) ++ ['"']

theorem quote_eq_cons (unprintable : Char → Bool) (cs : List Char) :
    ∃ rest, quote unprintable cs = '"' :: rest :=
  ⟨_, rfl⟩

end JsonScript.Text
