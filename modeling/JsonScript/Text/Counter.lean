/-!
# Counters in text

Limits are written as unsigned 64-bit decimal numbers: an optional single plus
sign, then one or more digits. Leading zeros are allowed; blanks, a minus sign
and everything else are not.

## Main results

* `lt_of_read?` — what is read fits into 64 bits.
-/

namespace JsonScript.Counter

/-- The number of values of a 64-bit word. -/
def bound : Nat := Nat.pow 2 64

/-- The number that a row of digits stands for, continuing from `n`. -/
def ofDigits (n : Nat) : List Char → Nat
  | [] => n
  | c :: rest => ofDigits (10 * n + (c.toNat - '0'.toNat)) rest

/-- The number written by digits alone. -/
def readDigits? (cs : List Char) : Option Nat :=
  let n := ofDigits 0 cs
  if cs ≠ [] ∧ cs.all Char.isDigit ∧ n < bound then some n else none

/-- The number written by a text, if the text is a counter. -/
def read? (s : String) : Option Nat :=
  match s.toList with
  | '+' :: rest => readDigits? rest
  | cs => readDigits? cs

theorem lt_of_readDigits? {cs : List Char} {n : Nat} (h : readDigits? cs = some n) :
    n < bound := by
  simp only [readDigits?, Option.ite_none_right_eq_some, Option.some.injEq] at h
  exact h.2 ▸ h.1.2.2

theorem lt_of_read? {s : String} {n : Nat} (h : read? s = some n) : n < bound := by
  unfold read? at h
  split at h <;> exact lt_of_readDigits? h

end JsonScript.Counter
