/-!
# Numerals and the doubles they denote

A numeral is what the JSON grammar writes for a number: digits, perhaps a
fraction, perhaps an exponent. The double it denotes is defined by a fast rule
that is not always the nearest double:

* the digits of the integer part and then of the fraction are collected into a
  64-bit significand, as far as they fit; integer digits that no longer fit
  raise the power of ten, fraction digits that no longer fit are forgotten;
* the significand, rounded to a double, is multiplied or divided by one power
  of ten, itself rounded to a double.

Numerals too large for a double are refused; those too small become zero.

## Main results

* `significand_lt` — the collected digits fit into 64 bits.
-/

namespace JsonScript

/-- The written exponent of a numeral. -/
structure Exponent where
  negative : Bool
  digits : List Char
  deriving DecidableEq, Repr, Inhabited

/-- A number as the grammar writes it. The digit lists hold ASCII digits only. -/
structure Numeral where
  negative : Bool
  whole : List Char
  fraction : List Char
  exponent : Option Exponent
  deriving DecidableEq, Repr, Inhabited

namespace Numeral

/-! ## Collecting digits -/

/-- The value of a digit. -/
def digitValue (c : Char) : Nat := c.toNat - '0'.toNat

/-- The number of values of a significand. -/
def significandBound : Nat := Nat.pow 2 64

/-- Appends digits to a significand as long as it stays below its bound. What
is left over starts with the digit that no longer fits. -/
def absorb (significand : Nat) : List Char → Nat × List Char
  | [] => (significand, [])
  | c :: rest =>
      let next := 10 * significand + digitValue c
      if next < significandBound then absorb next rest else (significand, c :: rest)

theorem absorb_lt (s : Nat) (cs : List Char) (h : s < significandBound) :
    (absorb s cs).1 < significandBound := by
  induction cs generalizing s with
  | nil => exact h
  | cons c rest ih =>
      simp only [absorb]
      split
      · exact ih _ ‹_›
      · exact h

/-- The significand, and the power of ten it is to be multiplied by before the
written exponent is looked at. -/
def collect (n : Numeral) : Nat × Int :=
  let whole := absorb 0 n.whole
  let both := absorb whole.1 n.fraction
  (both.1, (whole.2.length : Int) - (n.fraction.length - both.2.length : Nat))

theorem significand_lt (n : Numeral) : n.collect.1 < significandBound :=
  absorb_lt _ _ (absorb_lt _ _ (by decide))

/-! ## Scaling by powers of ten -/

/-- The largest power of ten that is a double. -/
def maxPower : Nat := 308

/-- The double nearest to `10 ^ k`. -/
def powerOfTen (k : Nat) : Float := Float.ofScientific 1 false k

/-- Divides by `10 ^ k`, in steps of `10 ^ 308` while `k` is larger and
something is left to divide. -/
def scaleDown (x : Float) (k : Nat) : Float :=
  if k ≤ maxPower then x / powerOfTen k
  else if x == 0 then x
  else scaleDown (x / powerOfTen maxPower) (k - maxPower)
termination_by k
decreasing_by simp only [maxPower] at *; omega

/-- Multiplies by `10 ^ k`, if the result is finite. -/
def scaleUp? (x : Float) (k : Nat) : Option Float :=
  if k ≤ maxPower then
    let y := x * powerOfTen k
    if y.isInf then none else some y
  else if x == 0 then some x
  else none

/-! ## The double -/

/-- The largest exponent that is taken at its value. -/
def maxExponent : Nat := Nat.pow 2 31 - 1

/-- The number written by an exponent's digits. -/
def exponentValue (e : Exponent) : Nat :=
  e.digits.foldl (fun n c => 10 * n + digitValue c) 0

/-- The double without its sign. An exponent beyond `maxExponent` makes the
number zero or, if it is positive and there are digits to scale, too large. -/
def magnitude? (n : Numeral) : Option Float :=
  let (significand, shift) := n.collect
  let x := significand.toUInt64.toFloat
  let scale (e : Int) : Option Float :=
    if 0 ≤ e then scaleUp? x e.toNat else some (scaleDown x (-e).toNat)
  match n.exponent with
  | none => scale shift
  | some e =>
      let written := exponentValue e
      if written ≤ maxExponent then
        scale (if e.negative then shift - written else shift + written)
      else if e.negative || significand == 0 then some 0
      else none

/-- The double that a numeral denotes; none if it is too large. -/
def toFloat? (n : Numeral) : Option Float :=
  n.magnitude?.map fun x => if n.negative then -x else x

end Numeral

end JsonScript
