/-!
# The exact reading of a double

Numbers of the language are 64-bit binary floating-point numbers. Arithmetic
on them is the machine's own; everything else — printing a number, taking it
as a repetition count — needs its *exact* value. `Double.ofFloat` decodes a
`Float` into a sign, a natural coefficient and a power of two.

The decoding goes through the bit pattern, so that it both runs and can be
reasoned about: `Float.toBits` is part of the logic.

## Main results

* `ofFloat_eq_unpack` — the reading of a float is the reading of its logical
  model, which is also what comparison of floats is defined by.
-/

namespace JsonScript

open Float.Model (UnpackedFloat Format)

/-- What a 64-bit floating-point number stands for. -/
inductive Double where
  /-- No number at all. -/
  | nan
  /-- An infinity, below zero when `negative`. -/
  | infinite (negative : Bool)
  /-- The number `coefficient * 2 ^ exponent`, negated when `negative`. A zero
  has coefficient `0` and keeps its sign. -/
  | finite (negative : Bool) (coefficient : Nat) (exponent : Int)
  deriving DecidableEq, Repr, Inhabited

namespace Double

/-- Whether a sign bit says "below zero". -/
def isNegative : UnpackedFloat.Sign → Bool
  | .negative => true
  | .positive => false

/-- The reading of an unpacked bit pattern. -/
def ofUnpacked : UnpackedFloat → Double
  | .notANumber => .nan
  | .infinity s => .infinite (isNegative s)
  | .zero s => .finite (isNegative s) 0 0
  | .finite s coefficient exponent _ => .finite (isNegative s) coefficient exponent

/-- The reading of a float, through its bits. -/
def ofFloat (x : Float) : Double :=
  ofUnpacked (UnpackedFloat.unpack Format.binary64 x.toBits.toBitVec)

theorem ofFloat_eq_unpack (x : Float) : ofFloat x = ofUnpacked x.toModel.unpack := rfl

/-- The natural number that a double is exactly; none for negative numbers,
fractions and the three that are not finite. Both zeros are the natural zero. -/
def toNat? : Double → Option Nat
  | .finite negative coefficient exponent =>
      if coefficient = 0 then some 0
      else if negative then none
      else if 0 ≤ exponent then some (coefficient * Nat.pow 2 exponent.toNat)
      else if coefficient % Nat.pow 2 (-exponent).toNat = 0 then
        some (coefficient / Nat.pow 2 (-exponent).toNat)
      else none
  | .nan | .infinite _ => none

end Double

end JsonScript
