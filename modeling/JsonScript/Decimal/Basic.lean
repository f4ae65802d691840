/-!
# Decimals and how they are written

A `Decimal` is `significand * 10 ^ exponent` with natural significand. The two
ways of writing one are `positional` (all digits, filled up with zeros, a
point only where a fraction follows) and `scientific` (one digit, the rest
behind a point, then `e` and a signed power of ten).

## Main results

* `significand_normalize_mod_ten` — a normal decimal that is not zero ends in
  a digit other than zero, so its digits are those that carry value.
-/

namespace JsonScript

/-- The number `significand * 10 ^ exponent`. -/
structure Decimal where
  significand : Nat
  exponent : Int
  deriving DecidableEq, Repr, Inhabited

namespace Decimal

/-! ## Normal form -/

/-- Trailing zeros moved from the significand into the exponent. -/
def normalizeFrom (significand : Nat) (exponent : Int) : Decimal :=
  if h : significand ≠ 0 ∧ significand % 10 = 0 then
    normalizeFrom (significand / 10) (exponent + 1)
  else ⟨significand, exponent⟩
termination_by significand
decreasing_by omega

/-- The same number with the least significand. -/
def normalize (d : Decimal) : Decimal := normalizeFrom d.significand d.exponent

theorem significand_normalizeFrom_mod_ten (s : Nat) (e : Int) (h : s ≠ 0) :
    (normalizeFrom s e).significand % 10 ≠ 0 := by
  fun_induction normalizeFrom s e with
  | case1 s e h₁ ih => exact ih (by omega)
  | case2 s e h₁ =>
      intro h₂
      exact h₁ ⟨h, h₂⟩

theorem significand_normalize_mod_ten (d : Decimal) (h : d.significand ≠ 0) :
    d.normalize.significand % 10 ≠ 0 :=
  significand_normalizeFrom_mod_ten _ _ h

/-! ## Writing -/

/-- The digits of the significand, most significant first. -/
def digits (d : Decimal) : List Char := Nat.toDigits 10 d.significand

/-- How many places the decimal point stands behind the first digit: the
number is `0.digits * 10 ^ point`. -/
def point (d : Decimal) : Int := d.digits.length + d.exponent

/-- So many zeros. -/
def zeros (n : Nat) : List Char := List.replicate n '0'

/-- The number with every place written out: zeros up to the point when the
digits end before it, zeros behind the point when they start after it. -/
def positional (d : Decimal) : List Char :=
  if 0 ≤ d.exponent then d.digits ++ zeros d.exponent.toNat
  else if 0 < d.point then
    d.digits.take d.point.toNat ++ '.' :: d.digits.drop d.point.toNat
  else '0' :: '.' :: zeros (-d.point).toNat ++ d.digits

/-- The first digit, the others behind a point, `e`, and the power of ten with
its sign always written. -/
def scientific (d : Decimal) : List Char :=
  let power := d.point - 1
  let mantissa := match d.digits with
    | [] => []
    | [c] => [c]
    | c :: rest => c :: '.' :: rest
  mantissa ++ 'e' :: (if power < 0 then '-' else '+') :: Nat.toDigits 10 power.natAbs

end Decimal

end JsonScript
