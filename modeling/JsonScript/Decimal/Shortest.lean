import JsonScript.Decimal.Basic

/-!
# The shortest decimal that reads back

A positive double stands for all reals that round to it. `Span` holds that
interval together with the exact value, as three naturals over one
denominator. `Span.shortest` walks the decimal grids `10 ^ e` from the
coarsest that separates the value's first digit down to finer ones, and takes
the first grid that has a point in the interval; of two such points it takes
the nearer, and the upper one when both are equally near.

Only the two neighbours of the value need a look on each grid: when any point
of a grid lies in the interval, so does one of them, because the interval
contains the value.

All arithmetic is on naturals and exact. The walk ends because the value of a
double has a finite decimal expansion, whose last place bounds the search.

## Main results

* `Span.accepts_of_nearest?` — a point that a grid offers lies in the interval.
-/

namespace JsonScript

/-- An interval of positive rationals around a value: `low`, `value` and `high`
over the common denominator `unit`. The ends belong to it when `closed`. -/
structure Span where
  low : Nat
  value : Nat
  high : Nat
  unit : Nat
  closed : Bool
  deriving DecidableEq, Repr, Inhabited

namespace Span

/-! ## The interval of a double -/

/-- The least coefficient of a double that has all its 53 bits. -/
def fullCoefficient : Nat := Nat.pow 2 52

/-- The exponent of the smallest doubles. -/
def leastExponent : Int := -1074

/--
The reals that round to the double `coefficient * 2 ^ exponent`.

The neighbours are one unit of the last place away, so the interval reaches
half a unit to either side. Just above a power of two the lower neighbour is
only half a unit away, and the interval reaches a quarter unit down. The ends
round to the even coefficient. Everything is counted in quarter units.
-/
def ofDouble (coefficient : Nat) (exponent : Int) : Span :=
  let down := if coefficient = fullCoefficient ∧ leastExponent < exponent then 1 else 2
  let up := Nat.pow 2 (exponent - 2).toNat
  { low := (4 * coefficient - down) * up
    value := 4 * coefficient * up
    high := (4 * coefficient + 2) * up
    unit := Nat.pow 2 (2 - exponent).toNat
    closed := coefficient % 2 == 0 }

/-! ## Points of a decimal grid -/

/-- The interval with `10 ^ e` as the new unit. -/
def onGrid (s : Span) (e : Int) : Span :=
  let fine := Nat.pow 10 (-e).toNat
  { s with
    low := s.low * fine
    value := s.value * fine
    high := s.high * fine
    unit := s.unit * Nat.pow 10 e.toNat }

/-- Whether `d` units lie in the interval. -/
def accepts (s : Span) (d : Nat) : Bool :=
  if s.closed then decide (s.low ≤ d * s.unit ∧ d * s.unit ≤ s.high)
  else decide (s.low < d * s.unit ∧ d * s.unit < s.high)

/-- The two whole numbers of units next to the value, the nearer first; from
the middle the upper one counts as nearer. -/
def neighbours (s : Span) : List Nat :=
  let below := s.value / s.unit
  if 2 * (s.value % s.unit) < s.unit then [below, below + 1] else [below + 1, below]

/-- The neighbour in the interval that is nearest to the value. -/
def nearest? (s : Span) : Option Nat := s.neighbours.find? s.accepts

theorem accepts_of_nearest? {s : Span} {d : Nat} (h : s.nearest? = some d) :
    s.accepts d = true :=
  List.find?_some h

/-! ## The search -/

/-- How many digits a natural number has. -/
def digitCount (n : Nat) : Nat := (Nat.toDigits 10 n).length

/-- The power of ten just above the value: `10 ^ (magnitude - 1) ≤ value <
10 ^ magnitude`. -/
def magnitude (s : Span) : Int :=
  if s.unit ≤ s.value then digitCount (s.value / s.unit)
  else 1 - digitCount ((s.unit - 1) / s.value)

/-- The first of the grids `10 ^ e`, `10 ^ (e - 1)`, … that has a point in the
interval; after `finer` refinements the value itself is on the grid. -/
def searchFrom (s : Span) : (finer : Nat) → (e : Int) → Decimal
  | 0, e => ⟨(s.onGrid e).value / (s.onGrid e).unit, e⟩
  | finer + 1, e =>
      match (s.onGrid e).nearest? with
      | some d => ⟨d, e⟩
      | none => s.searchFrom finer (e - 1)

/-- The decimal of fewest digits in the interval, nearest to the value. The
denominator divides a power of ten with as many zeros as the denominator has
bits, which bounds the refinements needed. -/
def shortest (s : Span) : Decimal :=
  let e := s.magnitude - 1
  (s.searchFrom (e.toNat + s.unit.log2 + 1) e).normalize

end Span

end JsonScript
