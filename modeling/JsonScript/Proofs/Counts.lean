import JsonScript.Machine.Run
import Mathlib.Algebra.Order.Field.Power
import Mathlib.Algebra.Order.Field.Rat
import Mathlib.Tactic.FieldSimp
import Mathlib.Tactic.Positivity

/-!
# The counts of repetitions

A repetition asks for a number of rounds with a floating-point number. Here that number
is taken by its exact value, a rational (`Double.value?`). Comparison with zero and the
reading as a natural number are first told in terms of that value; then every number has
one of four answers:

* a natural number below `2 ^ 64` is the number of rounds,
* a number below zero, or the infinity there, is refused as negative,
* `2 ^ 64` itself is accepted, though a counter of 64 bits cannot hold it: the repetition
  has one round less than it asks for,
* anything else is refused as no whole number.

The third answer is the only one in which the rounds differ from what was asked for.

## Main results

* `Double.toNat?_eq_some_iff` — the reading as a natural number is by exact value.
* `Double.lt_zero_iff` — so is the comparison with zero.
* `Expr.countOf_eq_ok_iff` — the numbers that are accepted, and as what.
* `dispatch_times_by_value` — what a repetition does with its number.
-/

namespace JsonScript

/-! ## Exact values -/

namespace Double

/-- The size of a finite double. -/
def magnitude (coefficient : Nat) (exponent : Int) : ℚ := coefficient * 2 ^ exponent

/-- The rational number that a double is; none for the three that are not finite. -/
def value? : Double → Option ℚ
  | .finite false coefficient exponent => some (magnitude coefficient exponent)
  | .finite true coefficient exponent => some (-magnitude coefficient exponent)
  | .nan | .infinite _ => none

/-- A double is below zero if its value is, or if it is the infinity there. -/
def IsBelowZero (d : Double) : Prop :=
  d = .infinite true ∨ ∃ q, d.value? = some q ∧ q < 0

theorem magnitude_zero (exponent : Int) : magnitude 0 exponent = 0 := by
  rw [magnitude, Nat.cast_zero, zero_mul]

theorem magnitude_pos {coefficient : Nat} (h : 0 < coefficient) (exponent : Int) :
    0 < magnitude coefficient exponent := by
  have hcoefficient : (0 : ℚ) < coefficient := Nat.cast_pos.mpr h
  rw [magnitude]
  positivity

/-- With an exponent that is not negative, the magnitude is a product. -/
theorem magnitude_eq_natCast_iff_of_nonneg (coefficient : Nat) {exponent : Int}
    (h : 0 ≤ exponent) (n : Nat) :
    magnitude coefficient exponent = n ↔ coefficient * 2 ^ exponent.toNat = n := by
  lift exponent to Nat using h
  rw [magnitude, zpow_natCast, Int.toNat_natCast]
  exact_mod_cast Iff.rfl

/-- With a negative exponent, the magnitude is a quotient. -/
theorem magnitude_eq_natCast_iff_of_neg (coefficient : Nat) {exponent : Int} (h : exponent < 0)
    (n : Nat) :
    magnitude coefficient exponent = n ↔ coefficient = n * 2 ^ (-exponent).toNat := by
  have hexponent : exponent = -((-exponent).toNat : Int) := by omega
  have hpow : (2 : ℚ) ^ (-exponent).toNat ≠ 0 := pow_ne_zero _ two_ne_zero
  calc magnitude coefficient exponent = n
      ↔ (coefficient / 2 ^ (-exponent).toNat : ℚ) = n := by
        rw [magnitude, hexponent, zpow_neg, zpow_natCast, ← div_eq_mul_inv, ← hexponent]
    _ ↔ (coefficient : ℚ) = n * 2 ^ (-exponent).toNat := div_eq_iff hpow
    _ ↔ coefficient = n * 2 ^ (-exponent).toNat := by exact_mod_cast Iff.rfl

theorem value?_zero (negative : Bool) (exponent : Int) :
    (finite negative 0 exponent).value? = some 0 := by
  cases negative <;> simp [value?, magnitude_zero]

theorem isBelowZero_finite_iff (negative : Bool) {coefficient : Nat} (h : 0 < coefficient)
    (exponent : Int) :
    (finite negative coefficient exponent).IsBelowZero ↔ negative = true := by
  have hpos := magnitude_pos h exponent
  cases negative with
  | true => exact iff_of_true (.inr ⟨_, rfl, neg_neg_of_pos hpos⟩) rfl
  | false =>
      refine iff_of_false ?_ Bool.false_ne_true
      rintro (h | ⟨q, hq, hlt⟩)
      · cases h
      · cases hq
        exact hlt.not_gt hpos

/-- A natural number is not below zero. -/
theorem not_isBelowZero_of_value? {d : Double} {n : Nat} (h : d.value? = some (n : ℚ)) :
    ¬ d.IsBelowZero := by
  rintro (rfl | ⟨q, hq, hlt⟩)
  · cases h
  · rw [h, Option.some.injEq] at hq
    exact absurd (hq ▸ hlt) (Nat.cast_nonneg n).not_gt

theorem not_isBelowZero_nan : ¬ nan.IsBelowZero := by
  simp [IsBelowZero, value?]

theorem not_isBelowZero_infinite : ¬ (infinite false).IsBelowZero := by
  simp [IsBelowZero, value?]

/-- Neither of the zeros is below zero. -/
theorem not_isBelowZero_zero (negative : Bool) : ¬ (finite negative 0 0).IsBelowZero := by
  have hvalue : (finite negative 0 0).value? = some ((0 : Nat) : ℚ) := by
    rw [value?_zero, Nat.cast_zero]
  exact not_isBelowZero_of_value? hvalue

/-- A double is read as the natural number that it is exactly. -/
theorem toNat?_eq_some_iff (d : Double) (n : Nat) :
    d.toNat? = some n ↔ d.value? = some (n : ℚ) := by
  cases d with
  | nan => simp [toNat?, value?]
  | infinite negative => simp [toNat?, value?]
  | finite negative coefficient exponent =>
      rcases Nat.eq_zero_or_pos coefficient with rfl | hpos
      · simp [toNat?, value?_zero, eq_comm]
      rw [toNat?, if_neg hpos.ne']
      cases negative with
      | true =>
          have hbelow := (isBelowZero_finite_iff true hpos exponent).mpr rfl
          refine iff_of_false (Option.some_ne_none n).symm fun hvalue => ?_
          exact not_isBelowZero_of_value? hvalue hbelow
      | false =>
          rw [if_neg Bool.false_ne_true, value?, Option.some.injEq]
          by_cases hexponent : 0 ≤ exponent
          · rw [if_pos hexponent, Option.some.injEq,
              magnitude_eq_natCast_iff_of_nonneg coefficient hexponent, Nat.pow_eq]
          · have htwo : 0 < 2 ^ (-exponent).toNat := Nat.two_pow_pos _
            rw [if_neg hexponent, magnitude_eq_natCast_iff_of_neg coefficient (by omega),
              Nat.pow_eq, Option.ite_none_right_eq_some, Option.some.injEq]
            constructor
            · rintro ⟨hmod, rfl⟩
              exact (Nat.div_mul_cancel (Nat.dvd_of_mod_eq_zero hmod)).symm
            · rintro rfl
              exact ⟨Nat.mul_mod_left _ _, Nat.mul_div_cancel _ htwo⟩

end Double

/-! ## Comparison with zero -/

/-- A number is below zero if its exact value is, or if it is the infinity there. -/
theorem Double.lt_zero_iff (x : Float) : x < 0 ↔ (Double.ofFloat x).IsBelowZero := by
  have hmodel : x < 0 ↔ x.toModel.unpack.lt (.zero .positive) = true := decide_eq_true_iff
  rw [hmodel, Double.ofFloat_eq_unpack]
  cases x.toModel.unpack with
  | notANumber => exact iff_of_false Bool.false_ne_true Double.not_isBelowZero_nan
  | infinity s =>
      cases s with
      | negative => exact iff_of_true rfl (.inl rfl)
      | positive => exact iff_of_false Bool.false_ne_true Double.not_isBelowZero_infinite
  | zero s => exact iff_of_false Bool.false_ne_true (Double.not_isBelowZero_zero _)
  | finite s coefficient exponent hpos =>
      refine Iff.trans ?_ (Double.isBelowZero_finite_iff _ hpos exponent).symm
      cases s with
      | negative => exact iff_of_true rfl rfl
      | positive => exact iff_of_false Bool.false_ne_true Bool.false_ne_true

/-! ## What numbers ask for -/

namespace Expr

variable {x : Float}

theorem countOf_of_isBelowZero (h : (Double.ofFloat x).IsBelowZero) :
    countOf x = .error (.negativeCount x) := by
  rw [countOf, if_pos ((Double.lt_zero_iff x).mpr h)]

/-- A natural number up to `2 ^ 64` is accepted, the last one as one less. -/
theorem countOf_of_value? {n : Nat} (h : (Double.ofFloat x).value? = some (n : ℚ))
    (hn : n ≤ 2 ^ 64) : countOf x = .ok (min n (2 ^ 64 - 1)) := by
  have hzero : ¬ x < 0 := fun hlt =>
    Double.not_isBelowZero_of_value? h ((Double.lt_zero_iff x).mp hlt)
  have hmax : n ≤ maxCount + 1 := hn
  rw [countOf, if_neg hzero, (Double.toNat?_eq_some_iff _ n).mpr h]
  simp only [if_pos hmax]
  rfl

theorem countOf_of_forall_value?_ne (hzero : ¬ (Double.ofFloat x).IsBelowZero)
    (h : ∀ n : Nat, n ≤ 2 ^ 64 → (Double.ofFloat x).value? ≠ some (n : ℚ)) :
    countOf x = .error (.typeMismatch "whole number" (Value.plainNumber x)) := by
  rw [countOf, if_neg (mt (Double.lt_zero_iff x).mp hzero)]
  cases hread : (Double.ofFloat x).toNat? with
  | none => rfl
  | some n =>
      have hlarge : ¬ n ≤ maxCount + 1 := fun hn =>
        h n hn ((Double.toNat?_eq_some_iff _ n).mp hread)
      simp only [if_neg hlarge]

theorem countOf_eq_ok_iff (k : Nat) :
    countOf x = .ok k ↔ ∃ n : Nat, (Double.ofFloat x).value? = some (n : ℚ) ∧ n ≤ 2 ^ 64 ∧
      k = min n (2 ^ 64 - 1) := by
  constructor
  · intro h
    by_cases hzero : (Double.ofFloat x).IsBelowZero
    · rw [countOf_of_isBelowZero hzero] at h
      cases h
    by_cases hnone : ∀ n : Nat, n ≤ 2 ^ 64 → (Double.ofFloat x).value? ≠ some (n : ℚ)
    · rw [countOf_of_forall_value?_ne hzero hnone] at h
      cases h
    push Not at hnone
    obtain ⟨n, hn, hvalue⟩ := hnone
    rw [countOf_of_value? hvalue hn] at h
    exact ⟨n, hvalue, hn, (Except.ok.inj h).symm⟩
  · rintro ⟨n, hvalue, hn, rfl⟩
    exact countOf_of_value? hvalue hn

theorem evalCount_of_eval {env : Environment} {e : Expr} (h : e.eval env = .ok (.number x)) :
    e.evalCount env = countOf x := by
  rw [evalCount, h]
  rfl

end Expr

/-! ## What repetitions do -/

namespace Machine

variable {m : Machine} {place : Location} {count : Expr} {body : List Operation} (fuel : Nat)

theorem dispatch_times_of_ok {k : Nat} (h : count.evalCount m.environment = .ok k) :
    m.dispatch (fuel + 1) (.times place count body) = m.runTimes fuel k place body := by
  rw [dispatch, h]

theorem dispatch_times_of_error {fault : Fault}
    (h : count.evalCount m.environment = .error fault) :
    m.dispatch (fuel + 1) (.times place count body) = .failed ⟨fault, some place⟩ m := by
  rw [dispatch, h]

end Machine

/-- **What a repetition does with its number**, told by the number's exact value. A
natural number below `2 ^ 64` is the number of its rounds, and so is every count that is
accepted, but for the number `2 ^ 64` itself: it is accepted and there is one round less.
A number below zero fails as negative; one that is neither below zero nor a natural number
up to `2 ^ 64` fails as no whole number. -/
theorem dispatch_times_by_value (m : Machine) (place : Location) (count : Expr)
    (body : List Operation) (fuel : Nat) (x : Float)
    (hx : count.eval m.environment = .ok (.number x)) :
    let number := Double.ofFloat x
    let counted := count.evalCount m.environment
    let run := m.dispatch (fuel + 1) (.times place count body)
    (∀ k : Nat, number.value? = some (k : ℚ) → k < 2 ^ 64 →
      counted = .ok k ∧ run = m.runTimes fuel k place body) ∧
    (∀ k : Nat, counted = .ok k →
      number.value? = some (k : ℚ) ∧ k < 2 ^ 64 ∨
        number.value? = some (2 ^ 64) ∧ k = 2 ^ 64 - 1) ∧
    (number.value? = some (2 ^ 64) →
      counted = .ok (2 ^ 64 - 1) ∧ run = m.runTimes fuel (2 ^ 64 - 1) place body) ∧
    (number.IsBelowZero →
      counted = .error (.negativeCount x) ∧ run = .failed ⟨.negativeCount x, some place⟩ m) ∧
    (¬ number.IsBelowZero → (∀ k : Nat, k ≤ 2 ^ 64 → number.value? ≠ some (k : ℚ)) →
      let fault := Fault.typeMismatch "whole number" (Value.plainNumber x)
      counted = .error fault ∧ run = .failed ⟨fault, some place⟩ m) := by
  intro number counted run
  have hcounted : counted = Expr.countOf x := Expr.evalCount_of_eval hx
  refine ⟨fun k hvalue hk => ?below, fun k hk => ?accepted, fun hvalue => ?boundary,
    fun hnegative => ?negative, fun hzero hnone => ?other⟩
  case below =>
    have hcount : counted = .ok k := by
      rw [hcounted, Expr.countOf_of_value? hvalue hk.le, min_eq_left (by omega)]
    exact ⟨hcount, Machine.dispatch_times_of_ok fuel hcount⟩
  case accepted =>
    rw [hcounted, Expr.countOf_eq_ok_iff] at hk
    obtain ⟨n, hvalue, hn, rfl⟩ := hk
    rcases hn.lt_or_eq with hlt | rfl
    · rw [min_eq_left (by omega)]
      exact .inl ⟨hvalue, hlt⟩
    · exact .inr ⟨by exact_mod_cast hvalue, min_eq_right (by omega)⟩
  case boundary =>
    have hvalue' : number.value? = some ((2 ^ 64 : Nat) : ℚ) := by exact_mod_cast hvalue
    have hcount : counted = .ok (2 ^ 64 - 1) := by
      rw [hcounted, Expr.countOf_of_value? hvalue' le_rfl, min_eq_right (by omega)]
    exact ⟨hcount, Machine.dispatch_times_of_ok fuel hcount⟩
  case negative =>
    have hcount := hcounted.trans (Expr.countOf_of_isBelowZero hnegative)
    exact ⟨hcount, Machine.dispatch_times_of_error fuel hcount⟩
  case other =>
    have hcount := hcounted.trans (Expr.countOf_of_forall_value?_ne hzero hnone)
    exact ⟨hcount, Machine.dispatch_times_of_error fuel hcount⟩

/-- A repetition with three rounds, and one with a number below zero. -/
theorem dispatch_times_by_value_three :
    let m := Machine.start .default .emptyBuffer
    let run (x : Float) := m.dispatch 9 (.times ⟨"main", []⟩ (.literal (.number x)) [])
    run 3 = m.runTimes 8 3 ⟨"main", []⟩ [] ∧
      run (-1) = .failed ⟨.negativeCount (-1), some ⟨"main", []⟩⟩ m := by
  intro m run
  have hthree : (Double.ofFloat 3).value? = some ((3 : Nat) : ℚ) := by decide +kernel
  have hnegative : (Double.ofFloat (-1)).value? = some (-1) := by decide +kernel
  obtain ⟨hbelow, -⟩ := dispatch_times_by_value m ⟨"main", []⟩ (.literal (.number 3)) [] 8 3 rfl
  obtain ⟨-, -, -, hfails, -⟩ :=
    dispatch_times_by_value m ⟨"main", []⟩ (.literal (.number (-1))) [] 8 (-1) rfl
  exact ⟨(hbelow 3 hthree (by decide)).2, (hfails (.inr ⟨-1, hnegative, by decide⟩)).2⟩

/-- Not every number that is accepted is the number of rounds: `2 ^ 64` is accepted. -/
theorem not_evalCount_exact :
    ¬ ∀ (x : Float) (k : Nat), (Expr.literal (.number x)).evalCount .empty = .ok k →
      (Double.ofFloat x).value? = some (k : ℚ) := by
  intro h
  have hvalue : (Double.ofFloat 18446744073709551616).value? = some (2 ^ 64) := by
    decide +kernel
  have hvalue' : (Double.ofFloat 18446744073709551616).value? = some ((2 ^ 64 : Nat) : ℚ) := by
    exact_mod_cast hvalue
  have hcount := Expr.countOf_of_value? hvalue' le_rfl
  have hexact := h 18446744073709551616 _ hcount
  rw [hvalue', Option.some.injEq, Nat.cast_inj] at hexact
  exact absurd hexact (by decide)

end JsonScript
