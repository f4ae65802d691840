import JsonScript.Proofs.FloatReadings
import JsonScript.Proofs.ShortestDecimals

/-!
# The texts of numbers

The rule by which numbers print is about digits. It chooses between writing out every
place and scientific notation by where the decimal point stands (`Decimal.ruleText`).
Printing chooses by comparing the number with the two doubles that are next to `10 ^ -6`
and `10 ^ 21` (`Value.isPlain`).

That is the same choice. Rounding keeps the order, so the number and its decimal are on the
same side of a power of ten, unless the number is the double that the power of ten rounds
to (`Double.magnitude_le_iff_pow_le`). There the power of ten itself has one digit only, and no other
decimal of one digit below it is as near.

## Main results

* `Double.isPlain_iff` — which notation is chosen, in terms of the shortest decimal.
* `number_text_by_rule` — numbers print by the rule, with the digits of the shortest
  decimal.
-/

namespace JsonScript

open Decimal (IsShortest)

/-! ## The rule -/

namespace Decimal

/-- The text of the number `0.digits * 10 ^ n` by the JavaScript rule. With `k` digits, the
number is whole if `k ≤ n`, and its point stands behind the first digit or before it
according to whether `n` is above zero. -/
def ruleText (digits : List Char) (n : Int) : List Char :=
  let k : Int := digits.length
  if k ≤ n ∧ n ≤ 21 then digits ++ List.replicate (n - k).toNat '0'
  else if 0 < n ∧ n ≤ 21 then digits.take n.toNat ++ '.' :: digits.drop n.toNat
  else if -6 < n ∧ n ≤ 0 then '0' :: '.' :: List.replicate (-n).toNat '0' ++ digits
  else
    let mantissa := if 1 < k then digits.take 1 ++ '.' :: digits.drop 1 else digits
    mantissa ++ 'e' :: (if n - 1 < 0 then '-' else '+') :: Nat.toDigits 10 (n - 1).natAbs

section Rule

variable {d : Decimal}

theorem point_eq (d : Decimal) : d.point = d.digits.length + d.exponent := rfl

theorem positional_eq_ruleText (hlow : -6 < d.point) (hhigh : d.point ≤ 21) :
    d.positional = ruleText d.digits d.point := by
  have hpoint := d.point_eq
  have hwhole : (d.digits.length : Int) ≤ d.point ∧ d.point ≤ 21 ↔ 0 ≤ d.exponent := by omega
  have hbehind : 0 < d.point ∧ d.point ≤ 21 ↔ 0 < d.point := and_iff_left hhigh
  rw [positional, ruleText]
  simp only [hwhole, hbehind, zeros]
  split
  · rw [hpoint, add_sub_cancel_left]
  · split
    · rfl
    · rw [if_pos ⟨hlow, by omega⟩]

theorem scientific_eq_ruleText (h : ¬ (-6 < d.point ∧ d.point ≤ 21)) :
    d.scientific = ruleText d.digits d.point := by
  have hpos := d.length_digits_pos
  have hwhole : ¬ ((d.digits.length : Int) ≤ d.point ∧ d.point ≤ 21) := by omega
  have hbehind : ¬ (0 < d.point ∧ d.point ≤ 21) := by omega
  have hbefore : ¬ (-6 < d.point ∧ d.point ≤ 0) := by omega
  rw [scientific, ruleText]
  simp only [hwhole, hbehind, hbefore, if_false]
  match d.digits with
  | [] => rfl
  | [c] => rfl
  | c :: c' :: rest =>
      have hmore : (1 : Int) < (c :: c' :: rest).length := by
        simp only [List.length_cons]
        omega
      rw [if_pos hmore]
      rfl

theorem pow_le_value_iff (h : 0 < d.significand) (t : Int) : 10 ^ t ≤ d.value ↔ t < d.point := by
  constructor
  · intro hle
    exact (zpow_lt_zpow_iff_right₀ (by norm_num)).1 (hle.trans_lt d.value_lt)
  · intro hlt
    exact (zpow_le_zpow_right₀ (by norm_num) (by omega)).trans (pow_le_value h)

/-- A number of one digit below a power of ten is at most nine tenths of it. -/
theorem value_le_of_length_digits_le_one {t : Int} (h : 0 < d.significand)
    (hlength : d.digits.length ≤ 1) (hlt : d.value < 10 ^ t) : d.value ≤ 9 * 10 ^ (t - 1) := by
  have hpos := d.length_digits_pos
  have hpoint := mt (pow_le_value_iff h t).2 hlt.not_ge
  have hten := (Nat.length_toDigits_le_iff (by norm_num) Nat.one_pos).1 hlength
  have hnine : (d.significand : ℚ) ≤ 9 := by exact_mod_cast Nat.le_of_lt_succ hten
  have hexponent : d.exponent ≤ t - 1 := by
    rw [d.point_eq] at hpoint
    omega
  exact mul_le_mul hnine (zpow_le_zpow_right₀ (by norm_num) hexponent) (by positivity)
    (by norm_num)

end Rule

end Decimal

/-! ## The two bounds -/

namespace Double

section Bounds

variable {c cₜ : Nat} {e eₜ t : Int} {d : Decimal}

/-- A number is not below the double that a power of ten rounds to exactly if its shortest
decimal is not below the power of ten. -/
theorem magnitude_le_iff_pow_le (hₜ : Canonical cₜ eₜ) (hround : RoundsTo (10 ^ t) cₜ eₜ)
    (hnear : 19 * 10 ^ (t - 1) ≤ 2 * magnitude cₜ eₜ) (h : Canonical c e)
    (hd : IsShortest (RoundsTo · c e) (magnitude c e) d) :
    magnitude cₜ eₜ ≤ magnitude c e ↔ 10 ^ t ≤ d.value := by
  constructor
  · intro hle
    by_contra hlt
    rw [not_le] at hlt
    have hge := RoundsTo.mono h hₜ hd.reads_value hround hlt.le
    have hsame := eq_of_magnitude_eq hₜ h (le_antisymm hle hge)
    rw [Prod.mk.injEq] at hsame
    obtain ⟨rfl, rfl⟩ := hsame
    -- The power of ten reads back as well, and it has one digit.
    have hone : (Decimal.mk 1 t).value = 10 ^ t := by rw [Decimal.value, Nat.cast_one, one_mul]
    have hreads : RoundsTo (Decimal.mk 1 t).value cₜ eₜ := by rwa [hone]
    have hdigit : (Decimal.mk 1 t).digits.length = 1 :=
      congrArg List.length (Nat.toDigits_of_lt_base (by norm_num))
    have hfewest : d.digits.length ≤ 1 := hdigit ▸ hd.fewest ⟨1, t⟩ hreads
    have hpreferred := hd.preferred ⟨1, t⟩ hreads
      (hdigit.trans (le_antisymm d.length_digits_pos hfewest))
    rw [hone, Decimal.preferred_iff_of_lt hlt] at hpreferred
    have hsmall := Decimal.value_le_of_length_digits_le_one hd.significand_pos hfewest hlt
    have hpow : (10 : ℚ) ^ t = 10 * 10 ^ (t - 1) := by
      rw [← zpow_one_add₀ (by norm_num), add_sub_cancel]
    linarith
  · intro hle
    exact RoundsTo.mono hₜ h hround hd.reads_value hle

end Bounds

/-! The bounds are the doubles `4722366482869645 * 2 ^ -72` and `10 ^ 21`. -/

theorem ofFloat_millionth : ofFloat 1e-6 = .finite false 4722366482869645 (-72) := by
  decide +kernel

theorem ofFloat_sextillion : ofFloat 1e21 = .finite false 7629394531250000 17 := by
  decide +kernel

theorem roundsTo_millionth : RoundsTo (10 ^ (-6 : Int)) 4722366482869645 (-72) := by
  rw [roundsTo_iff ⟨by norm_num, by norm_num, by norm_num⟩ (by norm_num), if_neg (by norm_num),
    lowEnd, highEnd, gap, if_neg (by norm_num)]
  norm_num

theorem magnitude_sextillion : magnitude 7629394531250000 17 = 10 ^ (21 : Int) := by
  rw [magnitude]
  norm_num

section Plain

variable {x : Float} {negative : Bool} {c : Nat} {e : Int} {d : Decimal}

/-- **Which numbers print with every place written out**: those whose shortest decimal has
the point between six places before the first digit and twenty-one behind it. -/
theorem isPlain_iff (hx : ofFloat x = .finite negative c e) (hc : 0 < c)
    (hd : IsShortest (RoundsTo · c e) (magnitude c e) d) :
    Value.isPlain x.abs = true ↔ -6 < d.point ∧ d.point ≤ 21 := by
  have hcanonical := canonical_of_ofFloat hx hc
  have habs := ofFloat_abs hx hc
  have hpos := hd.significand_pos
  have hlow : 1e-6 ≤ x.abs ↔ -6 < d.point := by
    rw [le_iff_magnitude_le ofFloat_millionth (by norm_num) habs hc,
      magnitude_le_iff_pow_le (canonical_of_ofFloat ofFloat_millionth (by norm_num))
        roundsTo_millionth (by rw [magnitude]; norm_num) hcanonical hd,
      Decimal.pow_le_value_iff hpos]
  have hhigh : x.abs < 1e21 ↔ d.point ≤ 21 := by
    have hsextillion := canonical_of_ofFloat ofFloat_sextillion (by norm_num)
    have hround := roundsTo_magnitude hsextillion (by norm_num)
    rw [magnitude_sextillion] at hround
    rw [lt_iff_magnitude_lt habs hc ofFloat_sextillion (by norm_num), ← not_le,
      magnitude_le_iff_pow_le hsextillion hround (by rw [magnitude]; norm_num) hcanonical hd,
      Decimal.pow_le_value_iff hpos, not_lt]
  rw [Value.isPlain, Bool.and_eq_true, decide_eq_true_iff, decide_eq_true_iff, hlow, hhigh]

end Plain

end Double

/-! ## Printing -/

/-- **Numbers print by the JavaScript rule.** A number that is finite and not zero has one
shortest decimal that rounds to it. The digits of that decimal and the place of its point
determine the text, behind a minus sign if the number is negative. Both zeros print alike,
and the three numbers that are not finite have names. -/
theorem number_text_by_rule (x : Float) :
    let text := (Value.number x).text
    (Double.ofFloat x = .nan → text = "NaN") ∧
    (Double.ofFloat x = .infinite false → text = "Infinity") ∧
    (Double.ofFloat x = .infinite true → text = "-Infinity") ∧
    (∀ negative e, Double.ofFloat x = .finite negative 0 e → text = "0") ∧
    (∀ negative c e, Double.ofFloat x = .finite negative c e → 0 < c →
      ∃ d : Decimal, IsShortest (Double.RoundsTo · c e) (Double.magnitude c e) d ∧
        (∀ d', IsShortest (Double.RoundsTo · c e) (Double.magnitude c e) d' → d' = d) ∧
        text = String.ofList
          ((if negative then ['-'] else []) ++ Decimal.ruleText d.digits d.point)) := by
  intro text
  have htext : text = String.ofList (Value.numberText x) := rfl
  rw [htext, Value.numberText]
  refine ⟨fun hx => ?nan, fun hx => ?above, fun hx => ?below, fun negative e hx => ?zero,
    fun negative c e hx hc => ?finite⟩
  case nan | above | below | zero =>
    rw [hx]
    rfl
  case finite =>
    have hd := Double.isShortest_decimal (Double.canonical_of_ofFloat hx hc) hc
    have hplain := Double.isPlain_iff hx hc hd
    have hnotation : (if Value.isPlain x.abs then (Value.decimal c e).positional
        else (Value.decimal c e).scientific) =
        Decimal.ruleText (Value.decimal c e).digits (Value.decimal c e).point := by
      split
      case isTrue h =>
        obtain ⟨hlow, hhigh⟩ := hplain.1 h
        exact Decimal.positional_eq_ruleText hlow hhigh
      case isFalse h => exact Decimal.scientific_eq_ruleText (mt hplain.2 h)
    refine ⟨_, hd, fun d' hd' => hd'.eq hd, ?_⟩
    rw [hx]
    simp only [if_neg hc.ne', hnotation]
    rfl

/-- The least power of ten that is not written out, below zero. -/
theorem number_text_by_rule_sextillion :
    Double.ofFloat (-1e21) = .finite true 7629394531250000 17 ∧
      IsShortest (Double.RoundsTo · 7629394531250000 17)
        (Double.magnitude 7629394531250000 17) ⟨1, 21⟩ ∧
      (Value.number (-1e21)).text = "-1e+21" := by
  have hreading : Double.ofFloat (-1e21) = .finite true 7629394531250000 17 := by decide +kernel
  have hvalue : (Decimal.mk 1 21).value = Double.magnitude 7629394531250000 17 := by
    rw [Double.magnitude_sextillion, Decimal.value, Nat.cast_one, one_mul]
  have hshortest : IsShortest (Double.RoundsTo · 7629394531250000 17)
      (Double.magnitude 7629394531250000 17) ⟨1, 21⟩ := by
    refine ⟨?_, by norm_num, fun d' _ => d'.length_digits_pos, fun d' _ _ => ?_⟩
    · rw [hvalue]
      exact Double.roundsTo_magnitude (Double.canonical_of_ofFloat hreading (by norm_num))
        (by norm_num)
    · rw [hvalue]
      exact Decimal.preferred_self _ _
  obtain ⟨-, -, -, -, hfinite⟩ := number_text_by_rule (-1e21)
  obtain ⟨d, -, hunique, htext⟩ := hfinite true _ _ hreading (by norm_num)
  rw [← hunique ⟨1, 21⟩ hshortest] at htext
  exact ⟨hreading, hshortest, htext.trans (by decide +kernel)⟩

end JsonScript
