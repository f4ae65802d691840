import JsonScript.Proofs.Counts
import JsonScript.Decimal.Shortest
import Mathlib.Algebra.Order.Ring.Abs
import Mathlib.Tactic.Linarith
import Mathlib.Tactic.NormNum
import Mathlib.Tactic.Ring

/-!
# The numbers that round to a double

A double that is not negative has a coefficient of 53 bits and an exponent that is not
below `-1074`, and it uses all its bits unless the exponent is the least one
(`Double.Canonical`). A rational rounds to the nearest double, and to the one with an even
coefficient if two are equally near (`Double.RoundsTo`). That is said without bounding
the exponent from above: what rounds to a double with a larger exponent than there is
overflows.

Between a double and the next one there is no other. So the numbers that round to a double
are an interval that reaches half way to its neighbours, and this is the interval that the
search for decimals starts from.

## Main results

* `Double.magnitude_lt_iff` — doubles are ordered by exponent first, then by coefficient.
* `Double.RoundsTo.mono` — rounding keeps the order.
* `Double.roundsTo_iff` — the interval of a double.
-/

namespace JsonScript

namespace Double

/-- The coefficient and the exponent of a double that is not negative. -/
structure Canonical (coefficient : Nat) (exponent : Int) : Prop where
  lt : coefficient < 2 ^ 53
  least : -1074 ≤ exponent
  full : 2 ^ 52 ≤ coefficient ∨ exponent = -1074

/-- No other double is as near to the rational, or one is, and the coefficient is even. -/
def RoundsTo (q : ℚ) (coefficient : Nat) (exponent : Int) : Prop :=
  ∀ c e, Canonical c e → (c, e) ≠ (coefficient, exponent) →
    |q - magnitude coefficient exponent| < |q - magnitude c e| ∨
      |q - magnitude coefficient exponent| = |q - magnitude c e| ∧ coefficient % 2 = 0

/-! ## The order of doubles -/

section Order

variable {c c' : Nat} {e e' : Int}

theorem two_mul_zpow_le (h : e < e') : (2 : ℚ) * 2 ^ e ≤ 2 ^ e' := by
  rw [← zpow_one_add₀ two_ne_zero]
  exact zpow_le_zpow_right₀ one_le_two (by omega)

/-- A larger exponent makes a larger double: its coefficient has all bits. -/
theorem magnitude_lt_of_exponent_lt (h : Canonical c e) (h' : Canonical c' e') (he : e < e') :
    magnitude (c + 1) e ≤ magnitude c' e' := by
  have hleast := h.least
  have hfull : 2 ^ 52 ≤ c' := h'.full.resolve_right (by omega)
  have hc : ((c + 1 : Nat) : ℚ) ≤ 2 ^ 53 := by exact_mod_cast h.lt
  have hc' : (2 : ℚ) ^ 52 ≤ c' := by exact_mod_cast hfull
  have hpow := two_mul_zpow_le he
  have hpos : (0 : ℚ) < 2 ^ e := by positivity
  calc magnitude (c + 1) e ≤ 2 ^ 53 * 2 ^ e := mul_le_mul_of_nonneg_right hc hpos.le
    _ = 2 ^ 52 * (2 * 2 ^ e) := by ring
    _ ≤ 2 ^ 52 * 2 ^ e' := mul_le_mul_of_nonneg_left hpow (by positivity)
    _ ≤ magnitude c' e' := mul_le_mul_of_nonneg_right hc' (by positivity)

theorem magnitude_lt_magnitude_iff (e : Int) : magnitude c e < magnitude c' e ↔ c < c' := by
  have hpos : (0 : ℚ) < 2 ^ e := by positivity
  rw [magnitude, magnitude, mul_lt_mul_iff_of_pos_right hpos, Nat.cast_lt]

theorem magnitude_lt_iff (h : Canonical c e) (h' : Canonical c' e') :
    magnitude c e < magnitude c' e' ↔ e < e' ∨ e = e' ∧ c < c' := by
  have hsucc (n : Nat) (k : Int) : magnitude n k < magnitude (n + 1) k :=
    (magnitude_lt_magnitude_iff k).2 n.lt_succ_self
  rcases lt_trichotomy e e' with he | rfl | he
  · exact iff_of_true ((hsucc c e).trans_le (magnitude_lt_of_exponent_lt h h' he)) (.inl he)
  · rw [magnitude_lt_magnitude_iff]
    exact ⟨fun hc => .inr ⟨rfl, hc⟩, fun hc => (hc.resolve_left (lt_irrefl e)).2⟩
  · have hlt := (hsucc c' e').trans_le (magnitude_lt_of_exponent_lt h' h he)
    exact iff_of_false hlt.not_gt (by omega)

theorem eq_of_magnitude_eq (h : Canonical c e) (h' : Canonical c' e')
    (heq : magnitude c e = magnitude c' e') : (c, e) = (c', e') := by
  have hlt := mt (magnitude_lt_iff h h').2 heq.not_lt
  have hgt := mt (magnitude_lt_iff h' h).2 heq.not_gt
  have he : e = e' := by omega
  have hc : c = c' := by omega
  rw [he, hc]

/-- The next double above is one unit away. -/
theorem magnitude_succ_le (h : Canonical c e) (h' : Canonical c' e')
    (hlt : magnitude c e < magnitude c' e') : magnitude (c + 1) e ≤ magnitude c' e' := by
  rcases (magnitude_lt_iff h h').1 hlt with he | ⟨rfl, hc⟩
  · exact magnitude_lt_of_exponent_lt h h' he
  · exact mul_le_mul_of_nonneg_right (Nat.cast_le.2 hc) (by positivity)

/-- How far the next double below is, in units of the last place: half a unit where the
double is a power of two. -/
def gap (coefficient : Nat) (exponent : Int) : ℚ :=
  if coefficient = 2 ^ 52 ∧ -1074 < exponent then 1 / 2 else 1

theorem gap_pos (c : Nat) (e : Int) : 0 < gap c e := by
  rw [gap]
  split <;> norm_num

theorem gap_le_one (c : Nat) (e : Int) : gap c e ≤ 1 := by
  rw [gap]
  split <;> norm_num

theorem magnitude_le_sub_gap (h : Canonical c e) (h' : Canonical c' e')
    (hlt : magnitude c' e' < magnitude c e) : magnitude c' e' ≤ (c - gap c e) * 2 ^ e := by
  have hpos : (0 : ℚ) < 2 ^ e := by positivity
  rcases (magnitude_lt_iff h' h).1 hlt with he | ⟨rfl, hc⟩
  · have hleast := h'.least
    have hfull : 2 ^ 52 ≤ c := h.full.resolve_right (by omega)
    have hc' : (c' : ℚ) ≤ 2 ^ 53 - 1 := by
      have hle : ((c' + 1 : Nat) : ℚ) ≤ 2 ^ 53 := by exact_mod_cast h'.lt
      push_cast at hle
      linarith
    have hc : (2 ^ 52 - 1 / 2 : ℚ) ≤ c - gap c e := by
      rw [gap]
      split
      · rename_i hpower
        rw [hpower.1]
        norm_num
      · rename_i hpower
        have hmore : 2 ^ 52 + 1 ≤ c := by omega
        have hmore' : (2 ^ 52 + 1 : ℚ) ≤ c := by exact_mod_cast hmore
        linarith
    have hpow := two_mul_zpow_le he
    have hpos' : (0 : ℚ) < 2 ^ e' := by positivity
    calc magnitude c' e' ≤ (2 ^ 53 - 1) * 2 ^ e' := mul_le_mul_of_nonneg_right hc' hpos'.le
      _ = (2 ^ 52 - 1 / 2) * (2 * 2 ^ e') := by ring
      _ ≤ (2 ^ 52 - 1 / 2) * 2 ^ e := mul_le_mul_of_nonneg_left hpow (by norm_num)
      _ ≤ (c - gap c e) * 2 ^ e := mul_le_mul_of_nonneg_right hc hpos.le
  · have hle : ((c' + 1 : Nat) : ℚ) ≤ c := by exact_mod_cast hc
    have hgap := gap_le_one c e'
    push_cast at hle
    exact mul_le_mul_of_nonneg_right (by linarith) hpos.le

theorem exists_canonical_above (h : Canonical c e) :
    ∃ c' e', Canonical c' e' ∧ magnitude c' e' = magnitude (c + 1) e := by
  have hlt := h.lt
  have hleast := h.least
  have hfull := h.full
  by_cases hlast : c + 1 = 2 ^ 53
  · refine ⟨2 ^ 52, e + 1, ⟨by norm_num, by omega, .inl le_rfl⟩, ?_⟩
    rw [hlast, magnitude, magnitude, zpow_add_one₀ two_ne_zero]
    push_cast
    ring
  · exact ⟨c + 1, e, ⟨by omega, hleast, by omega⟩, rfl⟩

theorem exists_canonical_below (h : Canonical c e) (hpos : 0 < c) :
    ∃ c' e', Canonical c' e' ∧ magnitude c' e' = (c - gap c e) * 2 ^ e := by
  have hlt := h.lt
  have hleast := h.least
  have hfull := h.full
  rw [gap]
  split
  · rename_i hpower
    refine ⟨2 ^ 53 - 1, e - 1, ⟨by omega, by omega, .inl (by norm_num)⟩, ?_⟩
    rw [hpower.1, magnitude, zpow_sub_one₀ two_ne_zero]
    norm_num
    ring
  · refine ⟨c - 1, e, ⟨by omega, hleast, by omega⟩, ?_⟩
    rw [magnitude, Nat.cast_sub hpos, Nat.cast_one]

end Order

/-! ## Nearer and farther

Which of two numbers is nearer is decided by the middle between them. -/

section Nearer

variable {q x y : ℚ}

theorem abs_sub_lt_abs_sub_iff_mul_pos :
    |q - x| < |q - y| ↔ 0 < (y - x) * (x + y - 2 * q) := by
  have hsq : (q - y) ^ 2 - (q - x) ^ 2 = (y - x) * (x + y - 2 * q) := by ring
  rw [← sq_lt_sq, ← sub_pos, hsq]

theorem abs_sub_lt_abs_sub_iff_of_lt (h : x < y) : |q - x| < |q - y| ↔ 2 * q < x + y := by
  rw [abs_sub_lt_abs_sub_iff_mul_pos, mul_pos_iff_of_pos_left (sub_pos.2 h), sub_pos]

theorem abs_sub_lt_abs_sub_iff_of_gt (h : y < x) : |q - x| < |q - y| ↔ x + y < 2 * q := by
  rw [abs_sub_lt_abs_sub_iff_mul_pos, ← neg_mul_neg, neg_sub,
    mul_pos_iff_of_pos_left (sub_pos.2 h), neg_sub, sub_pos]

theorem abs_sub_eq_abs_sub_iff_of_ne (h : x ≠ y) : |q - x| = |q - y| ↔ 2 * q = x + y := by
  have hsq : (q - y) ^ 2 - (q - x) ^ 2 = (y - x) * (x + y - 2 * q) := by ring
  rw [← sq_eq_sq_iff_abs_eq_abs, eq_comm, ← sub_eq_zero, hsq,
    mul_eq_zero_iff_left (sub_ne_zero.2 h.symm), sub_eq_zero, eq_comm]

end Nearer

/-! ## The interval of a double -/

/-- Half way to the next double below. -/
def lowEnd (coefficient : Nat) (exponent : Int) : ℚ :=
  (coefficient - gap coefficient exponent / 2) * 2 ^ exponent

/-- Half way to the next double above. -/
def highEnd (coefficient : Nat) (exponent : Int) : ℚ := (coefficient + 1 / 2) * 2 ^ exponent

section Interval

variable {q q' : ℚ} {c c' : Nat} {e e' : Int}

theorem two_mul_lowEnd (c : Nat) (e : Int) :
    2 * lowEnd c e = magnitude c e + (c - gap c e) * 2 ^ e := by
  rw [lowEnd, magnitude]
  ring

theorem two_mul_highEnd (c : Nat) (e : Int) :
    2 * highEnd c e = magnitude c e + magnitude (c + 1) e := by
  rw [highEnd, magnitude, magnitude]
  push_cast
  ring

theorem lowEnd_pos (hc : 0 < c) (e : Int) : 0 < lowEnd c e := by
  have hc' : (1 : ℚ) ≤ c := Nat.one_le_cast.2 hc
  have hgap := gap_le_one c e
  exact mul_pos (by linarith) (by positivity)

theorem lowEnd_lt (c : Nat) (e : Int) : lowEnd c e < magnitude c e := by
  have hgap := gap_pos c e
  exact mul_lt_mul_of_pos_right (by linarith) (by positivity)

theorem lt_highEnd (c : Nat) (e : Int) : magnitude c e < highEnd c e :=
  mul_lt_mul_of_pos_right (by linarith) (by positivity)

/-- What rounds to a double is not beyond the middle to another one above it. -/
theorem RoundsTo.le_middle (h' : Canonical c' e') (hlt : magnitude c e < magnitude c' e')
    (hq : RoundsTo q c e) :
    2 * q < magnitude c e + magnitude c' e' ∨
      2 * q = magnitude c e + magnitude c' e' ∧ c % 2 = 0 := by
  have hne : (c', e') ≠ (c, e) := by
    rintro ⟨⟩
    exact hlt.false
  rw [← abs_sub_lt_abs_sub_iff_of_lt hlt, ← abs_sub_eq_abs_sub_iff_of_ne hlt.ne]
  exact hq c' e' h' hne

theorem RoundsTo.middle_le (h' : Canonical c' e') (hlt : magnitude c' e' < magnitude c e)
    (hq : RoundsTo q c e) :
    magnitude c e + magnitude c' e' < 2 * q ∨
      2 * q = magnitude c e + magnitude c' e' ∧ c % 2 = 0 := by
  have hne : (c', e') ≠ (c, e) := by
    rintro ⟨⟩
    exact hlt.false
  rw [← abs_sub_lt_abs_sub_iff_of_gt hlt, ← abs_sub_eq_abs_sub_iff_of_ne hlt.ne']
  exact hq c' e' h' hne

/-- Above the lower end, a double is nearer than those below it. -/
theorem nearer_of_lowEnd_le (h : Canonical c e) (h' : Canonical c' e')
    (hlt : magnitude c' e' < magnitude c e) (hq : lowEnd c e < q ∨ lowEnd c e = q ∧ c % 2 = 0) :
    |q - magnitude c e| < |q - magnitude c' e'| ∨
      |q - magnitude c e| = |q - magnitude c' e'| ∧ c % 2 = 0 := by
  have hle := magnitude_le_sub_gap h h' hlt
  have htwo := two_mul_lowEnd c e
  rw [abs_sub_lt_abs_sub_iff_of_gt hlt, abs_sub_eq_abs_sub_iff_of_ne hlt.ne']
  rcases hq with hq | ⟨rfl, heven⟩
  · exact .inl (by linarith)
  · have hmiddle : magnitude c e + magnitude c' e' ≤ 2 * lowEnd c e := by linarith
    exact hmiddle.lt_or_eq.imp_right fun heq => ⟨heq.symm, heven⟩

theorem nearer_of_le_highEnd (h : Canonical c e) (h' : Canonical c' e')
    (hlt : magnitude c e < magnitude c' e') (hq : q < highEnd c e ∨ q = highEnd c e ∧ c % 2 = 0) :
    |q - magnitude c e| < |q - magnitude c' e'| ∨
      |q - magnitude c e| = |q - magnitude c' e'| ∧ c % 2 = 0 := by
  have hle := magnitude_succ_le h h' hlt
  have htwo := two_mul_highEnd c e
  rw [abs_sub_lt_abs_sub_iff_of_lt hlt, abs_sub_eq_abs_sub_iff_of_ne hlt.ne]
  rcases hq with hq | ⟨rfl, heven⟩
  · exact .inl (by linarith)
  · have hmiddle : 2 * highEnd c e ≤ magnitude c e + magnitude c' e' := by linarith
    exact hmiddle.lt_or_eq.imp_right fun heq => ⟨heq, heven⟩

/-- What rounds to a double is between the ends. It is an end only where the coefficient is
even. -/
theorem roundsTo_iff_ends (h : Canonical c e) (hc : 0 < c) :
    RoundsTo q c e ↔ (lowEnd c e < q ∨ lowEnd c e = q ∧ c % 2 = 0) ∧
      (q < highEnd c e ∨ q = highEnd c e ∧ c % 2 = 0) := by
  constructor
  · intro hq
    obtain ⟨c₁, e₁, h₁, hbelow⟩ := exists_canonical_below h hc
    obtain ⟨c₂, e₂, h₂, habove⟩ := exists_canonical_above h
    have hlow := two_mul_lowEnd c e
    have hhigh := two_mul_highEnd c e
    have hlt₁ := lowEnd_lt c e
    have hlt₂ := lt_highEnd c e
    rw [← hbelow] at hlow
    rw [← habove] at hhigh
    refine ⟨(hq.middle_le h₁ (by linarith)).imp (fun hlt => ?_) (.imp_left fun heq => ?_),
      (hq.le_middle h₂ (by linarith)).imp (fun hlt => ?_) (.imp_left fun heq => ?_)⟩ <;> linarith
  · rintro ⟨hlow, hhigh⟩ c' e' h' hne
    rcases lt_trichotomy (magnitude c' e') (magnitude c e) with hlt | heq | hgt
    · exact nearer_of_lowEnd_le h h' hlt hlow
    · exact absurd (eq_of_magnitude_eq h' h heq) hne
    · exact nearer_of_le_highEnd h h' hgt hhigh

/-- The numbers that round to a double are those between the ends, and the ends themselves
where the coefficient is even. -/
theorem roundsTo_iff (h : Canonical c e) (hc : 0 < c) :
    RoundsTo q c e ↔
      if c % 2 = 0 then lowEnd c e ≤ q ∧ q ≤ highEnd c e else lowEnd c e < q ∧ q < highEnd c e := by
  rw [roundsTo_iff_ends h hc]
  split
  case isTrue heven => rw [and_iff_left heven, and_iff_left heven, ← le_iff_lt_or_eq,
    ← le_iff_lt_or_eq]
  case isFalse hodd => rw [or_iff_left fun hend => hodd hend.2, or_iff_left fun hend => hodd hend.2]

/-- A double rounds to itself. -/
theorem roundsTo_magnitude (h : Canonical c e) (hc : 0 < c) : RoundsTo (magnitude c e) c e :=
  (roundsTo_iff_ends h hc).2 ⟨.inl (lowEnd_lt c e), .inl (lt_highEnd c e)⟩

/-- The middle between two doubles does not round to both of them: if no other double is
nearer to it, then they are neighbours, and one of the coefficients is odd. -/
theorem RoundsTo.mono (h : Canonical c e) (h' : Canonical c' e') (hq : RoundsTo q c e)
    (hq' : RoundsTo q' c' e') (hle : q ≤ q') : magnitude c e ≤ magnitude c' e' := by
  by_contra hgt
  push Not at hgt
  obtain ⟨c₁, e₁, h₁, habove⟩ := exists_canonical_above h'
  have hsucc : magnitude c' e' < magnitude c₁ e₁ := by
    rw [habove]
    exact (magnitude_lt_magnitude_iff e').2 c'.lt_succ_self
  have hnext : magnitude c₁ e₁ ≤ magnitude c e := by
    rw [habove]
    exact magnitude_succ_le h' h hgt
  have hlow := hq.middle_le h' hgt
  have hhigh := hq'.le_middle h₁ hsucc
  have heven : c % 2 = 0 := by
    rcases hlow with hlow | ⟨-, heven⟩
    · rcases hhigh with hhigh | ⟨hhigh, -⟩ <;> linarith
    · exact heven
  have heven' : c' % 2 = 0 := by
    rcases hhigh with hhigh | ⟨-, heven⟩
    · rcases hlow with hlow | ⟨hlow, -⟩ <;> linarith
    · exact heven
  have heq : magnitude (c' + 1) e' = magnitude c e := by
    rw [← habove]
    rcases hlow with hlow | ⟨hlow, -⟩ <;> rcases hhigh with hhigh | ⟨hhigh, -⟩ <;> linarith
  have hlt' := h'.lt
  have hfull := h'.full
  have hcanonical : Canonical (c' + 1) e' := ⟨by omega, h'.least, by omega⟩
  have hsame := eq_of_magnitude_eq hcanonical h heq
  rw [Prod.mk.injEq] at hsame
  omega

end Interval

end Double

end JsonScript
