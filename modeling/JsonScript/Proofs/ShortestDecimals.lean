import JsonScript.Proofs.Rounding

/-!
# Shortest decimals

The decimal that a double prints as has the fewest digits among all that round to the
double. Of those with as few digits it is the nearest, and the upper one where two are
equally near (`Decimal.IsShortest`). This determines it.

`Span.shortest` finds it by walking over grids of decimals from coarse to fine. Two facts
make that right. On each grid it is enough to look at the neighbours of the value, since an
interval around the value that has any point of the grid has a neighbour
(`Span.isNearest_of_nearest?`). And a decimal of few digits is on a coarse grid, unless it
is so small or so large that a power of ten lies between it and the value, which is then
better.

## Main results

* `Decimal.IsShortest.eq` — there is at most one shortest decimal.
* `Span.isShortest_shortest` — the search finds it.
* `Double.isShortest_decimal` — so what a double prints as is the shortest decimal that
  rounds to it.
-/

namespace JsonScript

theorem lt_pow_length_toDigits (n : Nat) : n < 10 ^ (Nat.toDigits 10 n).length :=
  (Nat.length_toDigits_le_iff (by norm_num) Nat.length_toDigits_pos).1 le_rfl

theorem pow_length_toDigits_le {n : Nat} (h : 0 < n) :
    10 ^ ((Nat.toDigits 10 n).length - 1) ≤ n := by
  by_contra hlt
  have hpos : 0 < (Nat.toDigits 10 n).length := Nat.length_toDigits_pos
  rcases Nat.eq_zero_or_pos ((Nat.toDigits 10 n).length - 1) with hzero | hlong
  · rw [hzero, pow_zero] at hlt
    omega
  · have hle := (Nat.length_toDigits_le_iff (by norm_num) hlong).2 (not_le.1 hlt)
    omega

namespace Decimal

/-! ## The number that a decimal is -/

/-- The number that a decimal is. -/
def value (d : Decimal) : ℚ := d.significand * 10 ^ d.exponent

section Value

variable {d d' : Decimal}

theorem length_digits_pos (d : Decimal) : 0 < d.digits.length := Nat.length_toDigits_pos

theorem value_lt (d : Decimal) : d.value < 10 ^ d.point := by
  have hlt : (d.significand : ℚ) < 10 ^ d.digits.length := by
    exact_mod_cast lt_pow_length_toDigits d.significand
  rw [value, point, zpow_add₀ (by norm_num), zpow_natCast]
  exact mul_lt_mul_of_pos_right hlt (by positivity)

theorem pow_le_value (h : 0 < d.significand) : 10 ^ (d.point - 1) ≤ d.value := by
  have hpos := d.length_digits_pos
  have hle : (10 : ℚ) ^ (d.digits.length - 1) ≤ d.significand := by
    exact_mod_cast pow_length_toDigits_le h
  have hpoint : d.point - 1 = ((d.digits.length - 1 : Nat) : Int) + d.exponent := by
    rw [point]
    omega
  rw [value, hpoint, zpow_add₀ (by norm_num), zpow_natCast]
  exact mul_le_mul_of_nonneg_right hle (by positivity)

/-- A decimal is on all grids that are not coarser than its own. -/
theorem exists_value_eq {g : Int} (h : g ≤ d.exponent) : ∃ n : Nat, d.value = n * 10 ^ g := by
  refine ⟨d.significand * 10 ^ (d.exponent - g).toNat, ?_⟩
  rw [Nat.cast_mul, Nat.cast_pow, ← zpow_natCast, Int.toNat_of_nonneg (by omega), Nat.cast_ofNat,
    mul_assoc, ← zpow_add₀ (by norm_num), sub_add_cancel, value]

/-- On a coarser grid than its own, a decimal that is there ends in zero. -/
theorem exponent_le_of_value_eq (h : d'.significand % 10 ≠ 0) (heq : d.value = d'.value) :
    d.exponent ≤ d'.exponent := by
  by_contra hlt
  obtain ⟨n, hn⟩ : ∃ n : Nat, d.exponent = d'.exponent + (n + 1 : Nat) :=
    ⟨(d.exponent - d'.exponent - 1).toNat, by omega⟩
  have hpow : (10 : ℚ) ^ d'.exponent ≠ 0 := by positivity
  rw [value, value, hn, zpow_add₀ (by norm_num), zpow_natCast, mul_left_comm, mul_comm,
    mul_right_cancel_iff_of_pos (by positivity)] at heq
  have hnat : d.significand * 10 ^ (n + 1) = d'.significand := by exact_mod_cast heq
  rw [pow_succ, ← mul_assoc] at hnat
  omega

/-- Two decimals that do not end in zero are different numbers. -/
theorem eq_of_value_eq (h : d.significand % 10 ≠ 0) (h' : d'.significand % 10 ≠ 0)
    (heq : d.value = d'.value) : d = d' := by
  have hexponent : d.exponent = d'.exponent :=
    le_antisymm (exponent_le_of_value_eq h' heq) (exponent_le_of_value_eq h heq.symm)
  rw [value, value, hexponent, mul_right_cancel_iff_of_pos (by positivity), Nat.cast_inj] at heq
  exact congrArg₂ Decimal.mk heq hexponent

theorem value_normalizeFrom (s : Nat) (e : Int) : (normalizeFrom s e).value = s * 10 ^ e := by
  fun_induction normalizeFrom s e with
  | case1 s e h ih =>
      have hs : ((s / 10 * 10 : Nat) : ℚ) = s := by
        rw [Nat.div_mul_cancel (Nat.dvd_of_mod_eq_zero h.2)]
      rw [ih, zpow_add_one₀ (by norm_num), ← hs]
      push_cast
      ring
  | case2 s e h => rfl

theorem value_normalize (d : Decimal) : d.normalize.value = d.value := value_normalizeFrom _ _

theorem significand_normalizeFrom_le (s : Nat) (e : Int) :
    (normalizeFrom s e).significand ≤ s := by
  fun_induction normalizeFrom s e with
  | case1 s e h ih => exact ih.trans (s.div_le_self 10)
  | case2 s e h => exact le_rfl

/-- Without trailing zeros, a power of ten has no more digits than the numbers below it. -/
theorem length_digits_normalize_le {k : Nat} (hk : 0 < k) (h : 0 < d.significand)
    (hle : d.significand ≤ 10 ^ k) : d.normalize.digits.length ≤ k := by
  have hnormal := significand_normalize_mod_ten d h.ne'
  have hle' : d.normalize.significand ≤ 10 ^ k := (significand_normalizeFrom_le _ _).trans hle
  have hzero : 10 ^ k % 10 = 0 := Nat.mod_eq_zero_of_dvd (dvd_pow_self 10 hk.ne')
  refine (Nat.length_toDigits_le_iff (by norm_num) hk).2 (hle'.lt_of_ne ?_)
  intro heq
  rw [heq] at hnormal
  exact hnormal hzero

end Value

/-! ## Shortest decimals -/

/-- Of two approximations to `x` the nearer one is preferred, and the upper one where both
are equally near. -/
def Preferred (x q q' : ℚ) : Prop := |x - q| < |x - q'| ∨ |x - q| = |x - q'| ∧ q' ≤ q

/-- The decimal that stands for `x`, if those that `reads` accepts can stand for it: it has
the fewest digits, and it is preferred to the others with as many. -/
structure IsShortest (reads : ℚ → Prop) (x : ℚ) (d : Decimal) : Prop where
  reads_value : reads d.value
  normal : d.significand % 10 ≠ 0
  fewest : ∀ d' : Decimal, reads d'.value → d.digits.length ≤ d'.digits.length
  preferred : ∀ d' : Decimal, reads d'.value → d'.digits.length = d.digits.length →
    Preferred x d.value d'.value

section Preferred

variable {x q q' : ℚ}

theorem Preferred.refl (x q : ℚ) : Preferred x q q := .inr ⟨rfl, le_rfl⟩

theorem Preferred.antisymm (h : Preferred x q q') (h' : Preferred x q' q) : q = q' := by
  rcases h with hlt | ⟨heq, hle⟩
  · rcases h' with hlt' | ⟨heq', -⟩ <;> linarith
  · rcases h' with hlt' | ⟨-, hle'⟩
    · linarith
    · exact le_antisymm hle' hle

theorem Preferred.trans {r : ℚ} (h : Preferred x q q') (h' : Preferred x q' r) :
    Preferred x q r := by
  rcases h with hlt | ⟨heq, hle⟩
  · rcases h' with hlt' | ⟨heq', -⟩
    · exact .inl (hlt.trans hlt')
    · exact .inl (heq' ▸ hlt)
  · rcases h' with hlt' | ⟨heq', hle'⟩
    · exact .inl (heq ▸ hlt')
    · exact .inr ⟨heq.trans heq', hle'.trans hle⟩

theorem preferred_self (x q : ℚ) : Preferred x x q := by
  rw [Preferred, sub_self, abs_zero, abs_pos, sub_ne_zero]
  rcases eq_or_ne x q with rfl | hne
  · exact .inr ⟨by rw [sub_self, abs_zero], le_rfl⟩
  · exact .inl hne

theorem preferred_iff_of_lt (h : q < q') : Preferred x q q' ↔ 2 * x < q + q' := by
  rw [Preferred, Double.abs_sub_lt_abs_sub_iff_of_lt h]
  exact or_iff_left fun hle => hle.2.not_gt h

theorem preferred_iff_of_gt (h : q' < q) : Preferred x q q' ↔ q + q' ≤ 2 * x := by
  rw [Preferred, and_iff_left h.le, Double.abs_sub_lt_abs_sub_iff_of_gt h,
    Double.abs_sub_eq_abs_sub_iff_of_ne h.ne', @eq_comm _ (2 * x), ← le_iff_lt_or_eq]

theorem Preferred.of_le_of_le (h : q' ≤ q) (hx : q ≤ x) : Preferred x q q' := by
  rcases h.lt_or_eq with hlt | rfl
  · rw [preferred_iff_of_gt hlt]
    linarith
  · exact .refl x q'

theorem Preferred.of_ge_of_lt (h : q ≤ q') (hx : x < q) : Preferred x q q' := by
  rcases h.lt_or_eq with hlt | rfl
  · rw [preferred_iff_of_lt hlt]
    linarith
  · exact .refl x q

/-- What is preferred does not depend on the unit. -/
theorem Preferred.mul_right (h : Preferred x q q') {t : ℚ} (ht : 0 < t) :
    Preferred (x * t) (q * t) (q' * t) := by
  have habs (y z : ℚ) : |y * t - z * t| = |y - z| * t := by
    rw [← sub_mul, abs_mul, abs_of_pos ht]
  rw [Preferred, habs, habs, mul_lt_mul_iff_of_pos_right ht, mul_left_inj' ht.ne',
    mul_le_mul_iff_of_pos_right ht]
  exact h

end Preferred

theorem IsShortest.significand_pos {reads : ℚ → Prop} {x : ℚ} {d : Decimal}
    (h : IsShortest reads x d) : 0 < d.significand := by
  have hnormal := h.normal
  omega

theorem IsShortest.eq {reads : ℚ → Prop} {x : ℚ} {d d' : Decimal} (h : IsShortest reads x d)
    (h' : IsShortest reads x d') : d = d' := by
  have hlength : d'.digits.length = d.digits.length :=
    le_antisymm (h'.fewest d h.reads_value) (h.fewest d' h'.reads_value)
  have hpreferred := h.preferred d' h'.reads_value hlength
  have hpreferred' := h'.preferred d h.reads_value hlength.symm
  exact eq_of_value_eq h.normal h'.normal (hpreferred.antisymm hpreferred')

end Decimal

namespace Span

open Decimal (Preferred IsShortest)

/-! ## The interval as rationals -/

/-- The lower end of the interval. -/
def lowEnd (s : Span) : ℚ := s.low / s.unit

/-- The value that the interval is around. -/
def exact (s : Span) : ℚ := s.value / s.unit

/-- The upper end of the interval. -/
def highEnd (s : Span) : ℚ := s.high / s.unit

/-- Whether a number lies in the interval. -/
def Contains (s : Span) (q : ℚ) : Prop :=
  if s.closed then s.lowEnd ≤ q ∧ q ≤ s.highEnd else s.lowEnd < q ∧ q < s.highEnd

/-- The interval is above zero, and the value is inside. -/
structure Proper (s : Span) : Prop where
  low_pos : 0 < s.lowEnd
  low_lt : s.lowEnd < s.exact
  lt_high : s.exact < s.highEnd

variable {s : Span} {q q' : ℚ}

theorem Proper.exact_pos (h : s.Proper) : 0 < s.exact := h.low_pos.trans h.low_lt

/-- Fractions that are not zero have a denominator. -/
theorem Proper.unit_pos (h : s.Proper) : 0 < s.unit := by
  refine Nat.pos_of_ne_zero fun hzero => ?_
  have hpos := h.exact_pos
  rw [exact, hzero, Nat.cast_zero, div_zero] at hpos
  exact hpos.false

theorem Contains.pos (hq : s.Contains q) (h : s.Proper) : 0 < q := by
  rw [Contains] at hq
  split at hq
  · exact h.low_pos.trans_le hq.1
  · exact h.low_pos.trans hq.1

theorem significand_pos_of_contains {d : Decimal} (h : s.Proper) (hd : s.Contains d.value) :
    0 < d.significand := by
  refine Nat.pos_of_ne_zero fun hzero => (hd.pos h).ne' ?_
  rw [Decimal.value, hzero, Nat.cast_zero, zero_mul]

theorem Contains.of_le_of_le (hq : s.Contains q) (h : s.Proper) (hle : q ≤ q')
    (hx : q' ≤ s.exact) : s.Contains q' := by
  have hhigh := hx.trans_lt h.lt_high
  by_cases hclosed : s.closed
  · rw [Contains, if_pos hclosed] at hq ⊢
    exact ⟨hq.1.trans hle, hhigh.le⟩
  · rw [Contains, if_neg hclosed] at hq ⊢
    exact ⟨hq.1.trans_le hle, hhigh⟩

theorem Contains.of_ge_of_ge (hq : s.Contains q) (h : s.Proper) (hle : q' ≤ q)
    (hx : s.exact ≤ q') : s.Contains q' := by
  have hlow := h.low_lt.trans_le hx
  by_cases hclosed : s.closed
  · rw [Contains, if_pos hclosed] at hq ⊢
    exact ⟨hlow.le, hle.trans hq.2⟩
  · rw [Contains, if_neg hclosed] at hq ⊢
    exact ⟨hlow, hle.trans_lt hq.2⟩

theorem contains_exact (h : s.Proper) : s.Contains s.exact := by
  have hlow := h.low_lt
  have hhigh := h.lt_high
  rw [Contains]
  split
  · exact ⟨hlow.le, hhigh.le⟩
  · exact ⟨hlow, hhigh⟩

theorem accepts_iff (h : 0 < s.unit) (k : Nat) : s.accepts k = true ↔ s.Contains k := by
  have hunit : (0 : ℚ) < s.unit := Nat.cast_pos.2 h
  have hmul : ((k * s.unit : Nat) : ℚ) = k * s.unit := Nat.cast_mul k s.unit
  rw [accepts, Contains]
  split
  · rw [decide_eq_true_iff, lowEnd, highEnd, div_le_iff₀ hunit, le_div_iff₀ hunit, ← hmul,
      Nat.cast_le, Nat.cast_le]
  · rw [decide_eq_true_iff, lowEnd, highEnd, div_lt_iff₀ hunit, lt_div_iff₀ hunit, ← hmul,
      Nat.cast_lt, Nat.cast_lt]

/-! ## Grids -/

theorem zpow_eq_div {b : ℚ} (hb : b ≠ 0) (e : Int) : b ^ e = b ^ e.toNat / b ^ (-e).toNat := by
  have he : e = (e.toNat : Int) - ((-e).toNat : Int) := by omega
  rw [← zpow_natCast, ← zpow_natCast, ← zpow_sub₀ hb, ← he]

/-- A fraction counted in steps of a grid. -/
theorem div_onGrid (s : Span) (e : Int) (n : Nat) :
    ((n * Nat.pow 10 (-e).toNat : Nat) : ℚ) / (s.onGrid e).unit = n / s.unit / 10 ^ e := by
  have hunit : (s.onGrid e).unit = s.unit * Nat.pow 10 e.toNat := rfl
  rw [hunit, zpow_eq_div (by norm_num), Nat.pow_eq, Nat.pow_eq]
  push_cast
  rw [div_div_div_eq]

theorem exact_onGrid (s : Span) (e : Int) : (s.onGrid e).exact = s.exact / 10 ^ e :=
  s.div_onGrid e s.value

theorem contains_onGrid_iff (s : Span) (e : Int) (q : ℚ) :
    (s.onGrid e).Contains q ↔ s.Contains (q * 10 ^ e) := by
  have hpow : (0 : ℚ) < 10 ^ e := by positivity
  have hlow : (s.onGrid e).lowEnd = s.lowEnd / 10 ^ e := s.div_onGrid e s.low
  have hhigh : (s.onGrid e).highEnd = s.highEnd / 10 ^ e := s.div_onGrid e s.high
  have hclosed : (s.onGrid e).closed = s.closed := rfl
  rw [Contains, Contains, hlow, hhigh, hclosed, div_le_iff₀ hpow, le_div_iff₀ hpow,
    div_lt_iff₀ hpow, lt_div_iff₀ hpow]

theorem Proper.onGrid (h : s.Proper) (e : Int) : (s.onGrid e).Proper := by
  have hpow : (0 : ℚ) < 10 ^ e := by positivity
  have hlow : (s.onGrid e).lowEnd = s.lowEnd / 10 ^ e := s.div_onGrid e s.low
  have hhigh : (s.onGrid e).highEnd = s.highEnd / 10 ^ e := s.div_onGrid e s.high
  have hexact := s.exact_onGrid e
  refine ⟨?_, ?_, ?_⟩
  · rw [hlow]
    exact div_pos h.low_pos hpow
  · rw [hlow, hexact]
    exact div_lt_div_of_pos_right h.low_lt hpow
  · rw [hexact, hhigh]
    exact div_lt_div_of_pos_right h.lt_high hpow

/-! ## The best point of a grid -/

/-- A whole number of units in the interval that is preferred to every other one there. -/
structure IsNearest (s : Span) (k : Nat) : Prop where
  contains : s.Contains k
  preferred : ∀ n : Nat, s.Contains n → Preferred s.exact k n

theorem div_unit_le_exact (h : 0 < s.unit) : ((s.value / s.unit : Nat) : ℚ) ≤ s.exact := by
  have hunit : (0 : ℚ) < s.unit := Nat.cast_pos.2 h
  rw [exact, le_div_iff₀ hunit]
  exact_mod_cast Nat.div_mul_le_self s.value s.unit

theorem exact_lt_div_unit_add_one (h : 0 < s.unit) :
    s.exact < ((s.value / s.unit + 1 : Nat) : ℚ) := by
  have hunit : (0 : ℚ) < s.unit := Nat.cast_pos.2 h
  rw [exact, div_lt_iff₀ hunit]
  exact_mod_cast Nat.lt_mul_of_div_lt (Nat.lt_succ_self _) h

/-- The remainder tells which neighbour is nearer. -/
theorem two_mul_mod_unit_lt_iff (h : 0 < s.unit) :
    2 * (s.value % s.unit) < s.unit ↔
      2 * s.exact < ((s.value / s.unit : Nat) : ℚ) + ((s.value / s.unit + 1 : Nat) : ℚ) := by
  have hunit : (0 : ℚ) < s.unit := Nat.cast_pos.2 h
  have hdiv : ((s.value / s.unit * s.unit + s.value % s.unit : Nat) : ℚ) = s.value := by
    rw [Nat.div_add_mod']
  push_cast at hdiv ⊢
  rw [exact, ← mul_div_assoc, div_lt_iff₀ hunit, ← hdiv]
  have hcast : 2 * (s.value % s.unit) < s.unit ↔
      (2 * ((s.value % s.unit : Nat) : ℚ)) < s.unit := by exact_mod_cast Iff.rfl
  rw [hcast]
  constructor <;> intro hlt <;> linarith

/-- The first of two that is accepted. -/
theorem find?_pair_eq_some {p : Nat → Bool} {a b k : Nat} (h : [a, b].find? p = some k) :
    k = a ∨ k = b ∧ p a = false := by
  rw [List.find?_cons_eq_some, Bool.not_eq_true'] at h
  rcases h with ⟨-, rfl⟩ | ⟨ha, hb⟩
  · exact .inl rfl
  · exact .inr ⟨List.mem_singleton.1 (List.mem_of_find?_eq_some hb), ha⟩

section Nearest

variable (h : s.Proper)
include h

/-- If a point of the grid is in the interval, then so is the neighbour on that side. -/
theorem contains_neighbour {n : Nat} (hn : s.Contains n) :
    n ≤ s.value / s.unit ∧ s.accepts (s.value / s.unit) = true ∨
      s.value / s.unit + 1 ≤ n ∧ s.accepts (s.value / s.unit + 1) = true := by
  have hbelow := div_unit_le_exact h.unit_pos
  have habove := exact_lt_div_unit_add_one h.unit_pos
  rw [accepts_iff h.unit_pos, accepts_iff h.unit_pos]
  rcases Nat.lt_or_ge (s.value / s.unit) n with hlt | hge
  · exact .inr ⟨hlt, hn.of_ge_of_ge h (Nat.cast_le.2 hlt) habove.le⟩
  · exact .inl ⟨hge, hn.of_le_of_le h (Nat.cast_le.2 hge) hbelow⟩

theorem isNearest_of_nearest? {k : Nat} (hk : s.nearest? = some k) : s.IsNearest k := by
  have hbelow := div_unit_le_exact h.unit_pos
  have habove := exact_lt_div_unit_add_one h.unit_pos
  have hmiddle := two_mul_mod_unit_lt_iff h.unit_pos
  refine ⟨(accepts_iff h.unit_pos k).1 (accepts_of_nearest? hk), fun n hn => ?_⟩
  have hside := contains_neighbour h hn
  rw [nearest?, neighbours] at hk
  generalize s.value / s.unit = b at *
  have hstep : (b : ℚ) < ((b + 1 : Nat) : ℚ) := Nat.cast_lt.2 b.lt_succ_self
  split at hk
  case isTrue hnear =>
    rw [hmiddle] at hnear
    rcases find?_pair_eq_some hk with rfl | ⟨rfl, hb⟩
    · rcases hside with ⟨hle, -⟩ | ⟨hge, -⟩
      · exact .of_le_of_le (Nat.cast_le.2 hle) hbelow
      · have hge' : ((k + 1 : Nat) : ℚ) ≤ n := Nat.cast_le.2 hge
        rw [Decimal.preferred_iff_of_lt (hstep.trans_le hge')]
        linarith
    · obtain ⟨hge, -⟩ := hside.resolve_left fun hle => absurd hle.2 (by rw [hb]; decide)
      exact .of_ge_of_lt (Nat.cast_le.2 hge) habove
  case isFalse hfar =>
    rw [hmiddle, not_lt] at hfar
    rcases find?_pair_eq_some hk with rfl | ⟨rfl, hb⟩
    · rcases hside with ⟨hle, -⟩ | ⟨hge, -⟩
      · have hle' : (n : ℚ) ≤ b := Nat.cast_le.2 hle
        rw [Decimal.preferred_iff_of_gt (hle'.trans_lt hstep)]
        linarith
      · exact .of_ge_of_lt (Nat.cast_le.2 hge) habove
    · obtain ⟨hle, -⟩ := hside.resolve_right fun hge => absurd hge.2 (by rw [hb]; decide)
      exact .of_le_of_le (Nat.cast_le.2 hle) hbelow

theorem div_unit_eq {n : Nat} (hn : s.exact = n) : s.value / s.unit = n := by
  have hunit : (s.unit : ℚ) ≠ 0 := Nat.cast_ne_zero.2 h.unit_pos.ne'
  rw [exact, div_eq_iff hunit] at hn
  exact Nat.div_eq_of_eq_mul_left h.unit_pos (by exact_mod_cast hn)

theorem isNearest_of_exact_eq {n : Nat} (hn : s.exact = n) : s.IsNearest n := by
  refine ⟨hn ▸ contains_exact h, fun k _ => ?_⟩
  rw [hn]
  exact Decimal.preferred_self n k

theorem not_contains_of_nearest? (hnone : s.nearest? = none) (n : Nat) : ¬ s.Contains n := by
  intro hn
  rw [nearest?, List.find?_eq_none] at hnone
  have hmem : s.value / s.unit ∈ s.neighbours ∧ s.value / s.unit + 1 ∈ s.neighbours := by
    rw [neighbours]
    split <;> simp
  rcases contains_neighbour h hn with ⟨-, hb⟩ | ⟨-, hb⟩
  · exact hnone _ hmem.1 hb
  · exact hnone _ hmem.2 hb

end Nearest

/-! ## The search -/

/-- A decimal on the first of the grids `10 ^ e`, `10 ^ (e - 1)`, … that has a point in
the interval, and the preferred one there. -/
structure IsOnFirstGrid (s : Span) (e : Int) (d : Decimal) : Prop where
  exponent_le : d.exponent ≤ e
  contains : s.Contains d.value
  preferred : ∀ n : Nat, s.Contains (n * 10 ^ d.exponent) →
    Preferred s.exact d.value (n * 10 ^ d.exponent)
  first : ∀ g, d.exponent < g → g ≤ e → ∀ n : Nat, ¬ s.Contains (n * 10 ^ g)

theorem IsNearest.isOnFirstGrid {e : Int} {k : Nat} (hk : (s.onGrid e).IsNearest k) :
    s.IsOnFirstGrid e ⟨k, e⟩ := by
  have hpow : (0 : ℚ) < 10 ^ e := by positivity
  refine ⟨le_rfl, (contains_onGrid_iff s e k).1 hk.contains, fun n hn => ?_, fun g hlt hle => ?_⟩
  · have hpreferred := (hk.preferred n ((contains_onGrid_iff s e n).2 hn)).mul_right hpow
    rw [exact_onGrid, div_mul_cancel₀ _ hpow.ne'] at hpreferred
    exact hpreferred
  · exact absurd hlt hle.not_gt

/-- The search stops at the latest on a grid that the value itself is on. -/
theorem isOnFirstGrid_searchFrom (h : s.Proper) (finer : Nat) (e : Int)
    (hend : ∃ n : Nat, s.exact = n * 10 ^ (e - finer)) :
    s.IsOnFirstGrid e (s.searchFrom finer e) := by
  induction finer generalizing e with
  | zero =>
      obtain ⟨n, hn⟩ := hend
      have hexact : (s.onGrid e).exact = n := by
        rw [exact_onGrid, hn, Nat.cast_zero, sub_zero, mul_div_cancel_right₀ _ (by positivity)]
      rw [searchFrom, div_unit_eq (h.onGrid e) hexact]
      exact (isNearest_of_exact_eq (h.onGrid e) hexact).isOnFirstGrid
  | succ finer ih =>
      rw [searchFrom]
      split
      · rename_i k hk
        exact (isNearest_of_nearest? (h.onGrid e) hk).isOnFirstGrid
      · rename_i hnone
        have hend' : e - 1 - (finer : Int) = e - (finer + 1 : Nat) := by omega
        have hfirst := ih (e - 1) (by rwa [hend'])
        have hle := hfirst.exponent_le
        refine ⟨by omega, hfirst.contains, hfirst.preferred, fun g hlt hge n hn => ?_⟩
        rcases eq_or_ne g e with rfl | hne
        · rw [← contains_onGrid_iff] at hn
          exact not_contains_of_nearest? (h.onGrid g) hnone n hn
        · exact hfirst.first g hlt (by omega) n hn

section Magnitude

variable (h : s.Proper)
include h

theorem exact_mem_of_unit_le (hle : s.unit ≤ s.value) :
    10 ^ ((digitCount (s.value / s.unit) : Int) - 1) ≤ s.exact ∧
      s.exact < 10 ^ (digitCount (s.value / s.unit) : Int) := by
  have hpos : 0 < s.value / s.unit := Nat.div_pos hle h.unit_pos
  have hdigits : 0 < digitCount (s.value / s.unit) := Nat.length_toDigits_pos
  have hlow : (10 : ℚ) ^ (digitCount (s.value / s.unit) - 1) ≤ (s.value / s.unit : Nat) := by
    exact_mod_cast pow_length_toDigits_le hpos
  have hhigh : ((s.value / s.unit + 1 : Nat) : ℚ) ≤ 10 ^ digitCount (s.value / s.unit) := by
    exact_mod_cast lt_pow_length_toDigits (s.value / s.unit)
  rw [← Nat.cast_pred hdigits, zpow_natCast, zpow_natCast]
  exact ⟨hlow.trans (div_unit_le_exact h.unit_pos),
    (exact_lt_div_unit_add_one h.unit_pos).trans_le hhigh⟩

/-- Below one, the digits are those of the reciprocal, rounded up and less one. -/
theorem exact_mem_of_lt_unit (hlt : s.value < s.unit) :
    10 ^ (1 - (digitCount ((s.unit - 1) / s.value) : Int) - 1) ≤ s.exact ∧
      s.exact < 10 ^ (1 - (digitCount ((s.unit - 1) / s.value) : Int)) := by
  have hunit : (0 : ℚ) < s.unit := Nat.cast_pos.2 h.unit_pos
  have hvalue : 0 < s.value := by
    refine Nat.pos_of_ne_zero fun hzero => h.exact_pos.ne' ?_
    rw [exact, hzero, Nat.cast_zero, zero_div]
  have hpos : 0 < (s.unit - 1) / s.value := Nat.div_pos (by omega) hvalue
  have hdigits : 0 < digitCount ((s.unit - 1) / s.value) := Nat.length_toDigits_pos
  have hfloor := Nat.mul_div_le (s.unit - 1) s.value
  have hceil := Nat.lt_mul_div_succ (s.unit - 1) hvalue
  have hlow := Nat.mul_le_mul_left s.value (pow_length_toDigits_le hpos)
  have hhigh := Nat.mul_le_mul_left s.value
    (Nat.succ_le_of_lt (lt_pow_length_toDigits ((s.unit - 1) / s.value)))
  have hlow' : s.value * 10 ^ (digitCount ((s.unit - 1) / s.value) - 1) < s.unit :=
    (hlow.trans hfloor).trans_lt (Nat.sub_lt h.unit_pos Nat.one_pos)
  have hhigh' : s.unit ≤ s.value * 10 ^ digitCount ((s.unit - 1) / s.value) :=
    (Nat.le_of_pred_lt hceil).trans hhigh
  generalize digitCount ((s.unit - 1) / s.value) = k at *
  have hk : (1 - k : Int) = -((k - 1 : Nat) : Int) := by omega
  rw [sub_sub_cancel_left, hk, zpow_neg, zpow_neg, zpow_natCast, zpow_natCast, exact,
    le_div_iff₀ hunit, div_lt_iff₀ hunit, inv_mul_le_iff₀ (by positivity),
    lt_inv_mul_iff₀ (by positivity), mul_comm, mul_comm _ (s.value : ℚ)]
  exact ⟨by exact_mod_cast hhigh', by exact_mod_cast hlow'⟩

/-- The value is between two neighbouring powers of ten. -/
theorem exact_mem_magnitude : 10 ^ (s.magnitude - 1) ≤ s.exact ∧ s.exact < 10 ^ s.magnitude := by
  rw [magnitude]
  split
  case isTrue hle => exact exact_mem_of_unit_le h hle
  case isFalse hlt => exact exact_mem_of_lt_unit h (not_le.1 hlt)

end Magnitude

/-- A value over a power of two is on the grids that are fine enough. -/
theorem exists_exact_eq (s : Span) {u w : Nat} (hunit : s.unit = 2 ^ u) (hle : u ≤ w) :
    ∃ n : Nat, s.exact = n * 10 ^ (-(w : Int)) := by
  refine ⟨s.value * 5 ^ u * 10 ^ (w - u), ?_⟩
  have hten : (10 : ℚ) ^ w = 2 ^ u * 5 ^ u * 10 ^ (w - u) := by
    rw [← mul_pow, ← Nat.add_sub_cancel' hle, pow_add]
    norm_num
  rw [zpow_neg, zpow_natCast, hten, exact, hunit]
  push_cast
  field_simp

section Shortest

variable {d d' : Decimal} (h : s.Proper) (hd : s.IsOnFirstGrid (s.magnitude - 1) d)
include h hd

/-- The decimal is not above the power of ten that is just above the value. -/
theorem IsOnFirstGrid.significand_le :
    d.significand ≤ 10 ^ (s.magnitude - d.exponent).toNat := by
  by_contra hgt
  have hle := hd.exponent_le
  have hpow : ((10 ^ (s.magnitude - d.exponent).toNat : Nat) : ℚ) * 10 ^ d.exponent =
      10 ^ s.magnitude := by
    rw [Nat.cast_pow, ← zpow_natCast, Int.toNat_of_nonneg (by omega), Nat.cast_ofNat,
      ← zpow_add₀ (by norm_num), sub_add_cancel]
  have hlt : (10 : ℚ) ^ s.magnitude < d.value := by
    rw [← hpow, Decimal.value]
    exact mul_lt_mul_of_pos_right (Nat.cast_lt.2 (not_le.1 hgt)) (by positivity)
  have hexact := (exact_mem_magnitude h).2
  have hcontains := hd.contains.of_ge_of_ge h hlt.le hexact.le
  rw [← hpow] at hcontains
  have hpreferred := hd.preferred _ hcontains
  rw [hpow, Decimal.preferred_iff_of_gt hlt] at hpreferred
  linarith

omit h in
theorem IsOnFirstGrid.exponent_eq {n : Nat} (hn : s.Contains (n * 10 ^ (s.magnitude - 1))) :
    d.exponent = s.magnitude - 1 := by
  refine le_antisymm hd.exponent_le (not_lt.1 fun hlt => ?_)
  exact hd.first _ hlt le_rfl n hn

/-- A decimal in the interval has a digit for each place from the first one of the value
down to the grid. If it has no more, then the one on the grid is preferred to it. -/
theorem IsOnFirstGrid.compare (hd' : s.Contains d'.value) :
    s.magnitude - d.exponent ≤ d'.digits.length ∧
      (s.magnitude - d.exponent = d'.digits.length →
        Preferred s.exact d.value d'.value) := by
  obtain ⟨hlow, hhigh⟩ := exact_mem_magnitude h
  have hlow' := Decimal.pow_le_value (significand_pos_of_contains h hd')
  have hhigh' := d'.value_lt
  have hdigits := d'.length_digits_pos
  have hpoint : d'.point = d'.digits.length + d'.exponent := rfl
  rcases lt_trichotomy d'.point s.magnitude with hlt | heq | hgt
  · -- The power of ten below the value is between the decimal and the value.
    have hpow : (10 : ℚ) ^ d'.point ≤ 10 ^ (s.magnitude - 1) :=
      zpow_le_zpow_right₀ (by norm_num) (by omega)
    have hbetween := hhigh'.le.trans hpow
    have hone : s.Contains ((1 : Nat) * 10 ^ (s.magnitude - 1)) := by
      rw [Nat.cast_one, one_mul]
      exact hd'.of_le_of_le h hbetween hlow
    have hgrid := hd.exponent_eq hone
    rw [← hgrid] at hone hbetween hlow
    refine ⟨by omega, fun _ => (hd.preferred 1 hone).trans ?_⟩
    rw [Nat.cast_one, one_mul]
    exact .of_le_of_le hbetween hlow
  · have hgrid : d'.exponent ≤ d.exponent := by
      by_contra hlt
      exact hd.first d'.exponent (by omega) (by omega) d'.significand hd'
    refine ⟨by omega, fun hlength => ?_⟩
    have hsame : d.exponent = d'.exponent := by omega
    have hpreferred := hd.preferred d'.significand
    rw [hsame] at hpreferred
    exact hpreferred hd'
  · -- The power of ten above the value is between the value and the decimal.
    have hpow : (10 : ℚ) ^ s.magnitude ≤ 10 ^ (d'.point - 1) :=
      zpow_le_zpow_right₀ (by norm_num) (by omega)
    have hten : s.Contains ((10 : Nat) * 10 ^ (s.magnitude - 1)) := by
      rw [Nat.cast_ofNat, ← zpow_one_add₀ (by norm_num), add_sub_cancel]
      exact hd'.of_ge_of_ge h (hpow.trans hlow') hhigh.le
    have hgrid := hd.exponent_eq hten
    refine ⟨by omega, fun hlength => ?_⟩
    obtain ⟨n, hn⟩ : ∃ n : Nat, d'.value = n * 10 ^ d.exponent :=
      Decimal.exists_value_eq (by omega)
    rw [hn] at hd' ⊢
    exact hd.preferred n hd'

/-- On the first grid with a point in the interval, trailing zeros apart, the preferred
point is the shortest decimal. -/
theorem IsOnFirstGrid.isShortest : IsShortest s.Contains s.exact d.normalize := by
  have hpos := significand_pos_of_contains h hd.contains
  have hle := hd.exponent_le
  have hlength := Decimal.length_digits_normalize_le (by omega) hpos (hd.significand_le h)
  have hplaces : ((s.magnitude - d.exponent).toNat : Int) = s.magnitude - d.exponent :=
    Int.toNat_of_nonneg (by omega)
  refine ⟨?_, Decimal.significand_normalize_mod_ten d hpos.ne', fun d' hd' => ?_,
    fun d' hd' hsame => ?_⟩
  · rw [Decimal.value_normalize]
    exact hd.contains
  · have hfewer := (hd.compare h hd').1
    omega
  · obtain ⟨hfewer, hpreferred⟩ := hd.compare h hd'
    rw [Decimal.value_normalize]
    exact hpreferred (by omega)

end Shortest

/-- **The search finds the shortest decimal** of an interval whose denominator is a power
of two. -/
theorem isShortest_shortest (h : s.Proper) {u : Nat} (hunit : s.unit = 2 ^ u) :
    IsShortest s.Contains s.exact s.shortest := by
  have hend : ∃ n : Nat, s.exact = n * 10 ^ (s.magnitude - 1 -
      (((s.magnitude - 1).toNat + s.unit.log2 + 1 : Nat) : Int)) := by
    have hlog : s.unit.log2 = u := by rw [hunit, Nat.log2_two_pow]
    obtain ⟨w, hw⟩ : ∃ w : Nat, s.magnitude - 1 -
        (((s.magnitude - 1).toNat + u + 1 : Nat) : Int) = -(w : Int) ∧ u ≤ w :=
      ⟨((s.magnitude - 1).toNat + u + 1 - (s.magnitude - 1)).toNat, by omega, by omega⟩
    rw [hlog, hw.1]
    exact s.exists_exact_eq hunit hw.2
  exact (isOnFirstGrid_searchFrom h _ _ hend).isShortest h

end Span

/-! ## The decimal of a double -/

namespace Double

variable {c : Nat} {e : Int}

/-- The interval counts in quarters of the last place. -/
theorem div_ofDouble (e : Int) (n : Nat) :
    ((n * Nat.pow 2 (e - 2).toNat : Nat) : ℚ) / (Nat.pow 2 (2 - e).toNat : Nat) =
      n / 4 * 2 ^ e := by
  have hpow : (2 : ℚ) ^ e / 4 = 2 ^ (e - 2).toNat / 2 ^ (2 - e).toNat := by
    have hsub := Span.zpow_eq_div (two_ne_zero (α := ℚ)) (e - 2)
    rw [zpow_sub₀ two_ne_zero, neg_sub] at hsub
    rw [← hsub]
    norm_num
  rw [Nat.pow_eq, Nat.pow_eq, div_mul_eq_mul_div, mul_div_assoc, hpow]
  push_cast
  rw [mul_div_assoc]

theorem exact_ofDouble (c : Nat) (e : Int) : (Span.ofDouble c e).exact = magnitude c e := by
  refine (div_ofDouble e (4 * c)).trans ?_
  rw [Nat.cast_mul, Nat.cast_ofNat, mul_div_cancel_left₀ _ four_ne_zero, magnitude]

theorem lowEnd_ofDouble (hc : 0 < c) (e : Int) : (Span.ofDouble c e).lowEnd = lowEnd c e := by
  refine (div_ofDouble e _).trans ?_
  rw [lowEnd, gap, Span.fullCoefficient, Span.leastExponent, Nat.pow_eq]
  split
  · rw [Nat.cast_sub (by omega)]
    push_cast
    ring
  · rw [Nat.cast_sub (by omega)]
    push_cast
    ring

theorem highEnd_ofDouble (c : Nat) (e : Int) : (Span.ofDouble c e).highEnd = highEnd c e := by
  refine (div_ofDouble e (4 * c + 2)).trans ?_
  rw [highEnd]
  push_cast
  ring

theorem contains_ofDouble_iff (h : Canonical c e) (hc : 0 < c) (q : ℚ) :
    (Span.ofDouble c e).Contains q ↔ RoundsTo q c e := by
  have hclosed : (Span.ofDouble c e).closed = true ↔ c % 2 = 0 := beq_iff_eq
  rw [roundsTo_iff h hc, Span.Contains, lowEnd_ofDouble hc, highEnd_ofDouble, if_congr hclosed rfl rfl]

theorem proper_ofDouble (hc : 0 < c) (e : Int) : (Span.ofDouble c e).Proper := by
  refine ⟨?_, ?_, ?_⟩
  · rw [lowEnd_ofDouble hc]
    exact lowEnd_pos hc e
  · rw [lowEnd_ofDouble hc, exact_ofDouble]
    exact lowEnd_lt c e
  · rw [highEnd_ofDouble, exact_ofDouble]
    exact lt_highEnd c e

/-- **A double prints as the shortest decimal that rounds to it.** -/
theorem isShortest_decimal (h : Canonical c e) (hc : 0 < c) :
    Decimal.IsShortest (RoundsTo · c e) (magnitude c e) (Value.decimal c e) := by
  have hshortest := Span.isShortest_shortest (proper_ofDouble hc e) (u := (2 - e).toNat) rfl
  rw [exact_ofDouble] at hshortest
  have hcontains : (Span.ofDouble c e).Contains = (RoundsTo · c e) :=
    funext fun q => propext (contains_ofDouble_iff h hc q)
  rw [hcontains] at hshortest
  exact hshortest

end Double

end JsonScript
