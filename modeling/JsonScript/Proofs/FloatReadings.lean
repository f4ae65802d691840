import JsonScript.Proofs.Rounding

/-!
# Floats by their exact values

A float is a word of 64 bits. Its absolute value is computed by taking the word apart and
putting the parts together again, and floats are compared by their parts. Here both are
told in terms of coefficient and exponent: the parts of a number that is finite and not
zero are canonical (`canonical_of_ofFloat`), they survive the way through the word, and
comparing them is comparing magnitudes.

## Main results

* `unpack_eq_finite_iff` — which words are finite numbers other than zero, and which
  numbers they are.
* `ofFloat_abs` — the absolute value of a number only loses the sign.
* `lt_iff_magnitude_lt`, `le_iff_magnitude_le` — the order of positive numbers is that of
  their magnitudes.
-/

namespace JsonScript

namespace Double

open Float.Model (UnpackedFloat Format)
open Float.Model.UnpackedFloat (Sign unpack pack packComponents unpackSign unpackExponent
  unpackMantissa)

variable {s : Sign} {c c' : Nat} {e e' : Int}

/-! ## Words -/

/-- The leading bit of a coefficient that has all its bits is not stored. -/
theorem toNat_one_append (v : BitVec 52) : (1#1 ++ v).toNat = 2 ^ 52 + v.toNat := by
  rw [BitVec.toNat_append, ← Nat.shiftLeft_add_eq_or_of_lt v.isLt, Nat.shiftLeft_eq]
  rfl

/-- A word is a finite number other than zero if the exponent that it stores is not the
largest. The least exponent is stored as `0` where the coefficient lacks its leading bit. -/
theorem unpack_eq_finite_iff {b : BitVec Format.binary64.numBits} {hpos : 0 < c} :
    unpack Format.binary64 b = .finite s c e hpos ↔
      Sign.ofBitVec (unpackSign b) = s ∧ (unpackExponent b).toNat < 2047 ∧
        ((unpackExponent b).toNat = 0 ∧ (unpackMantissa b).toNat = c ∧ e = -1074 ∨
          0 < (unpackExponent b).toNat ∧ 2 ^ 52 + (unpackMantissa b).toNat = c ∧
            e = (unpackExponent b).toNat - 1075) := by
  have hbias : (Format.binary64.exponentBias : Int) +
      (Format.binary64.mantissaBitsWithoutImplicit : Nat) = 1075 := rfl
  have hlast (v : BitVec 11) : v = -1#11 ↔ v.toNat = 2047 := BitVec.toNat_inj.symm
  have hzero {w : Nat} (v : BitVec w) : v = 0#w ↔ v.toNat = 0 := by
    rw [← BitVec.toNat_inj]
    rfl
  have hlt : (unpackExponent b).toNat < 2048 := (unpackExponent b).isLt
  unfold unpack
  dsimp only
  by_cases hinfinite : unpackExponent b = -1#11
  · have hexponent := (hlast _).1 hinfinite
    rw [if_pos hinfinite]
    by_cases hmantissa : unpackMantissa b = 0#52
    · rw [if_pos hmantissa]
      exact iff_of_false UnpackedFloat.noConfusion (by omega)
    · rw [if_neg hmantissa]
      exact iff_of_false UnpackedFloat.noConfusion (by omega)
  · have hexponent := mt (hlast _).2 hinfinite
    rw [if_neg hinfinite]
    by_cases hsmall : unpackExponent b = 0#11
    · have hnull := (hzero _).1 hsmall
      rw [if_pos hsmall]
      by_cases hmantissa : unpackMantissa b = 0#52
      · have hnone := (hzero _).1 hmantissa
        rw [dif_pos hmantissa]
        exact iff_of_false UnpackedFloat.noConfusion (by omega)
      · rw [dif_neg hmantissa, UnpackedFloat.finite.injEq, hbias]
        exact and_congr_right fun _ => by omega
    · have hpositive := mt (hzero _).2 hsmall
      rw [if_neg hsmall, UnpackedFloat.finite.injEq, hbias, toNat_one_append]
      exact and_congr_right fun _ => by omega

theorem unpackSign_packComponents {spec : Format} (v : BitVec spec.exponentBits)
    (w : BitVec spec.mantissaBitsWithoutImplicit) :
    unpackSign (packComponents spec s v w) = s.toBitVec := by
  ext i hi
  obtain rfl : i = 0 := by omega
  unfold unpackSign packComponents
  simp [BitVec.getLsbD_append, BitVec.getElem_append]

/-- What is stored of a canonical coefficient and exponent. -/
theorem pack_finite (hpos : 0 < c) (h : Canonical c e) (he : e ≤ 971) :
    pack Format.binary64 (.finite s c e hpos) =
      packComponents Format.binary64 s
        (BitVec.ofNat 11 (if 2 ^ 52 ≤ c then (e + 1075).toNat else 0)) (BitVec.ofNat 52 c) := by
  have hlt := h.lt
  have hleast := h.least
  have hstored : (e + (Format.binary64.exponentBias : Nat) +
      (Format.binary64.mantissaBitsWithoutImplicit : Nat)).toNat = (e + 1075).toNat := by
    rw [add_assoc]
    rfl
  have hfits : ¬ 2 ^ Format.binary64.exponentBits ≤ (e + 1075).toNat + 1 := by
    have hwidth : 2 ^ Format.binary64.exponentBits = 2048 := rfl
    omega
  have hlog : c.log2 + 1 = Format.binary64.mantissaBits ↔ 2 ^ 52 ≤ c := by
    have hbits : Format.binary64.mantissaBits = 52 + 1 := rfl
    rw [hbits, Nat.add_left_inj, Nat.log2_eq_iff hpos.ne']
    omega
  unfold pack
  dsimp only
  rw [hstored, if_neg hfits]
  by_cases hnormal : 2 ^ 52 ≤ c
  · rw [if_pos (hlog.2 hnormal), if_pos hnormal]
  · rw [if_neg (mt hlog.1 hnormal), if_neg hnormal]

theorem canonical_of_unpack {b : BitVec Format.binary64.numBits} {hpos : 0 < c}
    (h : unpack Format.binary64 b = .finite s c e hpos) : Canonical c e ∧ e ≤ 971 := by
  have hlt : (unpackMantissa b).toNat < 2 ^ 52 := (unpackMantissa b).isLt
  rw [unpack_eq_finite_iff] at h
  obtain ⟨-, hexponent, ⟨-, hmantissa, he⟩ | ⟨hpositive, hmantissa, he⟩⟩ := h
  · exact ⟨⟨by omega, by omega, .inr he⟩, by omega⟩
  · exact ⟨⟨by omega, by omega, .inl (by omega)⟩, by omega⟩

/-- A canonical number that does not overflow survives the way through a word. -/
theorem unpack_pack (hpos : 0 < c) (h : Canonical c e) (he : e ≤ 971) :
    unpack Format.binary64 (pack Format.binary64 (.finite s c e hpos)) = .finite s c e hpos := by
  have hlt := h.lt
  have hleast := h.least
  have hfull := h.full
  have hsign : Sign.ofBitVec s.toBitVec = s := by cases s <;> rfl
  rw [pack_finite hpos h he, unpack_eq_finite_iff, unpackSign_packComponents,
    UnpackedFloat.unpackExponent_packComponents, UnpackedFloat.unpackMantissa_packComponents,
    BitVec.toNat_ofNat, BitVec.toNat_ofNat]
  have hwidth : 2 ^ Format.binary64.exponentBits = 2048 := rfl
  have hwidth' : 2 ^ Format.binary64.mantissaBitsWithoutImplicit = 2 ^ 52 := rfl
  rw [hwidth, hwidth']
  refine ⟨hsign, ?_⟩
  split <;> omega

/-! ## Floats -/

section Float

variable {x y : Float} {negative : Bool}

theorem exists_unpack_of_ofFloat (h : ofFloat x = .finite negative c e) (hc : 0 < c) :
    ∃ s, isNegative s = negative ∧ x.toModel.unpack = .finite s c e hc := by
  rw [ofFloat_eq_unpack] at h
  cases hunpack : x.toModel.unpack with
  | notANumber =>
      rw [hunpack] at h
      cases h
  | infinity s =>
      rw [hunpack] at h
      cases h
  | zero s =>
      rw [hunpack] at h
      cases h
      exact absurd hc (lt_irrefl 0)
  | finite s c' e' hpos =>
      rw [hunpack] at h
      cases h
      exact ⟨s, rfl, rfl⟩

/-- A float that is finite and not zero has a canonical coefficient and exponent. -/
theorem canonical_of_ofFloat (h : ofFloat x = .finite negative c e) (hc : 0 < c) :
    Canonical c e := by
  obtain ⟨s, -, hunpack⟩ := exists_unpack_of_ofFloat h hc
  exact (canonical_of_unpack hunpack).1

/-- The absolute value of a number only loses the sign. -/
theorem ofFloat_abs (h : ofFloat x = .finite negative c e) (hc : 0 < c) :
    ofFloat x.abs = .finite false c e := by
  obtain ⟨s, -, hunpack⟩ := exists_unpack_of_ofFloat h hc
  obtain ⟨hcanonical, he⟩ := canonical_of_unpack hunpack
  have habs : x.abs.toModel.unpack =
      unpack Format.binary64 (pack Format.binary64 x.toModel.unpack.abs) := rfl
  have hpositive : x.toModel.unpack.abs = .finite .positive c e hc := by
    rw [hunpack]
    rfl
  rw [ofFloat_eq_unpack, habs, hpositive, unpack_pack hc hcanonical he]
  rfl

section Order

variable (hx : ofFloat x = .finite false c e) (hc : 0 < c) (hy : ofFloat y = .finite false c' e')
  (hc' : 0 < c')
include hx hc hy hc'

theorem compare_unpack : x.toModel.unpack.compare y.toModel.unpack =
    some ((compare e e').then (compare c c')) := by
  obtain ⟨s, hs, hunpack⟩ := exists_unpack_of_ofFloat hx hc
  obtain ⟨s', hs', hunpack'⟩ := exists_unpack_of_ofFloat hy hc'
  cases s with
  | negative => cases hs
  | positive =>
      cases s' with
      | negative => cases hs'
      | positive =>
          rw [hunpack, hunpack']
          rfl

theorem lt_iff_magnitude_lt : x < y ↔ magnitude c e < magnitude c' e' := by
  have hmodel : x < y ↔ x.toModel.unpack.lt y.toModel.unpack = true := decide_eq_true_iff
  rw [hmodel, UnpackedFloat.lt, compare_unpack hx hc hy hc', beq_iff_eq, Option.some.injEq,
    Ordering.then_eq_lt, compare_lt_iff_lt, compare_eq_iff_eq, compare_lt_iff_lt,
    magnitude_lt_iff (canonical_of_ofFloat hx hc) (canonical_of_ofFloat hy hc')]

theorem le_iff_magnitude_le : x ≤ y ↔ magnitude c e ≤ magnitude c' e' := by
  have hmodel : x ≤ y ↔ x.toModel.unpack.le y.toModel.unpack = true := decide_eq_true_iff
  rw [hmodel, UnpackedFloat.le, compare_unpack hx hc hy hc', Option.any_some, ← not_lt,
    magnitude_lt_iff (canonical_of_ofFloat hy hc') (canonical_of_ofFloat hx hc),
    Ordering.isLE_iff_ne_gt, Ordering.then_eq_gt, compare_gt_iff_gt, compare_eq_iff_eq,
    compare_gt_iff_gt, @eq_comm _ e']

end Order

end Float

end Double

end JsonScript
