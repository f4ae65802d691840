import JsonScript.Proofs.NumberTexts
import JsonScript.Proofs.QuotedTexts

/-!
# Listed values can be told apart

A listing of variables shows every value by a text, and the text says which value it is.
The first character gives away the type: a quote, the letter of a word, or what a number
starts with. Quoted texts can be told apart. What remains are numbers.

A number prints as a decimal in one of two notations, behind a sign if there is one. The
decimal can be read off either of them (`Decimal.reading`), and it rounds to one double
only, so numbers with one text are the same number. The numbers that print in other ways
are zero and the three that are not finite, and no decimal has the text of one of these.

## Main results

* `Decimal.reading_positional`, `Decimal.reading_scientific` — the text of a decimal says
  which decimal it is.
* `NumberReading.ofText_text` — the text of a number says which number it is.
* `Value.numberText_eq_iff` — numbers that print alike are the same.
* `inspect_eq_iff` — values are listed alike exactly if they are equal.
-/

namespace JsonScript

/-! ## Reading a decimal -/

namespace Decimal

/-- What stands before the first occurrence of a character, and what stands behind it. -/
def cut (c : Char) (cs : List Char) : List Char × List Char :=
  (cs.takeWhile (· ≠ c), (cs.dropWhile (· ≠ c)).drop 1)

/-- The whole number that digits behind a sign stand for. -/
def signed : List Char → Int
  | '-' :: cs => -(Nat.ofDigitChars 10 cs 0)
  | '+' :: cs => Nat.ofDigitChars 10 cs 0
  | cs => Nat.ofDigitChars 10 cs 0

/-- The number that a text stands for: digits, possibly with a point, and possibly with `e`
and a power of ten. -/
def reading (cs : List Char) : ℚ :=
  let (mantissa, power) := cut 'e' cs
  let (whole, fraction) := cut '.' mantissa
  Nat.ofDigitChars 10 (whole ++ fraction) 0 * 10 ^ (signed power - fraction.length)

section Reading

variable {c : Char} {cs rest whole fraction mantissa : List Char}

theorem cut_append_cons (h : c ∉ cs) : cut c (cs ++ c :: rest) = (cs, rest) := by
  have hne : ∀ a ∈ cs, decide (a ≠ c) = true :=
    fun a ha => decide_eq_true fun hac => h (hac ▸ ha)
  rw [cut, List.takeWhile_append_of_pos hne, List.dropWhile_append_of_pos hne]
  simp

theorem cut_of_not_mem (h : c ∉ cs) : cut c cs = (cs, []) := by
  have hne : ∀ a ∈ cs, decide (a ≠ c) = true :=
    fun a ha => decide_eq_true fun hac => h (hac ▸ ha)
  rw [cut, ← List.append_nil cs, List.takeWhile_append_of_pos hne,
    List.dropWhile_append_of_pos hne]
  simp

/-- No digit is a point or an `e`. -/
theorem not_mem_of_isDigit (h : ∀ a ∈ cs, a.isDigit = true) (hc : c.isDigit = false) : c ∉ cs :=
  fun hmem => Bool.false_ne_true (hc.symm.trans (h c hmem))

theorem signed_nil : signed [] = 0 := rfl

/-- A power of ten behind an `e` multiplies what stands before it. -/
theorem reading_append_power (h : 'e' ∉ mantissa) (power : List Char) :
    reading (mantissa ++ 'e' :: power) = reading mantissa * 10 ^ signed power := by
  rw [reading, reading, cut_append_cons h, cut_of_not_mem h]
  simp only [signed_nil]
  rw [mul_assoc, ← zpow_add₀ (by norm_num)]
  congr 2
  omega

theorem reading_digits (h : ∀ a ∈ cs, a.isDigit = true) :
    reading cs = Nat.ofDigitChars 10 cs 0 := by
  have he : 'e' ∉ cs := not_mem_of_isDigit h rfl
  have hpoint : '.' ∉ cs := not_mem_of_isDigit h rfl
  rw [reading, cut_of_not_mem he]
  simp only [cut_of_not_mem hpoint, signed_nil]
  simp

/-- An `e` stands neither before the point nor behind it. -/
theorem not_mem_point (hwhole : ∀ a ∈ whole, a.isDigit = true)
    (hfraction : ∀ a ∈ fraction, a.isDigit = true) : 'e' ∉ whole ++ '.' :: fraction := by
  have hbefore : 'e' ∉ whole := not_mem_of_isDigit hwhole rfl
  have hbehind : 'e' ∉ fraction := not_mem_of_isDigit hfraction rfl
  simp [hbefore, hbehind]

theorem reading_point (hwhole : ∀ a ∈ whole, a.isDigit = true)
    (hfraction : ∀ a ∈ fraction, a.isDigit = true) :
    reading (whole ++ '.' :: fraction) =
      Nat.ofDigitChars 10 (whole ++ fraction) 0 * 10 ^ (-(fraction.length : Int)) := by
  have hpoint : '.' ∉ whole := not_mem_of_isDigit hwhole rfl
  rw [reading, cut_of_not_mem (not_mem_point hwhole hfraction)]
  simp only [cut_append_cons hpoint, signed_nil, zero_sub]

end Reading

variable (d : Decimal)

theorem isDigit_of_mem_digits : ∀ c ∈ d.digits, c.isDigit = true :=
  fun _ => Nat.isDigit_of_mem_toDigits (by decide) (by decide)

theorem isDigit_of_mem_zeros (n : Nat) : ∀ c ∈ zeros n, c.isDigit = true :=
  fun _ h => List.eq_of_mem_replicate h ▸ rfl

theorem ofDigitChars_digits : Nat.ofDigitChars 10 d.digits 0 = d.significand :=
  Nat.ofDigitChars_ten_toDigits

/-- The decimal can be read off if every place is written out. -/
theorem reading_positional : reading d.positional = d.value := by
  have hdigits := d.isDigit_of_mem_digits
  have hpoint := d.point_eq
  rw [positional]
  split
  case isTrue hwhole =>
    obtain ⟨n, hn⟩ := Int.eq_ofNat_of_zero_le hwhole
    have hall : ∀ c ∈ d.digits ++ zeros n, c.isDigit = true := fun c hc =>
      (List.mem_append.1 hc).elim (hdigits c) (isDigit_of_mem_zeros n c)
    rw [value, hn, Int.toNat_natCast, reading_digits hall, Nat.ofDigitChars_append,
      ofDigitChars_digits, zeros, Nat.ofDigitChars_replicate_zero, zpow_natCast, mul_comm]
    push_cast
    rfl
  case isFalse hwhole =>
    split
    case isTrue hinside =>
      have hbefore : ∀ c ∈ d.digits.take d.point.toNat, c.isDigit = true :=
        fun c hc => hdigits c (List.mem_of_mem_take hc)
      have hbehind : ∀ c ∈ d.digits.drop d.point.toNat, c.isDigit = true :=
        fun c hc => hdigits c (List.mem_of_mem_drop hc)
      have hexponent : -((d.digits.drop d.point.toNat).length : Int) = d.exponent := by
        rw [List.length_drop]
        omega
      rw [reading_point hbefore hbehind, List.take_append_drop, ofDigitChars_digits, hexponent,
        value]
    case isFalse houtside =>
      have hbehind : ∀ c ∈ zeros (-d.point).toNat ++ d.digits, c.isDigit = true := fun c hc =>
        (List.mem_append.1 hc).elim (isDigit_of_mem_zeros _ c) (hdigits c)
      have hexponent : -((zeros (-d.point).toNat ++ d.digits).length : Int) = d.exponent := by
        rw [List.length_append, zeros, List.length_replicate]
        omega
      have hsignificand :
          Nat.ofDigitChars 10 (zeros 1 ++ (zeros (-d.point).toNat ++ d.digits)) 0 =
            d.significand := by
        rw [Nat.ofDigitChars_append, Nat.ofDigitChars_append, zeros, zeros,
          Nat.ofDigitChars_replicate_zero, Nat.ofDigitChars_replicate_zero]
        exact d.ofDigitChars_digits
      have htext : '0' :: '.' :: zeros (-d.point).toNat ++ d.digits =
          zeros 1 ++ '.' :: (zeros (-d.point).toNat ++ d.digits) := rfl
      rw [htext, reading_point (isDigit_of_mem_zeros 1) hbehind, hsignificand, hexponent, value]

/-- What stands before the `e` in scientific notation. -/
def mantissa : List Char :=
  match d.digits with
  | [] => []
  | [c] => [c]
  | c :: rest => c :: '.' :: rest

theorem scientific_eq : d.scientific = d.mantissa ++ 'e' ::
    (if d.point - 1 < 0 then '-' else '+') :: Nat.toDigits 10 (d.point - 1).natAbs := rfl

/-- The digits behind the first one follow a point, if there are any. -/
theorem reading_mantissa : 'e' ∉ d.mantissa ∧
    reading d.mantissa = d.significand * 10 ^ (1 - (d.digits.length : Int)) := by
  have hdigits := d.isDigit_of_mem_digits
  have hsignificand := d.ofDigitChars_digits
  have hpos := d.length_digits_pos
  rw [mantissa]
  match hsplit : d.digits with
  | [] => simp [hsplit] at hpos
  | [c] =>
      rw [hsplit] at hdigits hsignificand
      refine ⟨not_mem_of_isDigit hdigits rfl, ?_⟩
      rw [reading_digits hdigits, hsignificand]
      simp
  | c :: c' :: rest =>
      rw [hsplit] at hdigits hsignificand
      have hfirst : ∀ a ∈ [c], a.isDigit = true := fun a ha =>
        hdigits a (List.mem_singleton.1 ha ▸ List.mem_cons_self)
      have hrest : ∀ a ∈ c' :: rest, a.isDigit = true := fun a ha =>
        hdigits a (List.mem_cons_of_mem c ha)
      have htext : c :: '.' :: c' :: rest = [c] ++ '.' :: (c' :: rest) := rfl
      have hexponent : -((c' :: rest).length : Int) = 1 - ((c :: c' :: rest).length : Int) := by
        simp only [List.length_cons]
        omega
      simp only [htext]
      refine ⟨not_mem_point hfirst hrest, ?_⟩
      rw [reading_point hfirst hrest, List.singleton_append, hsignificand, hexponent]

theorem signed_power (n : Int) :
    signed ((if n < 0 then '-' else '+') :: Nat.toDigits 10 n.natAbs) = n := by
  split
  · rw [signed, Nat.ofDigitChars_ten_toDigits]
    omega
  · rw [signed, Nat.ofDigitChars_ten_toDigits]
    omega

/-- The decimal can be read off scientific notation. -/
theorem reading_scientific : reading d.scientific = d.value := by
  obtain ⟨he, hmantissa⟩ := d.reading_mantissa
  have hexponent : 1 - (d.digits.length : Int) + (d.point - 1) = d.exponent := by
    rw [d.point_eq]
    omega
  rw [scientific_eq, reading_append_power he, signed_power, hmantissa, mul_assoc,
    ← zpow_add₀ (by norm_num), hexponent, value]

/-! The texts of decimals start with a digit. -/

/-- The first character of a text is a digit. -/
def StartsWithDigit : List Char → Prop
  | [] => False
  | c :: _ => c.isDigit = true

theorem StartsWithDigit.append {cs : List Char} (h : StartsWithDigit cs) (rest : List Char) :
    StartsWithDigit (cs ++ rest) := by
  cases cs with
  | nil => exact h.elim
  | cons => exact h

theorem startsWithDigit_take_digits {n : Nat} (h : 0 < n) : StartsWithDigit (d.digits.take n) := by
  have hdigits := d.isDigit_of_mem_digits
  have hpos := d.length_digits_pos
  obtain ⟨n, rfl⟩ := Nat.exists_eq_succ_of_ne_zero h.ne'
  match hsplit : d.digits with
  | [] => simp [hsplit] at hpos
  | c :: rest => exact hdigits c (hsplit ▸ List.mem_cons_self)

theorem startsWithDigit_digits : StartsWithDigit d.digits := by
  have htake := d.startsWithDigit_take_digits d.length_digits_pos
  rwa [List.take_length] at htake

theorem startsWithDigit_positional : StartsWithDigit d.positional := by
  rw [positional]
  split
  · exact d.startsWithDigit_digits.append _
  · split
    case isTrue hinside => exact (d.startsWithDigit_take_digits (by omega)).append _
    case isFalse => rfl

theorem startsWithDigit_scientific : StartsWithDigit d.scientific := by
  have hdigits := d.startsWithDigit_digits
  rw [scientific_eq, mantissa]
  match hsplit : d.digits with
  | [] => exact absurd hsplit (List.ne_nil_of_length_pos d.length_digits_pos)
  | [c] | c :: c' :: rest =>
      rw [hsplit] at hdigits
      exact hdigits

end Decimal

/-! ## Equal numbers -/

namespace Double

open Float.Model (UnpackedFloat)

/-- The same number, but a zero without its sign. -/
def unsignedZero : Double → Double
  | .finite _ 0 _ => .finite false 0 0
  | d => d

theorem unsignedZero_finite {negative : Bool} {c : Nat} {e : Int} (h : 0 < c) :
    unsignedZero (.finite negative c e) = .finite negative c e := by
  obtain ⟨c, rfl⟩ := Nat.exists_eq_succ_of_ne_zero h.ne'
  rfl

theorem nan_eq_unsignedZero_iff (d : Double) : nan.unsignedZero = d.unsignedZero ↔ d = .nan := by
  have hnan : nan.unsignedZero = nan := rfl
  rw [hnan]
  unfold unsignedZero
  split
  · exact iff_of_false Double.noConfusion Double.noConfusion
  · exact eq_comm

theorem beq_infinity_iff (s s' : UnpackedFloat.Sign) :
    UnpackedFloat.beq (.infinity s) (.infinity s') = true ↔ isNegative s = isNegative s' := by
  cases s <;> cases s' <;> decide

theorem beq_finite_iff {s s' : UnpackedFloat.Sign} {c c' : Nat} {e e' : Int} (h : 0 < c)
    (h' : 0 < c') : UnpackedFloat.beq (.finite s c e h) (.finite s' c' e' h') = true ↔
      isNegative s = isNegative s' ∧ c = c' ∧ e = e' := by
  have habove : UnpackedFloat.beq (.finite .positive c e h) (.finite .positive c' e' h') =
      (some ((compare e e').then (compare c c')) == some .eq) := rfl
  have hbelow : UnpackedFloat.beq (.finite .negative c e h) (.finite .negative c' e' h') =
      (some ((compare e e').then (compare c c')).swap == some .eq) := rfl
  cases s with
  | positive =>
      cases s' with
      | positive =>
          rw [habove]
          simp [Ordering.then_eq_eq, and_comm]
      | negative => exact iff_of_false Bool.false_ne_true fun hsame => nomatch hsame.1
  | negative =>
      cases s' with
      | positive => exact iff_of_false Bool.false_ne_true fun hsame => nomatch hsame.1
      | negative =>
          rw [hbelow]
          simp [Ordering.then_eq_eq, and_comm]

theorem unsignedZero_ofUnpacked (a : UnpackedFloat) : (ofUnpacked a).unsignedZero =
    match a with
    | .zero _ => .finite false 0 0
    | a => ofUnpacked a := by
  cases a with
  | finite s c e h => exact unsignedZero_finite h
  | _ => rfl

theorem beq_unpacked_iff (a b : UnpackedFloat) : a.beq b = true ↔
    ofUnpacked a ≠ .nan ∧ (ofUnpacked a).unsignedZero = (ofUnpacked b).unsignedZero := by
  rw [unsignedZero_ofUnpacked, unsignedZero_ofUnpacked]
  cases a with
  | notANumber => exact iff_of_false Bool.false_ne_true fun h => h.1 rfl
  | infinity s =>
      have hnumber : ofUnpacked (.infinity s) ≠ .nan := Double.noConfusion
      rw [and_iff_right hnumber]
      cases b with
      | infinity s' => exact (beq_infinity_iff s s').trans (Double.infinite.injEq _ _ ▸ Iff.rfl)
      | _ => cases s <;> exact iff_of_false Bool.false_ne_true Double.noConfusion
  | zero s =>
      have hnumber : ofUnpacked (.zero s) ≠ .nan := Double.noConfusion
      rw [and_iff_right hnumber]
      cases b with
      | notANumber => exact iff_of_false Bool.false_ne_true Double.noConfusion
      | infinity s' => cases s' <;> exact iff_of_false Bool.false_ne_true Double.noConfusion
      | zero s' => exact iff_of_true rfl rfl
      | finite s' c' e' h' =>
          have hne : finite false 0 0 ≠ finite (isNegative s') c' e' :=
            fun h => h'.ne (Double.finite.inj h).2.1
          cases s' <;> exact iff_of_false Bool.false_ne_true hne
  | finite s c e h =>
      have hnumber : ofUnpacked (.finite s c e h) ≠ .nan := Double.noConfusion
      rw [and_iff_right hnumber]
      cases b with
      | notANumber => cases s <;> exact iff_of_false Bool.false_ne_true Double.noConfusion
      | infinity s' =>
          cases s <;> cases s' <;> exact iff_of_false Bool.false_ne_true Double.noConfusion
      | zero s' =>
          have hne : finite (isNegative s) c e ≠ finite false 0 0 :=
            fun hsame => h.ne' (Double.finite.inj hsame).2.1
          cases s <;> exact iff_of_false Bool.false_ne_true hne
      | finite s' c' e' h' =>
          exact (beq_finite_iff h h').trans (Double.finite.injEq _ _ _ _ _ _ ▸ Iff.rfl)

/-- Floats are equal if they are the same number. What is no number differs from itself. -/
theorem beq_iff (x y : Float) : (x == y) = true ↔
    ofFloat x ≠ .nan ∧ (ofFloat x).unsignedZero = (ofFloat y).unsignedZero :=
  beq_unpacked_iff x.toModel.unpack y.toModel.unpack

theorem isNaN_iff (x : Float) : x.isNaN = true ↔ ofFloat x = .nan := by
  have hmodel : x.isNaN = x.toModel.unpack.isNaN := rfl
  rw [hmodel, ofFloat_eq_unpack]
  cases x.toModel.unpack with
  | notANumber => exact iff_of_true rfl rfl
  | _ => exact iff_of_false Bool.false_ne_true Double.noConfusion

section Shortest

variable {x y : Float} {negative negative' : Bool} {c c' : Nat} {e e' : Int}
  (hx : ofFloat x = .finite negative c e) (hc : 0 < c)
include hx hc

theorem value_decimal_pos : 0 < (Value.decimal c e).value := by
  have hd := isShortest_decimal (canonical_of_ofFloat hx hc) hc
  have hpos : (0 : ℚ) < (Value.decimal c e).significand := Nat.cast_pos.2 hd.significand_pos
  exact mul_pos hpos (by positivity)

/-- A decimal rounds to one double only. -/
theorem eq_of_value_decimal_eq (hy : ofFloat y = .finite negative' c' e') (hc' : 0 < c')
    (h : (Value.decimal c e).value = (Value.decimal c' e').value) : (c, e) = (c', e') := by
  have hcanonical := canonical_of_ofFloat hx hc
  have hcanonical' := canonical_of_ofFloat hy hc'
  have hrounds := (isShortest_decimal hcanonical hc).reads_value
  have hrounds' := (isShortest_decimal hcanonical' hc').reads_value
  -- Rounding keeps the order, so neither of the doubles is above the other.
  have hle := RoundsTo.mono hcanonical hcanonical' hrounds hrounds' h.le
  have hge := RoundsTo.mono hcanonical' hcanonical hrounds' hrounds h.ge
  exact eq_of_magnitude_eq hcanonical hcanonical' (le_antisymm hle hge)

end Shortest

/-- The text of a number, where the notation is chosen by the number itself. -/
def text : Double → List Char
  | .nan => "NaN".toList
  | .infinite negative => Value.sign negative ++ "Infinity".toList
  | .finite negative c e =>
      if c = 0 then ['0']
      else
        let d := Value.decimal c e
        Value.sign negative ++ if -6 < d.point ∧ d.point ≤ 21 then d.positional else d.scientific

theorem text_unsignedZero (d : Double) : d.unsignedZero.text = d.text := by
  unfold unsignedZero
  split <;> rfl

theorem numberText_eq_text (x : Float) : Value.numberText x = (ofFloat x).text := by
  rw [Value.numberText]
  cases hx : ofFloat x with
  | finite negative c e =>
      rcases c.eq_zero_or_pos with rfl | hc
      · rfl
      · have hplain := isPlain_iff hx hc (isShortest_decimal (canonical_of_ofFloat hx hc) hc)
        simp only [text, hplain]
  | _ => rfl

end Double

/-! ## Reading a number -/

/-- What the text of a number says. -/
inductive NumberReading where
  | nan
  | infinite (negative : Bool)
  | rational (q : ℚ)

namespace NumberReading

/-- The number, negated if there is a minus sign. -/
def signed (negative : Bool) (q : ℚ) : ℚ := if negative then -q else q

/-- What a text says behind its sign: `NaN` and `Infinity` are told by the first letter. -/
def ofUnsigned (negative : Bool) : List Char → NumberReading
  | 'N' :: _ => .nan
  | 'I' :: _ => .infinite negative
  | cs => .rational (signed negative (Decimal.reading cs))

/-- What a text says. -/
def ofText : List Char → NumberReading
  | '-' :: cs => ofUnsigned true cs
  | cs => ofUnsigned false cs

/-- What the text of a double should say. -/
def ofDouble : Double → NumberReading
  | .nan => .nan
  | .infinite negative => .infinite negative
  | .finite negative c e =>
      .rational (signed negative (if c = 0 then 0 else (Value.decimal c e).value))

theorem signed_zero (negative : Bool) : signed negative 0 = 0 := by cases negative <;> rfl

/-- Numbers above zero can be told even behind a sign. -/
theorem signed_inj {q q' : ℚ} (hq : 0 < q) (hq' : 0 < q') {negative negative' : Bool}
    (h : signed negative q = signed negative' q') : negative = negative' ∧ q = q' := by
  cases negative <;> cases negative' <;>
    simp only [signed, if_true, Bool.false_eq_true, if_false] at h
  · exact ⟨rfl, h⟩
  · linarith
  · linarith
  · exact ⟨rfl, neg_inj.1 h⟩

theorem signed_ne_zero {q : ℚ} (hq : 0 < q) (negative : Bool) : signed negative q ≠ 0 := by
  cases negative
  · exact hq.ne'
  · exact (neg_neg_of_pos hq).ne

theorem ofText_sign_append {cs : List Char} (h : Decimal.StartsWithDigit cs) (negative : Bool) :
    ofText (Value.sign negative ++ cs) = .rational (signed negative (Decimal.reading cs)) := by
  have hunsigned : ofUnsigned negative cs = .rational (signed negative (Decimal.reading cs)) := by
    unfold ofUnsigned
    split
    · exact absurd h Bool.false_ne_true
    · exact absurd h Bool.false_ne_true
    · rfl
  cases negative with
  | true => exact hunsigned
  | false =>
      rw [Value.sign, if_neg Bool.false_ne_true, List.nil_append, ← hunsigned]
      unfold ofText
      split
      · exact absurd h Bool.false_ne_true
      · rfl

/-- The text of a number says which number it is. -/
theorem ofText_text (d : Double) : ofText d.text = ofDouble d := by
  cases d with
  | nan => rfl
  | infinite negative => cases negative <;> rfl
  | finite negative c e =>
      by_cases hc : c = 0
      · subst hc
        rw [ofDouble, if_pos rfl, signed_zero]
        exact congrArg rational (Decimal.reading_digits (Decimal.isDigit_of_mem_zeros 1))
      · rw [Double.text, if_neg hc, ofDouble, if_neg hc]
        dsimp only
        split
        · rw [ofText_sign_append (Decimal.startsWithDigit_positional _),
            Decimal.reading_positional]
        · rw [ofText_sign_append (Decimal.startsWithDigit_scientific _),
            Decimal.reading_scientific]

/-- What the text of a number should say tells the number, up to the sign of a zero. -/
theorem unsignedZero_eq_of_ofDouble_eq {x y : Float}
    (h : ofDouble (Double.ofFloat x) = ofDouble (Double.ofFloat y)) :
    (Double.ofFloat x).unsignedZero = (Double.ofFloat y).unsignedZero := by
  cases hx : Double.ofFloat x with
  | nan =>
      cases hy : Double.ofFloat y with
      | nan => rfl
      | _ =>
          rw [hx, hy] at h
          cases h
  | infinite negative =>
      cases hy : Double.ofFloat y with
      | infinite negative' =>
          rw [hx, hy] at h
          cases h
          rfl
      | _ =>
          rw [hx, hy] at h
          cases h
  | finite negative c e =>
      cases hy : Double.ofFloat y with
      | finite negative' c' e' =>
          rw [hx, hy, ofDouble, ofDouble, rational.injEq] at h
          -- A zero reads as zero, whatever its sign, and nothing else does.
          rcases c.eq_zero_or_pos with rfl | hc <;> rcases c'.eq_zero_or_pos with rfl | hc'
          · rfl
          · rw [if_pos rfl, if_neg hc'.ne', signed_zero] at h
            exact absurd h.symm (signed_ne_zero (Double.value_decimal_pos hy hc') negative')
          · rw [if_pos rfl, if_neg hc.ne', signed_zero] at h
            exact absurd h (signed_ne_zero (Double.value_decimal_pos hx hc) negative)
          · rw [if_neg hc.ne', if_neg hc'.ne'] at h
            obtain ⟨rfl, hvalue⟩ :=
              signed_inj (Double.value_decimal_pos hx hc) (Double.value_decimal_pos hy hc') h
            cases Double.eq_of_value_decimal_eq hx hc hy hc' hvalue
            rfl
      | _ =>
          rw [hx, hy] at h
          cases h

end NumberReading

namespace Value

/-- Numbers have the same text if they are the same, up to the sign of a zero. -/
theorem numberText_eq_iff (x y : Float) : numberText x = numberText y ↔
    (Double.ofFloat x).unsignedZero = (Double.ofFloat y).unsignedZero := by
  rw [Double.numberText_eq_text, Double.numberText_eq_text]
  constructor
  · intro h
    have hread := congrArg NumberReading.ofText h
    rw [NumberReading.ofText_text, NumberReading.ofText_text] at hread
    exact NumberReading.unsignedZero_eq_of_ofDouble_eq hread
  · intro h
    rw [← Double.text_unsignedZero, h, Double.text_unsignedZero]

/-! ## Listed values -/

/-- The value is a number and stands for none. -/
def isNaN : Value → Bool
  | .number x => x.isNaN
  | _ => false

/-- The type of a listed value, told by the first character. -/
def listedType : List Char → String
  | '"' :: _ => "string"
  | 't' :: _ | 'f' :: _ => "bool"
  | 'n' :: _ => "null"
  | _ => "number"

theorem listedType_sign_append {cs : List Char} (h : Decimal.StartsWithDigit cs)
    (negative : Bool) : listedType (sign negative ++ cs) = "number" := by
  cases negative with
  | true => rfl
  | false =>
      rw [sign, if_neg Bool.false_ne_true, List.nil_append]
      unfold listedType
      split
      case h_5 => rfl
      all_goals exact absurd h Bool.false_ne_true

theorem listedType_text (d : Double) : listedType d.text = "number" := by
  cases d with
  | nan => rfl
  | infinite negative => cases negative <;> rfl
  | finite negative c e =>
      rw [Double.text]
      split
      · rfl
      · dsimp only
        split
        · exact listedType_sign_append (Decimal.startsWithDigit_positional _) negative
        · exact listedType_sign_append (Decimal.startsWithDigit_scientific _) negative

variable {unprintable : Char → Bool}

theorem inspect_bool (b : Bool) : (bool b).inspect unprintable = (bool b).text := rfl

theorem inspect_null : null.inspect unprintable = null.text := rfl

/-- The type of a listed value can be told. -/
theorem listedType_inspect (v : Value) :
    listedType (v.inspect unprintable).toList = v.typeName := by
  cases v with
  | number x =>
      have hinspect : ((number x).inspect unprintable).toList = numberText x := String.toList_ofList
      rw [hinspect, Double.numberText_eq_text, listedType_text, typeName]
  | string s =>
      rw [inspect, String.toList_ofList]
      rfl
  | bool b =>
      rw [inspect_bool]
      cases b <;> rfl
  | null =>
      rw [inspect_null]
      rfl

/-- Numbers are listed alike if they are equal, or if neither stands for a number. -/
theorem inspect_number_eq_iff (x y : Float) :
    (number x).inspect unprintable = (number y).inspect unprintable ↔
      (x == y) = true ∨ x.isNaN = true ∧ y.isNaN = true := by
  have hinspect : (number x).inspect unprintable = (number y).inspect unprintable ↔
      numberText x = numberText y := String.ofList_inj
  rw [hinspect, numberText_eq_iff, Double.beq_iff, Double.isNaN_iff, Double.isNaN_iff]
  by_cases hx : Double.ofFloat x = .nan
  · rw [hx, Double.nan_eq_unsignedZero_iff, and_iff_right rfl, or_iff_right fun h => h.1 rfl]
  · rw [and_iff_right hx, or_iff_left fun h => hx h.1]

theorem inspect_string_eq_iff (s t : String) :
    (string s).inspect unprintable = (string t).inspect unprintable ↔ s = t := by
  rw [inspect, inspect, String.ofList_inj, Text.quote_inj, String.toList_inj]

/-- Within a type, values are listed alike if they are equal. -/
theorem inspect_eq_iff_of_typeName_eq {v w : Value} (h : v.typeName = w.typeName) :
    v.inspect unprintable = w.inspect unprintable ↔
      (v == w) = true ∨ v.isNaN = true ∧ w.isNaN = true := by
  cases v with
  | number x =>
      cases w with
      | number y => exact inspect_number_eq_iff x y
      | _ => simp [typeName] at h
  | string s =>
      cases w with
      | string t =>
          have heq : (string s == string t) = (s == t) := rfl
          rw [inspect_string_eq_iff, heq, beq_iff_eq]
          exact (or_iff_left fun hnan => Bool.false_ne_true hnan.1).symm
      | _ => simp [typeName] at h
  | bool a =>
      cases w with
      | bool b =>
          rw [inspect_bool, inspect_bool]
          cases a <;> cases b <;> decide
      | _ => simp [typeName] at h
  | null =>
      cases w with
      | null => exact iff_of_true rfl (.inl rfl)
      | _ => simp [typeName] at h

end Value

/-- **Listed values can be told apart.** Two values are listed alike exactly if they have one
type and are equal, whichever characters have a printed form. Numbers are equal by their
numeric value, so that both zeros are listed alike, and what is no number is listed alike
though it differs even from itself. -/
theorem inspect_eq_iff (unprintable : Char → Bool) (v w : Value) :
    v.inspect unprintable = w.inspect unprintable ↔
      v.typeName = w.typeName ∧ ((v == w) = true ∨ v.isNaN = true ∧ w.isNaN = true) := by
  constructor
  · intro h
    have htype : v.typeName = w.typeName := by
      rw [← Value.listedType_inspect, h, Value.listedType_inspect]
    exact ⟨htype, (Value.inspect_eq_iff_of_typeName_eq htype).1 h⟩
  · rintro ⟨htype, h⟩
    exact (Value.inspect_eq_iff_of_typeName_eq htype).2 h

end JsonScript
