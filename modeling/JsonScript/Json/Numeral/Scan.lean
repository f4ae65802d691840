import JsonScript.Json.Numeral

/-!
# Numerals in JSON text

An integer part without needless zeros, then perhaps a fraction, then perhaps
an exponent. A scanner takes the longest numeral from the front of a text and
gives back what follows it.

## Main results

* `length_scanUnsigned` — the text behind a numeral is shorter.
-/

namespace JsonScript.Numeral

/-- The digits at the front of a text, at least one, and what follows them. -/
def takeDigits (cs : List Char) : Option (List Char × List Char) :=
  match cs.takeWhile Char.isDigit with
  | [] => none
  | digits => some (digits, cs.dropWhile Char.isDigit)

theorem length_takeDigits {cs digits rest : List Char}
    (h : takeDigits cs = some (digits, rest)) : rest.length < cs.length := by
  unfold takeDigits at h
  have hsplit := congrArg List.length (List.takeWhile_append_dropWhile (p := Char.isDigit) (l := cs))
  split at h
  · simp at h
  · rename_i hne
    simp only [Option.some.injEq, Prod.mk.injEq] at h
    have := List.length_pos_iff.2 hne
    simp only [List.length_append] at hsplit
    rw [← h.2]
    omega

/-- The integer part: a zero alone, or digits that start with another one. -/
def scanWhole : List Char → Option (List Char × List Char)
  | '0' :: rest => some (['0'], rest)
  | cs => takeDigits cs

theorem length_scanWhole {cs digits rest : List Char}
    (h : scanWhole cs = some (digits, rest)) : rest.length < cs.length := by
  unfold scanWhole at h
  split at h
  · simp only [Option.some.injEq, Prod.mk.injEq] at h
    simp [← h.2]
  · exact length_takeDigits h

/-- The digits behind a point, if there is one. -/
def scanFraction : List Char → Option (List Char × List Char)
  | '.' :: rest => takeDigits rest
  | cs => some ([], cs)

theorem length_scanFraction {cs digits rest : List Char}
    (h : scanFraction cs = some (digits, rest)) : rest.length ≤ cs.length := by
  unfold scanFraction at h
  split at h
  · have := length_takeDigits h
    simp only [List.length_cons]
    omega
  · simp only [Option.some.injEq, Prod.mk.injEq] at h
    simp [← h.2]

/-- Whether a sign at the front of an exponent is a minus, and what follows. -/
def scanSign : List Char → Bool × List Char
  | '-' :: rest => (true, rest)
  | '+' :: rest => (false, rest)
  | cs => (false, cs)

theorem length_scanSign (cs : List Char) : (scanSign cs).2.length ≤ cs.length := by
  unfold scanSign
  split <;> simp

/-- An exponent behind the letter `e` of either case, if there is one. -/
def scanExponent (cs : List Char) : Option (Option Exponent × List Char) :=
  match cs with
  | c :: rest =>
      if c = 'e' ∨ c = 'E' then
        let (negative, unsigned) := scanSign rest
        (takeDigits unsigned).map fun (digits, after) => (some ⟨negative, digits⟩, after)
      else some (none, cs)
  | [] => some (none, [])

theorem length_scanExponent {cs rest : List Char} {e : Option Exponent}
    (h : scanExponent cs = some (e, rest)) : rest.length ≤ cs.length := by
  unfold scanExponent at h
  split at h
  · rename_i c tail
    split at h
    · simp only [Option.map_eq_some_iff, Prod.mk.injEq] at h
      obtain ⟨⟨digits, after⟩, h₁, -, rfl⟩ := h
      have h₂ := length_takeDigits h₁
      have h₃ := length_scanSign tail
      simp only [List.length_cons]
      omega
    · simp only [Option.some.injEq, Prod.mk.injEq] at h
      simp [← h.2]
  · simp only [Option.some.injEq, Prod.mk.injEq] at h
    simp [← h.2]

/-- A numeral without its sign. -/
def scanUnsigned (negative : Bool) (cs : List Char) : Option (Numeral × List Char) :=
  match scanWhole cs with
  | none => none
  | some (whole, afterWhole) =>
      match scanFraction afterWhole with
      | none => none
      | some (fraction, afterFraction) =>
          (scanExponent afterFraction).map fun (exponent, rest) =>
            (⟨negative, whole, fraction, exponent⟩, rest)

theorem length_scanUnsigned {negative : Bool} {cs rest : List Char} {n : Numeral}
    (h : scanUnsigned negative cs = some (n, rest)) : rest.length < cs.length := by
  unfold scanUnsigned at h
  split at h
  · simp at h
  · rename_i h₁
    split at h
    · simp at h
    · rename_i h₂
      simp only [Option.map_eq_some_iff, Prod.mk.injEq] at h
      obtain ⟨⟨e, after⟩, h₃, -, rfl⟩ := h
      exact Nat.lt_of_le_of_lt
        (Nat.le_trans (length_scanExponent h₃) (length_scanFraction h₂)) (length_scanWhole h₁)

end JsonScript.Numeral
