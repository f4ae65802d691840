import JsonScript.Proofs.PlaceTexts
import JsonScript.Text.Quoted

/-!
# Quoted texts can be told apart

Inside quotes a character stands as it is, or as a backslash with a letter, or as its code
point in braces. Which of the three it is can be seen from the first two characters, and
the code point ends at the closing brace. So a quoted text is read from left to right, one
character after the other, and no two texts are quoted alike.

## Main results

* `quoteChar_append_inj` — the first character can be told, and what follows it.
* `quote_inj` — texts that are quoted alike are the same.
-/

namespace JsonScript.Text

/-! ## Hexadecimal digits -/

theorem digitChar_inj_of_lt_sixteen : ∀ a < 16, ∀ b < 16,
    Nat.digitChar a = Nat.digitChar b → a = b := by
  decide

theorem toDigits_sixteen_eq (n : Nat) : Nat.toDigits 16 n =
    if n < 16 then [n.digitChar] else Nat.toDigits 16 (n / 16) ++ [(n % 16).digitChar] :=
  Nat.toDigits_eq_if (by decide)

/-- A number can be told by its digits. -/
theorem toDigits_sixteen_inj {m n : Nat} (h : Nat.toDigits 16 m = Nat.toDigits 16 n) : m = n := by
  induction m using Nat.strongRecOn generalizing n with
  | ind m ih =>
      have hlength (k : Nat) : 0 < (Nat.toDigits 16 k).length := Nat.length_toDigits_pos
      rw [toDigits_sixteen_eq m, toDigits_sixteen_eq n] at h
      by_cases hm : m < 16
      · by_cases hn : n < 16
        · rw [if_pos hm, if_pos hn] at h
          exact digitChar_inj_of_lt_sixteen m hm n hn (List.cons.inj h).1
        · rw [if_pos hm, if_neg hn] at h
          have hlengths := congrArg List.length h
          rw [List.length_append, List.length_singleton, List.length_singleton] at hlengths
          have := hlength (n / 16)
          omega
      · by_cases hn : n < 16
        · rw [if_neg hm, if_pos hn] at h
          have hlengths := congrArg List.length h
          rw [List.length_append, List.length_singleton, List.length_singleton] at hlengths
          have := hlength (m / 16)
          omega
        · rw [if_neg hm, if_neg hn] at h
          obtain ⟨hrest, hlast⟩ := List.append_inj' h rfl
          have hquotient := ih (m / 16) (by omega) hrest
          have hremainder := digitChar_inj_of_lt_sixteen (m % 16) (by omega) (n % 16) (by omega)
            (List.cons.inj hlast).1
          omega

theorem not_mem_codePoint (c : Char) : '}' ∉ codePoint c := by
  have hdigit : ∀ d < 16, '}' ≠ Nat.digitChar d := by decide
  have hdigits (n : Nat) : '}' ∉ Nat.toDigits 16 n := by
    induction n using Nat.strongRecOn with
    | ind n ih =>
        rw [toDigits_sixteen_eq]
        split
        case isTrue h => simp [hdigit n h]
        case isFalse h =>
          have hrest := ih (n / 16) (by omega)
          have hlast := hdigit (n % 16) (by omega)
          simp [hrest, hlast]
  exact hdigits c.toNat

/-! ## Quoted characters -/

variable {unprintable : Char → Bool}

/-- The characters that stand as a letter behind a backslash, with their letters. -/
def letters : List (Char × Char) :=
  [('"', '"'), ('\\', '\\'), ('\n', 'n'), ('\r', 'r'), ('\t', 't'), (Char.ofNat 0, '0')]

/-- The three ways in which a character stands inside quotes. -/
theorem quoteChar_eq (unprintable : Char → Bool) (c : Char) :
    (∃ l, (c, l) ∈ letters ∧ quoteChar unprintable c = ['\\', l]) ∨
      quoteChar unprintable c = '\\' :: 'u' :: '{' :: (codePoint c ++ ['}']) ∨
      c ≠ '\\' ∧ quoteChar unprintable c = [c] := by
  have hletters : ∀ p ∈ letters, quoteChar unprintable p.1 = ['\\', p.2] := by
    simp [letters, quoteChar]
  by_cases hletter : c ∈ letters.map Prod.fst
  · obtain ⟨⟨_, l⟩, hmem, rfl⟩ := List.mem_map.1 hletter
    exact .inl ⟨l, hmem, hletters _ hmem⟩
  · simp only [letters, List.map_cons, List.map_nil, List.mem_cons, List.not_mem_nil, or_false,
      not_or] at hletter
    obtain ⟨h₁, h₂, h₃, h₄, h₅, h₆⟩ := hletter
    rw [quoteChar, if_neg h₁, if_neg h₂, if_neg h₃, if_neg h₄, if_neg h₅, if_neg h₆]
    split
    · exact .inr (.inl rfl)
    · exact .inr (.inr ⟨h₂, rfl⟩)

/-- The first character can be told from the quoted text, and so can what follows it. -/
theorem quoteChar_append_inj {c d : Char} {x y : List Char}
    (h : quoteChar unprintable c ++ x = quoteChar unprintable d ++ y) : c = d ∧ x = y := by
  have hletters : ∀ p ∈ letters, p.2 ≠ 'u' ∧ ∀ q ∈ letters, p.2 = q.2 → p.1 = q.1 := by decide
  rcases quoteChar_eq unprintable c with ⟨l, hl, hc⟩ | hc | ⟨hplain, hc⟩
  · rcases quoteChar_eq unprintable d with ⟨l', hl', hd⟩ | hd | ⟨hplain', hd⟩
    · rw [hc, hd] at h
      obtain ⟨-, htail⟩ := List.cons.inj h
      obtain ⟨hletter, hrest⟩ := List.cons.inj htail
      exact ⟨(hletters _ hl).2 _ hl' hletter, hrest⟩
    · rw [hc, hd] at h
      exact absurd (List.cons.inj (List.cons.inj h).2).1 (hletters _ hl).1
    · rw [hc, hd] at h
      exact absurd (List.cons.inj h).1.symm hplain'
  · rcases quoteChar_eq unprintable d with ⟨l', hl', hd⟩ | hd | ⟨hplain', hd⟩
    · rw [hc, hd] at h
      exact absurd (List.cons.inj (List.cons.inj h).2).1.symm (hletters _ hl').1
    · rw [hc, hd] at h
      simp only [List.cons_append, List.cons_inj_right, List.append_assoc, List.nil_append] at h
      obtain ⟨hpoint, hrest⟩ :=
        (append_cons_eq_iff_of_not_mem (not_mem_codePoint c) (not_mem_codePoint d)).1 h
      exact ⟨Char.toNat_inj.1 (toDigits_sixteen_inj hpoint), hrest⟩
    · rw [hc, hd] at h
      exact absurd (List.cons.inj h).1.symm hplain'
  · rcases quoteChar_eq unprintable d with ⟨l', hl', hd⟩ | hd | ⟨hplain', hd⟩
    · rw [hc, hd] at h
      exact absurd (List.cons.inj h).1 hplain
    · rw [hc, hd] at h
      exact absurd (List.cons.inj h).1 hplain
    · rw [hc, hd] at h
      exact List.cons.inj h

theorem quoteChar_ne_nil (c : Char) : quoteChar unprintable c ≠ [] := by
  rcases quoteChar_eq unprintable c with ⟨l, -, hc⟩ | hc | ⟨-, hc⟩ <;> rw [hc] <;>
    exact List.cons_ne_nil _ _

/-! ## Quoted texts -/

theorem flatMap_quoteChar_inj {cs : List Char} :
    ∀ {ds : List Char}, cs.flatMap (quoteChar unprintable) = ds.flatMap (quoteChar unprintable) →
      cs = ds := by
  induction cs with
  | nil =>
      intro ds h
      cases ds with
      | nil => rfl
      | cons d ds =>
          rw [List.flatMap_nil, List.flatMap_cons, eq_comm, List.append_eq_nil_iff] at h
          exact absurd h.1 (quoteChar_ne_nil d)
  | cons c cs ih =>
      intro ds h
      cases ds with
      | nil =>
          rw [List.flatMap_nil, List.flatMap_cons, List.append_eq_nil_iff] at h
          exact absurd h.1 (quoteChar_ne_nil c)
      | cons d ds =>
          rw [List.flatMap_cons, List.flatMap_cons] at h
          obtain ⟨rfl, hrest⟩ := quoteChar_append_inj h
          rw [ih hrest]

/-- Texts that are quoted alike are the same. -/
theorem quote_inj {cs ds : List Char} : quote unprintable cs = quote unprintable ds ↔ cs = ds := by
  refine ⟨fun h => ?_, congrArg (quote unprintable)⟩
  have hinside := List.append_cancel_right h
  exact flatMap_quoteChar_inj (List.cons.inj hinside).2

end JsonScript.Text
