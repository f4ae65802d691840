import JsonScript.Json.Error
import JsonScript.Json.Numeral.Scan
import JsonScript.Json.StringLiteral

/-!
# Tokens of JSON text

A JSON text is a sequence of tokens with blanks between them: six marks, three
words, numerals and quoted strings.

## Main results

* `length_scanOne` — a token takes at least one character, which is why
  scanning ends.
-/

namespace JsonScript

/-- The words of JSON. -/
inductive Word where
  | null
  | true
  | false
  deriving DecidableEq, Repr, Inhabited

/-- A token of JSON text. -/
inductive Token where
  | openBrace
  | closeBrace
  | openBracket
  | closeBracket
  | colon
  | comma
  | word (w : Word)
  | numeral (n : Numeral)
  | string (s : String)
  deriving DecidableEq, Repr, Inhabited

namespace Token

/-- The blanks allowed between tokens. -/
def isBlank (c : Char) : Bool := c == ' ' || c == '\t' || c == '\n' || c == '\r'

/-- A string token behind its opening quote. -/
def scanString (cs : List Char) : Except JsonError (Token × List Char) :=
  match StringLiteral.split cs with
  | none => .error .unexpectedEnd
  | some (body, rest) =>
      match StringLiteral.unescape body with
      | none => .error .invalidString
      | some s => .ok (.string (String.ofList s), rest)

/-- A numeral token behind its sign. -/
def scanNumeral (negative : Bool) (cs : List Char) : Except JsonError (Token × List Char) :=
  match Numeral.scanUnsigned negative cs with
  | none => .error .invalidNumber
  | some (n, rest) => .ok (.numeral n, rest)

/-- The mark that a character is. -/
def mark? : Char → Option Token
  | '{' => some .openBrace
  | '}' => some .closeBrace
  | '[' => some .openBracket
  | ']' => some .closeBracket
  | ':' => some .colon
  | ',' => some .comma
  | _ => none

/-- The word at the front of a text. -/
def scanWord : List Char → Option (Word × List Char)
  | 'n' :: 'u' :: 'l' :: 'l' :: rest => some (.null, rest)
  | 't' :: 'r' :: 'u' :: 'e' :: rest => some (.true, rest)
  | 'f' :: 'a' :: 'l' :: 's' :: 'e' :: rest => some (.false, rest)
  | _ => none

/-- The token at the front of a text without blanks there. -/
def scanOne : List Char → Except JsonError (Token × List Char)
  | [] => .error .unexpectedEnd
  | c :: rest =>
      match mark? c with
      | some t => .ok (t, rest)
      | none =>
          if c = '"' then scanString rest
          else if c = '-' then scanNumeral true rest
          else if c.isDigit then scanNumeral false (c :: rest)
          else
            match scanWord (c :: rest) with
            | some (w, after) => .ok (.word w, after)
            | none => .error (.unexpectedCharacter c)

theorem length_scanString {cs rest : List Char} {t : Token}
    (h : scanString cs = .ok (t, rest)) : rest.length < cs.length := by
  unfold scanString at h
  split at h
  · simp at h
  · split at h
    · simp at h
    · simp only [Except.ok.injEq, Prod.mk.injEq] at h
      exact h.2 ▸ StringLiteral.length_split ‹_›

theorem length_scanNumeral {negative : Bool} {cs rest : List Char} {t : Token}
    (h : scanNumeral negative cs = .ok (t, rest)) : rest.length < cs.length := by
  unfold scanNumeral at h
  split at h
  · simp at h
  · simp only [Except.ok.injEq, Prod.mk.injEq] at h
    exact h.2 ▸ Numeral.length_scanUnsigned ‹_›

theorem length_scanWord {cs rest : List Char} {w : Word}
    (h : scanWord cs = some (w, rest)) : rest.length < cs.length := by
  unfold scanWord at h
  split at h <;> simp only [reduceCtorEq, Option.some.injEq, Prod.mk.injEq] at h
  all_goals
    obtain ⟨-, rfl⟩ := h
    simp only [List.length_cons]
    omega

theorem length_scanOne {cs rest : List Char} {t : Token}
    (h : scanOne cs = .ok (t, rest)) : rest.length < cs.length := by
  unfold scanOne at h
  split at h
  · simp at h
  · rename_i c tail
    split at h
    · simp only [Except.ok.injEq, Prod.mk.injEq] at h
      simp [← h.2]
    · split at h
      · exact Nat.lt_succ_of_lt (length_scanString h)
      · split at h
        · exact Nat.lt_succ_of_lt (length_scanNumeral h)
        · split at h
          · exact length_scanNumeral h
          · split at h
            · rename_i hw
              simp only [Except.ok.injEq, Prod.mk.injEq] at h
              exact h.2 ▸ length_scanWord hw
            · simp at h

/-- All tokens of a text. -/
def scan (cs : List Char) : Except JsonError (List Token) :=
  match cs with
  | [] => .ok []
  | c :: rest =>
      if isBlank c then scan rest
      else
        match _h : scanOne (c :: rest) with
        | .error e => .error e
        | .ok (t, after) => (scan after).map (t :: ·)
termination_by cs.length
decreasing_by
  · simp
  · exact length_scanOne ‹_›

end Token

end JsonScript
