/-!
# Quoted strings of JSON text

Strings are read in two passes. `split` finds the closing quote, and `unescape`
then resolves the escapes of what stood before it. A code unit of a surrogate
pair counts only together with its partner.

## Main results

* `length_split` — the text behind a string is shorter.
-/

namespace JsonScript.StringLiteral

/-- Splits a text behind an opening quote at the closing one. A character after
a backslash never closes the string. -/
def split : List Char → Option (List Char × List Char)
  | [] => none
  | '"' :: rest => some ([], rest)
  | '\\' :: c :: rest => (split rest).map fun (body, after) => ('\\' :: c :: body, after)
  | c :: rest => (split rest).map fun (body, after) => (c :: body, after)

theorem length_split {cs body after : List Char}
    (h : split cs = some (body, after)) : after.length < cs.length := by
  fun_induction split cs generalizing body after with
  | case1 => simp at h
  | case2 rest =>
      simp only [Option.some.injEq, Prod.mk.injEq] at h
      simp [← h.2]
  | case3 c rest ih =>
      simp only [Option.map_eq_some_iff, Prod.mk.injEq] at h
      obtain ⟨⟨body', after'⟩, h₁, -, rfl⟩ := h
      have := ih h₁
      simp only [List.length_cons]
      omega
  | case4 c rest _ _ ih =>
      simp only [Option.map_eq_some_iff, Prod.mk.injEq] at h
      obtain ⟨⟨body', after'⟩, h₁, -, rfl⟩ := h
      have := ih h₁
      simp only [List.length_cons]
      omega

/-- The value of a hexadecimal digit of either case. -/
def hexValue? (c : Char) : Option Nat :=
  if c.isDigit then some (c.toNat - '0'.toNat)
  else if 'a' ≤ c ∧ c ≤ 'f' then some (c.toNat - 'a'.toNat + 10)
  else if 'A' ≤ c ∧ c ≤ 'F' then some (c.toNat - 'A'.toNat + 10)
  else none

/-- The code unit written by four hexadecimal digits. -/
def codeUnit? (a b c d : Char) : Option Nat := do
  return 4096 * (← hexValue? a) + 256 * (← hexValue? b) + 16 * (← hexValue? c) + (← hexValue? d)

/-- Whether a code unit starts a surrogate pair. -/
def isHighSurrogate (u : Nat) : Bool := 0xD800 ≤ u && u < 0xDC00

/-- Whether a code unit ends a surrogate pair. -/
def isLowSurrogate (u : Nat) : Bool := 0xDC00 ≤ u && u < 0xE000

/-- The character of a surrogate pair. -/
def ofSurrogates (high low : Nat) : Char :=
  Char.ofNat (0x10000 + 0x400 * (high - 0xD800) + (low - 0xDC00))

/-- What a backslash and one letter stand for. -/
def escaped? : Char → Option Char
  | '"' => some '"'
  | '\\' => some '\\'
  | '/' => some '/'
  | 'b' => some '\x08'
  | 'f' => some '\x0c'
  | 'n' => some '\n'
  | 'r' => some '\r'
  | 't' => some '\t'
  | _ => none

/-- Resolves the escapes in the body of a string; none if one of them is
malformed, half a surrogate pair is left alone, or a control character stands
unescaped. -/
def unescape : List Char → Option (List Char)
  | [] => some []
  | '\\' :: 'u' :: a :: b :: c :: d :: rest =>
      match codeUnit? a b c d with
      | none => none
      | some u =>
          if isHighSurrogate u then
            match rest with
            | '\\' :: 'u' :: a' :: b' :: c' :: d' :: rest' =>
                match codeUnit? a' b' c' d' with
                | none => none
                | some v =>
                    if isLowSurrogate v then (unescape rest').map (ofSurrogates u v :: ·)
                    else none
            | _ => none
          else if isLowSurrogate u then none
          else (unescape rest).map (Char.ofNat u :: ·)
  | '\\' :: c :: rest =>
      match escaped? c with
      | none => none
      | some e => (unescape rest).map (e :: ·)
  | c :: rest =>
      if c = '\\' ∨ c < ' ' then none else (unescape rest).map (c :: ·)

end JsonScript.StringLiteral
