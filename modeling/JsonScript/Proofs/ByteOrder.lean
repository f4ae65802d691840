import Mathlib.Data.List.Basic
import Mathlib.Tactic.SplitIfs

/-!
# The order of bytes

Texts are compared by code points. That is also the order of their UTF-8 forms, compared
byte by byte. The first byte of a character tells how many follow, and longer forms have
larger first bytes; within one length the bytes are digits in base 64, the most
significant first. So of two characters the smaller one has the smaller form, and neither
form begins with the other (`encode_append_lt`).

## Main results

* `bytes_lt_bytes` — the order of texts is the order of their bytes.
-/

namespace JsonScript

open String (utf8EncodeChar)

/-- The bytes of the UTF-8 form of a text. -/
def bytes (s : String) : List UInt8 := s.toUTF8.data.toList

theorem bytes_eq_flatMap (s : String) : bytes s = s.toList.flatMap utf8EncodeChar := by
  have hencode : s.toByteArray = s.toList.utf8Encode := by
    rw [← String.toByteArray_ofList, String.ofList_toList]
  rw [bytes, String.toUTF8_eq_toByteArray, hencode, List.utf8Encode, List.data_toByteArray]

theorem ofNat_cons_lt_iff {a b : Nat} (ha : a < 256) (hb : b < 256) (x y : List UInt8) :
    UInt8.ofNat a :: x < UInt8.ofNat b :: y ↔ a < b ∨ a = b ∧ x < y := by
  rw [List.cons_lt_cons_iff, UInt8.lt_iff_toNat_lt, ← UInt8.toNat_inj,
    UInt8.toNat_ofNat_of_lt' ha, UInt8.toNat_ofNat_of_lt' hb]

/-- Two forms differ in a byte of both, so what comes after them does not matter. -/
theorem encode_append_lt {c d : Char} (h : c < d) (x y : List UInt8) :
    utf8EncodeChar c ++ x < utf8EncodeChar d ++ y := by
  have hlt : c.val.toNat < d.val.toNat := h
  have hmax : d.val.toNat < 0x110000 := by
    rcases d.valid with h | h <;> omega
  -- The digits of a code point in base 64. The fourth one is small.
  have hdigits (v : Nat) (hv : v < 0x110000) : v / 64 / 64 = v / 4096 ∧
      v / 4096 / 64 = v / 262144 ∧ v / 262144 % 8 = v / 262144 := by omega
  have hc := hdigits c.val.toNat (by omega)
  have hd := hdigits d.val.toNat hmax
  unfold utf8EncodeChar
  dsimp only
  split_ifs
  all_goals
    simp (disch := omega) only [List.cons_append, List.nil_append, ofNat_cons_lt_iff]
    omega

theorem flatMap_encode_lt {cs ds : List Char} (h : cs < ds) :
    cs.flatMap utf8EncodeChar < ds.flatMap utf8EncodeChar := by
  rw [← List.lex_lt] at h
  induction h with
  | @nil d ds =>
      obtain ⟨b, rest, hform⟩ := List.exists_cons_of_ne_nil (String.utf8EncodeChar_ne_nil (c := d))
      rw [List.flatMap_cons, hform]
      exact List.nil_lt_cons _ _
  | cons _ ih => exact List.append_left_lt ih
  | rel hlt => exact encode_append_lt hlt _ _

/-- **The order of texts is the order of their bytes.** -/
theorem bytes_lt_bytes {a b : String} (h : a < b) : bytes a < bytes b := by
  rw [bytes_eq_flatMap, bytes_eq_flatMap]
  exact flatMap_encode_lt (String.lt_iff.1 h)

end JsonScript
