import Mathlib.Tactic.Common

/-!
# Surrogate pairs

A code point from U+10000 on is written in UTF-16 as two 16-bit units from the
range of the surrogates, which are no code points themselves.
-/

namespace Utf16

def runeError : Nat := 0xFFFD

def isSurrogate (r : Nat) : Bool := 0xD800 ≤ r ∧ r < 0xE000

/-- The surrogate pair of a code point, or two replacements if it has none. -/
def encodeRune (r : Nat) : Nat × Nat :=
  if r < 0x10000 ∨ 0x10FFFF < r then (runeError, runeError)
  else (0xD800 + (r - 0x10000) / 0x400, 0xDC00 + (r - 0x10000) % 0x400)

/-- The code point of a surrogate pair, or a replacement. -/
def decodeRune (first second : Nat) : Nat :=
  if 0xD800 ≤ first ∧ first < 0xDC00 ∧ 0xDC00 ≤ second ∧ second < 0xE000 then
    (first - 0xD800) * 0x400 + (second - 0xDC00) + 0x10000
  else runeError

theorem encodeRune_of_lt {r : Nat} (h : r < 0x10000) : encodeRune r = (runeError, runeError) := by
  rw [encodeRune, if_pos (.inl h)]

section Supplementary

variable {r : Nat} (hlow : 0x10000 ≤ r) (hhigh : r ≤ 0x10FFFF)

include hlow hhigh

theorem encodeRune_of_ge : encodeRune r =
      (0xD800 + (r - 0x10000) / 0x400, 0xDC00 + (r - 0x10000) % 0x400) := by
  rw [encodeRune, if_neg (by omega)]

theorem isSurrogate_encodeRune : isSurrogate (encodeRune r).1 = true := by
  rw [encodeRune_of_ge hlow hhigh, isSurrogate, decide_eq_true_eq]
  omega

theorem encodeRune_lt : (encodeRune r).1 < 0x10000 ∧ (encodeRune r).2 < 0x10000 := by
  rw [encodeRune_of_ge hlow hhigh]
  omega

theorem encodeRune_ne_runeError : (encodeRune r).1 ≠ runeError := by
  rw [encodeRune_of_ge hlow hhigh, runeError]
  omega

theorem decodeRune_encodeRune : decodeRune (encodeRune r).1 (encodeRune r).2 = r := by
  rw [encodeRune_of_ge hlow hhigh, decodeRune, if_pos (by omega)]
  omega

end Supplementary

end Utf16
