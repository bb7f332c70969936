import GoImap.Basic
import Mathlib.Data.List.Basic

/-!
# Decimal numbers as text

What `strconv.FormatUint` writes is read back by `strconv.ParseUint`, and starts
with a zero only if the number is zero.
-/

namespace GoImap

/-- `strconv.FormatUint` in base ten. -/
def formatUint (value : Nat) : Bytes :=
  (Nat.toDigits 10 value).map fun char => UInt8.ofNat char.toNat

theorem decimal_concat (digits : Bytes) (digit : UInt8) :
    decimal (digits ++ [digit]) = 10 * decimal digits + (digit.toNat - 48) := by
  simp [decimal]

theorem formatUint_eq (value : Nat) : formatUint value =
      (if value < 10 then [] else formatUint (value / 10)) ++ [UInt8.ofNat (value % 10 + 48)] := by
  have hdigit : ∀ digit < 10,
      UInt8.ofNat (Nat.digitChar digit).toNat = UInt8.ofNat (digit + 48) := by
    decide
  rw [formatUint, Nat.toDigits_eq_if (by omega)]
  split_ifs with h
  · simp [hdigit value h, Nat.mod_eq_of_lt h]
  · simp [formatUint, hdigit _ (Nat.mod_lt value (by omega))]

theorem toNat_digit {digit : Nat} (h : digit < 10) :
    (UInt8.ofNat (digit + 48)).toNat = digit + 48 := by
  simp
  omega

theorem isDigit_digit {digit : Nat} (h : digit < 10) :
    isDigit (UInt8.ofNat (digit + 48)) = true := by
  simp only [isDigit, decide_eq_true_eq, UInt8.le_iff_toNat_le, toNat_digit h]
  simp only [UInt8.reduceToNat]
  omega

theorem formatUint_ne_nil (value : Nat) : formatUint value ≠ [] := by
  rw [formatUint_eq]
  simp

theorem isDigit_of_mem_formatUint {value : Nat} {byte : UInt8}
    (h : byte ∈ formatUint value) : isDigit byte = true := by
  induction value using Nat.strongRecOn with
  | ind value ih =>
    rw [formatUint_eq, List.mem_append, List.mem_singleton] at h
    rcases h with hfront | rfl
    · split_ifs at hfront with hsmall
      · cases hfront
      · exact ih (value / 10) (by omega) hfront
    · exact isDigit_digit (Nat.mod_lt value (by omega))

theorem decimal_formatUint (value : Nat) : decimal (formatUint value) = value := by
  induction value using Nat.strongRecOn with
  | ind value ih =>
    rw [formatUint_eq, decimal_concat, toNat_digit (Nat.mod_lt value (by omega))]
    split_ifs with hsmall
    · simp [decimal]
      omega
    · rw [ih (value / 10) (by omega)]
      omega

theorem head_formatUint {value : Nat} (h : 0 < value) : (formatUint value).head? ≠ some 48 := by
  induction value using Nat.strongRecOn with
  | ind value ih =>
    rw [formatUint_eq]
    split_ifs with hsmall
    · intro hhead
      have hzero : UInt8.ofNat (value % 10 + 48) = 48 := by simpa using hhead
      have hnat := congrArg UInt8.toNat hzero
      rw [toNat_digit (Nat.mod_lt value (by omega))] at hnat
      simp only [UInt8.reduceToNat] at hnat
      omega
    · rw [List.head?_append_of_ne_nil _ (formatUint_ne_nil _)]
      exact ih (value / 10) (by omega) (by omega)

theorem parseUint_eq_some {digits : Bytes} {bits value : Nat} :
    parseUint digits bits = some value ↔ digits ≠ [] ∧ (∀ byte ∈ digits, isDigit byte = true) ∧
        decimal digits = value ∧ value < 2 ^ bits := by
  rw [← List.all_eq_true]
  unfold parseUint
  constructor
  · intro h
    split_ifs at h with hdigits
    cases h
    exact ⟨hdigits.1, hdigits.2.1, rfl, hdigits.2.2⟩
  · rintro ⟨hne, hdigits, rfl, hlt⟩
    rw [if_pos ⟨hne, hdigits, hlt⟩]

theorem parseUint_formatUint {value bits : Nat} (h : value < 2 ^ bits) :
    parseUint (formatUint value) bits = some value :=
  parseUint_eq_some.mpr ⟨formatUint_ne_nil value,
    fun _ => isDigit_of_mem_formatUint, decimal_formatUint value, h⟩

end GoImap
