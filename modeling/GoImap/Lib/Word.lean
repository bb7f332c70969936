import Mathlib.Algebra.Group.Nat.Defs
import Mathlib.Data.Nat.Basic
import Mathlib.Tactic.Common

/-!
# Machine words read as natural numbers

The counters of a modelled program are fixed-width words.  The facts below say
when an operation on words agrees with the same operation on naturals, so that
proofs about counters can be carried out by linear arithmetic.
-/

namespace Word

variable {word : UInt32} {value : Nat}

theorem ne_zero_iff : word ≠ 0 ↔ 0 < word.toNat := by
  constructor
  · intro h
    apply Nat.pos_of_ne_zero
    intro hzero
    exact h (UInt32.toNat_inj.mp hzero)
  · rintro h rfl
    simp at h

theorem one_le_iff : 1 ≤ word ↔ word ≠ 0 := by
  rw [ne_zero_iff, UInt32.le_iff_toNat_le]
  rfl

theorem toNat_succ (limit : UInt32) (h : word.toNat < limit.toNat) :
    (word + 1).toNat = word.toNat + 1 := by
  have hlimit := limit.toNat_lt
  simp
  omega

theorem toNat_pred (h : word ≠ 0) : (word - 1).toNat = word.toNat - 1 := by
  rw [UInt32.toNat_sub_of_le _ _ (one_le_iff.mpr h)]
  rfl

theorem toNat_ofNat_succ (h : value + 1 < 2 ^ 32) : (UInt32.ofNat value + 1).toNat = value + 1 := by
  rw [UInt32.toNat_add]
  simp
  omega

theorem toNat_ofNat_of_lt (h : value < 2 ^ 32) : (UInt32.ofNat value).toNat = value := by
  simp
  omega

theorem toNat_add_ofNat {word : UInt64} (h : word.toNat + value < 2 ^ 64) :
    (word + UInt64.ofNat value).toNat = word.toNat + value := by
  rw [UInt64.toNat_add, UInt64.toNat_ofNat']
  omega

theorem add_ofNat_lt {word : UInt64} (hvalue : value < 2 ^ 64)
    (h : word ≤ word + UInt64.ofNat value) : word.toNat + value < 2 ^ 64 := by
  rw [UInt64.le_iff_toNat_le, UInt64.toNat_add, UInt64.toNat_ofNat'] at h
  have hlt := word.toNat_lt
  omega

end Word
