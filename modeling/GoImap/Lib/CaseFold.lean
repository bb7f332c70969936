import GoImap.Lib.LowerCase

/-!
# Equality up to letter case

Two strings are compared character by character; a byte that belongs to no
character counts as the replacement character.  Each character is folded to
the one that stands for all its spellings.  All that is needed of the folding
is that among ASCII characters it relates the two cases of a letter and no
more, which is true of the simple folding of Unicode.
-/

namespace Utf8

class CaseFold where
  fold : Char → Char
  fold_ascii : ∀ c d, c.toNat < 128 → d.toNat < 128 → (fold c = fold d ↔ c.toLower = d.toLower)

def equalFold [CaseFold] (s t : List UInt8) : Bool :=
  (runes s).map CaseFold.fold = (runes t).map CaseFold.fold

abbrev asciiFold : CaseFold where
  fold := Char.toLower
  fold_ascii := fun _ _ _ _ => Iff.rfl

def lowerByte (byte : UInt8) : UInt8 := UInt8.ofNat (Char.ofNat byte.toNat).toLower.toNat

theorem lowerByte_eq_iff {a b : UInt8} (ha : a.toNat < 128) (hb : b.toNat < 128) :
    lowerByte a = lowerByte b ↔ (Char.ofNat a.toNat).toLower = (Char.ofNat b.toNat).toLower := by
  have hall : ∀ n < 128, (Char.ofNat n).toLower.toNat < 256 := by decide
  constructor
  · intro h
    have hnat := congrArg UInt8.toNat h
    simp only [lowerByte, UInt8.toNat_ofNat'] at hnat
    rw [Nat.mod_eq_of_lt (hall _ ha), Nat.mod_eq_of_lt (hall _ hb)] at hnat
    rw [← Char.ofNat_toNat (Char.ofNat a.toNat).toLower, hnat, Char.ofNat_toNat]
  · intro h
    rw [lowerByte, lowerByte, h]

theorem equalFold_iff_of_ascii [CaseFold] {s t : List UInt8}
    (hs : ∀ byte ∈ s, byte.toNat < 128) (ht : ∀ byte ∈ t, byte.toNat < 128) :
    equalFold s t = true ↔ s.map lowerByte = t.map lowerByte := by
  rw [equalFold, decide_eq_true_eq, runes_of_ascii hs, runes_of_ascii ht]
  induction s generalizing t with
  | nil => cases t <;> simp
  | cons a s ih =>
    cases t with
    | nil => simp
    | cons b t =>
      obtain ⟨ha, hs⟩ := List.forall_mem_cons.mp hs
      obtain ⟨hb, ht⟩ := List.forall_mem_cons.mp ht
      have hascii : ∀ {byte : UInt8}, byte.toNat < 128 → (Char.ofNat byte.toNat).toNat < 128 := by
        intro byte hbyte
        rwa [toNat_ofNat (.inl (by omega))]
      simp only [List.map_cons, List.cons.injEq]
      rw [ih hs ht, CaseFold.fold_ascii _ _ (hascii ha) (hascii hb), lowerByte_eq_iff ha hb]

end Utf8
