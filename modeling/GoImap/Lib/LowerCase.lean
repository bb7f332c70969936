import GoImap.Lib.Utf8

/-!
# Letter case

The lower case of a string is taken character by character; a byte that belongs
to no character comes out as the replacement character.  What is needed of the
mapping of characters is that it is the usual one on ASCII, that it leaves a
lower-case character alone and that it makes no symbol or digit.  The simple
mapping of Unicode has these properties.  Of the upper case only the mapping of
ASCII is needed.
-/

namespace Utf8

class LowerCase where
  lower : Char → Char
  lower_ascii : ∀ c, c.toNat < 128 → lower c = c.toLower
  lower_lower : ∀ c, lower (lower c) = lower c
  lower_letter : ∀ c, lower c = c ∨ 128 ≤ (lower c).toNat ∨ (lower c).isLower = true

open LowerCase

variable {s : List UInt8} {c : Char}

section

variable [LowerCase]

def toLower (s : List UInt8) : List UInt8 := encodeAll ((runes s).map lower)

theorem toLower_toLower (s : List UInt8) : toLower (toLower s) = toLower s := by
  have hlower : lower ∘ lower = lower := funext lower_lower
  simp [toLower, runes_encodeAll, hlower]

theorem toLower_ne_nil (h : s ≠ []) : toLower s ≠ [] := by
  rw [toLower, runes, if_neg h]
  simp [encodeAll]

theorem forall_mem_toLower {P : UInt8 → Prop} : (∀ byte ∈ toLower s, P byte) ↔
      ∀ c ∈ runes s, ∀ byte ∈ String.utf8EncodeChar (lower c), P byte := by
  simp only [toLower, encodeAll, List.mem_flatMap, List.mem_map]
  constructor
  · intro h c hc byte hbyte
    exact h byte ⟨lower c, ⟨c, hc, rfl⟩, hbyte⟩
  · rintro h byte ⟨_, ⟨c, hc, rfl⟩, hbyte⟩
    exact h c hc byte hbyte

end

theorem runes_of_ascii (h : ∀ byte ∈ s, byte.toNat < 128) :
    runes s = s.map fun byte => Char.ofNat byte.toNat := by
  induction s with
  | nil => exact runes_nil
  | cons byte rest ih =>
    obtain ⟨hbyte, hrest⟩ := List.forall_mem_cons.mp h
    obtain ⟨c, hnat, hencode⟩ := exists_ascii hbyte
    have hrunes := runes_append c rest
    rw [hencode, List.singleton_append] at hrunes
    rw [hrunes, ih hrest, List.map_cons, ← hnat, Char.ofNat_toNat]

/-! ## Upper case -/

class UpperCase where
  upper : Char → Char
  upper_ascii : ∀ c, c.toNat < 128 → upper c = c.toUpper

def toUpper [UpperCase] (s : List UInt8) : List UInt8 := encodeAll ((runes s).map UpperCase.upper)

def upperByte (byte : UInt8) : UInt8 := UInt8.ofNat (Char.ofNat byte.toNat).toUpper.toNat

theorem toNat_toUpper_lt (h : c.toNat < 128) : c.toUpper.toNat < 128 := by
  have hall : ∀ n < 128, (Char.ofNat n).toUpper.toNat < 128 := by decide
  have hc := hall c.toNat h
  rwa [Char.ofNat_toNat] at hc

theorem toUpper_of_ascii [UpperCase] (h : ∀ byte ∈ s, byte.toNat < 128) :
    toUpper s = s.map upperByte := by
  rw [toUpper, runes_of_ascii h, List.map_map, encodeAll, List.flatMap_map, List.map_eq_flatMap,
    List.flatMap_def, List.flatMap_def]
  refine congrArg List.flatten (List.map_congr_left fun byte hbyte => ?_)
  obtain ⟨c, hnat, -⟩ := exists_ascii (h byte hbyte)
  have hlt : c.toNat < 128 := hnat ▸ h byte hbyte
  rw [Function.comp_apply, upperByte, ← hnat, Char.ofNat_toNat, UpperCase.upper_ascii c hlt,
    utf8EncodeChar_of_lt (toNat_toUpper_lt hlt)]

abbrev asciiUpper : UpperCase where
  upper := Char.toUpper
  upper_ascii := fun _ _ => rfl

theorem isLower_iff : c.isLower = true ↔ 97 ≤ c.toNat ∧ c.toNat ≤ 122 := by
  change (decide (c.val ≥ 97) && decide (c.val ≤ 122)) = true ↔ _
  rw [Bool.and_eq_true, decide_eq_true_eq, decide_eq_true_eq, ge_iff_le,
    UInt32.le_iff_toNat_le, UInt32.le_iff_toNat_le]
  rfl

theorem mem_of_ascii_mem_runes (h : c ∈ runes s) (hlt : c.toNat < 128) :
    UInt8.ofNat c.toNat ∈ s := by
  induction s using induction_runes with
  | nil => simp at h
  | char other rest ih =>
    rw [runes_append, List.mem_cons] at h
    rw [List.mem_append]
    rcases h with rfl | hrest
    · exact .inl (by simp [utf8EncodeChar_of_lt hlt])
    · exact .inr (ih hrest)
  | invalid byte rest hnone ih =>
    rw [runes_of_none hnone, List.mem_cons] at h
    rcases h with rfl | hrest
    · exact absurd hlt (by decide)
    · exact List.mem_cons_of_mem _ (ih hrest)

/-! ## The mapping of Unicode -/

/-- The code points from the first to the last, in steps, are moved so that the
first becomes the target. -/
structure CaseRange where
  first : Nat
  last : Nat
  step : Nat
  target : Nat

namespace CaseRange

def covers (range : CaseRange) (n : Nat) : Bool :=
  Nat.ble range.first n && Nat.ble n range.last && Nat.beq ((n - range.first) % range.step) 0

def move (range : CaseRange) (n : Nat) : Nat := range.target + (n - range.first)

def lastTarget (range : CaseRange) : Nat := range.move range.last

def apart (range other : CaseRange) : Bool :=
  Nat.blt range.lastTarget other.first || Nat.blt other.last range.target ||
    (Nat.beq other.step 2 && (Nat.beq range.step 2 || Nat.beq range.first range.last) &&
      Nat.beq ((range.target + other.first) % 2) 1)

def reachesLetters (range : CaseRange) : Bool :=
  Nat.ble 97 range.target && Nat.ble range.lastTarget 122 ||
    Nat.ble 128 range.target && Nat.blt range.lastTarget 0xD800 ||
    Nat.blt 0xDFFF range.target && Nat.blt range.lastTarget 0x110000

variable {range other : CaseRange} {n : Nat}

theorem covers_eq_true : range.covers n = true ↔ range.first ≤ n ∧ n ≤ range.last ∧
      (n - range.first) % range.step = 0 := by
  simp [covers, and_assoc]

theorem not_covers_move (hapart : range.apart other = true)
    (h : range.covers n = true) : other.covers (range.move n) = false := by
  rw [Bool.eq_false_iff, ne_eq, covers_eq_true]
  rw [covers_eq_true] at h
  simp only [apart, lastTarget, move, Bool.or_eq_true, Bool.and_eq_true,
    Nat.blt_eq, Nat.beq_eq] at hapart
  rw [move]
  rintro ⟨hlow, hhigh, hstep⟩
  rcases hapart with (hbelow | habove) | ⟨⟨htwo, hrange⟩, hodd⟩
  · omega
  · omega
  · rw [htwo] at hstep
    rcases hrange with hrange | hrange
    · rw [hrange] at h
      omega
    · omega

theorem move_letter (hletters : range.reachesLetters = true) (h : range.covers n = true) :
    (range.move n).isValidChar ∧ (128 ≤ range.move n ∨ 97 ≤ range.move n ∧ range.move n ≤ 122) := by
  rw [covers_eq_true] at h
  simp only [reachesLetters, lastTarget, move, Bool.or_eq_true,
    Bool.and_eq_true, Nat.ble_eq, Nat.blt_eq] at hletters
  rw [move, Nat.isValidChar]
  omega

end CaseRange

/-! The simple lower-case mappings of the Unicode character database.  A letter may have its
own, capitals and small letters may alternate, or a block of capitals is moved as a whole. -/

def lowerLetters : List (Nat × Nat) :=
  [(0x130, 0x69), (0x178, 0xFF), (0x181, 0x253), (0x186, 0x254), (0x18E, 0x1DD), (0x18F, 0x259),
    (0x190, 0x25B), (0x193, 0x260), (0x194, 0x263), (0x196, 0x269), (0x197, 0x268), (0x19C, 0x26F),
    (0x19D, 0x272), (0x19F, 0x275), (0x1A6, 0x280), (0x1A9, 0x283), (0x1AE, 0x288), (0x1B7, 0x292),
    (0x1C4, 0x1C6), (0x1C7, 0x1C9), (0x1CA, 0x1CC), (0x1F1, 0x1F3), (0x1F6, 0x195), (0x1F7, 0x1BF),
    (0x220, 0x19E), (0x23A, 0x2C65), (0x23D, 0x19A), (0x23E, 0x2C66), (0x243, 0x180),
    (0x244, 0x289), (0x245, 0x28C), (0x37F, 0x3F3), (0x386, 0x3AC), (0x38C, 0x3CC), (0x3CF, 0x3D7),
    (0x3F4, 0x3B8), (0x3F9, 0x3F2), (0x4C0, 0x4CF), (0x10C7, 0x2D27), (0x10CD, 0x2D2D),
    (0x1E9E, 0xDF), (0x1FBC, 0x1FB3), (0x1FCC, 0x1FC3), (0x1FEC, 0x1FE5), (0x1FFC, 0x1FF3),
    (0x2126, 0x3C9), (0x212A, 0x6B), (0x212B, 0xE5), (0x2132, 0x214E), (0x2C62, 0x26B),
    (0x2C63, 0x1D7D), (0x2C64, 0x27D), (0x2C6D, 0x251), (0x2C6E, 0x271), (0x2C6F, 0x250),
    (0x2C70, 0x252), (0xA77D, 0x1D79), (0xA78D, 0x265), (0xA7AA, 0x266), (0xA7AB, 0x25C),
    (0xA7AC, 0x261), (0xA7AD, 0x26C), (0xA7AE, 0x26A), (0xA7B0, 0x29E), (0xA7B1, 0x287),
    (0xA7B2, 0x29D), (0xA7B3, 0xAB53), (0xA7C4, 0xA794), (0xA7C5, 0x282), (0xA7C6, 0x1D8E)]

def lowerPairs : List (Nat × Nat) :=
  [(0x100, 0x12E), (0x132, 0x136), (0x139, 0x147), (0x14A, 0x176), (0x179, 0x17D), (0x182, 0x184),
    (0x187, 0x187), (0x18B, 0x18B), (0x191, 0x191), (0x198, 0x198), (0x1A0, 0x1A4), (0x1A7, 0x1A7),
    (0x1AC, 0x1AC), (0x1AF, 0x1AF), (0x1B3, 0x1B5), (0x1B8, 0x1B8), (0x1BC, 0x1BC), (0x1C5, 0x1C5),
    (0x1C8, 0x1C8), (0x1CB, 0x1DB), (0x1DE, 0x1EE), (0x1F2, 0x1F4), (0x1F8, 0x21E), (0x222, 0x232),
    (0x23B, 0x23B), (0x241, 0x241), (0x246, 0x24E), (0x370, 0x372), (0x376, 0x376), (0x3D8, 0x3EE),
    (0x3F7, 0x3F7), (0x3FA, 0x3FA), (0x460, 0x480), (0x48A, 0x4BE), (0x4C1, 0x4CD), (0x4D0, 0x52E),
    (0x1E00, 0x1E94), (0x1EA0, 0x1EFE), (0x2183, 0x2183), (0x2C60, 0x2C60), (0x2C67, 0x2C6B),
    (0x2C72, 0x2C72), (0x2C75, 0x2C75), (0x2C80, 0x2CE2), (0x2CEB, 0x2CED), (0x2CF2, 0x2CF2),
    (0xA640, 0xA66C), (0xA680, 0xA69A), (0xA722, 0xA72E), (0xA732, 0xA76E), (0xA779, 0xA77B),
    (0xA77E, 0xA786), (0xA78B, 0xA78B), (0xA790, 0xA792), (0xA796, 0xA7A8), (0xA7B4, 0xA7C2),
    (0xA7C7, 0xA7C9), (0xA7D0, 0xA7D0), (0xA7D6, 0xA7D8), (0xA7F5, 0xA7F5)]

def lowerBlocks : List (Nat × Nat × Nat) :=
  [(0x41, 0x5A, 0x61), (0xC0, 0xD6, 0xE0), (0xD8, 0xDE, 0xF8), (0x189, 0x18A, 0x256),
    (0x1B1, 0x1B2, 0x28A), (0x388, 0x38A, 0x3AD), (0x38E, 0x38F, 0x3CD), (0x391, 0x3A1, 0x3B1),
    (0x3A3, 0x3AB, 0x3C3), (0x3FD, 0x3FF, 0x37B), (0x400, 0x40F, 0x450), (0x410, 0x42F, 0x430),
    (0x531, 0x556, 0x561), (0x10A0, 0x10C5, 0x2D00), (0x13A0, 0x13EF, 0xAB70),
    (0x13F0, 0x13F5, 0x13F8), (0x1C90, 0x1CBA, 0x10D0), (0x1CBD, 0x1CBF, 0x10FD),
    (0x1F08, 0x1F0F, 0x1F00), (0x1F18, 0x1F1D, 0x1F10), (0x1F28, 0x1F2F, 0x1F20),
    (0x1F38, 0x1F3F, 0x1F30), (0x1F48, 0x1F4D, 0x1F40), (0x1F68, 0x1F6F, 0x1F60),
    (0x1F88, 0x1F8F, 0x1F80), (0x1F98, 0x1F9F, 0x1F90), (0x1FA8, 0x1FAF, 0x1FA0),
    (0x1FB8, 0x1FB9, 0x1FB0), (0x1FBA, 0x1FBB, 0x1F70), (0x1FC8, 0x1FCB, 0x1F72),
    (0x1FD8, 0x1FD9, 0x1FD0), (0x1FDA, 0x1FDB, 0x1F76), (0x1FE8, 0x1FE9, 0x1FE0),
    (0x1FEA, 0x1FEB, 0x1F7A), (0x1FF8, 0x1FF9, 0x1F78), (0x1FFA, 0x1FFB, 0x1F7C),
    (0x2160, 0x216F, 0x2170), (0x24B6, 0x24CF, 0x24D0), (0x2C00, 0x2C2F, 0x2C30),
    (0x2C7E, 0x2C7F, 0x23F), (0xFF21, 0xFF3A, 0xFF41), (0x10400, 0x10427, 0x10428),
    (0x104B0, 0x104D3, 0x104D8), (0x10570, 0x1057A, 0x10597), (0x1057C, 0x1058A, 0x105A3),
    (0x1058C, 0x10592, 0x105B3), (0x10594, 0x10595, 0x105BB), (0x10C80, 0x10CB2, 0x10CC0),
    (0x118A0, 0x118BF, 0x118C0), (0x16E40, 0x16E5F, 0x16E60), (0x1E900, 0x1E921, 0x1E922)]

def lowerRanges : List CaseRange :=
  ⟨0x1F59, 0x1F5F, 2, 0x1F51⟩ :: lowerLetters.map (fun range => ⟨range.1, range.1, 1, range.2⟩) ++
    lowerPairs.map (fun range => ⟨range.1, range.2, 2, range.1 + 1⟩) ++
    lowerBlocks.map fun range => ⟨range.1, range.2.1, 1, range.2.2⟩

def unicodeLower (c : Char) : Char :=
  match lowerRanges.find? (·.covers c.toNat) with
  | none => c
  | some range => Char.ofNat (range.move c.toNat)

theorem lowerRanges_apart :
    (lowerRanges.all fun range => range.reachesLetters && lowerRanges.all range.apart) = true := by
  decide +kernel

theorem unicodeLower_cases (c : Char) :
    unicodeLower c = c ∨ ∃ range ∈ lowerRanges, range.covers c.toNat = true ∧
      unicodeLower c = Char.ofNat (range.move c.toNat) := by
  rw [unicodeLower]
  cases hfind : lowerRanges.find? (·.covers c.toNat) with
  | none => exact .inl rfl
  | some range =>
    have hcovers : range.covers c.toNat = true := by
      simpa using @List.find?_some CaseRange _ _ _ hfind
    exact .inr ⟨range, List.mem_of_find?_eq_some hfind, hcovers, rfl⟩

theorem toNat_move {range : CaseRange} (hmem : range ∈ lowerRanges)
    {n : Nat} (h : range.covers n = true) :
    (Char.ofNat (range.move n)).toNat = range.move n ∧
      (128 ≤ range.move n ∨ 97 ≤ range.move n ∧ range.move n ≤ 122) ∧
      ∀ other ∈ lowerRanges, other.covers (range.move n) = false := by
  have hrange := List.all_eq_true.mp lowerRanges_apart range hmem
  rw [Bool.and_eq_true, List.all_eq_true] at hrange
  obtain ⟨hvalid, hletter⟩ := CaseRange.move_letter hrange.1 h
  exact ⟨toNat_ofNat hvalid, hletter, fun other hother =>
    CaseRange.not_covers_move (hrange.2 other hother) h⟩

theorem unicodeLower_ascii : ((List.range 128).all fun n =>
      unicodeLower (Char.ofNat n) == (Char.ofNat n).toLower) = true := by
  decide +kernel

abbrev unicode : LowerCase where
  lower := unicodeLower
  lower_ascii := fun c hlt => by
    have hall := List.all_eq_true.mp unicodeLower_ascii c.toNat (List.mem_range.mpr hlt)
    rwa [Char.ofNat_toNat, beq_iff_eq] at hall
  lower_lower := fun c => by
    rcases unicodeLower_cases c with hsame | ⟨range, hmem, hcovers, hmove⟩
    · rw [hsame, hsame]
    · obtain ⟨hnat, -, hnone⟩ := toNat_move hmem hcovers
      have hfind : lowerRanges.find? (·.covers (Char.ofNat (range.move c.toNat)).toNat) = none := by
        rw [List.find?_eq_none, hnat]
        intro other hother
        simp [hnone other hother]
      rw [hmove, unicodeLower, hfind]
  lower_letter := fun c => by
    rcases unicodeLower_cases c with hsame | ⟨range, hmem, hcovers, hmove⟩
    · exact .inl hsame
    · obtain ⟨hnat, hletter, -⟩ := toNat_move hmem hcovers
      rw [hmove, hnat]
      refine .inr (hletter.imp id fun hletter => ?_)
      rwa [isLower_iff, hnat]

end Utf8
