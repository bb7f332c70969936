import GoImap.MemServer.Mailbox
import GoImap.Wire.Flags

/-!
# Keywords that can be reported

A keyword is stored in lower case.  Whether it was accepted is decided octet by
octet, its lower case is taken character by character, and the UTF-8 of the
result may contain an octet of 0x80 to 0x9F, which no flag may contain.
-/

namespace GoImap.MemServer

open Wire Internal Utf8

instance unicodeCaseMapping [LowerCase] : CaseMapping where
  toLower := Utf8.toLower

theorem isAtomChar_lower_ascii :
    ((List.range 128).all fun n => (Char.ofNat n).toLower.toNat < 128 &&
      (!isAtomChar (UInt8.ofNat n) ||
        isAtomChar (UInt8.ofNat (Char.ofNat n).toLower.toNat))) = true := by
  decide +kernel

theorem isAtomChar_letter : ((List.range 123).all fun n => n < 97 || isAtomChar (UInt8.ofNat n)) =
      true := by
  decide +kernel

theorem isAtomChar_of_encodes {stored : Flag} (h : (newEncoder.flag stored).err = none)
    {byte : UInt8} (hmem : byte ∈ stored) : isAtomChar byte = true ∨ byte.toNat < 128 := by
  rw [Encoder.flag] at h
  split_ifs at h with hinvalid
  · cases h
  · rw [not_and_or, not_ne_iff, Bool.not_eq_true', Bool.not_eq_false] at hinvalid
    rcases hinvalid with rfl | hvalid
    · have hascii : flagWildcard.all (fun byte => byte.toNat < 128) = true := by
        decide
      exact .inr (of_decide_eq_true (List.all_eq_true.mp hascii byte hmem))
    · cases stored with
      | nil => cases hmem
      | cons first rest =>
        rw [isValidFlag_cons] at hvalid
        rcases List.mem_cons.mp hmem with rfl | hrest
        · rcases hvalid.1 with rfl | hatom
          · exact .inr (by decide)
          · exact .inl hatom
        · exact .inl (hvalid.2 byte hrest)

section

variable [LowerCase]

/-- A stored flag is written by every encoder that is in order, and what is
written is read back as a flag that is stored in the same way. -/
structure Reportable (stored : Flag) : Prop where
  encodes : ∀ before, Encoder.flag ⟨before, none, false⟩ stored = ⟨before ++ stored, none, false⟩
  reads : ∀ (options : Options) (dec : Decoder) (byte : UInt8) (rest : Bytes),
    isAtomChar byte = false → Decoder.Room options dec stored.length →
    dec.rest = stored ++ byte :: rest →
    ∃ flag next, expectFlag options dec false = (some flag, next) ∧
      next.rest = byte :: rest ∧ next.err = none ∧
      MemServer.canonicalFlag flag = stored

def lowersToAtom (c : Char) : Bool := (String.utf8EncodeChar (LowerCase.lower c)).all isAtomChar

theorem lowersToAtom_ascii {c : Char} (hlt : c.toNat < 128)
    (h : isAtomChar (UInt8.ofNat c.toNat) = true) : lowersToAtom c = true := by
  have hlower := List.all_eq_true.mp isAtomChar_lower_ascii c.toNat (List.mem_range.mpr hlt)
  rw [Char.ofNat_toNat, h, Bool.and_eq_true, decide_eq_true_eq] at hlower
  rw [lowersToAtom, LowerCase.lower_ascii c hlt, utf8EncodeChar_of_lt hlower.1]
  simpa using hlower.2

theorem isAtomChar_lower {c : Char} (hge : 128 ≤ c.toNat) {byte : UInt8}
    (hmem : byte ∈ String.utf8EncodeChar (LowerCase.lower c))
    (hlt : byte.toNat < 128) : isAtomChar byte = true := by
  have hsmall : (LowerCase.lower c).toNat < 128 := by
    by_contra hlarge
    have hbyte := utf8EncodeChar_of_ge (Nat.not_lt.mp hlarge) hmem
    omega
  rw [utf8EncodeChar_of_lt hsmall, List.mem_singleton] at hmem
  rcases LowerCase.lower_letter c with hsame | hlarge | hletter
  · rw [hsame] at hsmall
    omega
  · omega
  · rw [isLower_iff] at hletter
    have hall := List.all_eq_true.mp isAtomChar_letter
      (LowerCase.lower c).toNat (List.mem_range.mpr (by omega))
    rw [Bool.or_eq_true, decide_eq_true_eq] at hall
    rw [hmem]
    exact hall.resolve_left (by omega)

theorem toLower_backslash (name : Bytes) :
    toLower (backslash :: name) = backslash :: toLower name := by
  have hrunes := runes_append '\\' name
  have hlower := LowerCase.lower_ascii '\\' (by decide)
  have hencode : String.utf8EncodeChar '\\' = [backslash] := by decide
  rw [hencode, List.singleton_append] at hrunes
  rw [toLower, hrunes, List.map_cons, hlower, encodeAll, List.flatMap_cons,
    show '\\'.toLower = '\\' by decide, hencode]
  rfl

theorem isAtom_toLower {name : Bytes} (hname : isAtom name = true)
    (h : ∀ c ∈ runes name, 128 ≤ c.toNat → lowersToAtom c = true) :
    isAtom (toLower name) = true := by
  obtain ⟨hne, hall⟩ := isAtom_iff.mp hname
  refine isAtom_iff.mpr ⟨toLower_ne_nil hne, forall_mem_toLower.mpr ?_⟩
  intro c hc
  have hlowers : lowersToAtom c = true := by
    by_cases hlt : c.toNat < 128
    · exact lowersToAtom_ascii hlt (hall _ (mem_of_ascii_mem_runes hc hlt))
    · exact h c hc (Nat.not_lt.mp hlt)
  exact List.all_eq_true.mp hlowers

theorem isFlag_toLower {s : Bytes} (hs : IsFlag s)
    (h : ∀ c ∈ runes s, 128 ≤ c.toNat → lowersToAtom c = true) :
    IsFlag (toLower s) := by
  obtain ⟨name, hname, rfl | rfl⟩ := hs
  · exact ⟨toLower s, isAtom_toLower hname h, .inl rfl⟩
  · refine ⟨toLower name, isAtom_toLower hname fun c hc => h c ?_, .inr (toLower_backslash name)⟩
    obtain ⟨first, -, hrunes⟩ := runes_ascii (show backslash.toNat < 128 by decide) name
    rw [hrunes]
    exact List.mem_cons_of_mem _ hc

theorem lowersToAtom_of_encodes {s : Bytes} (h : (newEncoder.flag (toLower s)).err = none)
    {c : Char} (hc : c ∈ runes s) (hge : 128 ≤ c.toNat) : lowersToAtom c = true := by
  have hall := forall_mem_toLower.mp (fun byte => isAtomChar_of_encodes h) c hc
  rw [lowersToAtom, List.all_eq_true]
  intro byte hbyte
  rcases hall byte hbyte with hatom | hlt
  · exact hatom
  · exact isAtomChar_lower hge hbyte hlt

theorem reportable_of_isFlag {s : Bytes} (h : IsFlag (toLower s)) : Reportable (toLower s) where
  encodes := fun before => by
    simp [Encoder.flag, h.isValidFlag]
  reads := fun options dec byte rest hstop hroom hrest =>
    ⟨_, _, expectFlag_advance h hstop hroom hrest, Decoder.advance_rest hrest, hroom.running, by
        show toLower (Internal.canonicalFlag (toLower s)) = toLower s
        rw [toLower_canonicalFlag, toLower_toLower]⟩

/--
A flag that was read, and is no wildcard, can be reported as it is stored
exactly if the lower case of each of its characters outside of ASCII is written
in octets of atoms.
-/
theorem flag_reportable (options : Options) (dec next : Decoder) (s : Bytes) (flag : Flag)
    (hflag : expectFlag options dec false = (some flag, next))
    (hs : dec.rest = s ++ next.rest) (hwildcard : s ≠ flagWildcard) :
    Reportable (MemServer.canonicalFlag flag) ↔
      ∀ c ∈ runes s, 128 ≤ c.toNat → lowersToAtom c = true := by
  obtain ⟨read, hread, hkind⟩ := expectFlag_reads hflag
  obtain rfl : s = read := List.append_cancel_right (hs.symm.trans hread)
  obtain ⟨hisFlag, rfl⟩ := hkind.resolve_left hwildcard
  have hstored : MemServer.canonicalFlag (Internal.canonicalFlag s) =
      toLower s := toLower_canonicalFlag s
  rw [hstored]
  constructor
  · intro h c hc hge
    exact lowersToAtom_of_encodes (congrArg Encoder.err (h.encodes [])) hc hge
  · intro h
    exact reportable_of_isFlag (isFlag_toLower hisFlag h)

theorem expectFlag_plainServer {s : Bytes} (hs : IsFlag s) :
    expectFlag plainServer (newDecoder (s ++ [SP])) false =
      (some (Internal.canonicalFlag s), (newDecoder (s ++ [SP])).advance s) :=
  expectFlag_advance hs (by decide) ⟨rfl, rfl, fun h => absurd h (by decide)⟩ rfl

end

theorem flag_reportable_accented : ∃ flag next, @expectFlag unicode plainServer
        (newDecoder ([0xC3, 0xA9] ++ [SP])) false = (some flag, next) ∧
      @Reportable unicode (@MemServer.canonicalFlag (@unicodeCaseMapping unicode) flag) := by
  have hisFlag : IsFlag [0xC3, 0xA9] := ⟨[0xC3, 0xA9], by decide, .inl rfl⟩
  have hread := @expectFlag_plainServer unicode _ hisFlag
  refine ⟨_, _, hread, ?_⟩
  refine (@flag_reportable unicode _ _ _ [0xC3, 0xA9] _ hread rfl (by decide)).mpr ?_
  intro c hc hge
  rw [show [0xC3, 0xA9] = String.utf8EncodeChar 'é' by decide,
    runes_singleton, List.mem_singleton] at hc
  rw [hc]
  decide +kernel

/-- The keyword "Ŀ" is accepted, and its lower case is no flag. -/
theorem flag_not_reportable : ∃ flag next, @expectFlag unicode plainServer
        (newDecoder ([0xC4, 0xBF] ++ [SP])) false = (some flag, next) ∧
      next.rest = [SP] ∧ next.err = none ∧
      (newEncoder.flag (@MemServer.canonicalFlag (@unicodeCaseMapping unicode) flag)).err ≠
          none := by
  have hisFlag : IsFlag [0xC4, 0xBF] := ⟨[0xC4, 0xBF], by decide, .inl rfl⟩
  refine ⟨_, _, @expectFlag_plainServer unicode _ hisFlag, rfl, rfl, fun hnone => ?_⟩
  have hstored : @MemServer.canonicalFlag (@unicodeCaseMapping unicode)
      (@Internal.canonicalFlag unicode [0xC4, 0xBF]) = @toLower unicode [0xC4, 0xBF] :=
    @toLower_canonicalFlag unicode [0xC4, 0xBF]
  have hmem : 'Ŀ' ∈ runes [0xC4, 0xBF] := by
    rw [show [0xC4, 0xBF] = String.utf8EncodeChar 'Ŀ' by decide, runes_singleton]
    exact List.mem_singleton_self _
  rw [hstored] at hnone
  have hlowers := @lowersToAtom_of_encodes unicode _ hnone _ hmem (by decide)
  revert hlowers
  decide +kernel

end GoImap.MemServer
