import GoImap.Lib.LowerCase
import GoImap.Wire.Strings

/-!
# Flags on the wire

A flag is written as it is, if it is an atom with at most a backslash in front.
The reader takes such an atom, gives a flag of the standards its usual spelling
and leaves any other as it is.
-/

namespace GoImap

def flagWildcard : Flag := ascii "\\*"

namespace Wire

def star : UInt8 := 42

def isValidFlag (s : Bytes) : Bool := s ≠ [] ∧ s.zipIdx.all fun (ch, i) =>
    if ch = backslash then i = 0 else isAtomChar ch

namespace Encoder

/-- `%q`, which quotes the flag, is left out of the text. -/
def flag (enc : Encoder) (flag : Flag) : Encoder :=
  if flag ≠ flagWildcard ∧ !isValidFlag flag then
    enc.setErr "imapwire: invalid flag"
  else enc.writeString flag

def mailboxAttr (enc : Encoder) (attr : Bytes) : Encoder :=
  if attr.head? ≠ some backslash ∨ !isValidFlag attr then
    enc.setErr "imapwire: invalid mailbox attribute"
  else enc.writeString attr

end Encoder

end Wire

namespace Internal

open Wire Utf8

def standardFlags : List Flag :=
  ["\\Seen", "\\Answered", "\\Flagged", "\\Deleted", "\\Draft", "$Forwarded",
    "$MDNSent", "$Junk", "$NotJunk", "$Phishing", "$Important"].map ascii

/-- A later entry of `canonFlag` would replace an earlier one with its key. -/
def canonicalFlag [LowerCase] (s : Bytes) : Flag :=
  match standardFlags.reverse.find? (toLower · = toLower s) with
  | some flag => flag
  | none => s

def isListedFlagChar (ch : UInt8) : Bool := isAtomChar ch || ch == 93

/-- The part of `expectFlag` behind the backslash.  Without a result, the error
wraps the one of the decoder. -/
def expectFlagName [LowerCase] (options : Options) (dec : Decoder)
    (listed isSystem : Bool) : Option Flag × Decoder :=
  match dec.func options (if listed then isListedFlagChar else isAtomChar) with
  | (none, dec) =>
    (none, (dec.expect false (if listed then "flag" else "atom")).2)
  | (some name, dec) =>
    (some (canonicalFlag (if isSystem then backslash :: name else name)), dec)

def expectFlag [LowerCase] (options : Options) (dec : Decoder)
    (listed : Bool) : Option Flag × Decoder :=
  match dec.acceptByte options backslash with
  | (false, dec) => expectFlagName options dec listed false
  | (true, dec) =>
    match dec.acceptByte options Wire.star with
    | (true, dec) => (some flagWildcard, dec)
    | (false, dec) => expectFlagName options dec listed true

/-! ## What is read and what is written -/

def IsFlag (s : Bytes) : Prop := ∃ name, isAtom name = true ∧ (s = name ∨ s = backslash :: name)

theorem isAtom_iff {name : Bytes} : isAtom name = true ↔
      name ≠ [] ∧ ∀ byte ∈ name, isAtomChar byte = true := by
  simp [isAtom]

variable {s : Bytes} {options : Options} {dec : Decoder}

theorem all_zipIdx_of_pos {start : Nat} (hpos : 0 < start) : ((s.zipIdx start).all fun (ch, i) =>
      if ch = backslash then i = 0 else isAtomChar ch) = s.all isAtomChar := by
  induction s generalizing start with
  | nil => rfl
  | cons first rest ih =>
    rw [List.zipIdx_cons, List.all_cons, List.all_cons, ih (Nat.succ_pos start)]
    congr 1
    by_cases hfirst : first = backslash
    · rw [hfirst]
      simp only [if_true, Nat.ne_of_gt hpos, decide_false]
      decide
    · simp [hfirst]

theorem isValidFlag_cons (first : UInt8) (rest : Bytes) :
    isValidFlag (first :: rest) = true ↔ (first = backslash ∨ isAtomChar first = true) ∧
        ∀ byte ∈ rest, isAtomChar byte = true := by
  rw [isValidFlag, decide_eq_true_eq, List.zipIdx_cons, List.all_cons,
    all_zipIdx_of_pos (Nat.succ_pos 0)]
  by_cases hfirst : first = backslash
  · simp [hfirst]
  · simp [hfirst]

theorem not_isAtomChar_backslash : isAtomChar backslash = false := by
  decide

theorem IsFlag.isValidFlag (h : IsFlag s) : isValidFlag s = true := by
  obtain ⟨name, hname, rfl | rfl⟩ := h
  · rw [isAtom_iff] at hname
    cases s with
    | nil => exact absurd rfl hname.1
    | cons first rest =>
      rw [isValidFlag_cons]
      exact ⟨.inr (hname.2 first List.mem_cons_self), fun byte hbyte =>
        hname.2 byte (List.mem_cons_of_mem _ hbyte)⟩
  · rw [isValidFlag_cons]
    exact ⟨.inl rfl, (isAtom_iff.mp hname).2⟩

theorem acceptByte_atom {name rest : Bytes} {byte want : UInt8}
    (hname : isAtom name = true) (hwant : isAtomChar want = false)
    (h : Decoder.Room options dec 0) (hrest : dec.rest = name ++ byte :: rest) :
    dec.acceptByte options want = (false, dec.advance []) := by
  obtain ⟨hne, hall⟩ := isAtom_iff.mp hname
  cases name with
  | nil => exact absurd rfl hne
  | cons first tail =>
    refine Decoder.acceptByte_miss want h hrest ?_
    rintro rfl
    rw [hall first List.mem_cons_self] at hwant
    cases hwant

def nameChar (listed : Bool) : UInt8 → Bool :=
  if listed then isListedFlagChar else isAtomChar

theorem nameChar_of_isAtomChar {byte : UInt8} (h : isAtomChar byte = true)
    (listed : Bool) : nameChar listed byte = true := by
  cases listed with
  | true => simp [nameChar, isListedFlagChar, h]
  | false => exact h

section

variable [LowerCase]

theorem toLower_canonicalFlag (s : Bytes) : toLower (canonicalFlag s) = toLower s := by
  rw [canonicalFlag]
  cases hfind : standardFlags.reverse.find? (toLower · = toLower s) with
  | none => rfl
  | some flag => simpa using List.find?_some hfind

theorem expectFlagName_reads {next : Decoder} {isSystem : Bool} {flag : Flag}
    (h : expectFlagName options dec false isSystem = (some flag, next)) :
    ∃ name, isAtom name = true ∧ dec.rest = name ++ next.rest ∧
      flag = canonicalFlag (if isSystem then backslash :: name else name) := by
  obtain ⟨bytes, hreads, hall, hresult⟩ := @Decoder.func_reads options dec isAtomChar
  rw [expectFlagName] at h
  simp only [Bool.false_eq_true, if_false] at h
  rcases hfunc : dec.func options isAtomChar with ⟨result, after⟩
  rw [hfunc] at h hreads hresult
  cases result with
  | none => cases (Prod.mk.inj h).1
  | some name =>
    obtain ⟨rfl, hne⟩ := hresult name rfl
    obtain ⟨hflag, rfl⟩ := Prod.mk.inj h
    exact ⟨name, isAtom_iff.mpr ⟨hne, hall⟩, hreads.rest_eq, (Option.some.inj hflag).symm⟩

theorem expectFlag_reads {next : Decoder} {flag : Flag}
    (h : expectFlag options dec false = (some flag, next)) :
    ∃ s, dec.rest = s ++ next.rest ∧ (s = flagWildcard ∨ IsFlag s ∧ flag = canonicalFlag s) := by
  have hsystem := (@Decoder.acceptByte_reads options dec backslash).rest_eq
  rw [expectFlag] at h
  rcases hfirst : dec.acceptByte options backslash with ⟨isSystem, second⟩
  rw [hfirst] at h hsystem
  cases isSystem with
  | false =>
    obtain ⟨name, hname, hrest, hflag⟩ := expectFlagName_reads h
    exact ⟨name, hsystem.trans hrest, .inr ⟨⟨name, hname, .inl rfl⟩, hflag⟩⟩
  | true =>
    have hstar := (@Decoder.acceptByte_reads options second Wire.star).rest_eq
    simp only at h
    rcases hsecond : second.acceptByte options Wire.star with ⟨wildcard, third⟩
    rw [hsecond] at h hstar
    rw [hstar] at hsystem
    cases wildcard with
    | true =>
      obtain ⟨-, rfl⟩ := Prod.mk.inj h
      exact ⟨flagWildcard, hsystem, .inl rfl⟩
    | false =>
      obtain ⟨name, hname, hrest, hflag⟩ := expectFlagName_reads h
      simp only [Bool.false_eq_true, if_false, List.nil_append] at hsystem
      rw [hrest] at hsystem
      exact ⟨backslash :: name, hsystem, .inr ⟨⟨name, hname, .inr rfl⟩, hflag⟩⟩

section

variable {name rest : Bytes} {byte : UInt8} {listed : Bool}

theorem expectFlagName_advance (hname : isAtom name = true) (hstop : nameChar listed byte = false)
    (h : Decoder.Room options dec name.length)
    (hrest : dec.rest = name ++ byte :: rest) (isSystem : Bool) :
    expectFlagName options (dec.advance []) listed isSystem =
      (some (canonicalFlag (if isSystem then backslash :: name else name)), dec.advance name) := by
  obtain ⟨hne, hall⟩ := isAtom_iff.mp hname
  have hroom : Decoder.Room options (dec.advance []) name.length :=
    Decoder.Room.advance (by simpa using h)
  have hfunc := Decoder.func_advance
    (fun other hother => nameChar_of_isAtomChar (hall other hother) listed) hne
    hstop hroom (@Decoder.advance_rest [] dec _ hrest)
  rw [Decoder.advance_advance, List.nil_append] at hfunc
  rw [expectFlagName, ← nameChar, hfunc]

theorem expectFlag_advance (hs : IsFlag s) (hstop : nameChar listed byte = false)
    (h : Decoder.Room options dec s.length) (hrest : dec.rest = s ++ byte :: rest) :
    expectFlag options dec listed = (some (canonicalFlag s), dec.advance s) := by
  obtain ⟨name, hname, rfl | rfl⟩ := hs
  · rw [expectFlag, acceptByte_atom hname not_isAtomChar_backslash (h.mono (Nat.zero_le _)) hrest]
    exact expectFlagName_advance hname hstop h hrest false
  · rw [List.length_cons, Nat.add_comm] at h
    have hroom : Decoder.Room options (dec.advance [backslash]) name.length :=
      Decoder.Room.advance h
    have hname_rest : (dec.advance [backslash]).rest = name ++ byte :: rest :=
      Decoder.advance_rest hrest
    rw [expectFlag, Decoder.acceptByte_hit (h.mono (Nat.zero_le _)) hrest]
    simp only
    rw [acceptByte_atom hname (by decide) (hroom.mono (Nat.zero_le _)) hname_rest]
    simp only
    rw [expectFlagName_advance hname hstop hroom hname_rest, Decoder.advance_advance]
    rfl

end

end

end Internal

end GoImap
