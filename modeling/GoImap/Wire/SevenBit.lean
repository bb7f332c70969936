import GoImap.Wire.Mailbox

/-!
# Octets above 0x7F

Without raw UTF-8 in quoted strings, a string goes out in quotes only if it is
ASCII, and a mailbox name as modified UTF-7, which is ASCII.  An atom is taken
as it is: `IsAtomChar` refuses controls only, and those of Latin-1 end at 0x9F.
-/

namespace GoImap.Wire

/-- No octet is above 0x7F, but in the payload of a literal. -/
inductive SevenBit : Bytes → Prop where
  | text {bytes : Bytes} (hascii : ∀ byte ∈ bytes, byte ≤ 127) : SevenBit bytes
  | literal {line payload : Bytes} (nonSync : Bool)
      (hline : line = Decoder.announced (formatUint payload.length) nonSync)
      (hascii : ∀ byte ∈ line, byte ≤ 127) :
      SevenBit (line ++ [CR, LF] ++ payload)

def WritesSevenBit (write : Encoder → Encoder) : Prop :=
  ∀ before, ∃ out, (write ⟨before, none, false⟩).written = before ++ out ∧ SevenBit out

theorem le_of_isDigit {byte : UInt8} (h : isDigit byte = true) : byte ≤ 127 := by
  rw [isDigit, decide_eq_true_eq] at h
  exact UInt8.le_trans h.2 (by decide)

theorem announced_le (size : Nat) (nonSync : Bool) :
    ∀ byte ∈ Decoder.announced (formatUint size) nonSync, byte ≤ 127 :=
  forall_mem_announced (by decide) (fun _ h => le_of_isDigit h) (by decide) (by decide) size nonSync

namespace SevenBit

theorem of_announced (size : Nat) (nonSync : Bool) :
    SevenBit (Decoder.announced (formatUint size) nonSync ++ [CR, LF]) := by
  refine .text fun byte hbyte => ?_
  rcases List.mem_append.mp hbyte with hline | hend
  · exact announced_le size nonSync byte hline
  · simp only [List.mem_cons, List.not_mem_nil, or_false] at hend
    rcases hend with rfl | rfl
    · decide
    · decide

theorem first_ne {bytes : Bytes} {first : UInt8} (h : SevenBit bytes)
    (hfirst : bytes.head? = some first) (hbrace : first ≠ openBrace) :
    ∀ byte ∈ bytes, byte ≤ 127 := by
  cases h with
  | text hascii => exact hascii
  | literal nonSync hline hascii =>
    rw [hline, Decoder.announced] at hfirst
    exact absurd (Option.some.inj hfirst).symm hbrace

end SevenBit

namespace WritesSevenBit

variable {options : EncoderOptions} {s : Bytes}

theorem stringLiteral : WritesSevenBit fun enc => enc.stringLiteral options s := by
  intro before
  obtain ⟨out, hout, hwritten⟩ := @Encoder.stringLiteral_written options before s
  refine ⟨out, hwritten, ?_⟩
  rcases hout with rfl | ⟨nonSync, payload, rfl | rfl, rfl⟩
  · exact .text (by simp)
  · exact .literal nonSync rfl (announced_le _ _)
  · rw [List.append_nil]
    exact .of_announced _ _

theorem string (hutf8 : options.quotedUTF8 = false) :
    WritesSevenBit fun enc => enc.string options s := by
  intro before
  simp only [Encoder.string]
  cases hquoted : options.validQuoted s with
  | true =>
    refine ⟨quote :: Encoder.escape s ++ [quote], rfl, .text ?_⟩
    rw [EncoderOptions.validQuoted, decide_eq_true_eq, List.all_eq_true] at hquoted
    refine forall_mem_quoted (by decide) (by decide) fun byte hbyte => ?_
    have hascii := (of_decide_eq_true (hquoted.2 byte hbyte)).2
    simpa [hutf8] using hascii
  | false => exact stringLiteral before

theorem atom : WritesSevenBit (fun enc => enc.atom s) ↔ SevenBit s := by
  constructor
  · intro h
    obtain ⟨out, hwritten, hout⟩ := h []
    rwa [show s = out from hwritten]
  · intro h before
    exact ⟨s, rfl, h⟩

theorem mailbox (hutf8 : options.quotedUTF8 = false) :
    WritesSevenBit fun enc => enc.mailbox options s := by
  cases hinbox : isInbox s with
  | true =>
    simp only [Encoder.mailbox, hinbox]
    have hascii : inbox.all (fun byte => byte ≤ 127) = true := by decide
    exact atom.mpr (.text fun byte hbyte =>
      of_decide_eq_true (List.all_eq_true.mp hascii byte hbyte))
  | false =>
    simp only [Encoder.mailbox, hinbox, Bool.false_eq_true]
    exact string hutf8

theorem aString (hutf8 : options.quotedUTF8 = false) :
    WritesSevenBit (fun enc => enc.aString options s) ↔
      (isAtom s = true → ∀ byte ∈ s, byte ≤ 127) := by
  cases hatom : isAtom s with
  | false =>
    simp only [Encoder.aString, hatom, Bool.false_eq_true, false_implies, iff_true]
    exact string hutf8
  | true =>
    simp only [Encoder.aString, hatom, if_true, true_implies]
    rw [atom]
    refine ⟨fun h => ?_, .text⟩
    rw [isAtom, decide_eq_true_eq, List.all_eq_true] at hatom
    cases s with
    | nil => simp
    | cons first rest =>
      refine h.first_ne rfl ?_
      rintro rfl
      exact absurd (hatom.2 openBrace List.mem_cons_self) (by decide)

end WritesSevenBit

/--
Without raw UTF-8 in quotes, `String` and `Mailbox` write no octet above 0x7F
outside of a literal, and `AString` does exactly if the string is an atom with
such an octet.
-/
theorem strings_sevenBit (options : EncoderOptions)
    (hutf8 : options.quotedUTF8 = false) (s : Bytes) :
    (WritesSevenBit (fun enc => enc.string options s) ∧
        WritesSevenBit (fun enc => enc.aString options s) ∧
        WritesSevenBit (fun enc => enc.mailbox options s)) ↔
      ¬(isAtom s = true ∧ ∃ byte ∈ s, 127 < byte) := by
  have hcondition : (isAtom s = true → ∀ byte ∈ s, byte ≤ 127) ↔
      ¬(isAtom s = true ∧ ∃ byte ∈ s, 127 < byte) := by
    simp
  rw [← hcondition, ← WritesSevenBit.aString hutf8]
  exact ⟨fun h => h.2.1, fun h => ⟨.string hutf8, h, .mailbox hutf8⟩⟩

theorem strings_sevenBit_plain : literalMinusClient.quotedUTF8 = false ∧ WritesSevenBit
        (fun enc => enc.aString literalMinusClient (ascii "To")) := by
  refine ⟨rfl, ?_⟩
  exact ((strings_sevenBit literalMinusClient (by decide) (ascii "To")).mpr (by decide)).2.1

/-- The header field name "é" goes out as it is. -/
theorem aString_not_sevenBit : literalMinusClient.quotedUTF8 = false ∧ ¬WritesSevenBit
        (fun enc => enc.aString literalMinusClient [0xC3, 0xA9]) := by
  refine ⟨rfl, fun h => ?_⟩
  exact absurd ((WritesSevenBit.aString (by decide)).mp h (by decide) 0xC3 (by decide)) (by decide)

end GoImap.Wire
