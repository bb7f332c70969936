import GoImap.Wire.Encoder
import GoImap.Wire.Progress

/-!
# Strings on the wire

The decoder tries one form of a string after the other.  The first octet tells
them apart, and an attempt that fails puts it back; the octet behind an atom
ends it.  So a string comes out as it went in, whichever form it took.
-/

namespace GoImap.Wire

def isAStringChar (byte : UInt8) : Bool := isAtomChar byte || byte == 93

namespace Decoder

variable (options : Options)

def atom (dec : Decoder) : Option Bytes × Decoder := dec.func options isAtomChar

def string (dec : Decoder) : Option Bytes × Decoder :=
  match dec.quoted options false with
  | (some s, dec) => (some s, dec)
  | (none, dec) => dec.bufferLiteral options

def expectString (dec : Decoder) : Option Bytes × Decoder :=
  match dec.string options with
  | (some s, dec) => (some s, dec)
  | (none, dec) => (none, (dec.expect false "string").2)

def expectNString (dec : Decoder) : Option Bytes × Decoder :=
  match dec.atom options with
  | (some s, dec) =>
    if s = ascii "NIL" then (some [], dec)
    else (none, (dec.expect false "nstring").2)
  | (none, dec) => dec.expectString options

def expectAString (dec : Decoder) : Option Bytes × Decoder :=
  match dec.quoted options false with
  | (some s, dec) => (some s, dec)
  | (none, dec) =>
    match dec.bufferLiteral options with
    | (some s, dec) => (some s, dec)
    | (none, dec) =>
      match dec.func options isAStringChar with
      | (some s, dec) => (some s, dec)
      | (none, dec) => (none, (dec.expect false "ASTRING-CHAR").2)

end Decoder

def Delivers (result : Option Bytes × Decoder) (s rest : Bytes) : Prop :=
  result.1 = some s ∧ result.2.rest = rest ∧ result.2.err = none ∧ result.2.literal = none

namespace Decoder

variable {options : Options} {dec : Decoder} {byte : UInt8} {rest s : Bytes}
  {settings : EncoderOptions}

/-! ## Probing -/

theorem quoted_miss (h : Room options dec 0) (hrest : dec.rest = byte :: rest)
    (hne : byte ≠ quote) :
    dec.quoted options false = (none, dec.advance []) := by
  rw [quoted, acceptByte_miss quote h hrest hne]

theorem bufferLiteral_miss (h : Room options dec 0)
    (hrest : dec.rest = byte :: rest) (hne : byte ≠ openBrace) :
    dec.bufferLiteral options = (none, dec.advance []) := by
  rw [bufferLiteral, literalReader, acceptByte_miss openBrace h hrest hne]

theorem quotedLoop_escape (s read : Bytes) {fuel : Nat} (hfuel : s.length < fuel)
    (h : Room options dec (Encoder.escape s ++ [quote]).length)
    (hrest : dec.rest = Encoder.escape s ++ [quote] ++ rest) :
    quotedLoop options fuel dec read =
      (some (read ++ s), dec.advance (Encoder.escape s ++ [quote])) := by
  induction s generalizing dec fuel read with
  | nil =>
    obtain ⟨fuel, rfl⟩ := Nat.exists_eq_add_of_lt hfuel
    rw [quotedLoop, readByte_advance (h.mono (Nat.zero_le _)) hrest]
    simp [Encoder.escape]
  | cons ch s ih =>
    obtain ⟨fuel, rfl⟩ := Nat.exists_eq_add_of_lt hfuel
    have hnext : s.length < (ch :: s).length + fuel := by
      rw [List.length_cons]
      omega
    have hcons : Encoder.escape (ch :: s) =
        (if ch = quote ∨ ch = backslash then [backslash, ch] else [ch]) ++ Encoder.escape s := rfl
    rw [hcons] at h hrest ⊢
    split_ifs at h hrest ⊢ with hspecial
    · rw [List.append_assoc, List.length_append] at h
      simp only [List.append_assoc] at hrest ⊢
      have hroom := Room.advance h
      have hrest' := advance_rest hrest
      have hfirst := readByte_advance (h.mono (Nat.zero_le _)) hrest
      have hsecond := readByte_advance (Room.advance
          (h.mono (show [backslash].length + 0 ≤ _ by simp; omega)))
        (advance_rest (show dec.rest = [backslash] ++ ch :: _ from hrest))
      rw [quotedLoop, hfirst]
      simp only [show backslash ≠ quote by decide, if_false, if_true]
      rw [hsecond]
      simp only [advance_advance, List.cons_append, List.nil_append]
      rw [ih (read ++ [ch]) hnext hroom (by simpa using hrest')]
      simp [advance_advance]
    · rw [not_or] at hspecial
      rw [List.append_assoc, List.length_append] at h
      simp only [List.append_assoc] at hrest ⊢
      have hroom := Room.advance h
      have hrest' := advance_rest hrest
      rw [quotedLoop, readByte_advance (h.mono (Nat.zero_le _)) hrest]
      simp only [hspecial.1, hspecial.2, if_false]
      rw [ih (read ++ [ch]) hnext hroom (by simpa using hrest')]
      simp [advance_advance]

theorem length_le_escape (s : Bytes) : s.length ≤ (Encoder.escape s).length := by
  rw [Encoder.escape, List.length_flatMap]
  induction s with
  | nil => simp
  | cons ch s ih =>
    simp only [List.map_cons, List.sum_cons, List.length_cons]
    split_ifs <;> simp only [List.length_cons, List.length_nil] <;> omega

theorem quoted_advance {s : Bytes} (h : Room options dec (StringForm.quoted s).text.length)
    (hrest : dec.rest = (StringForm.quoted s).text ++ rest) :
    dec.quoted options false = (some s, dec.advance (StringForm.quoted s).text) := by
  have hshape : (StringForm.quoted s).text = [quote] ++ (Encoder.escape s ++ [quote]) := rfl
  rw [hshape] at h hrest ⊢
  rw [List.length_append] at h
  rw [List.append_assoc] at hrest
  have hopen := acceptByte_hit (h.mono (Nat.zero_le _)) hrest
  have hrest' := advance_rest hrest
  have hlength := length_le_escape s
  have hfuel : s.length < (dec.advance [quote]).rest.length + 1 := by
    rw [hrest', List.length_append, List.length_append]
    omega
  rw [quoted, hopen]
  simp only [quotedLoop_escape s [] hfuel (Room.advance h) hrest', advance_advance, List.nil_append]
  rfl

/-! ## Delivery -/

/-- The two ends of a connection, and a string that is quoted or whose literal
is not refused. -/
structure Passes (settings : EncoderOptions) (options : Options) (s : Bytes) : Prop where
  opposite : options.side ≠ settings.side
  accepts : settings.validQuoted s = true ∨ Accepts options s.length (settings.nonSync s)

theorem Passes.side (h : Passes settings options s)
    (hsync : settings.nonSync s = true) : options.side = .server := by
  have hclient : settings.side = .client := by
    rw [EncoderOptions.nonSync, decide_eq_true_eq] at hsync
    exact hsync.1
  have hopposite := h.opposite
  cases hside : options.side with
  | server => rfl
  | client => exact absurd (hside.trans hclient.symm) hopposite

theorem stringForm_head (settings : EncoderOptions) (s : Bytes) :
    ∃ first tail, (settings.stringForm s).bytes = first :: tail ∧ isAtomChar first = false := by
  rw [EncoderOptions.stringForm]
  split_ifs
  · exact ⟨quote, _, rfl, by decide⟩
  · exact ⟨openBrace, _, rfl, by decide⟩

section Forms

variable (hpasses : Passes settings options s)
  (h : Room options dec (settings.stringForm s).text.length)
  (hrest : dec.rest = (settings.stringForm s).bytes ++ rest)

include hpasses h hrest

theorem string_delivers :
    (∃ next, dec.quoted options false = (some s, next) ∧ Delivers (some s, next) s rest ∧
      next.readBytes = dec.readBytes + (settings.stringForm s).text.length) ∨
    ∃ middle, dec.quoted options false = (none, middle) ∧
      ∃ next, middle.bufferLiteral options = (some s, next) ∧ Delivers (some s, next) s rest ∧
        next.readBytes = dec.readBytes + (settings.stringForm s).text.length := by
  rw [EncoderOptions.stringForm] at h hrest ⊢
  cases hquoted : settings.validQuoted s with
  | true =>
    simp only [hquoted, if_true] at h hrest ⊢
    rw [StringForm.bytes, show (StringForm.quoted s).payload = [] from rfl,
      List.append_nil] at hrest
    exact .inl ⟨_, quoted_advance h hrest, ⟨rfl, advance_rest hrest, h.running, h.closed⟩, rfl⟩
  | false =>
    simp only [hquoted, Bool.false_eq_true, if_false] at h hrest ⊢
    have haccepts : Accepts options s.length (settings.nonSync s) := by
      simpa [hquoted] using hpasses.accepts
    refine .inr ⟨_, quoted_miss (h.mono (Nat.zero_le _)) hrest (by decide), ?_⟩
    have hroom : Room options (dec.advance [])
        (StringForm.literal s (settings.nonSync s)).text.length :=
      Room.advance (h.mono (by simp))
    have hall : dec.rest = [] ++
        ((StringForm.literal s (settings.nonSync s)).text ++ (s ++ rest)) := by
      rw [hrest, StringForm.bytes, List.append_assoc]
      rfl
    obtain ⟨next, hnext, hrest', herr, hclosed, hread⟩ :=
      bufferLiteral_advance haccepts hpasses.side hroom (advance_rest hall)
    refine ⟨next, hnext, ⟨rfl, hrest', herr, hclosed⟩, hread.trans ?_⟩
    simp [advance, StringForm.literal]

theorem expectString_delivers : Delivers (dec.expectString options) s rest := by
  rcases string_delivers hpasses h hrest with
    ⟨next, hquoted, hdelivers, -⟩ | ⟨middle, hquoted, next, hliteral, hdelivers, -⟩
  · simpa [expectString, string, hquoted] using hdelivers
  · simpa [expectString, string, hquoted, hliteral] using hdelivers

theorem expectNString_delivers : Delivers (dec.expectNString options) s rest := by
  obtain ⟨first, tail, hform, hfirst⟩ := stringForm_head settings s
  have hmiss := func_miss hfirst (h.mono (Nat.zero_le _))
    (show dec.rest = first :: (tail ++ rest) by rw [hrest, hform]; rfl)
  rw [expectNString, atom, hmiss]
  exact expectString_delivers hpasses (Room.advance (h.mono (by simp))) (advance_rest hrest)

theorem expectAString_string : Delivers (dec.expectAString options) s rest := by
  rcases string_delivers hpasses h hrest with
    ⟨next, hquoted, hdelivers, -⟩ | ⟨middle, hquoted, next, hliteral, hdelivers, -⟩
  · simpa [expectAString, hquoted] using hdelivers
  · simpa [expectAString, hquoted, hliteral] using hdelivers

end Forms

def isDelimiter (byte : UInt8) : Bool := byte ∈ [SP, closeParen, CR]

theorem isDelimiter_iff {byte : UInt8} :
    isDelimiter byte = true ↔ byte = SP ∨ byte = closeParen ∨ byte = CR := by
  simp [isDelimiter]

theorem isAStringChar_of_isDelimiter {byte : UInt8}
    (h : isDelimiter byte = true) : isAStringChar byte = false := by
  rcases isDelimiter_iff.mp h with rfl | rfl | rfl <;> decide

theorem expectAString_atom_advance (hatom : isAtom s = true) (h : Room options dec s.length)
    (hstop : isDelimiter byte = true) (hrest : dec.rest = s ++ byte :: rest) :
    dec.expectAString options = (some s, dec.advance s) := by
  rw [isAtom, decide_eq_true_eq, List.all_eq_true] at hatom
  obtain ⟨hne, hchars⟩ := hatom
  obtain ⟨first, tail, hs⟩ := List.exists_cons_of_ne_nil hne
  have hfirst := hchars first (by simp [hs])
  have hquote : first ≠ quote := by
    rintro rfl
    revert hfirst
    decide
  have hbrace : first ≠ openBrace := by
    rintro rfl
    revert hfirst
    decide
  have hhead : dec.rest = first :: (tail ++ byte :: rest) := by
    rw [hrest, hs]
    rfl
  have hroom : Room options (dec.advance []) s.length := Room.advance (h.mono (by simp))
  have hfunc := func_advance
    (fun other hother => by rw [isAStringChar, hchars other hother]; rfl) hne
    (isAStringChar_of_isDelimiter hstop) hroom (advance_rest hrest)
  rw [expectAString, quoted_miss (h.mono (Nat.zero_le _)) hhead hquote]
  simp only [bufferLiteral_miss (hroom.mono (Nat.zero_le _))
    (advance_rest hhead) hbrace, advance_advance, List.append_nil]
  rw [hfunc, advance_advance, List.nil_append]

theorem expectAString_atom (hatom : isAtom s = true) (h : Room options dec s.length)
    (hstop : isDelimiter byte = true) (hrest : dec.rest = s ++ byte :: rest) :
    Delivers (dec.expectAString options) s (byte :: rest) := by
  rw [expectAString_atom_advance hatom h hstop hrest]
  exact ⟨rfl, advance_rest hrest, h.running, h.closed⟩

theorem expectAString_delivers (hpasses : Passes settings options s)
    (h : Room options dec (settings.aStringForm s).text.length) (hstop : isDelimiter byte = true)
    (hrest : dec.rest = (settings.aStringForm s).bytes ++ byte :: rest) :
    Delivers (dec.expectAString options) s (byte :: rest) := by
  rw [EncoderOptions.aStringForm] at h hrest
  split_ifs at h hrest with hatom
  · rw [StringForm.atom, StringForm.bytes, List.append_nil] at hrest
    exact expectAString_atom hatom h hstop hrest
  · exact expectAString_string hpasses h hrest

end Decoder

structure Options.RefusesNone (options : Options) : Prop where
  checkLiteral : ∀ size, options.checkLiteralFunc size = none
  checkBuffered : ∀ check, options.checkBufferedLiteralFunc = some check →
    ∀ size nonSync, check size nonSync = none

theorem Options.RefusesNone.accepts {options : Options} (h : options.RefusesNone) {size : Nat}
    (hsize : size ≤ Decoder.maxBufferedLiteral) (nonSync : Bool) :
    Decoder.Accepts options size nonSync where
  bounded := Nat.le_trans hsize (by decide)
  checked := h.checkLiteral size
  buffered := by
    unfold Decoder.checkBuffered
    cases hcheck : options.checkBufferedLiteralFunc with
    | none => simp [Nat.not_lt.mpr hsize]
    | some check => exact h.checkBuffered check hcheck size nonSync

/--
A string of at most 4 MiB whose literal, if it needs one, may be sent is read
back by the other side, and what follows is left unread.  Outside of the line
end of an announcement and the payload there is no CR, LF or NUL.

Only the text counts against the decoder's limit.
-/
theorem strings_delivered (settings : EncoderOptions) (options : Options)
    (hsides : options.side ≠ settings.side) (hrefuses : options.RefusesNone)
    (s : Bytes) (hsize : s.length ≤ 4 * 1024 * 1024) (byte : UInt8)
    (rest : Bytes) (hstop : byte ∈ [SP, closeParen, CR]) :
    (∀ dec : Decoder, isAtom s = true ∨ settings.validQuoted s = true ∨ settings.MaySend s →
      Decoder.Room options dec (settings.aStringForm s).text.length →
      dec.rest = (newEncoder.aString settings s).written ++ byte :: rest →
      Delivers (dec.expectAString options) s (byte :: rest)) ∧
    (∀ dec : Decoder, settings.validQuoted s = true ∨ settings.MaySend s →
      Decoder.Room options dec (settings.stringForm s).text.length →
      dec.rest = (newEncoder.string settings s).written ++ byte :: rest →
      Delivers (dec.expectString options) s (byte :: rest) ∧
        Delivers (dec.expectNString options) s (byte :: rest)) ∧
    StringFramed s (newEncoder.aString settings s).written ∧
    StringFramed s (newEncoder.string settings s).written := by
  have hpasses : Decoder.Passes settings options s := ⟨hsides, .inr (hrefuses.accepts hsize _)⟩
  refine ⟨fun dec hsend hroom hrest => ?_, fun dec hsend hroom hrest => ?_,
    .aString settings s, .string settings s⟩
  · rw [newEncoder, Encoder.aString_ready [] hsend] at hrest
    exact Decoder.expectAString_delivers hpasses hroom (decide_eq_true hstop) hrest
  · rw [newEncoder, Encoder.string_ready [] hsend] at hrest
    exact ⟨Decoder.expectString_delivers hpasses hroom hrest,
      Decoder.expectNString_delivers hpasses hroom hrest⟩

def literalMinusClient : EncoderOptions where
  side := .client
  quotedUTF8 := false
  literalMinus := true
  literalPlus := false
  newContinuationRequest := none

theorem strings_delivered_line_end : Delivers
      ((newDecoder ((newEncoder.aString literalMinusClient [CR, LF]).written ++
        [SP])).expectAString plainServer) [CR, LF] [SP] :=
  (strings_delivered literalMinusClient plainServer (by decide)
    ⟨fun _ => rfl, fun _ h => by cases h⟩ [CR, LF] (by decide) SP []
    (by decide)).1 _ (.inr (.inr (by decide)))
    ⟨rfl, rfl, fun h => absurd h (by decide)⟩ rfl

end GoImap.Wire
