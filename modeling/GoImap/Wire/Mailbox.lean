import GoImap.Utf7.RoundTrip
import GoImap.Wire.Strings

/-!
# Mailbox names on the wire

INBOX is sent as an atom in any spelling and comes out in the canonical one.
Other names are sent as strings: as they are if both sides agreed on raw UTF-8,
and in modified UTF-7 otherwise.  A name in modified UTF-7 that reads INBOX
contains no shift, so it was INBOX before.
-/

namespace GoImap.Wire

def inbox : Bytes := ascii "INBOX"

/-- `strings.EqualFold(name, "INBOX")`.  The case folding of Unicode relates
none of these letters to one outside of ASCII. -/
def isInbox (name : Bytes) : Bool := name.map asciiLower = inbox.map asciiLower

def wireName (quotedUTF8 : Bool) (name : Bytes) : Bytes :=
  if quotedUTF8 then name else Utf7.encode name

def Encoder.mailbox (options : EncoderOptions) (enc : Encoder) (name : Bytes) : Encoder :=
  if isInbox name then enc.atom inbox
  else enc.string options (wireName options.quotedUTF8 name)

/-- A panic can only come from the decoding of modified UTF-7. -/
def Decoder.expectMailbox (options : Options) (quotedUTF8 : Bool)
    (dec : Decoder) : Except Slices.Panic (Option Bytes × Decoder) :=
  match dec.expectAString options with
  | (none, dec) => .ok (none, dec)
  | (some name, dec) =>
    if isInbox name then .ok (some inbox, dec)
    else if quotedUTF8 then .ok (some name, dec)
    else
      match Utf7.decode name with
      | .error panic => .error panic
      | .ok (.error err) =>
        .ok (none, dec.returnErr (.expect ("invalid mailbox name: " ++ err)))
      | .ok (.ok name) => .ok (some name, dec)

def EncoderOptions.mailboxForm (options : EncoderOptions) (name : Bytes) : StringForm :=
  if isInbox name then .atom inbox
  else options.stringForm (wireName options.quotedUTF8 name)

theorem ampersand_notMem_of_isInbox {name : Bytes} (h : isInbox name = true) :
    Utf7.ampersand ∉ name := by
  rw [isInbox, decide_eq_true_eq] at h
  intro hmem
  have hlower := h ▸ List.mem_map_of_mem hmem
  revert hlower
  decide

theorem isInbox_wireName {name : Bytes} {quotedUTF8 : Bool} (h : isInbox name = false) :
    isInbox (wireName quotedUTF8 name) = false := by
  unfold wireName
  split_ifs
  · exact h
  · by_contra hinbox
    rw [Bool.not_eq_false] at hinbox
    rw [Utf7.encode_eq_self (ampersand_notMem_of_isInbox hinbox), h] at hinbox
    cases hinbox

namespace Decoder

variable {options : Options} {dec : Decoder} {name rest : Bytes}

theorem expectMailbox_inbox (hname : isInbox name = true)
    (h : Delivers (dec.expectAString options) name rest) (quotedUTF8 : Bool) :
    ∃ result, dec.expectMailbox options quotedUTF8 = .ok result ∧ Delivers result inbox rest := by
  rcases hread : dec.expectAString options with ⟨read, next⟩
  rw [hread] at h
  obtain ⟨rfl, hnext⟩ := h
  exact ⟨(some inbox, next), by simp [expectMailbox, hread, hname], rfl, hnext⟩

theorem expectMailbox_wireName (hname : isInbox name = false) (hvalid : Utf8.valid name = true)
    {quotedUTF8 : Bool} (h : Delivers (dec.expectAString options) (wireName quotedUTF8 name) rest) :
    ∃ result, dec.expectMailbox options quotedUTF8 = .ok result ∧ Delivers result name rest := by
  rcases hread : dec.expectAString options with ⟨read, next⟩
  rw [hread] at h
  obtain ⟨rfl, hnext⟩ := h
  refine ⟨(some name, next), ?_, rfl, hnext⟩
  simp only [expectMailbox, hread, isInbox_wireName hname, Bool.false_eq_true]
  cases quotedUTF8 with
  | true => rfl
  | false =>
    simp [wireName, Utf7.decode_encode_eq, Utf8.replaceInvalid_of_valid hvalid]

end Decoder

/--
A mailbox name in valid UTF-8 is read back, INBOX in its canonical spelling,
whether names are sent in UTF-8 or in modified UTF-7, and what follows is left
unread.  The literal, if the name needs one, has to be sent and not refused.
-/
theorem mailbox_delivered (settings : EncoderOptions) (options : Options)
    (hsides : options.side ≠ settings.side) (name : Bytes) (hvalid : Utf8.valid name = true)
    (hliteral : isInbox name = true ∨
      settings.validQuoted (wireName settings.quotedUTF8 name) = true ∨
      settings.MaySend (wireName settings.quotedUTF8 name) ∧
        Decoder.Accepts options (wireName settings.quotedUTF8 name).length
          (settings.nonSync (wireName settings.quotedUTF8 name))) (byte : UInt8) (rest : Bytes)
    (hstop : byte ∈ [SP, closeParen, CR]) (dec : Decoder)
    (hroom : Decoder.Room options dec (settings.mailboxForm name).text.length)
    (hrest : dec.rest = (newEncoder.mailbox settings name).written ++ byte :: rest) :
    ∃ result, dec.expectMailbox options settings.quotedUTF8 = .ok result ∧
      Delivers result (if isInbox name then inbox else name) (byte :: rest) := by
  rw [EncoderOptions.mailboxForm] at hroom
  rw [Encoder.mailbox] at hrest
  cases hinbox : isInbox name with
  | true =>
    simp only [hinbox, if_true] at hroom hrest ⊢
    exact Decoder.expectMailbox_inbox (by decide) (Decoder.expectAString_atom (by decide) hroom
        (decide_eq_true hstop) hrest) _
  | false =>
    simp only [hinbox, Bool.false_eq_true, false_or] at hroom hrest hliteral ⊢
    have hpasses : Decoder.Passes settings options (wireName settings.quotedUTF8 name) :=
      ⟨hsides, hliteral.imp_right And.right⟩
    rw [newEncoder, Encoder.string_ready [] (hliteral.imp_right And.left)] at hrest
    exact Decoder.expectMailbox_wireName hinbox hvalid
      (Decoder.expectAString_string hpasses hroom hrest)

theorem mailbox_delivered_ampersand : ∃ result, (newDecoder
        ((newEncoder.mailbox literalMinusClient (ascii "R&D")).written ++
          [SP])).expectMailbox plainServer false = .ok result ∧
      Delivers result (ascii "R&D") [SP] := by
  have hwire : wireName false (ascii "R&D") = ascii "R&-D" := by
    simp [wireName, ascii, Utf7.encode, Utf7.selfRepresenting, Utf7.ampersand, Utf7.hyphen]
  exact mailbox_delivered literalMinusClient plainServer (by decide)
    (ascii "R&D") (Utf8.valid_of_ascii (by simp [ascii]))
    (.inr (.inl (show literalMinusClient.validQuoted (wireName false _) = true
      by rw [hwire]; decide)))
    SP [] (by decide) _ ⟨rfl, rfl, fun h => absurd h (by decide)⟩ rfl

end GoImap.Wire
