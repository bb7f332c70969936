import GoImap.Fetch.BodyFields

/-!
# Single parts on the wire

What follows the size of a part depends on its media type for the reader and
on what the part holds for the writer.  Where the two disagree the reader finds
an envelope, a number or NIL that it does not expect there.
-/

namespace GoImap

open Wire Utf8 Parsing StringForm
open Decoder (Passes)
open Server (Starts starts_number writeBodyFields
  writeBodyFldLines writeBodyExt1part writeExtFields)

/-! ## Media types -/

namespace BodyStructureSinglePart

section Types

variable [CaseFold] (bs : BodyStructureSinglePart)

def isText : Bool := equalFold bs.type (ascii "text")

def isRFC822 : Bool := equalFold bs.type (ascii "message") && equalFold bs.subtype (ascii "rfc822")

def isGlobal : Bool := equalFold bs.type (ascii "message") && equalFold bs.subtype (ascii "global")

theorem not_message_of_isText (h : bs.isText = true) :
    equalFold bs.type (ascii "message") = false := by
  rw [isText, equalFold, decide_eq_true_eq] at h
  rw [equalFold, decide_eq_false_iff_not, h]
  intro hequal
  have hlength := congrArg List.length hequal
  rw [List.length_map, List.length_map, runes_of_ascii (by decide +kernel),
    runes_of_ascii (by decide +kernel), List.length_map, List.length_map] at hlength
  revert hlength
  decide

theorem not_isRFC822_of_isText (h : bs.isText = true) : bs.isRFC822 = false := by
  rw [isRFC822, bs.not_message_of_isText h, Bool.false_and]

end Types

/-! ## What is received and accepted -/

section Received

variable [LowerCase] [MailText] (bs : BodyStructureSinglePart)

def encodingText : Bytes :=
  if bs.encoding = [] then ascii "7bit" else toLower bs.encoding

def receivedFields : BodyStructureSinglePart where
  type := bs.type
  subtype := bs.subtype
  params := bs.params.received
  id := bs.id
  description := MailText.decodeText bs.description
  encoding := bs.encodingText
  size := bs.size

def receivedExt (extended : Bool) : Option BodyStructureSinglePartExt :=
  if extended then
    bs.extended.map fun ext =>
      ⟨ext.disposition.map BodyStructureDisposition.received, ext.language, ext.location⟩
  else none

def receivedText [CaseFold] : Option BodyStructureText :=
  match bs.text with
  | some text => some text
  | none => if bs.isText then some ⟨0⟩ else none

end Received

section Readable

variable (settings : EncoderOptions) (options : Options) [LowerCase] (bs : BodyStructureSinglePart)

def FieldsReadable : Prop :=
  Passes settings options bs.type ∧ Passes settings options bs.subtype ∧
    bs.params.Readable settings options ∧ Passes settings options bs.id ∧
    Passes settings options bs.description ∧
    Passes settings options bs.encodingText

def ExtendedReadable (extended : Bool) : Prop :=
  extended = true → ∀ ext ∈ bs.extended,
    ExtReadable settings options ext.disposition ext.language ext.location

end Readable

end BodyStructureSinglePart

/-! ## Fields -/

section Fields

variable {options : Options} {settings : EncoderOptions} {rest : Bytes}
  [LowerCase] (bs : BodyStructureSinglePart)

theorem encodingText_ne_nil : bs.encodingText ≠ [] := by
  rw [BodyStructureSinglePart.encodingText]
  split_ifs with hnil
  · decide
  · exact toLower_ne_nil hnil

def fieldForms (settings : EncoderOptions) (bs : BodyStructureSinglePart) : List StringForm :=
  [.atom [SP]] ++ ((Server.writeBodyFldParam bs.params).map (Op.form settings) ++
      ([.atom [SP]] ++ ([(Server.writeNString bs.id).form settings] ++ ([.atom [SP]] ++
          ([(Server.writeNString bs.description).form settings] ++
            ([.atom [SP]] ++ ([settings.stringForm bs.encodingText] ++ ([.atom [SP]] ++
                ([.atom (formatUint bs.size.toNat)] ++ [])))))))))

theorem map_writeBodyFields : (writeBodyFields bs).map (Op.form settings) =
      settings.stringForm bs.type :: ([.atom [SP]] ++
        settings.stringForm bs.subtype :: fieldForms settings bs) := by
  simp [writeBodyFields, fieldForms, BodyStructureSinglePart.encodingText]

theorem decides_bodyFields [MailText] (hsides : options.side ≠ settings.side) (hends : Ends rest) :
    Decides options (Client.readBodyFields options bs.type bs.subtype) (fieldForms settings bs)
      (bs.params.Readable settings options ∧ Passes settings options bs.id ∧
        Passes settings options bs.description ∧
        Passes settings options bs.encodingText)
      bs.receivedFields rest := by
  have hsize : Block options (demand Client.ReadError.wire
      (·.expectBodyFldOctets options)) [.atom (formatUint bs.size.toNat)]
      True bs.size :=
    ⟨starts_number _, fun _ _ hbyte => (consumes_octets _ hbyte).decides⟩
  have hencoding : bs.receivedFields.encoding =
      if bs.encodingText = [] then ascii "7bit" else bs.encodingText := by
    rw [if_neg (encodingText_ne_nil bs)]
    rfl
  have hiff : (bs.params.Readable settings options ∧
      Passes settings options bs.id ∧ Passes settings options bs.description ∧
      Passes settings options bs.encodingText ∧ True ∧ True) ↔
        bs.params.Readable settings options ∧ Passes settings options bs.id ∧
          Passes settings options bs.description ∧
          Passes settings options bs.encodingText := by
    simp
  refine Decides.congr ?_ hiff
  refine (block_param hsides bs.params).field ends_space ?_
  refine (block_nString hsides (writesNString _)).field ends_space ?_
  refine (block_nStringStray hsides (writesNString _)).field ends_space ?_
  refine (block_nString hsides (.inl rfl)).field ends_space ?_
  refine hsize.field hends ?_
  rw [← hencoding]
  exact decides_pure _

end Fields

/-! ## Behind the size -/

section Behind

variable {options : Options} {settings : EncoderOptions} {rest : Bytes}

theorem consumes_nextByte (byte want : UInt8) :
    Consumes options (attempt (·.nextByteIs options want) :
      Client.Read Bool) [] (byte == want) (byte :: rest) := by
  refine consumes_of_stay fun dec count hready => attempt_returns ?_
  rw [Decoder.nextByteIs]
  by_cases hbyte : byte = want
  · subst hbyte
    rw [Decoder.acceptByte_hit hready.room hready.rest_eq]
    simp [Decoder.unread_advance hready.rest_eq]
  · rw [Decoder.acceptByte_miss want hready.room hready.rest_eq hbyte]
    simp [hbyte]

variable [CaseFold]

theorem consumes_holdsMessage (bs : BodyStructureSinglePart) (byte : UInt8) :
    Consumes options (Client.holdsMessage options bs.type bs.subtype) []
      (bs.isRFC822 || bs.isGlobal && byte == openParen) (byte :: rest) := by
  rw [Client.holdsMessage, BodyStructureSinglePart.isRFC822, BodyStructureSinglePart.isGlobal]
  cases equalFold bs.type (ascii "message") with
  | false => exact .pure false
  | true =>
    cases equalFold bs.subtype (ascii "rfc822") with
    | true => exact .pure true
    | false =>
      cases equalFold bs.subtype (ascii "global") with
      | false => exact .pure false
      | true =>
        simpa using @consumes_nextByte options rest byte openParen

end Behind

/-! ## Extension data -/

variable {α : Type} {ok : Prop} {byte : UInt8}

section Extended

variable {options : Options} {settings : EncoderOptions} {rest : Bytes}

theorem decides_someExt {ext : Client.Read α} {first second : List StringForm}
    {a : α} (place : String) (hstarts : Starts first)
    (h : Decides options ext (first ++ second) ok a (closeParen :: rest)) :
    Decides options (Client.readMaybeExt options place ext)
      ([.atom [SP]] ++ (first ++ second)) ok (some a) (closeParen :: rest) :=
  (consumes_spBefore hstarts).followed ((h.reading place).map some)

theorem consumes_noExt {ext : Client.Read α} (place : String) :
    Consumes options (Client.readMaybeExt options place ext) [] none (closeParen :: rest) := by
  exact .peek (consumes_noSP (by decide) (by decide)) (.pure none)

variable [LowerCase] [MailText]

theorem decides_ext1part (hsides : options.side ≠ settings.side)
    (ext : BodyStructureSinglePartExt) (hbyte : byte = SP ∨ byte = closeParen) :
    Decides options (Client.readBodyExt1part options) ([.atom (ascii "NIL")] ++ .atom [SP] ::
        (writeExtFields ext.disposition ext.language ext.location).map (Op.form settings))
      (ExtReadable settings options ext.disposition ext.language ext.location)
      ⟨ext.disposition.map BodyStructureDisposition.received, ext.language,
        ext.location⟩ (byte :: rest) := by
  exact .after (consumes_orNIL_NIL (isAtomChar_of_ends (.inl rfl)))
    (decides_extFields hsides _ _ _ hbyte)

variable (bs : BodyStructureSinglePart) {extended : Bool}

omit [LowerCase] [MailText] in
theorem map_writeBodyExt1part {ext : BodyStructureSinglePartExt}
    {extended : Option BodyStructureSinglePartExt} (h : extended = some ext) :
    (writeBodyExt1part true extended).map (Op.form settings) =
      [.atom [SP]] ++ ([.atom (ascii "NIL")] ++ .atom [SP] ::
        (writeExtFields ext.disposition ext.language ext.location).map (Op.form settings)) := by
  simp [writeBodyExt1part, h]

theorem decides_maybeExt1part (hsides : options.side ≠ settings.side)
    (hcomplete : extended = true → bs.extended.isSome = true) :
    Decides options (Client.readMaybeExt options "body-ext-1part" (Client.readBodyExt1part options))
      ((writeBodyExt1part extended bs.extended).map (Op.form settings))
      (bs.ExtendedReadable settings options extended)
      (bs.receivedExt extended) (closeParen :: rest) := by
  rw [BodyStructureSinglePart.ExtendedReadable]
  cases extended with
  | false =>
    exact (consumes_noExt _).decides.congr (iff_of_true trivial (by simp))
  | true =>
    obtain ⟨ext, hext⟩ := Option.isSome_iff_exists.mp (hcomplete rfl)
    have hvalue : bs.receivedExt true = some ⟨ext.disposition.map BodyStructureDisposition.received,
          ext.language, ext.location⟩ := by
      simp [BodyStructureSinglePart.receivedExt, hext]
    have hiff : ExtReadable settings options ext.disposition ext.language
        ext.location ↔ (true = true → ∀ other ∈ bs.extended,
          ExtReadable settings options other.disposition other.language other.location) := by
      simp [hext]
    rw [map_writeBodyExt1part hext, hvalue]
    refine Decides.congr ?_ hiff
    exact decides_someExt _ starts_nil (decides_ext1part hsides ext (.inr rfl))

end Extended

/-! ## What does not belong there -/

variable {forms : List StringForm} {tail : Bytes}

section Refused

variable {options : Options} {rest : Bytes} {β : Type}

theorem Wire.Refuses.reading {p : Client.Read α} (place : String)
    (h : Refuses options p forms rest) :
    Refuses options (Client.reading place p) forms rest := by
  intro dec count hready
  obtain ⟨err, next, hfails⟩ := h dec count hready
  exact ⟨_, next, by rw [Client.reading, hfails]⟩

theorem isAtom_formatUint (n : Nat) : isAtom (formatUint n) = true := by
  have hdigits : ∀ m < 256, isDigit (UInt8.ofNat m) = true → isAtomChar (UInt8.ofNat m) = true := by
    decide +kernel
  refine Internal.isAtom_iff.mpr ⟨formatUint_ne_nil n, fun byte hbyte => ?_⟩
  have hchar := hdigits byte.toNat byte.toNat_lt
  rw [UInt8.ofNat_toNat] at hchar
  exact hchar (isDigit_of_mem_formatUint hbyte)

theorem formatUint_ne_NIL (n : Nat) : formatUint n ≠ ascii "NIL" := by
  intro hequal
  obtain ⟨first, tail, hform, hdigit⟩ := formatUint_head n
  rw [hform] at hequal
  rw [(List.cons.inj hequal).1] at hdigit
  revert hdigit
  decide

theorem refuses_ext_number [LowerCase] [MailText] (n : Nat) {second : List StringForm}
    {f : BodyStructureSinglePartExt → Client.Read β} (hends : Ends (joined second ++ rest)) :
    Refuses options (Client.reading "body-ext-1part" (Client.readBodyExt1part options) >>= f)
      ([.atom (formatUint n)] ++ second) rest := by
  obtain ⟨byte, tail, hjoined, hbyte⟩ := hends
  have hmd5 : Refuses options (demand Client.ReadError.wire
      (·.expectNString options)) [.atom (formatUint n)]
      (joined [] ++ (joined second ++ rest)) := by
    rw [hjoined]
    exact refuses_nString_atom (isAtom_formatUint n) (formatUint_ne_NIL n)
      (isAtomChar_of_ends hbyte)
  have hext : Refuses options (Client.readBodyExt1part options) ([.atom (formatUint n)] ++ [])
      (joined second ++ rest) := .start hmd5
  exact .start (hext.reading _)

theorem refuses_ext_paren [LowerCase] [MailText] {f : BodyStructureSinglePartExt → Client.Read β}
    (hjoined : joined forms ++ rest = openParen :: tail) :
    Refuses options (Client.reading "body-ext-1part"
        (Client.readBodyExt1part options) >>= f) forms rest := by
  exact Refuses.continued (Refuses.reading _ (Refuses.continued
    (refuses_nString_special (by decide) (by decide) (by decide) hjoined)))

theorem refuses_envelope [MailText] {f : Envelope → Client.Read β}
    (hjoined : joined forms ++ rest = byte :: tail) (hbyte : byte ≠ openParen) :
    Refuses options (Client.readEnvelope options >>= f) forms rest := by
  exact Refuses.continued (Refuses.continued (refuses_expectSpecial hjoined hbyte))

end Refused

/-! ## Parts without a message -/

def BodyStructureSinglePart.CountsLines (bs : BodyStructureSinglePart) : Prop :=
  ∀ text ∈ bs.text, 0 ≤ text.numLines.toInt

theorem ofNat_toNat {n : Int64} (h : 0 ≤ n.toInt) : Int64.ofNat n.toInt.toNat = n := by
  rw [← Int64.ofInt_eq_ofNat, Int.toNat_of_nonneg h, Int64.ofInt_toInt]

theorem toNat_lt (n : Int64) : n.toInt.toNat < 2 ^ 63 := by
  have hlt := n.toInt_lt
  omega

section Behind

variable {options : Options} {settings : EncoderOptions} {rest : Bytes} {extended : Bool}

theorem ends_ext (ext : Option BodyStructureSinglePartExt) :
    Ends (joined ((writeBodyExt1part extended ext).map
      (Op.form settings)) ++ closeParen :: rest) := by
  cases extended with
  | false => exact ⟨closeParen, rest, rfl, .inr rfl⟩
  | true => exact ends_space

variable [LowerCase] [CaseFold] [MailText] {bs : BodyStructureSinglePart}
  {body : Client.Read BodyStructure}

theorem decides_specific {b : BodyStructure} (hjoined : joined forms ++ rest = byte :: tail)
    (h : Decides options (
      if bs.isRFC822 || bs.isGlobal && byte == openParen then
        Client.readBodyMessage options body bs
      else if bs.isText then Client.readBodyText options bs
      else Client.readBodyBasic options bs) forms ok b rest) :
    Decides options (Client.readBodySpecific options body bs) forms ok b rest := by
  have hholds := @consumes_holdsMessage options tail _ bs byte
  rw [← hjoined] at hholds
  rw [Client.readBodySpecific]
  exact hholds.lookahead h

theorem decides_bodyText (hsides : options.side ≠ settings.side) {part : BodyStructureSinglePart}
    (hcomplete : extended = true → bs.extended.isSome = true) {n : Nat} (hn : n < 2 ^ 63) :
    Decides options (Client.readBodyText options part) ([.atom (formatUint n)] ++
        (writeBodyExt1part extended bs.extended).map (Op.form settings))
      (bs.ExtendedReadable settings options extended)
      (.singlePart { part with
        text := some ⟨Int64.ofNat n⟩
        extended := bs.receivedExt extended }) (closeParen :: rest) := by
  have hlines : Block options (demand Client.ReadError.wire
      (·.expectBodyFldLines options)) [.atom (formatUint n)] True
      (Int64.ofNat n) :=
    ⟨starts_number n, fun _ _ hbyte => (consumes_lines hn hbyte).decides⟩
  refine Decides.congr ?_ (iff_of_eq (true_and _))
  refine (hlines.before (ends_ext bs.extended)).bind ?_
  exact (decides_maybeExt1part bs hsides hcomplete).map _

theorem decides_specific_lines (hsides : options.side ≠ settings.side)
    (hcomplete : extended = true → bs.extended.isSome = true) {n : Nat} (hn : n < 2 ^ 63) :
    Decides options (Client.readBodySpecific options body bs.receivedFields)
      ([.atom (formatUint n)] ++ (writeBodyExt1part extended bs.extended).map (Op.form settings))
      (bs.isText = true ∧ bs.ExtendedReadable settings options extended)
      (.singlePart { bs.receivedFields with
        text := some ⟨Int64.ofNat n⟩
        extended := bs.receivedExt extended }) (closeParen :: rest) := by
  obtain ⟨first, tail, hform, hdigit⟩ := formatUint_head n
  have hparen : first ≠ openParen := by
    rintro rfl
    revert hdigit
    decide
  have hjoined : joined ([.atom (formatUint n)] ++
      (writeBodyExt1part extended bs.extended).map (Op.form settings)) ++
        closeParen :: rest = first :: (tail ++ (joined
          ((writeBodyExt1part extended bs.extended).map
            (Op.form settings)) ++ closeParen :: rest)) := by
    simp [hform]
  refine decides_specific hjoined ?_
  have hglobal : (first == openParen) = false := by simpa using hparen
  rw [hglobal, Bool.and_false, Bool.or_false]
  by_cases htext : bs.isText = true
  · have hmessage : bs.receivedFields.isRFC822 = false :=
      bs.not_isRFC822_of_isText htext
    have hkind : bs.receivedFields.isText = true := htext
    rw [hmessage, if_neg (by simp), if_pos hkind]
    exact (decides_bodyText hsides hcomplete hn).congr (iff_and_self.mpr fun _ => htext)
  · have hkind : ¬bs.receivedFields.isText = true := htext
    refine ⟨fun h => absurd h.1 htext, fun _ => ?_⟩
    rw [if_neg hkind]
    split_ifs with hmessage
    · exact refuses_envelope hjoined hparen
    · exact refuses_ext_number n (ends_ext bs.extended)

theorem decides_specific_ext (hsides : options.side ≠ settings.side)
    {ext : BodyStructureSinglePartExt} (hext : bs.extended = some ext) (htext : bs.isText = false) :
    Decides options (Client.readBodySpecific options body bs.receivedFields)
      ([.atom (ascii "NIL")] ++ .atom [SP] ::
        (writeExtFields ext.disposition ext.language ext.location).map (Op.form settings))
      (bs.isRFC822 = false ∧ bs.ExtendedReadable settings options true)
      (.singlePart { bs.receivedFields with
        extended := bs.receivedExt true }) (closeParen :: rest) := by
  have hkind : ¬bs.receivedFields.isText = true := by
    intro hkind
    exact absurd (htext.symm.trans hkind) (by simp)
  have hvalue : bs.receivedExt true = some ⟨ext.disposition.map BodyStructureDisposition.received,
        ext.language, ext.location⟩ := by
    simp [BodyStructureSinglePart.receivedExt, hext]
  have hiff : bs.ExtendedReadable settings options true ↔
      ExtReadable settings options ext.disposition ext.language ext.location := by
    simp [BodyStructureSinglePart.ExtendedReadable, hext]
  obtain ⟨tail, hjoined⟩ : ∃ tail, joined ([.atom (ascii "NIL")] ++ .atom [SP] ::
        (writeExtFields ext.disposition ext.language ext.location).map
          (Op.form settings)) ++ closeParen :: rest = 78 :: tail := ⟨_, rfl⟩
  refine decides_specific hjoined ?_
  rw [show ((78 : UInt8) == openParen) = false by decide, Bool.and_false,
    Bool.or_false, if_neg hkind]
  by_cases hmessage : bs.isRFC822 = true
  · have hreceived : bs.receivedFields.isRFC822 = true := hmessage
    refine ⟨fun h => absurd (hmessage.symm.trans h.1) (by simp), fun _ => ?_⟩
    rw [if_pos hreceived]
    exact refuses_envelope hjoined (by decide)
  · have hreceived : ¬bs.receivedFields.isRFC822 = true := hmessage
    rw [if_neg hreceived, hvalue]
    refine Decides.congr (((decides_ext1part hsides ext (.inr rfl)).reading _).map _) ?_
    rw [hiff]
    exact (and_iff_right (by simpa using hmessage)).symm

end Behind

namespace BodyStructureSinglePart

variable [LowerCase] [CaseFold] (bs : BodyStructureSinglePart)

def SpecificReadable (settings : EncoderOptions) (options : Options) (extended : Bool) : Prop :=
  (bs.text.isSome = true → bs.isText = true) ∧ (extended = true → bs.isRFC822 = false) ∧
    bs.ExtendedReadable settings options extended

def received [MailText] (extended : Bool) : BodyStructureSinglePart :=
  { bs.receivedFields with text := bs.receivedText, extended := bs.receivedExt extended }

end BodyStructureSinglePart

section Single

variable {options : Options} {settings : EncoderOptions} {rest : Bytes}
  {extended : Bool} [CaseFold] (bs : BodyStructureSinglePart)
  {body : Client.Read BodyStructure}

theorem specificReadable_iff (htext : bs.isText = true) :
    bs.isText = true ∧ bs.ExtendedReadable settings options extended ↔
      bs.SpecificReadable settings options extended := by
  simp [BodyStructureSinglePart.SpecificReadable, htext, bs.not_isRFC822_of_isText htext]

variable [LowerCase] [MailText]

theorem decides_behind (hsides : options.side ≠ settings.side)
    (hcomplete : extended = true → bs.extended.isSome = true) (hlines : bs.CountsLines) :
    Decides options (do
        if ← attempt (·.sp options) then
          Client.readBodySpecific options body bs.receivedFields
        else pure (.singlePart bs.receivedFields))
      ((writeBodyFldLines bs).map (Op.form settings) ++
        (writeBodyExt1part extended bs.extended).map (Op.form settings))
      (bs.SpecificReadable settings options extended)
      (.singlePart (bs.received extended)) (closeParen :: rest) := by
  rw [writeBodyFldLines, BodyStructureSinglePart.received, BodyStructureSinglePart.receivedText]
  cases htext : bs.text with
  | some text =>
    have hiff : bs.isText = true ∧ bs.ExtendedReadable settings options extended ↔
          bs.SpecificReadable settings options extended := by
      by_cases hkind : bs.isText = true
      · exact specificReadable_iff bs hkind
      · simp [BodyStructureSinglePart.SpecificReadable, htext, hkind]
    have hspecific := @decides_specific_lines options settings rest extended
      _ _ _ bs body hsides hcomplete _ (toNat_lt text.numLines)
    rw [ofNat_toNat (hlines text htext)] at hspecific
    exact ((consumes_spBefore (starts_number _)).followed hspecific).congr hiff
  | none =>
    by_cases hkind : bs.isText = true
    · have hequal : equalFold bs.type (ascii "text") = true := hkind
      have hspecific := @decides_specific_lines options settings rest
        extended _ _ _ bs body hsides hcomplete 0 (by decide)
      simp only [hequal, hkind, if_true]
      exact ((consumes_spBefore (starts_number _)).followed
        hspecific).congr (specificReadable_iff bs hkind)
    · have hequal : ¬equalFold bs.type (ascii "text") = true := hkind
      rw [if_neg hequal, if_neg hkind]
      cases extended with
      | false =>
        refine Decides.congr (Consumes.decides ?_) (iff_of_true trivial ?_)
        · exact .peek (consumes_noSP (by decide) (by decide)) (.pure _)
        · simp [BodyStructureSinglePart.SpecificReadable, htext,
            BodyStructureSinglePart.ExtendedReadable]
      | true =>
        obtain ⟨ext, hext⟩ := Option.isSome_iff_exists.mp (hcomplete rfl)
        have hspecific := @decides_specific_ext options settings rest
          _ _ _ bs body hsides ext hext (by simpa using hkind)
        rw [map_writeBodyExt1part hext]
        refine Decides.congr ((consumes_spBefore starts_nil).followed hspecific) ?_
        simp [BodyStructureSinglePart.SpecificReadable, htext]

/-! ## Parts with a message -/

theorem decides_message (hsides : options.side ≠ settings.side)
    (hcomplete : extended = true → bs.extended.isSome = true) (envelope : Option Envelope)
    {nested : BodyStructure} {numLines : Int64} (hlines : 0 ≤ numLines.toInt)
    (hstarts : Starts forms) (hbody : ∀ rest, Decides options body forms ok nested rest) :
    Decides options (do
        if ← attempt (·.sp options) then
          Client.readBodySpecific options body bs.receivedFields
        else pure (.singlePart bs.receivedFields))
      ([.atom [SP]] ++ ((Server.writeEnvelope envelope).map
        (Op.form settings) ++ ([.atom [SP]] ++ (forms ++ ([.atom [SP]] ++
          ([.atom (formatUint numLines.toInt.toNat)] ++ (writeBodyExt1part extended bs.extended).map
              (Op.form settings)))))))
      ((bs.isRFC822 = true ∨ bs.isGlobal = true) ∧
        (∀ s ∈ (envelope.getD {}).texts, Passes settings options s) ∧ ok ∧
        bs.ExtendedReadable settings options extended)
      (.messagePart { bs.receivedFields with extended := bs.receivedExt extended }
        (some (envelope.getD {}).received) nested numLines)
      (closeParen :: rest) := by
  have henvelope := block_envelope hsides envelope
  have hcount : Block options (demand Client.ReadError.wire (·.expectBodyFldLines options))
      [.atom (formatUint numLines.toInt.toNat)] True
      (Int64.ofNat numLines.toInt.toNat) :=
    ⟨starts_number _, fun _ _ hbyte =>
      (consumes_lines (toNat_lt numLines) hbyte).decides⟩
  rw [ofNat_toNat hlines] at hcount
  refine (consumes_spBefore henvelope.starts).followed ?_
  obtain ⟨tail, hjoined⟩ : ∃ tail, joined ((Server.writeEnvelope envelope).map (Op.form settings) ++
        ([.atom [SP]] ++ (forms ++ ([.atom [SP]] ++ ([.atom (formatUint numLines.toInt.toNat)] ++
            (writeBodyExt1part extended bs.extended).map
              (Op.form settings)))))) ++ closeParen :: rest =
        openParen :: tail := ⟨_, rfl⟩
  refine decides_specific hjoined ?_
  rw [beq_self_eq_true, Bool.and_true]
  by_cases hmessage : (bs.isRFC822 || bs.isGlobal) = true
  · have hreceived : (bs.receivedFields.isRFC822 || bs.receivedFields.isGlobal) = true := hmessage
    have hiff : ((∀ s ∈ (envelope.getD {}).texts, Passes settings options s) ∧ ok ∧ True ∧
          bs.ExtendedReadable settings options extended) ↔
        (bs.isRFC822 = true ∨ bs.isGlobal = true) ∧
          (∀ s ∈ (envelope.getD {}).texts, Passes settings options s) ∧ ok ∧
          bs.ExtendedReadable settings options extended := by
      rw [Bool.or_eq_true] at hmessage
      simp [hmessage]
    rw [if_pos hreceived]
    refine Decides.congr ?_ hiff
    refine (henvelope.before ends_space).bind ?_
    refine (consumes_expectSPBefore hstarts).followed ?_
    refine (hbody _).bind ?_
    refine hcount.field (ends_ext bs.extended) ?_
    exact (decides_maybeExt1part bs hsides hcomplete).map _
  · have hreceived : ¬(bs.receivedFields.isRFC822 || bs.receivedFields.isGlobal) = true := hmessage
    refine ⟨fun h => absurd (by simpa using h.1) hmessage, fun _ => ?_⟩
    rw [if_neg hreceived]
    split_ifs with hkind
    · have hcount : Refuses options (demand Client.ReadError.wire
          (·.expectBodyFldLines options)) _ (closeParen :: rest) :=
        refuses_lines (by decide) (by decide) hjoined
      exact hcount.continued
    · exact refuses_ext_paren hjoined

end Single

end GoImap
