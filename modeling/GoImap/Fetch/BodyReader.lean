import GoImap.Fetch.BodyStructure

/-!
# Reading body structures

The client reads a structure without looking back.  A body that opens with a
string is a single part, one that does not is a multipart, and a string alone
is a multipart without parts.  What follows the fields all single parts have
depends on the media type; values that are not known are skipped.

The parser of a body is given how many levels it may still go down.
-/

namespace GoImap

open Wire Utf8 Parsing

namespace Wire

namespace Decoder

variable (options : Options)

def expectNIL (dec : Decoder) : Bool × Decoder :=
  match dec.expectAtom options with
  | (none, dec) => (false, dec)
  | (some s, dec) => dec.expect (s = ascii "NIL") "NIL"

/-- Some servers write -1. -/
def expectBodyFldOctets (dec : Decoder) : Option UInt32 × Decoder :=
  match dec.acceptByte options minus with
  | (true, dec) =>
    match dec.acceptByte options 49 with
    | (true, dec) => (some 0, dec)
    | (false, dec) =>
      (none, (dec.expect false "-1 (body-fld-octets workaround)").2)
  | (false, dec) => dec.expectNumber options

/-- Some servers write NIL. -/
def expectBodyFldLines [CaseFold] (dec : Decoder) : Option Int64 × Decoder :=
  match dec.number64 options with
  | (some n, dec) => (some (Int64.ofNat n), dec)
  | (none, dec) =>
    match dec.atom options with
    | (none, dec) => (none, (dec.expect false "body-fld-lines").2)
    | (some s, dec) =>
      if equalFold s (ascii "NIL") then (some 0, dec)
      else (none, (dec.expect false "body-fld-lines").2)

def expectStringAllowStrayQuotes (dec : Decoder) : Option Bytes × Decoder :=
  match dec.quoted options true with
  | (some s, dec) => (some s, dec)
  | (none, dec) =>
    match dec.bufferLiteral options with
    | (some s, dec) => (some s, dec)
    | (none, dec) => (none, (dec.expect false "string").2)

def expectNStringAllowStrayQuotes (dec : Decoder) : Option Bytes × Decoder :=
  match dec.atom options with
  | (some s, dec) =>
    if s = ascii "NIL" then (some [], dec)
    else (none, (dec.expect false "nstring").2)
  | (none, dec) => dec.expectStringAllowStrayQuotes options

end Decoder

section Values

variable {ε α : Type} (wire : Option DecoderError → ε) (options : Options)

def readNList (item : Parser Decoder ε α) : Parser Decoder ε (List α) := do
  match ← attempt (·.atom options) with
  | some s =>
    require wire (·.expect (s = ascii "NIL") "NIL")
    pure []
  | none => readExpectedList wire options item

def maxListDepth : Nat := 1000

/-- `DiscardValue` within some lists.  A list that is too deep records no
error. -/
def discardValue : Nat → Parser Decoder ε Unit
  | 0 => fun dec => (.error (wire dec.err), dec)
  | levels + 1 => do
      if (← attempt (·.string options)).isSome then pure ()
      else if (← readList wire options (discardValue levels)).isSome then
        pure ()
      else if (← attempt (·.atom options)).isSome then pure ()
      else require wire (·.expect false "value")

/-- The loop of `readBodyDepth` over values that are not known.  Every round
reads an octet. -/
def discardValues : Nat → Parser Decoder ε Unit
  | 0 => fun dec => (.error (wire dec.err), dec)
  | fuel + 1 => do
      if ← attempt (·.sp options) then
        discardValue wire options maxListDepth
        discardValues fuel
      else pure ()

end Values

end Wire

namespace Client

section Fields

variable (options : Options) [LowerCase] [MailText]

/-! ## Envelopes -/

def readAddress : Read Address :=
  reading "address" do
    require .wire (·.expectSpecial options openParen)
    let name ← demand .wire (·.expectNString options)
    require .wire (·.expectSP options)
    let _ ← demand .wire (·.expectNString options)
    require .wire (·.expectSP options)
    let mailbox ← demand .wire (·.expectNString options)
    require .wire (·.expectSP options)
    let host ← demand .wire (·.expectNString options)
    require .wire (·.expectSpecial options closeParen)
    pure ⟨MailText.decodeText name, mailbox, host⟩

def readAddressList : Read (List Address) := readNList .wire options (readAddress options)

def readAddressField (name : String) : Read (List Address) := do
  let l ← reading name (readAddressList options)
  require .wire (·.expectSP options)
  pure l

def orNil (l : List Address) : Option (List Address) :=
  if l = [] then none else some l

def readEnvelope : Read Envelope := do
  require .wire (·.expectSpecial options openParen)
  let date ← demand .wire (·.expectNString options)
  require .wire (·.expectSP options)
  let subject ← demand .wire (·.expectNString options)
  require .wire (·.expectSP options)
  let sentFrom ← readAddressField options "env-from"
  let sender ← readAddressField options "env-sender"
  let replyTo ← readAddressField options "env-reply-to"
  let sentTo ← readAddressField options "env-to"
  let cc ← readAddressField options "env-cc"
  let bcc ← readAddressField options "env-bcc"
  let inReplyTo ← demand .wire (·.expectNString options)
  require .wire (·.expectSP options)
  let messageID ← demand .wire (·.expectNString options)
  require .wire (·.expectSpecial options closeParen)
  pure
    { date := MailText.parseDate date
      subject := MailText.decodeText subject
      sentFrom := sentFrom
      sender := orNil sender
      replyTo := orNil replyTo
      sentTo := sentTo
      cc := cc
      bcc := bcc
      inReplyTo := MailText.parseMsgIDList inReplyTo
      messageID := MailText.parseMsgID messageID }

/-! ## Fields -/

/-- A string is a name if none is waiting for its value, which the empty name
does not. -/
def paramStep : Params × Bytes → Bytes → Params × Bytes
  | (params, k), s =>
    if k = [] then (params, s)
    else (params.insert (toLower k) (MailText.decodeText s), [])

def readBodyFldParam : Read Params := do
  let strings ← readNList .wire options (demand .wire (·.expectStringAllowStrayQuotes options))
  let (params, k) := strings.foldl paramStep (.empty, [])
  if k = [] then pure params
  else .fail (.failed "in body-fld-param: key without value")

def readBodyFldDsp : Read (Option BodyStructureDisposition) := do
  if ← attempt (·.acceptByte options openParen) then
    let value ← demand .wire (·.expectString options)
    require .wire (·.expectSP options)
    let params ← readBodyFldParam options
    require .wire (·.expectSpecial options closeParen)
    pure (some ⟨value, params⟩)
  else
    require .wire (·.expectNIL options)
    pure none

def readBodyFldLang : Read (List Bytes) := do
  match ← readList .wire options (demand .wire (·.expectString options)) with
  | some l => pure l
  | none =>
    let s ← demand .wire (·.expectNString options)
    pure (if s = [] then [] else [s])

def readExtFields : Read BodyStructureSinglePartExt := do
  if ← attempt (·.sp options) then
    let disposition ← reading "body-fld-dsp" (readBodyFldDsp options)
    if ← attempt (·.sp options) then
      let language ← reading "body-fld-lang" (readBodyFldLang options)
      if ← attempt (·.sp options) then
        let location ← demand .wire (·.expectNString options)
        pure ⟨disposition, language, location⟩
      else pure ⟨disposition, language, []⟩
    else pure ⟨disposition, [], []⟩
  else pure {}

def readBodyExt1part : Read BodyStructureSinglePartExt := do
  let _ ← demand .wire (·.expectNString options)
  readExtFields options

def readBodyExtMpart : Read BodyStructureMultiPartExt := do
  let params ← reading "body-fld-param" (readBodyFldParam options)
  let ext ← readExtFields options
  pure ⟨params, ext.disposition, ext.language, ext.location⟩

def readMaybeExt {α : Type} (place : String) (ext : Read α) :
    Read (Option α) := do
  if ← attempt (·.sp options) then
    let ext ← reading place ext
    pure (some ext)
  else pure none

end Fields

/-! ## Bodies -/

section Bodies

variable (options : Options) [LowerCase] [CaseFold] [MailText]

def readBodyFields (type subtype : Bytes) : Read BodyStructureSinglePart := do
  require .wire (·.expectSP options)
  let params ← readBodyFldParam options
  require .wire (·.expectSP options)
  let id ← demand .wire (·.expectNString options)
  require .wire (·.expectSP options)
  let description ← demand .wire (·.expectNStringAllowStrayQuotes options)
  require .wire (·.expectSP options)
  let encoding ← demand .wire (·.expectNString options)
  require .wire (·.expectSP options)
  let size ← demand .wire (·.expectBodyFldOctets options)
  pure
    { type := type
      subtype := subtype
      params := params
      id := id
      description := MailText.decodeText description
      encoding := if encoding = [] then ascii "7bit" else encoding
      size := size }

def holdsMessage (type subtype : Bytes) : Read Bool :=
  if equalFold type (ascii "message") then
    if equalFold subtype (ascii "rfc822") then pure true
    else if equalFold subtype (ascii "global") then
      attempt (·.nextByteIs options openParen)
    else pure false
  else pure false

def readBodyMessage (body : Read BodyStructure)
    (bs : BodyStructureSinglePart) : Read BodyStructure := do
  let envelope ← readEnvelope options
  require .wire (·.expectSP options)
  let nested ← body
  require .wire (·.expectSP options)
  let numLines ← demand .wire (·.expectBodyFldLines options)
  let ext ← readMaybeExt options "body-ext-1part" (readBodyExt1part options)
  pure (.messagePart { bs with extended := ext } (some envelope) nested numLines)

def readBodyText (bs : BodyStructureSinglePart) : Read BodyStructure := do
  let numLines ← demand .wire (·.expectBodyFldLines options)
  let ext ← readMaybeExt options "body-ext-1part" (readBodyExt1part options)
  pure (.singlePart { bs with text := some ⟨numLines⟩, extended := ext })

def readBodyBasic (bs : BodyStructureSinglePart) : Read BodyStructure := do
  let ext ← reading "body-ext-1part" (readBodyExt1part options)
  pure (.singlePart { bs with extended := some ext })

def readBodySpecific (body : Read BodyStructure)
    (bs : BodyStructureSinglePart) : Read BodyStructure := do
  if ← holdsMessage options bs.type bs.subtype then
    readBodyMessage options body bs
  else if equalFold bs.type (ascii "text") then readBodyText options bs
  else readBodyBasic options bs

def readBodyType1part (body : Read BodyStructure) (type subtype : Bytes) :
    Read BodyStructure := do
  let bs ← readBodyFields options type subtype
  if ← attempt (·.sp options) then readBodySpecific options body bs
  else pure (.singlePart bs)

def readChildlessBodyTypeMpart (subtype : Bytes) (hasSP : Bool) :
    Read BodyStructure := do
  if hasSP then
    let ext ← reading "body-ext-mpart" (readBodyExtMpart options)
    pure (.multiPart [] subtype (some ext))
  else pure (.multiPart [] subtype none)

/-- The loop of `readBodyTypeMpart`, which the subtype ends.  Every round reads
an octet. -/
def readChildren (body : Read BodyStructure) : Nat → Read (List BodyStructure × Bytes)
  | 0 => fun dec => (.error (.wire dec.err), dec)
  | fuel + 1 => do
      let child ← body
      let hasSP ← attempt (·.sp options)
      let subtype ← if hasSP then attempt (·.string options) else pure none
      match subtype with
      | some subtype => pure ([child], subtype)
      | none =>
        let (rest, subtype) ← readChildren body fuel
        pure (child :: rest, subtype)

def readBodyTypeMpart (body : Read BodyStructure) : Read BodyStructure := do
  let (children, subtype) ← fun dec =>
    readChildren options body (dec.rest.length + 1) dec
  let ext ← readMaybeExt options "body-ext-mpart" (readBodyExtMpart options)
  pure (.multiPart children subtype ext)

def readBodyType (body : Read BodyStructure) : Read BodyStructure := do
  match ← attempt (·.string options) with
  | some mediaType =>
    let hasSP ← attempt (·.sp options)
    let subtype ← if hasSP then attempt (·.string options) else pure none
    match subtype with
    | some subtype =>
      reading "body-type-1part" (readBodyType1part options body mediaType subtype)
    | none =>
      reading "body-type-mpart" (readChildlessBodyTypeMpart options mediaType hasSP)
  | none => reading "body-type-mpart" (readBodyTypeMpart options body)

def maxBodyStructureDepth : Nat := 1000

/-- `readBodyDepth`, with the levels left instead of those above. -/
def readBodyDepth : Nat → Read BodyStructure
  | 0 => .fail (.failed "body structure nesting too deep (over 1000 levels)")
  | levels + 1 => do
      require .wire (·.expectSpecial options openParen)
      let bs ← readBodyType options (readBodyDepth levels)
      fun dec => discardValues .wire options (dec.rest.length + 1) dec
      require .wire (·.expectSpecial options closeParen)
      pure bs

def readBody : Read BodyStructure := readBodyDepth options (maxBodyStructureDepth + 1)

end Bodies

end Client

end GoImap
