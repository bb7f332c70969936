import GoImap.Fetch.BodyWriter
import GoImap.Fetch.SectionRoundTrip

/-!
# Body structures from a server to a client

What a server writes without a panic the client reads, unless a part holds
something that its media type does not announce.  The tree that is read is the
one that was written if the texts in it are in normal form.
-/

namespace GoImap

open Wire Utf8 Parsing
open Decoder (Passes Accepts)
open Server (writeBodyStructure writeBodyItem writeBodyItems isExtended placeholder)

/-! ## Structures of any kind -/

def Server.FetchBodyStructure.only (extended : Bool) : Server.FetchBodyStructure :=
  ⟨!extended, extended⟩

section Written

variable [LowerCase] [CaseFold] [MailText] {settings : EncoderOptions}
  {extended hasItem : Bool} {bs : BodyStructure}

theorem writeBodyItems_only (hroot : extended = true → isExtended bs = true) :
    writeBodyItems (.only extended) hasItem bs = writeBodyItem hasItem extended bs := by
  cases extended with
  | false => simp [writeBodyItems, Server.FetchBodyStructure.only]
  | true => simp [writeBodyItems, Server.FetchBodyStructure.only, hroot rfl]

theorem run_body (hside : settings.side = .server) (hlines : ∀ part ∈ bs.parts, part.CountsLines)
    (hcomplete : ∀ part ∈ bs.parts, part.Complete extended) :
    newEncoder.run settings (writeBodyStructure extended bs) =
      (⟨StringForm.joined ((writeBodyStructure extended bs).map
        (Op.form settings)), none, false⟩, .done) := by
  rw [newEncoder, Encoder.run_sends []
    (BodyStructure.sends_write hside hlines hcomplete), List.nil_append]

theorem run_bodyItems_done_iff (hside : settings.side = .server)
    (hroot : extended = true → isExtended bs = true)
    (hlines : ∀ part ∈ bs.parts, part.CountsLines) :
    (newEncoder.run settings (writeBodyItems (.only extended) hasItem bs)).2 = .done ↔
      ∀ part ∈ bs.parts, part.Complete extended := by
  rw [writeBodyItems_only hroot]
  constructor
  · intro hdone
    refine BodyStructure.complete_of_written fun hpanics => ?_
    refine Encoder.panics_notMem_of_done hdone ?_
    exact List.mem_append_right _ (List.mem_cons_of_mem _ (List.mem_cons_of_mem _ hpanics))
  · intro hcomplete
    have hsends : ∀ op ∈ writeBodyItem hasItem extended bs, op.Sends settings := by
      have hspace : ∀ op ∈ (if hasItem = true then [Server.space] else []), op.Sends settings := by
        split_ifs
        · simp [Server.space]
        · simp
      simp only [writeBodyItem, List.forall_mem_append, List.forall_mem_cons]
      exact ⟨hspace, trivial, trivial, BodyStructure.sends_write hside hlines hcomplete⟩
    rw [newEncoder, Encoder.run_sends [] hsends]

end Written

/--
A structure that passes the check of its root is written without a panic and
read by the client, with nothing left over, if and only if the extension data
is there wherever it is written, the reader accepts each part, and there are
not too many levels.

The reader accepts a part if its literals are not refused, an envelope is
written for the two types of messages only, and for the first one in the
extended form always, a number of lines is written for a text only, and no name
of a parameter is left without a value.
-/
theorem body_accepted_iff [LowerCase] [CaseFold] [MailText] (settings : EncoderOptions)
    (options : Options) (hserver : settings.side = .server) (hclient : options.side = .client)
    (extended hasItem : Bool) (bs : BodyStructure) (hroot : extended = true → isExtended bs = true)
    (hlines : ∀ part ∈ bs.parts, part.CountsLines) (dec : Decoder) (rest : Bytes)
    (hready : Ready options dec (StringForm.counted ((writeBodyStructure extended bs).map
        (Op.form settings)))
      ((newEncoder.run settings (writeBodyStructure extended bs)).1.written ++ rest)) :
    ((newEncoder.run settings (writeBodyItems (.only extended) hasItem bs)).2 = .done ∧
      ∃ received next, (Client.readBody options).Returns dec received next ∧
        Ready options next 0 rest) ↔
    (∀ part ∈ bs.parts, part.Complete extended ∧ part.Readable settings options extended) ∧
      bs.depth ≤ Client.maxBodyStructureDepth := by
  have hsides : options.side ≠ settings.side := by simp [hserver, hclient]
  rw [run_bodyItems_done_iff hserver hroot hlines]
  by_cases hcomplete : ∀ part ∈ bs.parts, part.Complete extended
  · rw [run_body hserver hlines hcomplete] at hready
    have hbody := decides_body hsides (Client.maxBodyStructureDepth + 1) hcomplete hlines rest
    constructor
    · rintro ⟨-, received, next, hreturns, -⟩
      by_cases haccepted : bs.Accepted settings options extended (Client.maxBodyStructureDepth + 1)
      · exact ⟨fun part hpart => ⟨hcomplete part hpart,
          haccepted.2 part hpart⟩, Nat.le_of_lt_succ haccepted.1⟩
      · obtain ⟨err, after, hfails⟩ := hbody.refuses haccepted dec 0 hready
        rw [Parser.Returns, Client.readBody, hfails] at hreturns
        cases hreturns
    · rintro ⟨hparts, hdepth⟩
      have hconsumes := hbody.consumes
        ⟨Nat.lt_succ_of_le hdepth, fun part hpart => (hparts part hpart).2⟩
      obtain ⟨next, hreturns, hnext⟩ := hconsumes.ready 0 hready
      exact ⟨hcomplete, _, next, hreturns, hnext⟩
  · constructor
    · exact fun h => absurd h.1 hcomplete
    · exact fun h => absurd (fun part hpart => (h.1 part hpart).1) hcomplete

abbrev plainText : MailText where
  formatDate := fun _ => []
  parseDate := fun _ => none
  qEncode := id
  decodeText := id
  parseMsgID := id
  parseMsgIDList := fun _ => []

def plainPart : BodyStructureSinglePart where
  type := ascii "text"
  subtype := ascii "plain"
  text := some ⟨3⟩
  extended := some {}

def mixed : BodyStructure :=
  .multiPart [.singlePart plainPart] (ascii "mixed") (some ⟨.empty, none, [], []⟩)

theorem ready_newDecoder {options : Options} (text : Bytes) {count : Nat}
    (h : (count : Int) ≤ options.maxSize) :
    Ready options (newDecoder text) count (text ++ []) :=
  ⟨⟨⟨rfl, rfl, fun _ => by simpa [newDecoder] using h⟩, (List.append_nil text).symm⟩, rfl⟩

theorem mixed_accepted : (newEncoder.run (Server.encoderOptions false)
      (@writeBodyItems unicode asciiFold plainText (.only true) false mixed)).2 = .done ∧
    ∃ received next, (@Client.readBody clientDecoder unicode asciiFold
      plainText).Returns (newDecoder (newEncoder.run
        (Server.encoderOptions false) (@writeBodyStructure unicode asciiFold
          plainText true mixed)).1.written) received next ∧
      Ready clientDecoder next 0 [] := by
  let _ := unicode
  let _ := asciiFold
  let _ := plainText
  have hpasses : ∀ s ∈ [ascii "text", ascii "plain", ascii "7bit",
      ascii "mixed", []], Passes (Server.encoderOptions false) clientDecoder s := by
    intro s hs
    refine passes_of_quoted (by decide) ?_
    revert s
    decide
  have hlines : ∀ part ∈ mixed.parts, part.CountsLines := by
    simp [mixed, BodyStructure.parts, BodyStructure.childrenParts, BodyStructure.CountsLines,
      BodyStructureSinglePart.CountsLines, plainPart]
  refine (body_accepted_iff (Server.encoderOptions false) clientDecoder rfl
    rfl true false mixed (fun _ => rfl) hlines (newDecoder _) []
    (ready_newDecoder _ ?_)).mpr ⟨?_, by decide⟩
  · decide +kernel
  · intro part hpart
    have hempty : Params.Readable (Server.encoderOptions false) clientDecoder .empty :=
      ⟨fun s hs => absurd hs List.not_mem_nil, by rintro ⟨_, ⟨⟩, _⟩⟩
    rcases List.mem_cons.mp hpart with rfl | hpart
    · refine ⟨fun _ => rfl, hpasses _ (by decide), fun _ data hdata => ?_⟩
      obtain rfl := Option.mem_some_iff.mp hdata
      exact ⟨hempty, by simp, by simp, hpasses _ (by decide)⟩
    · obtain rfl := List.mem_singleton.mp hpart
      refine ⟨fun _ => rfl, ⟨hpasses _ (by decide), hpasses _ (by decide),
        hempty, hpasses _ (by decide), hpasses _ (by decide),
        hpasses _ (by decide)⟩, fun _ => by decide +kernel,
        fun _ => by decide +kernel, ?_⟩
      intro _ ext hext
      obtain rfl := Option.mem_some_iff.mp hext
      exact ⟨by simp, by simp, hpasses _ (by decide)⟩

def bareChild : BodyStructure :=
  .multiPart [.singlePart
      { type := ascii "text", subtype := ascii "plain" }]
    (ascii "mixed") (some ⟨.empty, none, [], []⟩)

def messagePart : BodyStructureSinglePart where
  type := ascii "message"
  subtype := ascii "rfc822"
  extended := some {}

def bareMessage : BodyStructure := .singlePart messagePart

/-- The root of both has extension data.  Writing the first one panics, and
the client fails to read the second one. -/
theorem bareChild_panics_bareMessage_refused :
    isExtended bareChild = true ∧ isExtended bareMessage = true ∧
    (∀ bs ∈ [bareChild, bareMessage], bs.depth ≤ 1000 ∧ ∀ part ∈ bs.parts, part.CountsLines) ∧
    (newEncoder.run (Server.encoderOptions false)
      (@writeBodyItems unicode asciiFold plainText (.only true) false bareChild)).2 = .panicked ∧
    (newEncoder.run (Server.encoderOptions false)
      (@writeBodyItems unicode asciiFold plainText (.only true) false bareMessage)).2 = .done ∧
    (@Client.readBody clientDecoder unicode asciiFold plainText
      (newDecoder (newEncoder.run (Server.encoderOptions false)
        (@writeBodyStructure unicode asciiFold plainText true
          bareMessage)).1.written)).1.toOption.isNone = true := by
  refine ⟨rfl, rfl, ?_, by decide +kernel, by decide +kernel, by decide +kernel⟩
  simp [bareChild, bareMessage, messagePart, BodyStructure.depth, BodyStructure.parts,
    BodyStructure.childrenDepth, BodyStructure.childrenParts,
    BodyStructure.CountsLines, BodyStructureSinglePart.CountsLines]

/-! ## Structures in normal form -/

def Params.Regular [LowerCase] [MailText] (params : Params) : Prop :=
  ∀ entry ∈ params.entries, (entry.1 ≠ [] ∧ toLower entry.1 = entry.1) ∧
    MailText.decodeText entry.2 = entry.2

def Envelope.Inverted [MailText] (settings : EncoderOptions)
    (options : Options) (envelope : Envelope) : Prop :=
  ∀ rest, Consumes options (Client.readEnvelope options)
    ((Server.writeEnvelope (some envelope)).map (Op.form settings)) envelope
    (SP :: rest)

namespace BodyStructureSinglePart

variable [LowerCase] [MailText] (bs : BodyStructureSinglePart)

/-- A number of lines is there for a text and for nothing else. -/
structure Regular [CaseFold] : Prop where
  params : bs.params.Regular
  description : MailText.decodeText bs.description = bs.description
  text : bs.text.isSome = true ↔ bs.isText = true
  disposition : ∀ ext ∈ bs.extended, ∀ disp ∈ ext.disposition, disp.params.Regular

/-- The transfer encoding is in lower case and not left out, and the extension
data is left out. -/
def normalized (extended : Bool) : BodyStructureSinglePart :=
  { bs with
    encoding := bs.encodingText
    extended := if extended then bs.extended else none }

end BodyStructureSinglePart

namespace BodyStructure

section Normal

variable [LowerCase] (extended : Bool)

mutual

def normalized : BodyStructure → BodyStructure
  | .singlePart bs => .singlePart (bs.normalized extended)
  | .messagePart bs envelope body numLines =>
    .messagePart (bs.normalized extended) envelope (normalized body) numLines
  | .multiPart children subtype ext =>
    .multiPart (normalizedChildren children) subtype (if extended then ext else none)

def normalizedChildren : List BodyStructure → List BodyStructure
  | [] => []
  | child :: rest => normalized child :: normalizedChildren rest

end

variable [CaseFold] [MailText]

/-- A part holds a message if it is of one of the two types, and there is a
part in every multipart. -/
def Regular : BodyStructure → Prop
  | .singlePart bs =>
    bs.Regular ∧ bs.isRFC822 = false ∧ bs.isGlobal = false
  | .messagePart bs _ _ _ =>
    bs.Regular ∧ (bs.isRFC822 = true ∨ bs.isGlobal = true)
  | .multiPart children _ ext =>
    children ≠ [] ∧ ∀ data ∈ ext, data.params.Regular ∧
      ∀ disp ∈ data.disposition, disp.params.Regular

def EnvelopeInverted (settings : EncoderOptions) (options : Options) : BodyStructure → Prop
  | .messagePart _ envelope _ _ =>
    ∃ written, envelope = some written ∧ written.Inverted settings options
  | _ => True

end Normal

end BodyStructure

/-! ### What is read is what was written -/

section Fixed

variable [LowerCase] [MailText]

theorem Params.Regular.received_eq {params : Params} (h : params.Regular) :
    params.received = params :=
  Params.received_eq (fun entry hentry => (h entry hentry).1) fun entry hentry => (h entry hentry).2

theorem Params.Regular.paired {params : Params} (h : params.Regular) : params.Paired :=
  fun ⟨entry, hentry, hnil⟩ => absurd hnil (h entry hentry).1.1

theorem disposition_received_eq {disposition : Option BodyStructureDisposition}
    (h : ∀ disp ∈ disposition, disp.params.Regular) :
    disposition.map BodyStructureDisposition.received = disposition := by
  cases disposition with
  | none => rfl
  | some disp =>
    rw [Option.map_some, BodyStructureDisposition.received, (h disp rfl).received_eq]

variable [CaseFold] {bs : BodyStructureSinglePart}

theorem BodyStructureSinglePart.Regular.receivedExt_eq (h : bs.Regular) (extended : Bool) :
    bs.receivedExt extended = if extended then bs.extended else none := by
  rw [BodyStructureSinglePart.receivedExt]
  split_ifs
  · cases hext : bs.extended with
    | none => rfl
    | some ext =>
      rw [Option.map_some, disposition_received_eq (h.disposition ext hext)]
  · rfl

theorem BodyStructureSinglePart.Regular.receivedFields_eq (h : bs.Regular) (extended : Bool) :
    { bs.receivedFields with
      text := bs.text
      extended := bs.receivedExt extended } = bs.normalized extended := by
  rw [BodyStructureSinglePart.normalized, h.receivedExt_eq extended,
    BodyStructureSinglePart.receivedFields, h.params.received_eq, h.description]

theorem BodyStructureSinglePart.Regular.receivedText_eq (h : bs.Regular) :
    bs.receivedText = bs.text := by
  rw [BodyStructureSinglePart.receivedText]
  cases htext : bs.text with
  | some text => rfl
  | none =>
    have hkind : ¬bs.isText = true := by
      intro hkind
      simpa [htext] using h.text.mpr hkind
    rw [if_neg hkind]

theorem BodyStructureSinglePart.Regular.text_eq_none (h : bs.Regular)
    (hmessage : bs.isRFC822 = true ∨ bs.isGlobal = true) :
    bs.text = none := by
  by_contra hsome
  have htext := h.text.mp (Option.isSome_iff_ne_none.mpr hsome)
  have hkind := bs.not_message_of_isText htext
  simp [BodyStructureSinglePart.isRFC822, BodyStructureSinglePart.isGlobal, hkind] at hmessage

end Fixed

theorem exists_ready (options : Options) (count : Nat) (bytes : Bytes) :
    ∃ dec, Ready options dec count bytes := by
  refine ⟨{ newDecoder bytes with readBytes := -count }, ⟨⟨rfl, rfl, fun _ => ?_⟩, rfl⟩, rfl⟩
  have hcount : -(count : Int) + count = 0 := by omega
  rw [hcount]
  exact Int.natCast_nonneg _

theorem Wire.Decides.of_consumes {ε α : Type} {options : Options}
    {p : Parser Decoder ε α} {forms : List StringForm} {ok : Prop} {a b : α}
    {rest : Bytes} (h : Decides options p forms ok a rest)
    (hconsumes : Consumes options p forms b rest) : ok ∧ a = b := by
  obtain ⟨dec, hready⟩ := exists_ready options
    (StringForm.counted forms + 0) (StringForm.joined forms ++ rest)
  obtain ⟨next, hreturns, -⟩ := hconsumes.ready 0 hready
  by_cases hok : ok
  · obtain ⟨after, hvalue, -⟩ := (h.consumes hok).ready 0 hready
    rw [Parser.Returns, hvalue] at hreturns
    cases hreturns
    exact ⟨hok, rfl⟩
  · obtain ⟨err, after, hfails⟩ := h.refuses hok dec 0 hready
    rw [Parser.Returns, hfails] at hreturns
    cases hreturns

theorem Envelope.Inverted.received_eq [MailText] {settings : EncoderOptions}
    {options : Options} (hsides : options.side ≠ settings.side)
    {envelope : Envelope} (h : envelope.Inverted settings options) :
    (∀ s ∈ envelope.texts, Passes settings options s) ∧ envelope.received = envelope :=
  ((block_envelope hsides (some envelope)).decides SP [] (.inl rfl)).of_consumes (h [])

namespace BodyStructure

section Tree

variable [LowerCase] [CaseFold] [MailText] {settings : EncoderOptions}
  {options : Options} (extended : Bool)

mutual

theorem received_eq (hsides : options.side ≠ settings.side) : ∀ bs : BodyStructure,
    (∀ part ∈ bs.parts, part.Regular ∧ part.EnvelopeInverted settings options) →
    bs.received extended = bs.normalized extended
  | .singlePart bs, h => by
      have hregular : bs.Regular := (h _ List.mem_cons_self).1.1
      rw [received, normalized, BodyStructureSinglePart.received,
        hregular.receivedText_eq, hregular.receivedFields_eq extended]
  | .messagePart bs envelope body numLines, h => by
      obtain ⟨⟨⟨hregular, hmessage⟩, written, rfl, hinverted⟩, hbelow⟩ := List.forall_mem_cons.mp h
      have htext : bs.text = none := hregular.text_eq_none hmessage
      have hfields := hregular.receivedFields_eq extended
      rw [htext] at hfields
      rw [received, normalized, received_eq hsides body hbelow, Option.getD_some,
        (hinverted.received_eq hsides).2]
      exact congrArg (messagePart · _ _ _) hfields
  | .multiPart children subtype ext, h => by
      obtain ⟨⟨⟨hne, hdata⟩, -⟩, hbelow⟩ := List.forall_mem_cons.mp h
      have hext : receivedMpartExt extended ext =
          if extended then ext else none := by
        rw [receivedMpartExt]
        split_ifs
        · cases ext with
          | none => rfl
          | some data =>
            obtain ⟨hparams, hdisposition⟩ := hdata data rfl
            rw [Option.map_some, hparams.received_eq, disposition_received_eq hdisposition]
        · rfl
      rw [received, normalized, if_neg hne, hext,
        receivedChildren_normalized hsides children hbelow]

theorem receivedChildren_normalized (hsides : options.side ≠ settings.side) :
    ∀ children : List BodyStructure,
    (∀ part ∈ childrenParts children, part.Regular ∧ part.EnvelopeInverted settings options) →
    receivedChildren extended children = normalizedChildren extended children
  | [], _ => rfl
  | child :: rest, h => by
      rw [childrenParts, List.forall_mem_append] at h
      rw [receivedChildren, normalizedChildren, received_eq hsides child h.1,
        receivedChildren_normalized hsides rest h.2]

end

end Tree

end BodyStructure

/-! ### What arrives is accepted -/

def Wire.Op.Arrives (settings : EncoderOptions) (options : Options) : Op → Prop
  | .string s => Passes settings options s
  | _ => True

section Arrives

variable {settings : EncoderOptions} {options : Options} {extended : Bool}

theorem arrives_text (s : Bytes) : (Op.text s).Arrives settings options :=
  trivial

theorem passes_of_nString (hsides : options.side ≠ settings.side) {s : Bytes}
    (h : (Server.writeNString s).Arrives settings options) :
    Passes settings options s := by
  by_cases hs : s = []
  · subst hs
    exact passes_of_quoted hsides (by simp [EncoderOptions.validQuoted])
  · rwa [Server.writeNString, if_neg hs] at h

theorem passes_of_params {params : Params}
    (h : ∀ op ∈ Server.writeBodyFldParam params, op.Arrives settings options) :
    ∀ s ∈ params.strings, Passes settings options s := by
  intro s hs
  obtain ⟨entry, hentry, hmem⟩ := List.mem_flatMap.mp hs
  rw [Server.writeBodyFldParam, if_neg (List.ne_nil_of_mem hentry),
    Server.forall_mem_listOps arrives_text] at h
  have hitem := h _ (List.mem_map_of_mem hentry)
  simp only [List.forall_mem_cons] at hitem
  simp only [List.mem_cons, List.not_mem_nil, or_false] at hmem
  rcases hmem with rfl | rfl
  · exact hitem.1
  · exact hitem.2.2.1

variable [LowerCase] [MailText]

theorem readable_of_params {params : Params} (hregular : params.Regular)
    (h : ∀ op ∈ Server.writeBodyFldParam params, op.Arrives settings options) :
    params.Readable settings options :=
  ⟨passes_of_params h, hregular.paired⟩

theorem readable_of_extFields (hsides : options.side ≠ settings.side)
    {disposition : Option BodyStructureDisposition} {language : List Bytes}
    {location : Bytes} (hregular : ∀ disp ∈ disposition, disp.params.Regular)
    (h : ∀ op ∈ Server.writeExtFields disposition language location, op.Arrives settings options) :
    ExtReadable settings options disposition language location := by
  simp only [Server.writeExtFields, List.forall_mem_cons, List.forall_mem_append] at h
  obtain ⟨hdisposition, -, hlanguage, -, hlocation, -⟩ := h
  refine ⟨fun disp hdisp => ?_, fun s hs => ?_, passes_of_nString hsides hlocation⟩
  · obtain rfl := Option.mem_def.mp hdisp
    simp only [Server.writeBodyFldDsp, List.forall_mem_cons, List.forall_mem_append] at hdisposition
    exact ⟨hdisposition.2.1, readable_of_params (hregular disp rfl) hdisposition.2.2.2.1⟩
  · rw [Server.writeBodyFldLang, if_neg (List.ne_nil_of_mem hs),
      Server.forall_mem_listOps arrives_text] at hlanguage
    exact hlanguage _ (List.mem_map_of_mem hs) _ List.mem_cons_self

variable [CaseFold] {bs : BodyStructureSinglePart}

variable (hsides : options.side ≠ settings.side)

include hsides

theorem readable_of_fields (hregular : bs.Regular)
    (h : ∀ op ∈ Server.writeBodyFields bs, op.Arrives settings options) :
    bs.FieldsReadable settings options := by
  simp only [Server.writeBodyFields, List.forall_mem_cons, List.forall_mem_append] at h
  obtain ⟨htype, -, hsubtype, -, hparams, -, hid, -, hdescription, -, hencoding, -⟩ := h
  exact ⟨htype, hsubtype, readable_of_params hregular.params hparams,
    passes_of_nString hsides hid, passes_of_nString hsides hdescription,
    hencoding⟩

theorem readable_of_ext1part (hregular : bs.Regular)
    (h : ∀ op ∈ Server.writeBodyExt1part extended bs.extended, op.Arrives settings options) :
    bs.ExtendedReadable settings options extended := by
  rintro rfl ext hext
  rw [Option.mem_def.mp hext] at h
  simp only [Server.writeBodyExt1part, if_true, List.forall_mem_cons] at h
  exact readable_of_extFields hsides (hregular.disposition ext hext) h.2.2.2

theorem BodyStructure.Regular.readable {part : BodyStructure} (hregular : part.Regular)
    (henvelope : part.EnvelopeInverted settings options)
    (h : ∀ op ∈ part.ownOps extended, op.Arrives settings options) :
    part.Readable settings options extended := by
  cases part with
  | singlePart bs =>
    simp only [BodyStructure.ownOps, Server.writeSinglePart,
      List.forall_mem_cons, List.forall_mem_append] at h
    obtain ⟨-, hfields, -, hext, -⟩ := h
    exact ⟨readable_of_fields hsides hregular.1 hfields, hregular.1.text.mp, fun _ => hregular.2.1,
      readable_of_ext1part hsides hregular.1 hext⟩
  | messagePart bs envelope body numLines =>
    obtain ⟨written, rfl, hinverted⟩ := henvelope
    simp only [BodyStructure.ownOps, List.forall_mem_cons, List.forall_mem_append] at h
    obtain ⟨-, hfields, -, -, -, -, -, hext, -⟩ := h
    exact ⟨readable_of_fields hsides hregular.1 hfields, hregular.2,
      (hinverted.received_eq hsides).1,
      readable_of_ext1part hsides hregular.1 hext⟩
  | multiPart children subtype ext =>
    simp only [BodyStructure.ownOps, List.forall_mem_cons, List.forall_mem_append] at h
    obtain ⟨-, -, -, hsubtype, hext, -⟩ := h
    refine ⟨hsubtype, ?_⟩
    rintro rfl data hdata
    obtain ⟨hparams, hdisposition⟩ := hregular.2 data hdata
    rw [Option.mem_def.mp hdata] at hext
    simp only [Server.writeBodyExtMpart, if_true, List.forall_mem_cons,
      List.forall_mem_append] at hext
    exact ⟨readable_of_params hparams hext.2.1,
      readable_of_extFields hsides hdisposition hext.2.2.2⟩

end Arrives

/--
A structure of at most 1000 levels whose parts are in normal form is read by
the client as it was written, apart from the transfer encoding and from the
extension data that was not asked for, and nothing is left over.

The client must not refuse a string of the structure that is sent as a literal,
and the text must be within the limit of its decoder.
-/
theorem body_survives_wire [LowerCase] [CaseFold] [MailText] (settings : EncoderOptions)
    (options : Options) (hserver : settings.side = .server) (hclient : options.side = .client)
    (extended : Bool) (bs : BodyStructure) (hdepth : bs.depth ≤ Client.maxBodyStructureDepth)
    (hregular : ∀ part ∈ bs.parts, part.Regular)
    (hcomplete : ∀ part ∈ bs.parts, part.Complete extended)
    (hlines : ∀ part ∈ bs.parts, part.CountsLines)
    (henvelopes : ∀ part ∈ bs.parts, part.EnvelopeInverted settings options)
    (hstrings : ∀ s, Op.string s ∈ writeBodyStructure extended bs →
      settings.validQuoted s = true ∨ Accepts options s.length false) (dec : Decoder) (rest : Bytes)
    (hready : Ready options dec (StringForm.counted ((writeBodyStructure extended bs).map
        (Op.form settings)))
      ((newEncoder.run settings (writeBodyStructure extended bs)).1.written ++ rest)) :
    (newEncoder.run settings (writeBodyStructure extended bs)).2 = .done ∧
    ∃ next, (Client.readBody options).Returns dec (bs.normalized extended) next ∧
      Ready options next 0 rest := by
  have hsides : options.side ≠ settings.side := by simp [hserver, hclient]
  have hsync : ∀ s, settings.nonSync s = false := by
    simp [EncoderOptions.nonSync, hserver]
  have harrives : ∀ op ∈ writeBodyStructure extended bs, op.Arrives settings options := by
    intro op hop
    cases op with
    | string s => exact ⟨hsides, by rw [hsync]; exact hstrings s hop⟩
    | _ => trivial
  have haccepted : bs.Accepted settings options extended (Client.maxBodyStructureDepth + 1) := by
    refine ⟨Nat.lt_succ_of_le hdepth, fun part hpart => ?_⟩
    refine (hregular part hpart).readable hsides (henvelopes part hpart) ?_
    intro op hop
    exact harrives op ((BodyStructure.mem_write extended op bs).mpr ⟨part, hpart, hop⟩)
  rw [run_body hserver hlines hcomplete] at hready ⊢
  refine ⟨rfl, ?_⟩
  rw [← BodyStructure.received_eq extended hsides bs fun part hpart =>
    ⟨hregular part hpart, henvelopes part hpart⟩]
  exact ((decides_body hsides _ hcomplete hlines rest).consumes haccepted).ready 0 hready

def forwarded : BodyStructure :=
  .multiPart [.singlePart plainPart, .messagePart messagePart (some {}) (.singlePart plainPart) 5]
    (ascii "mixed") (some ⟨.empty, none, [], []⟩)

theorem body_survives_wire_forwarded : ∃ next, (@Client.readBody clientDecoder unicode asciiFold
      plainText).Returns (newDecoder (newEncoder.run
        (Server.encoderOptions false) (@writeBodyStructure unicode asciiFold
          plainText true forwarded)).1.written)
        (@BodyStructure.normalized unicode true forwarded) next ∧
      Ready clientDecoder next 0 [] := by
  let _ := unicode
  let _ := asciiFold
  let _ := plainText
  have hparts : forwarded.parts = [forwarded, .singlePart plainPart,
      .messagePart messagePart (some {}) (.singlePart plainPart) 5,
      .singlePart plainPart] := rfl
  have hempty : ∀ entry ∈ (SortedMap.empty : Params).entries,
      (entry.1 ≠ [] ∧ toLower entry.1 = entry.1) ∧ MailText.decodeText entry.2 = entry.2 :=
    fun entry hentry => absurd hentry List.not_mem_nil
  have hnone : ∀ ext ∈ some ({} : BodyStructureSinglePartExt),
      ∀ disp ∈ ext.disposition, disp.params.Regular := by
    simp
  have hplain : plainPart.Regular := ⟨hempty, rfl, by decide +kernel, hnone⟩
  have hmessage : messagePart.Regular := ⟨hempty, rfl, by decide +kernel, hnone⟩
  have hnil : Passes (Server.encoderOptions false) clientDecoder [] :=
    passes_of_quoted (by decide) (by decide)
  have henvelope : ({} : Envelope).Inverted (Server.encoderOptions false) clientDecoder := by
    intro rest
    refine ((block_envelope (by decide) (some {})).decides SP rest
      (.inl rfl)).consumes fun s hs => ?_
    have hs : s ∈ [[], [], [], []] := hs
    simp only [List.mem_cons, List.not_mem_nil, or_false, or_self] at hs
    exact hs ▸ hnil
  have hregular : ∀ part ∈ forwarded.parts, part.Regular := by
    rw [hparts]
    simp only [List.forall_mem_cons]
    exact ⟨⟨by simp, fun data hdata => Option.mem_some_iff.mp hdata ▸
        ⟨hempty, by simp⟩⟩, ⟨hplain, by decide +kernel⟩,
      ⟨hmessage, by decide +kernel⟩, ⟨hplain, by decide +kernel⟩, by simp⟩
  have hcomplete : ∀ part ∈ forwarded.parts, part.Complete true := by
    rw [hparts]
    simp only [List.forall_mem_cons]
    exact ⟨fun _ => rfl, fun _ => rfl, fun _ => rfl, fun _ => rfl, by simp⟩
  have hlines : ∀ part ∈ forwarded.parts, part.CountsLines := by
    have hcount : plainPart.CountsLines := by
      intro text htext
      rw [← Option.mem_some_iff.mp htext]
      decide
    rw [hparts]
    simp only [List.forall_mem_cons]
    exact ⟨trivial, hcount, (by decide : 0 ≤ (5 : Int64).toInt), hcount, by simp⟩
  have hinverted : ∀ part ∈ forwarded.parts,
      part.EnvelopeInverted (Server.encoderOptions false) clientDecoder := by
    rw [hparts]
    simp only [List.forall_mem_cons]
    exact ⟨trivial, trivial, ⟨{}, rfl, henvelope⟩, trivial, by simp⟩
  have hquoted : ∀ s ∈ (writeBodyStructure true forwarded).filterMap (fun op => match op with
        | .string s => some s
        | _ => none), (Server.encoderOptions false).validQuoted s = true := by
    decide +kernel
  exact (body_survives_wire (Server.encoderOptions false) clientDecoder rfl
    rfl true forwarded (by decide) hregular hcomplete hlines hinverted
    (fun s hs => .inl (hquoted s (List.mem_filterMap.mpr ⟨_, hs, rfl⟩)))
    (newDecoder _) [] (ready_newDecoder _ (by decide +kernel))).2

/-- A text whose subtype is a literal of more than 4 MiB. -/
def longSubtype : BodyStructureSinglePart where
  type := ascii "text"
  subtype := List.replicate (Decoder.maxBufferedLiteral + 1) 97
  text := some ⟨0⟩

theorem longSubtype_refused :
    @BodyStructure.Regular unicode asciiFold plainText (.singlePart longSubtype) ∧
    (BodyStructure.singlePart longSubtype).CountsLines ∧
    (newEncoder.run (Server.encoderOptions false)
      (@writeBodyStructure unicode asciiFold plainText false (.singlePart longSubtype))).2 = .done ∧
    ∃ err next, @Client.readBody clientDecoder unicode asciiFold plainText
      (newDecoder (newEncoder.run (Server.encoderOptions false)
        (@writeBodyStructure unicode asciiFold plainText false
          (.singlePart longSubtype))).1.written) = (.error err, next) := by
  let _ := unicode
  let _ := asciiFold
  let _ := plainText
  have htext : longSubtype.isText = true := by decide +kernel
  have hkind := longSubtype.not_message_of_isText htext
  have hregular : BodyStructure.Regular (.singlePart longSubtype) := by
    refine ⟨⟨fun entry hentry => absurd hentry List.not_mem_nil, rfl,
      iff_of_true rfl htext, by simp [longSubtype]⟩,
      longSubtype.not_isRFC822_of_isText htext, ?_⟩
    rw [BodyStructureSinglePart.isGlobal, hkind, Bool.false_and]
  have hlines : ∀ part ∈ (BodyStructure.singlePart longSubtype).parts, part.CountsLines := by
    simp [BodyStructure.parts, BodyStructure.CountsLines,
      BodyStructureSinglePart.CountsLines, longSubtype]
  have hcomplete : ∀ part ∈ (BodyStructure.singlePart longSubtype).parts, part.Complete false := by
    intro part _ h
    cases h
  have hlength : longSubtype.subtype.length =
      Decoder.maxBufferedLiteral + 1 := List.length_replicate
  have hside : (Server.encoderOptions false).side = .server := rfl
  have hsides : clientDecoder.side ≠ (Server.encoderOptions false).side := by
    decide
  have hquoted : (Server.encoderOptions false).validQuoted longSubtype.subtype = false := by
    rw [EncoderOptions.validQuoted, decide_eq_false_iff_not, hlength]
    exact fun h => absurd h.1 (by decide)
  have hrefused : ¬Passes (Server.encoderOptions false) clientDecoder longSubtype.subtype := by
    rintro ⟨-, hvalid | haccepts⟩
    · exact absurd (hquoted.symm.trans hvalid) (by decide)
    · have hbuffered := haccepts.buffered
      rw [hlength] at hbuffered
      simp [Decoder.checkBuffered, clientDecoder] at hbuffered
  have hcounted : StringForm.counted ((writeBodyStructure false
      (.singlePart longSubtype)).map (Op.form (Server.encoderOptions false))) ≤
        clientDecoder.maxSize := by
    have hform : (Server.encoderOptions false).stringForm
        longSubtype.subtype = .literal longSubtype.subtype false := by
      rw [EncoderOptions.stringForm, hquoted]
      rfl
    simp only [writeBodyStructure, Server.writeSinglePart, List.map_cons,
      List.map_append, map_writeBodyFields, StringForm.counted_cons,
      StringForm.counted_append, hform, StringForm.literal, hlength]
    decide +kernel
  have hready := @ready_newDecoder clientDecoder (StringForm.joined
    ((writeBodyStructure false (.singlePart longSubtype)).map
      (Op.form (Server.encoderOptions false)))) _ (by exact_mod_cast hcounted)
  rw [run_body hside hlines hcomplete]
  refine ⟨hregular, hlines _ List.mem_cons_self, rfl, ?_⟩
  exact (decides_body hsides _ hcomplete hlines []).refuses
    (fun haccepted => hrefused (haccepted.2 _ List.mem_cons_self).1.2.1)
    _ 0 hready

end GoImap
