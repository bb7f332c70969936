import GoImap.Fetch.BodyParts

/-!
# Body structures on the wire

Parts follow each other without a separator, and the subtype behind a space
ends them.  What is written for a tree is read back if the reader has enough
levels left and accepts every part, and is refused otherwise.
-/

namespace GoImap

open Wire Utf8 Parsing StringForm
open Decoder (Passes)
open Server (Starts starts_char starts_stringForm writeBodyStructure
  writeChildren writeSinglePart writeBodyFields writeBodyFldLines
  writeBodyExt1part writeBodyExtMpart placeholder isExtended)

theorem validQuoted_of_ascii {settings : EncoderOptions} {s : Bytes} (hlength : s.length ≤ 4096)
    (h : ∀ ch ∈ s, ch ∉ [0, CR, LF] ∧ ch ≤ 127) :
    settings.validQuoted s = true := by
  rw [EncoderOptions.validQuoted, decide_eq_true_eq, List.all_eq_true]
  exact ⟨hlength, fun ch hch => by simpa using ⟨by simpa using (h ch hch).1, .inr (h ch hch).2⟩⟩

/-! ## Trees -/

namespace BodyStructure

mutual

/-- The levels below the root, where a multipart has a part in any case. -/
def depth : BodyStructure → Nat
  | .singlePart _ => 0
  | .messagePart _ _ body _ => body.depth + 1
  | .multiPart children _ _ => childrenDepth children + 1

def childrenDepth : List BodyStructure → Nat
  | [] => 0
  | child :: rest => max child.depth (childrenDepth rest)

end

mutual

def parts : BodyStructure → List BodyStructure
  | .singlePart bs => [.singlePart bs]
  | .messagePart bs envelope body numLines =>
    .messagePart bs envelope body numLines :: body.parts
  | .multiPart children subtype ext =>
    .multiPart children subtype ext :: childrenParts children

def childrenParts : List BodyStructure → List BodyStructure
  | [] => []
  | child :: rest => child.parts ++ childrenParts rest

end

theorem childrenDepth_lt (children : List BodyStructure) (n : Nat) :
    childrenDepth children < n ↔ 0 < n ∧ ∀ child ∈ children, child.depth < n := by
  induction children with
  | nil => simp [childrenDepth]
  | cons child children ih =>
    rw [childrenDepth, Nat.max_lt, ih, List.forall_mem_cons]
    exact ⟨fun ⟨hchild, hn, hmore⟩ => ⟨hn, hchild, hmore⟩,
      fun ⟨hn, hchild, hmore⟩ => ⟨hchild, hn, hmore⟩⟩

theorem childrenParts_eq (children : List BodyStructure) :
    childrenParts children = children.flatMap parts := by
  induction children with
  | nil => rfl
  | cons child children ih => rw [childrenParts, ih, List.flatMap_cons]

def written (children : List BodyStructure) : List BodyStructure :=
  if children = [] then [.singlePart placeholder] else children

theorem forall_parts_written {P : BodyStructure → Prop} {children : List BodyStructure}
    {child : BodyStructure} (h : ∀ part ∈ childrenParts children, P part)
    (hplace : P (.singlePart placeholder)) (hchild : child ∈ written children) :
    ∀ part ∈ child.parts, P part := by
  rw [written] at hchild
  split_ifs at hchild with hnil
  · obtain rfl := List.mem_singleton.mp hchild
    simpa [parts] using hplace
  · rw [childrenParts_eq] at h
    exact fun part hpart => h part (List.mem_flatMap.mpr ⟨child, hchild, hpart⟩)

/-! ## What is received -/

def receivedMpartExt [LowerCase] [MailText] (extended : Bool)
    (ext : Option BodyStructureMultiPartExt) :
    Option BodyStructureMultiPartExt :=
  if extended then
    ext.map fun ext =>
      ⟨ext.params.received, ext.disposition.map BodyStructureDisposition.received, ext.language,
        ext.location⟩
  else none

section Received

variable [LowerCase] [CaseFold] [MailText] (extended : Bool)

mutual

def received : BodyStructure → BodyStructure
  | .singlePart bs => .singlePart (bs.received extended)
  | .messagePart bs envelope body numLines =>
    .messagePart { bs.receivedFields with extended := bs.receivedExt extended }
      (some (envelope.getD {}).received) (received body) numLines
  | .multiPart children subtype ext =>
    .multiPart (if children = [] then [.singlePart (placeholder.received extended)]
        else receivedChildren children)
      subtype (receivedMpartExt extended ext)

def receivedChildren : List BodyStructure → List BodyStructure
  | [] => []
  | child :: rest => received child :: receivedChildren rest

end

theorem receivedChildren_eq (children : List BodyStructure) :
    receivedChildren extended children = children.map (received extended) := by
  induction children with
  | nil => rfl
  | cons child children ih => rw [receivedChildren, ih, List.map_cons]

theorem received_multiPart (children : List BodyStructure) (subtype : Bytes)
    (ext : Option BodyStructureMultiPartExt) :
    received extended (.multiPart children subtype ext) =
      .multiPart ((written children).map (received extended)) subtype
        (receivedMpartExt extended ext) := by
  rw [received, written, receivedChildren_eq]
  split_ifs with hnil
  · rfl
  · rfl

theorem writeChildren_eq (children : List BodyStructure) :
    writeChildren extended children = children.flatMap (writeBodyStructure extended) := by
  induction children with
  | nil => rfl
  | cons child children ih => rw [writeChildren, ih, List.flatMap_cons]

theorem write_multiPart (children : List BodyStructure) (subtype : Bytes)
    (ext : Option BodyStructureMultiPartExt) :
    writeBodyStructure extended (.multiPart children subtype ext) = Server.special openParen ::
        ((written children).flatMap (writeBodyStructure extended) ++
          Server.space :: .string subtype :: (writeBodyExtMpart extended ext ++
              [Server.special closeParen])) := by
  rw [writeBodyStructure, written, writeChildren_eq]
  split_ifs with hnil
  · simp [writeBodyStructure]
  · rfl

end Received

theorem map_write (settings : EncoderOptions) [LowerCase] [CaseFold]
    [MailText] (extended : Bool) (bs : BodyStructure) :
    (writeBodyStructure extended bs).map (Op.form settings) = .atom [openParen] ::
        ((writeBodyStructure extended bs).map (Op.form settings)).tail := by
  cases bs with
  | singlePart bs | messagePart bs envelope body numLines
  | multiPart children subtype ext => rfl

/-! ## What is accepted -/

def Complete (extended : Bool) (bs : BodyStructure) : Prop := extended = true → isExtended bs = true

def CountsLines : BodyStructure → Prop
  | .singlePart bs => bs.CountsLines
  | .messagePart _ _ _ numLines => 0 ≤ numLines.toInt
  | .multiPart _ _ _ => True

def MpartExtReadable (settings : EncoderOptions) (options : Options)
    (extended : Bool) (ext : Option BodyStructureMultiPartExt) : Prop :=
  extended = true → ∀ data ∈ ext, data.params.Readable settings options ∧
    ExtReadable settings options data.disposition data.language data.location

variable [LowerCase] [CaseFold] [MailText]

def Readable (settings : EncoderOptions) (options : Options)
    (extended : Bool) : BodyStructure → Prop
  | .singlePart bs =>
    bs.FieldsReadable settings options ∧ bs.SpecificReadable settings options extended
  | .messagePart bs envelope _ _ =>
    bs.FieldsReadable settings options ∧ (bs.isRFC822 = true ∨ bs.isGlobal = true) ∧
      (∀ s ∈ (envelope.getD {}).texts, Passes settings options s) ∧
      bs.ExtendedReadable settings options extended
  | .multiPart _ subtype ext =>
    Passes settings options subtype ∧ MpartExtReadable settings options extended ext

def Accepted (settings : EncoderOptions) (options : Options) (extended : Bool)
    (levels : Nat) (bs : BodyStructure) : Prop :=
  bs.depth < levels ∧ ∀ part ∈ bs.parts, part.Readable settings options extended

section Accepted

variable {settings : EncoderOptions} {options : Options} {extended : Bool} {levels : Nat}

theorem accepted_singlePart (bs : BodyStructureSinglePart) :
    Accepted settings options extended (levels + 1) (.singlePart bs) ↔
      Readable settings options extended (.singlePart bs) := by
  simp [Accepted, depth, parts]

theorem accepted_messagePart (bs : BodyStructureSinglePart)
    (envelope : Option Envelope) (body : BodyStructure) (numLines : Int64) :
    Accepted settings options extended (levels + 1) (.messagePart bs envelope body numLines) ↔
      Readable settings options extended (.messagePart bs envelope body numLines) ∧
        Accepted settings options extended levels body := by
  simp only [Accepted, depth, parts, List.forall_mem_cons, Nat.add_lt_add_iff_right]
  exact and_left_comm

theorem placeholder_readable (hsides : options.side ≠ settings.side) :
    Readable settings options extended (.singlePart placeholder) := by
  have htext : placeholder.isText = true := by
    simp [BodyStructureSinglePart.isText, placeholder, equalFold]
  have hpasses : ∀ s ∈ [ascii "text", ascii "plain", ascii "charset",
      ascii "utf-8", ascii "7bit", []], Passes settings options s := by
    intro s hs
    refine passes_of_quoted hsides (validQuoted_of_ascii ?_ ?_)
    · revert s
      decide
    · revert s
      decide +kernel
  have hstrings : placeholder.params.strings = [ascii "charset", ascii "utf-8"] := by decide +kernel
  have hpaired : placeholder.params.Paired := by
    rintro ⟨entry, hentry, hnil⟩
    revert entry
    decide +kernel
  have hencoding : placeholder.encodingText = ascii "7bit" := rfl
  refine ⟨⟨hpasses _ (by decide), hpasses _ (by decide), ⟨?_, hpaired⟩,
    hpasses _ (by decide), hpasses _ (by decide), ?_⟩, ?_, ?_, ?_⟩
  · rw [hstrings]
    exact fun s hs => hpasses s (by
      simp only [List.mem_cons, List.not_mem_nil, or_false] at hs ⊢
      tauto)
  · rw [hencoding]
    exact hpasses _ (by decide)
  · exact fun h => absurd h (by decide)
  · exact fun _ => placeholder.not_isRFC822_of_isText htext
  · rintro - ext hext
    obtain rfl : ext = {} := by
      simpa [placeholder] using hext.symm
    exact ⟨fun disp hdisp => absurd hdisp (by simp),
      fun s hs => absurd hs (by simp), hpasses _ (by decide)⟩

theorem accepted_multiPart (hsides : options.side ≠ settings.side) (children : List BodyStructure)
    (subtype : Bytes) (ext : Option BodyStructureMultiPartExt) :
    Accepted settings options extended (levels + 1) (.multiPart children subtype ext) ↔
      Readable settings options extended (.multiPart children subtype ext) ∧
        ∀ child ∈ written children, Accepted settings options extended levels child := by
  simp only [Accepted, depth, parts, List.forall_mem_cons,
    Nat.add_lt_add_iff_right, childrenDepth_lt, childrenParts_eq, written]
  split_ifs with hnil
  · have hplace := @placeholder_readable _ _ _ settings options extended hsides
    subst hnil
    simp [depth, parts, hplace, and_comm]
  · obtain ⟨child, hchild⟩ := List.exists_mem_of_ne_nil children hnil
    constructor
    · rintro ⟨⟨-, hdepth⟩, hpart, hparts⟩
      exact ⟨hpart, fun child hchild => ⟨hdepth child hchild, fun part hmem => hparts part
          (List.mem_flatMap.mpr ⟨child, hchild, hmem⟩)⟩⟩
    · rintro ⟨hpart, hall⟩
      refine ⟨⟨Nat.zero_lt_of_lt (hall child hchild).1,
        fun child hchild => (hall child hchild).1⟩, hpart, ?_⟩
      intro part hmem
      obtain ⟨child, hchild, hmem⟩ := List.mem_flatMap.mp hmem
      exact (hall child hchild).2 part hmem

end Accepted

end BodyStructure

/-! ## Where reading has ended -/

section Stuck

variable {options : Options}

theorem Wire.Stuck.reading {α : Type} {p : Client.Read α} (place : String)
    (h : Stuck p) : Stuck (Client.reading place p) := by
  intro dec hdec
  obtain ⟨err, next, hfails⟩ := h dec hdec
  exact ⟨_, next, by rw [Client.reading, hfails]⟩

theorem stuck_readChildren {body : Client.Read BodyStructure} (h : Stuck body) (fuel : Nat) :
    Stuck (Client.readChildren options body fuel) := by
  cases fuel with
  | zero => exact fun dec _ => ⟨_, dec, rfl⟩
  | succ fuel =>
    exact h.bind

variable [LowerCase] [MailText]

theorem stuck_readBodyTypeMpart {body : Client.Read BodyStructure} (h : Stuck body) :
    Stuck (Client.readBodyTypeMpart options body) := by
  have hchildren : Stuck fun dec =>
      Client.readChildren options body (dec.rest.length + 1) dec :=
    fun dec hdec => stuck_readChildren h _ dec hdec
  exact hchildren.bind

theorem stuck_readChildlessBodyTypeMpart (subtype : Bytes) :
    Stuck (Client.readChildlessBodyTypeMpart options subtype true) := by
  have hparams : Stuck (Client.readBodyFldParam options) := stuck_readNList.bind
  exact ((hparams.reading _).bind.reading _).bind

theorem stuck_readBodyDepth [CaseFold] (levels : Nat) :
    Stuck (Client.readBodyDepth options levels) := by
  cases levels with
  | zero => exact fun dec _ => ⟨_, dec, rfl⟩
  | succ levels =>
    exact (stuck_expectSpecial openParen).bind

end Stuck

/-! ## Multiparts -/

section Multiparts

variable {options : Options} {settings : EncoderOptions} {rest : Bytes} {extended : Bool}

theorem consumes_spParen {ε : Type} :
    Consumes options (attempt (·.sp options) : Parser Decoder ε Bool) []
      true (openParen :: rest) := by
  refine consumes_of_stay fun dec count hready => attempt_returns ?_
  rw [Decoder.sp, Decoder.acceptByte_miss SP hready.room hready.rest_eq (by decide)]
  simp only [Decoder.peekByte_facing hready.stay]
  simp [Decoder.advance_advance]

section Children

variable {body : Client.Read BodyStructure} {children : List BodyStructure}
  {subtype : Bytes} {forms : BodyStructure → List StringForm}
  {ok : BodyStructure → Prop} {value : BodyStructure → BodyStructure}

theorem decides_children (hsides : options.side ≠ settings.side) (hstuck : Stuck body)
    (h : ∀ child ∈ children, ∀ rest, Decides options body
      (.atom [openParen] :: forms child) (ok child) (value child) rest)
    (hne : children ≠ []) {fuel : Nat} (hfuel : children.length ≤ fuel) :
    Decides options (Client.readChildren options body fuel)
      (children.flatMap (fun child => .atom [openParen] :: forms child) ++
        ([.atom [SP]] ++ [settings.stringForm subtype]))
      ((∀ child ∈ children, ok child) ∧ Passes settings options subtype)
      (children.map value, subtype) rest := by
  induction children generalizing fuel with
  | nil => exact absurd rfl hne
  | cons child children ih =>
    obtain ⟨hchild, hmore⟩ := List.forall_mem_cons.mp h
    obtain ⟨fuel, rfl⟩ := Nat.exists_eq_add_of_lt hfuel
    rw [List.flatMap_cons, List.append_assoc, Client.readChildren]
    cases children with
    | nil =>
      have hiff : (ok child ∧ Passes settings options subtype ∧ True) ↔
          (∀ other ∈ [child], ok other) ∧ Passes settings options subtype := by
        simp
      refine Decides.congr ?_ hiff
      refine (hchild _).bind ?_
      refine (consumes_spBefore (starts_stringForm settings subtype [])).followed ?_
      exact decides_probe hsides (decides_pure _) (stuck_readChildren hstuck _).bind
    | cons second children =>
      have hloop := ih hmore (by simp) (show (second :: children).length ≤
        (second :: children).length + fuel by omega)
      have hiff : (ok child ∧ (∀ other ∈ second :: children, ok other) ∧
          Passes settings options subtype) ↔ (∀ other ∈ child :: second :: children, ok other) ∧
              Passes settings options subtype := by
        rw [← and_assoc, ← List.forall_mem_cons]
      refine Decides.congr ?_ hiff
      refine (hchild _).bind ?_
      refine consumes_spParen.lookahead ?_
      refine Consumes.lookahead (consumes_noString (by decide) (by decide)) ?_
      exact hloop.map _

theorem decides_allChildren (hsides : options.side ≠ settings.side) (hstuck : Stuck body)
    (h : ∀ child ∈ children, ∀ rest, Decides options body
      (.atom [openParen] :: forms child) (ok child) (value child) rest) (hne : children ≠ []) :
    Decides options (fun dec => Client.readChildren options body (dec.rest.length + 1) dec)
      (children.flatMap (fun child => .atom [openParen] :: forms child) ++
        ([.atom [SP]] ++ [settings.stringForm subtype]))
      ((∀ child ∈ children, ok child) ∧ Passes settings options subtype)
      (children.map value, subtype) rest := by
  have hcount : children.length ≤ (joined (children.flatMap
      fun child => .atom [openParen] :: forms child)).length := by
    clear h hne
    induction children with
    | nil => exact Nat.zero_le _
    | cons child children ih =>
      simp only [List.flatMap_cons, joined_append, joined_cons, bytes_atom, List.length_append,
        List.length_cons]
      omega
  have hfuel : ∀ dec count, Decoder.Facing options dec count (joined
      (children.flatMap (fun child => .atom [openParen] :: forms child) ++
        ([.atom [SP]] ++ [settings.stringForm subtype])) ++ rest) →
      children.length ≤ dec.rest.length + 1 := by
    intro dec count hready
    rw [hready.rest_eq, joined_append, List.length_append, List.length_append]
    omega
  exact ⟨fun hok dec count hready =>
      (decides_children hsides hstuck h hne (hfuel dec _ hready)).consumes hok dec count hready,
    fun hnot dec count hready =>
      (decides_children hsides hstuck h hne (hfuel dec _ hready.toFacing)).refuses hnot dec count
        hready⟩

end Children

variable [LowerCase] [MailText]

theorem decides_maybeExtMpart (hsides : options.side ≠ settings.side)
    (ext : Option BodyStructureMultiPartExt) (hcomplete : extended = true → ext.isSome = true) :
    Decides options (Client.readMaybeExt options "body-ext-mpart" (Client.readBodyExtMpart options))
      ((writeBodyExtMpart extended ext).map (Op.form settings))
      (BodyStructure.MpartExtReadable settings options extended ext)
      (BodyStructure.receivedMpartExt extended ext) (closeParen :: rest) := by
  rw [BodyStructure.MpartExtReadable]
  cases extended with
  | false =>
    exact (consumes_noExt _).decides.congr (iff_of_true trivial (by simp))
  | true =>
    obtain ⟨ext, rfl⟩ := Option.isSome_iff_exists.mp (hcomplete rfl)
    have hparams := block_param hsides ext.params
    have hforms : (writeBodyExtMpart true (some ext)).map (Op.form settings) = [.atom [SP]] ++
          ((Server.writeBodyFldParam ext.params).map (Op.form settings) ++
            .atom [SP] :: (Server.writeExtFields ext.disposition
              ext.language ext.location).map (Op.form settings)) := by
      simp [writeBodyExtMpart]
    have hext : Decides options (Client.readBodyExtMpart options)
        ((Server.writeBodyFldParam ext.params).map (Op.form settings) ++
          .atom [SP] :: (Server.writeExtFields ext.disposition ext.language
            ext.location).map (Op.form settings))
        (ext.params.Readable settings options ∧ ExtReadable settings options
          ext.disposition ext.language ext.location)
        ⟨ext.params.received, ext.disposition.map BodyStructureDisposition.received,
          ext.language, ext.location⟩ (closeParen :: rest) := by
      refine ((hparams.reading "body-fld-param").before ends_space).bind ?_
      exact (decides_extFields hsides _ _ _ (.inr rfl)).map _
    rw [hforms]
    exact (decides_someExt _ hparams.starts hext).congr (by simp)

theorem decides_typeMpart [CaseFold] {body : Client.Read BodyStructure}
    {children : List BodyStructure} {subtype : Bytes} {forms : BodyStructure → List StringForm}
    {ok : BodyStructure → Prop} {value : BodyStructure → BodyStructure}
    {ext : Option BodyStructureMultiPartExt} (hsides : options.side ≠ settings.side)
    (hstuck : Stuck body)
    (h : ∀ child ∈ children, ∀ rest, Decides options body
      (.atom [openParen] :: forms child) (ok child) (value child) rest) (hne : children ≠ [])
    (hcomplete : extended = true → ext.isSome = true) :
    Decides options (Client.readBodyType options body)
      ((children.flatMap (fun child => .atom [openParen] :: forms child) ++
        ([.atom [SP]] ++ [settings.stringForm subtype])) ++
          (writeBodyExtMpart extended ext).map (Op.form settings))
      (((∀ child ∈ children, ok child) ∧ Passes settings options subtype) ∧
        BodyStructure.MpartExtReadable settings options extended ext)
      (.multiPart (children.map value) subtype (BodyStructure.receivedMpartExt extended ext))
      (closeParen :: rest) := by
  obtain ⟨child, more, rfl⟩ := List.exists_cons_of_ne_nil hne
  refine Consumes.lookahead (consumes_noString (by decide) (by decide)) ?_
  refine Decides.reading _ ?_
  refine (decides_allChildren hsides hstuck h hne).bind ?_
  exact (decides_maybeExtMpart hsides ext hcomplete).map _

end Multiparts

/-! ## Bodies -/

section Bodies

variable {options : Options} {settings : EncoderOptions} {rest : Bytes}
  {extended : Bool} {levels : Nat} {bs : BodyStructure}

theorem consumes_noValues {ε : Type} {wire : Option DecoderError → ε} : Consumes options (fun dec =>
      discardValues wire options (dec.rest.length + 1) dec) [] ()
      (closeParen :: rest) := by
  have hround : ∀ fuel, Consumes options
      (discardValues wire options (fuel + 1)) [] () (closeParen :: rest) := by
    intro fuel
    exact .peek (consumes_noSP (by decide) (by decide)) (.pure ())
  exact fun dec count hready => hround dec.rest.length dec count hready

theorem ends_lines [CaseFold] (bs : BodyStructureSinglePart) :
    Ends (joined ((writeBodyFldLines bs).map (Op.form settings) ++
      (writeBodyExt1part extended bs.extended).map (Op.form settings)) ++ closeParen :: rest) := by
  rw [writeBodyFldLines]
  cases bs.text with
  | some text => exact ends_space
  | none =>
    simp only
    split_ifs
    · exact ends_space
    · exact ends_ext bs.extended

variable [LowerCase] [CaseFold] [MailText]

variable {ok : Prop}

theorem decides_readBodyDepth {forms : List StringForm}
    (h : Decides options (Client.readBodyType options
      (Client.readBodyDepth options levels)) forms ok bs
      (closeParen :: rest)) :
    Decides options (Client.readBodyDepth options (levels + 1))
      ([.atom [openParen]] ++ (forms ++ ([] ++ ([.atom [closeParen]] ++ []))))
      ok bs rest := by
  refine consumes_expectSpecial.followed ?_
  refine Decides.followed h ?_
  exact consumes_noValues.bind (consumes_expectSpecial.bind (.pure bs))

variable (hsides : options.side ≠ settings.side)

include hsides

theorem decides_type1part {body : Client.Read BodyStructure} (hstuck : Stuck body)
    {type subtype : Bytes} {forms : List StringForm}
    (h : Decides options (Client.readBodyType1part options body type subtype) forms ok bs rest) :
    Decides options (Client.readBodyType options body) (settings.stringForm type :: ([.atom [SP]] ++
        settings.stringForm subtype :: forms))
      (Passes settings options type ∧ Passes settings options subtype ∧ ok)
      bs rest := by
  refine decides_probe hsides ?_ ((stuck_readBodyTypeMpart hstuck).reading _)
  refine Consumes.followed (consumes_spBefore (starts_stringForm settings subtype [])) ?_
  exact decides_probe hsides (h.reading _) ((stuck_readChildlessBodyTypeMpart type).reading _)

theorem decides_singlePart {bs : BodyStructureSinglePart}
    (hcomplete : extended = true → bs.extended.isSome = true) (hlines : bs.CountsLines) :
    Decides options (Client.readBodyDepth options (levels + 1))
      ((writeSinglePart extended bs).map (Op.form settings))
      (BodyStructure.Readable settings options extended (.singlePart bs))
      (.singlePart (bs.received extended)) rest := by
  have hforms : (writeSinglePart extended bs).map (Op.form settings) =
      [.atom [openParen]] ++ ((settings.stringForm bs.type ::
        ([.atom [SP]] ++ settings.stringForm bs.subtype ::
          (fieldForms settings bs ++ ((writeBodyFldLines bs).map
            (Op.form settings) ++ (writeBodyExt1part extended bs.extended).map
              (Op.form settings))))) ++ ([] ++ ([.atom [closeParen]] ++ []))) := by
    simp [writeSinglePart, map_writeBodyFields]
  rw [hforms]
  refine decides_readBodyDepth ?_
  refine Decides.congr (decides_type1part hsides (stuck_readBodyDepth levels)
    ((decides_bodyFields bs hsides (ends_lines bs)).bind
      (decides_behind bs hsides hcomplete hlines))) ?_
  simp only [BodyStructure.Readable, BodyStructureSinglePart.FieldsReadable, and_assoc]

theorem decides_messagePart {bs : BodyStructureSinglePart} {envelope : Option Envelope}
    {body : BodyStructure} {numLines : Int64} {nested : BodyStructure}
    (hcomplete : extended = true → bs.extended.isSome = true) (hlines : 0 ≤ numLines.toInt)
    (hbody : ∀ rest, Decides options (Client.readBodyDepth options levels)
      ((writeBodyStructure extended body).map (Op.form settings)) ok nested
      rest) :
    Decides options (Client.readBodyDepth options (levels + 1)) ((writeBodyStructure extended
        (.messagePart bs envelope body numLines)).map (Op.form settings))
      (BodyStructure.Readable settings options extended
        (.messagePart bs envelope body numLines) ∧ ok)
      (.messagePart { bs.receivedFields with extended := bs.receivedExt extended }
        (some (envelope.getD {}).received) nested numLines) rest := by
  have hstarts : Starts ((writeBodyStructure extended body).map (Op.form settings)) := by
    rw [BodyStructure.map_write]
    exact starts_char (by decide) (by decide)
  have hforms : (writeBodyStructure extended
      (.messagePart bs envelope body numLines)).map (Op.form settings) =
      [.atom [openParen]] ++ ((settings.stringForm bs.type ::
        ([.atom [SP]] ++ settings.stringForm bs.subtype ::
          (fieldForms settings bs ++ ([.atom [SP]] ++
            ((Server.writeEnvelope envelope).map (Op.form settings) ++
              ([.atom [SP]] ++ ((writeBodyStructure extended body).map
                (Op.form settings) ++ ([.atom [SP]] ++ ([.atom (formatUint numLines.toInt.toNat)] ++
                    (writeBodyExt1part extended bs.extended).map (Op.form settings)))))))))) ++
        ([] ++ ([.atom [closeParen]] ++ []))) := by
    have hnumber : (Op.number64 numLines.toInt).form settings =
        .atom (formatUint numLines.toInt.toNat) := rfl
    simp [writeBodyStructure, map_writeBodyFields, hnumber]
  rw [hforms]
  refine decides_readBodyDepth ?_
  refine Decides.congr (decides_type1part hsides (stuck_readBodyDepth levels)
    ((decides_bodyFields bs hsides ends_space).bind
      (decides_message bs hsides hcomplete envelope hlines hstarts hbody))) ?_
  simp only [BodyStructure.Readable, BodyStructureSinglePart.FieldsReadable,
    and_assoc, and_comm, and_left_comm]

theorem decides_multiPart {children : List BodyStructure} {subtype : Bytes}
    {ext : Option BodyStructureMultiPartExt} {ok : BodyStructure → Prop}
    (hcomplete : extended = true → ext.isSome = true)
    (h : ∀ child ∈ BodyStructure.written children, ∀ rest,
      Decides options (Client.readBodyDepth options levels)
        ((writeBodyStructure extended child).map (Op.form settings))
        (ok child) (child.received extended) rest) :
    Decides options (Client.readBodyDepth options (levels + 1)) ((writeBodyStructure extended
        (.multiPart children subtype ext)).map (Op.form settings))
      (BodyStructure.Readable settings options extended (.multiPart children subtype ext) ∧
        ∀ child ∈ BodyStructure.written children, ok child)
      (BodyStructure.received extended (.multiPart children subtype ext))
      rest := by
  have hne : BodyStructure.written children ≠ [] := by
    rw [BodyStructure.written]
    split_ifs with hnil
    · simp
    · exact hnil
  have hforms : (writeBodyStructure extended
      (.multiPart children subtype ext)).map (Op.form settings) =
      [.atom [openParen]] ++ ((((BodyStructure.written children).flatMap
        (fun child => .atom [openParen] ::
          ((writeBodyStructure extended child).map (Op.form settings)).tail) ++
        ([.atom [SP]] ++ [settings.stringForm subtype])) ++
          (writeBodyExtMpart extended ext).map (Op.form settings)) ++
        ([] ++ ([.atom [closeParen]] ++ []))) := by
    rw [BodyStructure.write_multiPart]
    simp only [← BodyStructure.map_write, List.map_cons, List.map_append,
      List.map_flatMap, form_space, form_special, form_string]
    simp
  have hchildren : ∀ child ∈ BodyStructure.written children, ∀ rest,
      Decides options (Client.readBodyDepth options levels) (.atom [openParen] ::
          ((writeBodyStructure extended child).map (Op.form settings)).tail)
        (ok child) (child.received extended) rest := by
    intro child hchild rest
    rw [← BodyStructure.map_write]
    exact h child hchild rest
  rw [hforms, BodyStructure.received_multiPart]
  refine decides_readBodyDepth (Decides.congr (decides_typeMpart hsides
    (stuck_readBodyDepth levels) hchildren hne hcomplete) ?_)
  exact ⟨fun ⟨⟨hall, hpasses⟩, hext⟩ => ⟨⟨hpasses, hext⟩, hall⟩,
    fun ⟨⟨hpasses, hext⟩, hall⟩ => ⟨⟨hall, hpasses⟩, hext⟩⟩

/-- What is written for a tree is read back if it is accepted, and refused
otherwise. -/
theorem decides_body (levels : Nat) (hcomplete : ∀ part ∈ bs.parts, part.Complete extended)
    (hlines : ∀ part ∈ bs.parts, part.CountsLines) (rest : Bytes) :
    Decides options (Client.readBodyDepth options levels)
      ((writeBodyStructure extended bs).map (Op.form settings))
      (bs.Accepted settings options extended levels) (bs.received extended)
      rest := by
  induction levels generalizing bs rest with
  | zero =>
    exact ⟨fun h => absurd h.1 (Nat.not_lt_zero _), fun _ dec _ _ => ⟨_, dec, rfl⟩⟩
  | succ levels ih =>
    cases bs with
    | singlePart bs =>
      obtain ⟨hext, -⟩ := List.forall_mem_cons.mp hcomplete
      obtain ⟨hcount, -⟩ := List.forall_mem_cons.mp hlines
      exact (decides_singlePart hsides hext hcount).congr
        (BodyStructure.accepted_singlePart bs).symm
    | messagePart bs envelope body numLines =>
      obtain ⟨hext, hbelow⟩ := List.forall_mem_cons.mp hcomplete
      obtain ⟨hcount, hmore⟩ := List.forall_mem_cons.mp hlines
      exact (decides_messagePart hsides hext hcount (ih hbelow hmore)).congr
        (BodyStructure.accepted_messagePart bs envelope body numLines).symm
    | multiPart children subtype ext =>
      obtain ⟨hext, hbelow⟩ := List.forall_mem_cons.mp hcomplete
      obtain ⟨-, hmore⟩ := List.forall_mem_cons.mp hlines
      refine (decides_multiPart hsides hext ?_).congr
        (BodyStructure.accepted_multiPart hsides children subtype ext).symm
      intro child hchild rest
      refine ih ?_ ?_ rest
      · exact BodyStructure.forall_parts_written hbelow (fun _ => rfl) hchild
      · exact BodyStructure.forall_parts_written hmore
          (fun text htext => absurd htext (by simp [placeholder])) hchild

end Bodies

end GoImap
