import GoImap.Fetch.SectionEcho

/-!
# Sections are requested, echoed and matched

The server reads the section the client asked for, and the client recognises
it in the answer.  Of two requests only those that agree in all that is echoed
match the same answer.
-/

namespace GoImap

open Wire Utf8 Parsing FetchItemBodySection
open Decoder (Passes Accepts isDelimiter)
open Server (Starts starts_atom starts_stringForm keyChar_plain)

/-! ## Matching -/

namespace Client

theorem sliceEqual_iff {α : Type} {equal : α → α → Bool} {a b : List α} :
    sliceEqual equal a b = true ↔ List.Forall₂ (fun x y => equal x y = true) a b := by
  rw [sliceEqual, decide_eq_true_eq, List.forall₂_iff_zip, List.all_eq_true]
  simp

theorem intSliceEqual_iff {a b : List Nat} : intSliceEqual a b = true ↔ a = b := by
  rw [intSliceEqual, sliceEqual_iff]
  simp

def lowered (names : List Bytes) : List Bytes := names.map (List.map asciiLower)

theorem map_lowerByte {name : Bytes} (h : ∀ byte ∈ name, byte.toNat < 128) :
    name.map lowerByte = name.map asciiLower := by
  have hall : ∀ n < 128, lowerByte (UInt8.ofNat n) = asciiLower (UInt8.ofNat n) := by
    decide
  refine List.map_congr_left fun byte hbyte => ?_
  have hlower := hall byte.toNat (h byte hbyte)
  rwa [UInt8.ofNat_toNat] at hlower

variable [CaseFold]

theorem stringSliceEqualFold_iff {a b : List Bytes}
    (ha : ∀ name ∈ a, ∀ byte ∈ name, byte.toNat < 128)
    (hb : ∀ name ∈ b, ∀ byte ∈ name, byte.toNat < 128) :
    stringSliceEqualFold a b = true ↔ lowered a = lowered b := by
  rw [stringSliceEqualFold, sliceEqual_iff]
  induction a generalizing b with
  | nil => cases b <;> simp [lowered]
  | cons name a ih =>
    cases b with
    | nil => simp [lowered]
    | cons other b =>
      obtain ⟨hname, ha⟩ := List.forall_mem_cons.mp ha
      obtain ⟨hother, hb⟩ := List.forall_mem_cons.mp hb
      rw [List.forall₂_cons, ih ha hb, equalFold_iff_of_ascii hname hother,
        map_lowerByte hname, map_lowerByte hother]
      simp [lowered]

end Client

def SameSection (a b : FetchItemBodySection) : Prop :=
  a.part = b.part ∧ a.specifier = b.specifier ∧
    Client.lowered a.headerFields = Client.lowered b.headerFields ∧
    Client.lowered a.headerFieldsNot = Client.lowered b.headerFieldsNot ∧
    a.sectionPartial.map SectionPartial.offset = b.sectionPartial.map SectionPartial.offset

namespace Client

variable [CaseFold] {item other : FetchItemBodySection}

theorem matchFetchItemBodySection_echo_iff (hitem : item.Requestable) (hother : other.Requestable) :
    matchFetchItemBodySection other { item with
          sectionPartial := item.sectionPartial.map (⟨·.offset, 0⟩)
          peek := false } = true ↔
      SameSection other item := by
  have hfields := @stringSliceEqualFold_iff _ other.headerFields item.headerFields
    (fun name hname => hother.ascii name (List.mem_append_left _ hname))
    (fun name hname => hitem.ascii name (List.mem_append_left _ hname))
  have hfieldsNot := @stringSliceEqualFold_iff _ other.headerFieldsNot item.headerFieldsNot
    (fun name hname => hother.ascii name (List.mem_append_right _ hname))
    (fun name hname => hitem.ascii name (List.mem_append_right _ hname))
  simp only [matchFetchItemBodySection, Bool.and_eq_true,
    intSliceEqual_iff, beq_iff_eq, SameSection, hfields, hfieldsNot]
  cases other.sectionPartial <;> cases item.sectionPartial <;> simp <;> tauto

end Client

/-! ## The names of fields -/

section Fields

variable {ε : Type} {wire : Option DecoderError → ε}
  {settings : EncoderOptions} {options : Options} {name : Bytes}

theorem element_aString (h : isAtom name = true ∨ Passes settings options name) :
    Element options (demand wire (·.expectAString options)) [settings.aStringForm name] name where
  starts := by
    rw [EncoderOptions.aStringForm]
    split_ifs with hatom
    · obtain ⟨hne, hall⟩ := Internal.isAtom_iff.mp hatom
      exact starts_atom hne fun byte hbyte =>
        keyChar_plain (.inr (hall byte hbyte))
    · exact starts_stringForm settings name []
  consumes := fun byte rest hbyte =>
    consumes_aStringForm h (by rcases hbyte with rfl | rfl <;> rfl)

theorem element_string (h : Passes settings options name) :
    Element options (demand wire (·.expectAString options)) [settings.stringForm name] name where
  starts := starts_stringForm settings name []
  consumes := fun _ _ _ => consumes_aString h

end Fields

/-! ## Requests and answers -/

section Forms

variable {settings : EncoderOptions} {item : FetchItemBodySection}

theorem map_writeFetchItem :
    StringForm.joined ((Client.writeFetchItemBodySection item).map (Op.form settings)) =
      StringForm.joined (itemForms settings settings.aStringForm
        (if item.peek then ascii "BODY.PEEK" else ascii "BODY") item
        (rangeForms item.sectionPartial)) ∧
    StringForm.counted ((Client.writeFetchItemBodySection item).map (Op.form settings)) =
      StringForm.counted (itemForms settings settings.aStringForm
        (if item.peek then ascii "BODY.PEEK" else ascii "BODY") item
        (rangeForms item.sectionPartial)) := by
  have hrange : (Client.writeSectionPartial item.sectionPartial).map
      (Op.form settings) = rangeForms item.sectionPartial := by
    cases item.sectionPartial with
    | none | some range => rfl
  have hfield : (fun name => (Op.aString name).form settings) =
      settings.aStringForm := funext form_aString
  rw [Client.writeFetchItemBodySection, List.map_cons, List.map_append,
    List.map_append, map_sectionOps, hrange, hfield]
  cases item.peek with
  | false => simp [itemForms, Server.atom, Op.form]
  | true =>
    have hname : ascii "BODY.PEEK" = ascii "BODY" ++ ascii ".PEEK" := by
      decide
    simp [itemForms, Server.atom, Op.form, hname, Nat.add_assoc]

theorem map_writeItem : (Server.writeItemBodySection item).map (Op.form settings) =
      itemForms settings settings.stringForm (ascii "BODY") item
        (originForms item.sectionPartial) := by
  rw [Server.writeItemBodySection, List.map_cons, List.map_append, map_sectionOps]
  cases item.sectionPartial with
  | none => simp [itemForms, originForms, Server.atom, Op.form]
  | some range =>
    simp [itemForms, originForms, Server.atom, Server.special, Op.form]

theorem sends_aString {name : Bytes}
    (h : isAtom name = true ∨ settings.validQuoted name = true ∨ settings.MaySend name) :
    (Op.aString name).Sends settings := by
  rw [Op.aString]
  split_ifs with hatom
  · trivial
  · exact h.resolve_left hatom

theorem sends_writeFetchItem (hitem : item.Requestable)
    (h : ∀ name ∈ item.fieldNames, isAtom name = true ∨
      settings.validQuoted name = true ∨ settings.MaySend name) :
    ∀ op ∈ Client.writeFetchItemBodySection item, op.Sends settings := by
  have hsection := @sends_sectionOps settings item Op.aString
    fun name hname => sends_aString (h name hname)
  have hrange : ∀ op ∈ Client.writeSectionPartial item.sectionPartial, op.Sends settings := by
    cases hpart : item.sectionPartial with
    | none => simp [Client.writeSectionPartial]
    | some range =>
      obtain ⟨⟨hoffset, -⟩, hsize, -⟩ := hitem.range range (by simp [hpart])
      simp [Client.writeSectionPartial, Server.special, Op.Sends, hoffset, hsize]
  simp only [Client.writeFetchItemBodySection, List.forall_mem_cons, List.forall_mem_append]
  refine ⟨trivial, ⟨?_, hsection⟩, hrange⟩
  split_ifs <;> simp [Server.atom]

theorem sends_writeItem (hside : settings.side = .server) (hitem : item.Requestable) :
    ∀ op ∈ Server.writeItemBodySection item, op.Sends settings := by
  have hsection := @sends_sectionOps settings item Op.string fun name _ => .inr (.inl hside)
  simp only [Server.writeItemBodySection, List.forall_mem_cons, List.forall_mem_append]
  refine ⟨trivial, hsection, ?_⟩
  cases hpart : item.sectionPartial with
  | none => simp
  | some range =>
    have hoffset := (hitem.range range (by simp [hpart])).1.1
    simp [Server.special, Op.Sends, hoffset]

end Forms

/--
The server reads the section the client asks for.  In the answer the client
reads a section that matches the requests that agree with this one in the path,
what is wanted, the fields up to letter case, and where the range starts, and
no other request.

A name that is no atom and cannot be quoted is a literal, which the other side
must not refuse; the rest of the text is within the limits of the two decoders.
-/
theorem section_requested_echoed [UpperCase] [CaseFold]
    (clientSettings serverSettings : EncoderOptions) (serverOptions clientOptions : Options)
    (hrequest : clientSettings.side = .client ∧ serverOptions.side = .server)
    (hanswer : serverSettings.side = .server ∧ clientOptions.side = .client)
    (item : FetchItemBodySection) (hitem : item.Requestable)
    (hsent : ∀ name ∈ item.fieldNames, isAtom name = true ∨ clientSettings.validQuoted name = true ∨
      clientSettings.MaySend name ∧ Accepts serverOptions name.length (clientSettings.nonSync name))
    (hechoed : ∀ name ∈ item.fieldNames, serverSettings.validQuoted name = true ∨
        Accepts clientOptions name.length false) :
    (∀ dec byte rest, isDelimiter byte = true → Ready serverOptions dec
        (StringForm.counted ((Client.writeFetchItemBodySection item).map (Op.form clientSettings)))
        ((newEncoder.run clientSettings
          (Client.writeFetchItemBodySection item)).1.written ++ byte :: rest) →
      ∃ next, (Server.readFetchAtt serverOptions).Returns dec (.bodySection item) next ∧
        Ready serverOptions next 0 (byte :: rest)) ∧
    ∀ dec rest, Ready clientOptions dec (StringForm.counted ((Server.writeItemBodySection item).map
          (Op.form serverSettings)))
        ((newEncoder.run serverSettings
          (Server.writeItemBodySection item)).1.written ++ SP :: rest) →
      ∃ echoed next, (Client.readSectionName clientOptions).Returns dec (some echoed) next ∧
        Ready clientOptions next 0 (SP :: rest) ∧
        ∀ other : FetchItemBodySection, other.Requestable →
          (Client.matchFetchItemBodySection other echoed = true ↔ SameSection other item) := by
  have hserverSync : ∀ name, serverSettings.nonSync name = false := by
    simp [EncoderOptions.nonSync, hanswer.1]
  refine ⟨fun dec byte rest hstop hready => ?_, fun dec rest hready => ?_⟩
  · have hfields : FieldsRead Server.SearchError.wire serverOptions
        clientSettings.aStringForm item := fun name hname =>
      element_aString ((hsent name hname).imp id fun h =>
        ⟨by simp [hrequest], h.imp id And.right⟩)
    have hsends := sends_writeFetchItem hitem fun name hname =>
        (hsent name hname).imp id (Or.imp id And.left)
    have hbyte : byte ≠ openAngle := by
      rintro rfl
      revert hstop
      decide
    have hread := (@Server.consumes_fetchAtt serverOptions byte rest _ item _
      clientSettings hitem hfields hbyte).congr map_writeFetchItem.1 map_writeFetchItem.2
    rw [newEncoder, Encoder.run_sends [] hsends, List.nil_append] at hready
    exact hread.ready 0 hready
  · have hfields : FieldsRead Client.ReadError.wire clientOptions
        serverSettings.stringForm item := fun name hname =>
      element_string ⟨by simp [hanswer], by
        rw [hserverSync]
        exact hechoed name hname⟩
    have hsends := sends_writeItem hanswer.1 hitem
    have hread := @Client.consumes_sectionName clientOptions SP rest _ item _
      serverSettings hitem hfields (by decide)
    rw [newEncoder, Encoder.run_sends [] hsends, List.nil_append, map_writeItem] at hready
    obtain ⟨next, hreturns, hnext⟩ := hread.ready 0 hready
    exact ⟨_, next, hreturns, hnext, fun other hother =>
      Client.matchFetchItemBodySection_echo_iff hitem hother⟩

def clientDecoder : Options where
  side := .client
  checkLiteralFunc := fun _ => none
  checkBufferedLiteralFunc := none
  maxSize := 8 * 1024 * 1024

def twoFields : FetchItemBodySection where
  specifier := .header
  part := [1, 2]
  headerFields := [ascii "Message-ID", ascii "X[]"]
  sectionPartial := some ⟨0, 10⟩
  peek := true

theorem section_requested_echoed_twoFields :
    (∃ next, (@Server.readFetchAtt plainServer asciiUpper).Returns
      (newDecoder ((newEncoder.run literalMinusClient
        (Client.writeFetchItemBodySection twoFields)).1.written ++ [CR]))
      (.bodySection twoFields) next) ∧
    ∃ echoed next, (@Client.readSectionName clientDecoder asciiUpper).Returns
      (newDecoder ((newEncoder.run (Server.encoderOptions false)
        (Server.writeItemBodySection twoFields)).1.written ++ [SP]))
      (some echoed) next ∧
      @Client.matchFetchItemBodySection asciiFold twoFields echoed = true := by
  have hitem : twoFields.Requestable :=
    ⟨by decide, by decide, by decide, by decide, by decide +kernel, by decide⟩
  have hsection := @section_requested_echoed asciiUpper asciiFold
    literalMinusClient (Server.encoderOptions false) plainServer
    clientDecoder
    ⟨rfl, rfl⟩ ⟨rfl, rfl⟩ twoFields hitem
    (fun name hname => .inr (.inl (by
      revert name
      decide)))
    (fun name hname => .inl (by
      revert name
      decide))
  obtain ⟨next, hreturns, -⟩ := hsection.1 (newDecoder _) CR [] rfl
    ⟨⟨⟨rfl, rfl, fun h => absurd h (by decide)⟩, rfl⟩, rfl⟩
  obtain ⟨echoed, after, hechoed, -, hmatch⟩ := hsection.2 (newDecoder _) []
    ⟨⟨⟨rfl, rfl, fun _ => by decide +kernel⟩, rfl⟩, rfl⟩
  exact ⟨⟨next, hreturns⟩, echoed, after, hechoed,
    (hmatch twoFields hitem).mpr ⟨rfl, rfl, rfl, rfl, rfl⟩⟩

def literalPlusClient : EncoderOptions where
  side := .client
  quotedUTF8 := false
  literalMinus := false
  literalPlus := true
  newContinuationRequest := none

/-- A header field whose name is a literal that is too long for a server. -/
def longField : FetchItemBodySection where
  specifier := .header
  headerFields := [SP :: List.replicate 4096 97]

theorem longField_refused : longField.Requestable ∧
    (@Server.readFetchAtt (Server.connOptions true) asciiUpper
      (newDecoder ((newEncoder.run literalPlusClient
        (Client.writeFetchItemBodySection longField)).1.written ++ [CR]))).1.toOption = none := by
  constructor
  · refine ⟨by decide, by decide, by decide, by decide, ?_, by decide⟩
    have hascii : ∀ count : Nat, ∀ byte ∈ SP :: List.replicate count 97, byte.toNat < 128 := by
      intro count byte hbyte
      rcases List.mem_cons.mp hbyte with rfl | hbyte
      · decide
      · rw [List.eq_of_mem_replicate hbyte]
        decide
    exact List.forall_mem_singleton.mpr (hascii 4096)
  · decide +kernel

end GoImap
