import GoImap.Fetch.BodyTree

/-!
# Writing body structures

A structure is written by the calls of its parts.  Most of them write a text or
a string, which a server always can.  A structure is written without a panic if
the extension data is there wherever it is written.
-/

namespace GoImap

open Wire Utf8 Parsing
open Server (listOps writeBodyStructure writeChildren writeSinglePart
  writeBodyFields writeBodyFldLines writeBodyFldParam writeBodyFldDsp
  writeBodyFldLang writeBodyExt1part writeBodyExtMpart writeEnvelope
  writeExtFields writeNString placeholder isExtended)

/-! ## Calls -/

def Wire.Op.plain : Op → Bool
  | .text _ | .string _ => true
  | _ => false

section Plain

theorem plain_text (s : Bytes) : (Op.text s).plain = true := rfl

theorem plain_listOps {items : List (List Op)} (h : ∀ item ∈ items, ∀ op ∈ item, op.plain = true) :
    ∀ op ∈ listOps items, op.plain = true :=
  (Server.forall_mem_listOps plain_text items).mpr h

theorem plain_nString (s : Bytes) : (writeNString s).plain = true := by
  rw [writeNString]
  split_ifs
  · rfl
  · rfl

theorem plain_params (params : Params) : ∀ op ∈ writeBodyFldParam params, op.plain = true := by
  rw [writeBodyFldParam]
  split_ifs
  · simp [Op.nil, Server.atom, plain_text]
  · refine plain_listOps fun item hitem => ?_
    obtain ⟨entry, -, rfl⟩ := List.mem_map.mp hitem
    simp [Server.space, Op.plain]

theorem plain_extFields (disposition : Option BodyStructureDisposition)
    (language : List Bytes) (location : Bytes) :
    ∀ op ∈ writeExtFields disposition language location, op.plain = true := by
  have hdisposition : ∀ op ∈ writeBodyFldDsp disposition, op.plain = true := by
    cases disposition with
    | none => simp [writeBodyFldDsp, Op.nil, Server.atom, plain_text]
    | some disp =>
      simp only [writeBodyFldDsp, List.forall_mem_cons, List.forall_mem_append]
      exact ⟨rfl, rfl, rfl, plain_params disp.params, rfl, by simp⟩
  have hlanguage : ∀ op ∈ writeBodyFldLang language, op.plain = true := by
    rw [writeBodyFldLang]
    split_ifs
    · simp [Op.nil, Server.atom, plain_text]
    · refine plain_listOps fun item hitem => ?_
      obtain ⟨s, -, rfl⟩ := List.mem_map.mp hitem
      simp [Op.plain]
  simp only [writeExtFields, List.forall_mem_cons, List.forall_mem_append]
  exact ⟨hdisposition, rfl, hlanguage, rfl, plain_nString _, by simp⟩

theorem plain_fields [LowerCase] (bs : BodyStructureSinglePart) :
    ∀ op ∈ writeBodyFields bs, op.plain = true := by
  simp only [writeBodyFields, List.forall_mem_cons, List.forall_mem_append]
  exact ⟨rfl, rfl, rfl, rfl, plain_params bs.params, rfl, plain_nString _,
    rfl, plain_nString _, rfl, rfl, rfl, rfl, by simp⟩

theorem plain_envelope [MailText] (envelope : Option Envelope) :
    ∀ op ∈ writeEnvelope envelope, op.plain = true := by
  have haddress : ∀ addr : Address, ∀ op ∈ Server.writeAddress addr, op.plain = true := by
    intro addr
    simp only [Server.writeAddress, List.forall_mem_cons]
    exact ⟨rfl, plain_nString _, rfl, rfl, rfl, plain_nString _, rfl, plain_nString _, rfl, by simp⟩
  have hlist : ∀ l : List Address, ∀ op ∈ Server.writeAddressList l, op.plain = true := by
    intro l
    rw [Server.writeAddressList]
    split_ifs
    · simp [Op.nil, Server.atom, plain_text]
    · refine plain_listOps fun item hitem => ?_
      obtain ⟨addr, -, rfl⟩ := List.mem_map.mp hitem
      exact haddress addr
  have hdate : ∀ date : Option Moment, (Server.writeDate date).plain = true := by
    intro date
    cases date with
    | none | some date => rfl
  have hreply : ∀ ids, (Server.writeInReplyTo ids).plain = true := by
    intro ids
    rw [Server.writeInReplyTo]
    split_ifs
    · rfl
    · rfl
  have hid : ∀ id, (Server.writeMessageID id).plain = true := by
    intro id
    rw [Server.writeMessageID]
    split_ifs
    · rfl
    · rfl
  simp only [writeEnvelope, List.forall_mem_cons, List.forall_mem_append]
  refine ⟨rfl, hdate _, rfl, plain_nString _, ?_, rfl, hreply _, rfl, hid _, rfl, by simp⟩
  intro op hop
  obtain ⟨l, -, hmem⟩ := List.mem_flatMap.mp hop
  rcases List.mem_cons.mp hmem with rfl | hmem
  · rfl
  · exact hlist l op hmem

end Plain

/-! ## The calls of a part -/

namespace BodyStructure

section Calls

variable [LowerCase] [CaseFold] [MailText] (extended : Bool)

def ownOps : BodyStructure → List Op
  | .singlePart bs => writeSinglePart extended bs
  | .messagePart bs envelope _ numLines =>
    Server.special openParen :: (writeBodyFields bs ++ Server.space ::
      (writeEnvelope envelope ++ Server.space :: Server.space ::
        .number64 numLines.toInt :: (writeBodyExt1part extended bs.extended ++
            [Server.special closeParen])))
  | .multiPart children subtype ext =>
    Server.special openParen :: ((if children = [] then writeSinglePart extended placeholder
        else []) ++ Server.space :: .string subtype ::
          (writeBodyExtMpart extended ext ++ [Server.special closeParen]))

mutual

theorem mem_write (op : Op) : ∀ bs : BodyStructure, op ∈ writeBodyStructure extended bs ↔
      ∃ part ∈ bs.parts, op ∈ part.ownOps extended
  | .singlePart bs => by simp [writeBodyStructure, parts, ownOps]
  | .messagePart bs envelope body numLines => by
      rw [parts, List.exists_mem_cons_iff, ← mem_write op body]
      simp only [writeBodyStructure, ownOps, List.mem_cons, List.mem_append]
      tauto
  | .multiPart children subtype ext => by
      rw [parts, List.exists_mem_cons_iff, ← mem_writeChildren op children]
      simp only [writeBodyStructure, ownOps, List.mem_cons, List.mem_append]
      split_ifs with hnil
      · simp [hnil, writeChildren]
      · simp only [List.not_mem_nil, false_or]
        tauto

theorem mem_writeChildren (op : Op) : ∀ children : List BodyStructure,
    op ∈ writeChildren extended children ↔
      ∃ part ∈ childrenParts children, op ∈ part.ownOps extended
  | [] => by simp [writeChildren, childrenParts]
  | child :: rest => by
      simp [writeChildren, childrenParts, mem_write op child, mem_writeChildren op rest,
        or_and_right, exists_or]

end

end Calls

section Panics

variable {settings : EncoderOptions} {extended : Bool}

theorem sends_of_plain (hside : settings.side = .server) {op : Op}
    (h : op.plain = true) : op.Sends settings := by
  cases op with
  | text s => trivial
  | string s => exact .inr (.inl hside)
  | _ => cases h

theorem plain_ext1part {ext : Option BodyStructureSinglePartExt}
    (hcomplete : extended = true → ext.isSome = true) :
    ∀ op ∈ writeBodyExt1part extended ext, op.plain = true := by
  cases extended with
  | false => simp [writeBodyExt1part]
  | true =>
    obtain ⟨ext, rfl⟩ := Option.isSome_iff_exists.mp (hcomplete rfl)
    simp only [writeBodyExt1part, if_true, List.forall_mem_cons]
    exact ⟨rfl, rfl, rfl, plain_extFields _ _ _⟩

theorem plain_extMpart {ext : Option BodyStructureMultiPartExt}
    (hcomplete : extended = true → ext.isSome = true) :
    ∀ op ∈ writeBodyExtMpart extended ext, op.plain = true := by
  cases extended with
  | false => simp [writeBodyExtMpart]
  | true =>
    obtain ⟨ext, rfl⟩ := Option.isSome_iff_exists.mp (hcomplete rfl)
    simp only [writeBodyExtMpart, if_true, List.forall_mem_cons, List.forall_mem_append]
    exact ⟨rfl, plain_params _, rfl, plain_extFields _ _ _⟩

variable [LowerCase] [CaseFold]

theorem sends_singlePart (hside : settings.side = .server) {bs : BodyStructureSinglePart}
    (hlines : bs.CountsLines) (hcomplete : extended = true → bs.extended.isSome = true) :
    ∀ op ∈ writeSinglePart extended bs, op.Sends settings := by
  have hplain : ∀ ops : List Op, (∀ op ∈ ops, op.plain = true) → ∀ op ∈ ops, op.Sends settings :=
    fun ops h op hop => sends_of_plain hside (h op hop)
  have hcount : ∀ op ∈ writeBodyFldLines bs, op.Sends settings := by
    rw [writeBodyFldLines]
    cases htext : bs.text with
    | some text => simpa [Server.space, Op.Sends] using hlines text htext
    | none =>
      split_ifs
      · simp [Server.space, Op.Sends]
      · simp
  simp only [writeSinglePart, List.forall_mem_cons, List.forall_mem_append]
  exact ⟨trivial, hplain _ (plain_fields bs), hcount,
    hplain _ (plain_ext1part hcomplete), trivial, by simp⟩

variable [MailText]

theorem sends_ownOps (hside : settings.side = .server) {part : BodyStructure}
    (hlines : part.CountsLines) (hcomplete : part.Complete extended) :
    ∀ op ∈ part.ownOps extended, op.Sends settings := by
  have hplain : ∀ ops : List Op, (∀ op ∈ ops, op.plain = true) → ∀ op ∈ ops, op.Sends settings :=
    fun ops h op hop => sends_of_plain hside (h op hop)
  cases part with
  | singlePart bs => exact sends_singlePart hside hlines hcomplete
  | messagePart bs envelope body numLines =>
    simp only [ownOps, List.forall_mem_cons, List.forall_mem_append]
    exact ⟨trivial, hplain _ (plain_fields bs), trivial,
      hplain _ (plain_envelope envelope), trivial, trivial, hlines,
      hplain _ (plain_ext1part hcomplete), trivial, by simp⟩
  | multiPart children subtype ext =>
    have hplace : ∀ op ∈ (if children = [] then
        writeSinglePart extended placeholder else []),
        op.Sends settings := by
      split_ifs
      · exact sends_singlePart hside (fun text htext => absurd htext (by simp [placeholder]))
          (fun _ => rfl)
      · simp
    simp only [ownOps, List.forall_mem_cons, List.forall_mem_append]
    exact ⟨trivial, hplace, trivial, .inr (.inl hside),
      hplain _ (plain_extMpart hcomplete), trivial, by simp⟩

theorem panics_mem_ownOps {part : BodyStructure}
    (h : ¬part.Complete extended) : Op.panics ∈ part.ownOps extended := by
  obtain ⟨rfl, hmissing⟩ : extended = true ∧ isExtended part = false := by
    simpa [Complete] using h
  cases part with
  | singlePart bs | messagePart bs envelope body numLines =>
    have hnone : bs.extended = none := by simpa [isExtended] using hmissing
    simp [ownOps, writeSinglePart, writeBodyExt1part, hnone]
  | multiPart children subtype ext =>
    have hnone : ext = none := by simpa [isExtended] using hmissing
    simp [ownOps, writeBodyExtMpart, hnone]

theorem sends_write (hside : settings.side = .server) {bs : BodyStructure}
    (hlines : ∀ part ∈ bs.parts, part.CountsLines)
    (hcomplete : ∀ part ∈ bs.parts, part.Complete extended) :
    ∀ op ∈ writeBodyStructure extended bs, op.Sends settings := by
  intro op hop
  obtain ⟨part, hpart, hown⟩ := (mem_write extended op bs).mp hop
  exact sends_ownOps hside (hlines part hpart) (hcomplete part hpart) op hown

theorem complete_of_written {bs : BodyStructure} (h : Op.panics ∉ writeBodyStructure extended bs) :
    ∀ part ∈ bs.parts, part.Complete extended := by
  intro part hpart
  by_contra hmissing
  exact h ((mem_write extended .panics bs).mpr ⟨part, hpart, panics_mem_ownOps hmissing⟩)

end Panics

end BodyStructure

end GoImap
