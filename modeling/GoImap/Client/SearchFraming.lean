import GoImap.Client.SearchRoundTrip

/-!
# What search criteria put on a line

What ends a line is kept out of it by the checks of the encoder, or is inside a
literal.  Only the metadata item of a MODSEQ key is written without a check.
-/

namespace GoImap.Wire

def isPlainText (s : Bytes) : Bool := s.all isPlain

def Op.Framed : Op → Bytes → Prop
  | .string s, bytes => StringFramed s bytes
  | _, bytes => isPlainText bytes

def Op.Plain : Op → Prop
  | .text s | .quoted s | .numSet s => isPlainText s
  | _ => True

def Encoder.Framed (settings : EncoderOptions) (ops : List Op) : Prop :=
  ∀ before op after, ops = before ++ op :: after → ∃ bytes,
    (newEncoder.run settings (before ++ [op])).1.written =
      (newEncoder.run settings before).1.written ++ bytes ∧ op.Framed bytes

variable {settings : EncoderOptions} {op : Op} {ops : List Op} {s : Bytes}

theorem isPlainText_iff : isPlainText s ↔ ∀ byte ∈ s, isPlain byte = true := List.all_eq_true

theorem isPlainText_quoted :
    isPlainText (quote :: Encoder.escape s ++ [quote]) ↔ isPlainText s := by
  rw [isPlainText_iff, isPlainText_iff]
  refine ⟨fun h byte hbyte => h byte ?_, forall_mem_quoted (by decide) (by decide)⟩
  have hmem : byte ∈ Encoder.escape s :=
    List.mem_flatMap.mpr ⟨byte, hbyte, by split_ifs <;> simp⟩
  simp [hmem]

theorem isPlainText_formatUint (n : Nat) : isPlainText (formatUint n) :=
  isPlainText_iff.mpr fun _ hbyte => isPlain_of_isDigit (isDigit_of_mem_formatUint hbyte)

theorem isPlainText_flag {flag : Flag} (h : flag = flagWildcard ∨ isValidFlag flag = true) :
    isPlainText flag := by
  rcases h with rfl | h
  · decide
  · cases flag with
    | nil => rfl
    | cons first rest =>
      obtain ⟨hfirst, hrest⟩ := (Internal.isValidFlag_cons first rest).mp h
      refine isPlainText_iff.mpr (List.forall_mem_cons.mpr ⟨?_, fun byte hbyte =>
        isPlain_of_isAtomChar (hrest byte hbyte)⟩)
      rcases hfirst with rfl | hfirst
      · decide
      · exact isPlain_of_isAtomChar hfirst

theorem framed_form_iff (h : op.Sends settings) :
    op.Framed (op.form settings).bytes ↔ op.Plain := by
  cases op with
  | text s | numSet s => simp [Op.Framed, Op.form, Op.Plain]
  | quoted s =>
    rw [Op.form, StringForm.quoted, StringForm.bytes, List.append_nil]
    exact isPlainText_quoted
  | string s =>
    have hframed := StringFramed.string settings s
    rw [newEncoder, Encoder.string_ready [] h] at hframed
    exact iff_of_true hframed trivial
  | number64 v => simp [Op.Framed, Op.form, Op.Plain, isPlainText_formatUint]
  | flag flag => simpa [Op.Framed, Op.form, Op.Plain] using isPlainText_flag h
  | _ => cases h

theorem framed_iff (h : ∀ op ∈ ops, op.Sends settings) :
    Encoder.Framed settings ops ↔ ∀ op ∈ ops, op.Plain := by
  have hwritten : ∀ {part}, part ⊆ ops → (newEncoder.run settings part).1.written =
      StringForm.joined (part.map (Op.form settings)) := by
    intro part hpart
    rw [newEncoder, Encoder.run_sends [] fun op hop => h op (hpart hop)]
    rfl
  have hpiece : ∀ {before op after}, ops = before ++ op :: after →
      (newEncoder.run settings (before ++ [op])).1.written =
        (newEncoder.run settings before).1.written ++ (op.form settings).bytes := by
    rintro before op after rfl
    rw [hwritten (by simp), hwritten (by simp)]
    simp
  constructor
  · intro hframed op hop
    obtain ⟨before, after, hsplit⟩ := List.append_of_mem hop
    obtain ⟨bytes, hbytes, hpieces⟩ := hframed before op after hsplit
    rw [hpiece hsplit, List.append_cancel_left_eq] at hbytes
    exact (framed_form_iff (h op hop)).mp (hbytes ▸ hpieces)
  · intro hplain before op after hsplit
    have hop : op ∈ ops := by simp [hsplit]
    exact ⟨_, hpiece hsplit, (framed_form_iff (h op hop)).mpr (hplain op hop)⟩

end GoImap.Wire

namespace GoImap.Client

open Wire Utf8 Internal

structure Admits (P : Op → Prop) : Prop where
  text : ∀ s, isPlainText s → P (.text s)
  numSet : ∀ s, isPlainText s → P (.numSet s)
  string : ∀ s, P (.string s)
  flag : ∀ flag, P (.flag flag)
  number64 : ∀ v, P (.number64 v)

theorem admits_plain : Admits Op.Plain :=
  ⟨fun _ h => h, fun _ h => h, fun _ => trivial, fun _ => trivial, fun _ => trivial⟩

theorem admits_direct : Admits (·.direct = true) :=
  ⟨fun _ _ => rfl, fun _ _ => rfl, fun _ => rfl, fun _ => rfl, fun _ => rfl⟩

theorem isPlainText_numSet (set : NumSet) : isPlainText set.string := by
  refine isPlainText_iff.mpr fun byte hbyte => ?_
  rcases (Server.isSetChar_facts (Server.isSetChar_of_mem_string hbyte)).1 with rfl | hatom
  · decide
  · exact isPlain_of_isAtomChar hatom

theorem isPlainText_flagSearchKey [UpperCase] (flag : Flag) : isPlainText (flagSearchKey flag) := by
  have hfacts : ∀ flag ∈ keyFlags, (∀ byte ∈ trimBackslash flag, byte.toNat < 128) ∧
      isPlainText ((trimBackslash flag).map upperByte) := by decide +kernel
  rw [flagSearchKey]
  split_ifs with hkey
  · obtain ⟨hascii, hplain⟩ := hfacts flag hkey
    rwa [toUpper_of_ascii hascii]
  · rfl

section Admits

variable {P : Op → Prop} (h : Admits P)

include h

theorem Admits.argument {key : String} {op : Op} (hkey : isPlainText (ascii key)) (hop : P op) :
    ∀ other ∈ argument key op, P other := by
  simp [Client.argument, h.text _ hkey, h.text [SP] (by decide), hop]

theorem Admits.dates {on since before : String} (hon : isPlainText (ascii on))
    (hsince : isPlainText (ascii since)) (hbefore : isPlainText (ascii before)) (t₁ t₂ : Int) :
    ∀ item ∈ dateItems on since before t₁ t₂, ∀ op ∈ item, P op := by
  have hdate := fun {key} (hkey : isPlainText (ascii key)) t =>
    h.argument hkey (h.string (dateString t))
  rw [dateItems]
  split_ifs
  · simpa using hdate hon t₁
  · simpa using ⟨hdate hsince t₁, hdate hbefore t₂⟩
  · simpa using hdate hsince t₁
  · simpa using hdate hbefore t₂
  · simp

theorem Admits.sizes {key : String} (hkey : isPlainText (ascii key)) (size : Int) :
    ∀ item ∈ sizeItems key size, ∀ op ∈ item, P op := by
  rw [sizeItems]
  split_ifs
  · simpa using h.argument hkey (h.number64 size)
  · simp

theorem forall_spacedItems (items : List (List Op)) :
    (∀ op ∈ spacedItems items, P op) ↔ ∀ item ∈ items, ∀ op ∈ item, P op := by
  have hspace := h.text [SP] (by decide)
  have hall := h.text (ascii "ALL") (by decide)
  rw [spacedItems, forall_mem_intercalate (by simpa using hspace), orAll]
  split_ifs with hempty
  · simp [hempty, hall]
  · rfl

theorem forall_listed (items : List (List Op)) :
    (∀ op ∈ listed items, P op) ↔ ∀ item ∈ items, ∀ op ∈ item, P op := by
  have hopen := h.text [openParen] (by decide)
  have hclose := h.text [closeParen] (by decide)
  rw [listed, List.forall_mem_cons, List.forall_mem_append, forall_spacedItems h]
  simp [hopen, hclose]

variable [UpperCase] (condStore : Bool)

theorem Admits.header (field : SearchCriteriaHeaderField) : ∀ op ∈ headerItem field, P op := by
  have hkeys : ∀ key ∈ addressKeys, isPlainText key := by decide
  rw [headerItem, List.forall_mem_append]
  refine ⟨?_, by simp [h.text [SP] (by decide), h.string]⟩
  split_ifs with hkey
  · simpa using h.text _ (hkeys _ hkey)
  · exact h.argument (by decide) (h.string _)

theorem Admits.flags (flag : Flag) :
    (∀ op ∈ flagItem flag, P op) ∧ ∀ op ∈ notFlagItem flag, P op := by
  have hkey := isPlainText_flagSearchKey flag
  have hnot : isPlainText (ascii "UN" ++ flagSearchKey flag) := by
    rw [isPlainText, List.all_append, Bool.and_eq_true]
    exact ⟨by decide, hkey⟩
  rw [flagItem, notFlagItem]
  split_ifs
  · simpa using ⟨h.text _ hkey, h.text _ hnot⟩
  · exact ⟨h.argument (by decide) (h.flag flag), h.argument (by decide) (h.flag flag)⟩

theorem forall_fieldItems (fields : SearchFields) :
    (∀ item ∈ fieldItems condStore fields, ∀ op ∈ item, P op) ↔
      ∀ item ∈ modSeqItems condStore fields.modSeq, ∀ op ∈ item, P op := by
  have huid : ∀ set : UIDSet, isPlainText set.string := by
    intro set
    cases set with
    | nums nums => exact isPlainText_numSet nums
    | searchRes => rfl
  rw [fieldItems, List.forall_mem_append, and_iff_right]
  simp only [List.forall_mem_append, List.forall_mem_map, and_assoc]
  exact ⟨fun set _ => by simpa using h.numSet _ (isPlainText_numSet set),
    fun set _ => h.argument (by decide) (h.numSet _ (huid set)),
    h.dates (by decide) (by decide) (by decide) _ _,
    h.dates (by decide) (by decide) (by decide) _ _, fun field _ => h.header field,
    fun s _ => h.argument (by decide) (h.string s),
    fun s _ => h.argument (by decide) (h.string s), fun flag _ => (h.flags flag).1,
    fun flag _ => (h.flags flag).2, h.sizes (by decide) _, h.sizes (by decide) _⟩

theorem forall_searchItems (criteria : SearchCriteria) :
    (∀ item ∈ searchItems condStore criteria, ∀ op ∈ item, P op) ↔ ∀ fields ∈ criteria.allFields,
      ∀ item ∈ modSeqItems condStore fields.modSeq, ∀ op ∈ item, P op := by
  have hspace := h.text [SP] (by decide)
  have hnotKey := h.text (ascii "NOT") (by decide)
  have horKey := h.text (ascii "OR") (by decide)
  induction criteria using SearchCriteria.tree_induction with
  | h fields not or hnot hor =>
    rw [searchItems, List.forall_mem_append, List.forall_mem_append, forall_fieldItems h,
      notItems_eq, orItems_eq, and_assoc, SearchCriteria.forall_mem_allFields,
      List.forall_mem_map, List.forall_mem_map]
    refine and_congr Iff.rfl (and_congr (forall₂_congr fun criteria hmem => ?_)
      (forall₂_congr fun pair hmem => ?_))
    · refine Iff.trans ?_ (hnot criteria hmem)
      rw [List.forall_mem_cons, List.forall_mem_cons, forall_listed h]
      simp [hnotKey, hspace]
    · refine Iff.trans ?_ (and_congr (hor pair hmem).1 (hor pair hmem).2)
      rw [List.forall_mem_cons, List.forall_mem_cons, List.forall_mem_append,
        List.forall_mem_cons, forall_listed h, forall_listed h]
      simp [horKey, hspace]

end Admits

/-! ## Bounds -/

def PlainBound (bound : SearchCriteriaModSeq) : Prop :=
  bound.metadataName ≠ [] ∧ bound.metadataType ≠ [] →
    isPlainText bound.metadataName ∧ isPlainText bound.metadataType

theorem plain_modSeqItem (bound : SearchCriteriaModSeq) :
    (∀ op ∈ modSeqItem bound, op.Plain) ↔ PlainBound bound := by
  have hkey : isPlainText (ascii "MODSEQ") := by decide
  have hspace : isPlainText [SP] := by decide
  have hdigits : isPlainText (if bound.modSeq ≠ 0 then formatUint bound.modSeq.toNat
      else ascii "0") := by
    split_ifs
    · exact isPlainText_formatUint _
    · decide
  rw [modSeqItem, PlainBound]
  generalize (if bound.modSeq ≠ 0 then _ else _) = digits at hdigits ⊢
  by_cases hitem : bound.metadataName ≠ [] ∧ bound.metadataType ≠ []
  · rw [if_pos hitem, imp_iff_right hitem]
    simp [Op.Plain, hkey, hspace, hdigits]
  · rw [if_neg hitem]
    simp [Op.Plain, hkey, hspace, hdigits, hitem]

/--
Criteria whose items are written without an error put on the line only what
cannot end it, apart from literals, just if the metadata items are plain.
-/
theorem search_framed_iff [UpperCase] (settings : EncoderOptions) (condStore : Bool)
    (criteria : SearchCriteria)
    (hdone : (newEncoder.run settings (writeSearchKey condStore criteria)).2 = .done)
    (herr : (newEncoder.run settings (writeSearchKey condStore criteria)).1.err = none) :
    Encoder.Framed settings (writeSearchKey condStore criteria) ↔ ∀ fields ∈ criteria.allFields,
      ∀ bound, fields.modSeq = some bound → condStore = true → PlainBound bound := by
  have hall : ∀ {P : Op → Prop}, Admits P → ((∀ op ∈ writeSearchKey condStore criteria, P op) ↔
      ∀ fields ∈ criteria.allFields, ∀ item ∈ modSeqItems condStore fields.modSeq,
        ∀ op ∈ item, P op) :=
    fun h => (forall_spacedItems h _).trans (forall_searchItems h condStore criteria)
  have hdirect : ∀ op ∈ writeSearchKey condStore criteria, op.direct = true := by
    refine (hall admits_direct).mpr fun fields _ item hitem => ?_
    cases hbound : fields.modSeq with
    | none => simp [hbound, modSeqItems] at hitem
    | some bound =>
      cases condStore with
      | false => simp [hbound, modSeqItems] at hitem
      | true =>
        simp only [hbound, modSeqItems, if_true, List.mem_singleton] at hitem
        subst hitem
        rw [modSeqItem]
        split_ifs <;> simp [Op.direct]
  rw [framed_iff (Encoder.sends_of_run [] hdirect hdone herr), hall admits_plain]
  refine forall₂_congr fun fields _ => ?_
  cases fields.modSeq with
  | none => simp [modSeqItems]
  | some bound =>
    cases condStore with
    | false => simp [modSeqItems]
    | true => simp [modSeqItems, plain_modSeqItem]

def modSeqOf (name : Bytes) : SearchCriteria :=
  .mk { modSeq := some ⟨1, name, ascii "all"⟩ } [] []

theorem search_framed_flags : Encoder.Framed literalMinusClient
      (@writeSearchKey asciiUpper true (modSeqOf (ascii "/flags/\\draft"))) := by
  refine (@search_framed_iff asciiUpper literalMinusClient true _ (by decide +kernel)
    (by decide +kernel)).mpr ?_
  simp only [modSeqOf, SearchCriteria.forall_mem_allFields]
  refine ⟨?_, by simp, by simp⟩
  rintro bound ⟨⟩ - -
  decide

/-- Line ends go out in a quoted string, and no error is reported. -/
theorem search_logs_out :
    let ops := @writeSearchKey asciiUpper true (modSeqOf (ascii "\r\nA LOGOUT\r\n"))
    let result := newEncoder.run literalMinusClient ops
    result.2 = .done ∧ result.1.err = none ∧
      result.1.written = ascii "MODSEQ \"\r\nA LOGOUT\r\n\" all 1" ∧
      ¬Encoder.Framed literalMinusClient ops := by
  intro ops result
  have hdone : result.2 = .done := by decide +kernel
  have herr : result.1.err = none := by decide +kernel
  have hquoted : .quoted (ascii "\r\nA LOGOUT\r\n") ∈ ops := List.mem_of_getElem? (i := 2) rfl
  have hends : ¬isPlainText (ascii "\r\nA LOGOUT\r\n") := by decide
  refine ⟨hdone, herr, by decide +kernel, fun hframed => ?_⟩
  have hplain := (framed_iff (Encoder.sends_of_run [] (by decide +kernel) hdone herr)).mp hframed
  exact hends (hplain _ hquoted)

end GoImap.Client
