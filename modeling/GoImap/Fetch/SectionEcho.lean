import GoImap.Fetch.Section

/-!
# Sections survive the wire

The reader of a path goes on as long as a dot is followed by a number.  What is
wanted of a part starts with a letter, so a dot in front of it ends the path,
and the two readers of a section find the path, the name behind it and the list
of fields as they were written.
-/

namespace GoImap

open Wire Utf8 Parsing StringForm
open Decoder (Passes Accepts isDelimiter)
open Server (spaced Starts listOps forall_mem_listOps)

/-! ## The path of a part -/

variable {α : Type} {dotted : Bool}

section Path

variable {ε : Type} {options : Options} {byte : UInt8} {rest : Bytes}

def dottedForms (part : List Nat) : List StringForm :=
  part.flatMap fun num => [.atom [dot], .atom (formatUint num)]

def dotForms (dotted : Bool) : List StringForm :=
  if dotted then [.atom [dot]] else []

theorem consumes_partNumber {num : Nat} {more : List Nat}
    (hnum : num < 2 ^ 32) (hdigit : isDigit byte = false) :
    Consumes options (attempt (·.number options) : Parser Decoder ε _)
      [.atom (formatUint num)] (some (UInt32.ofNat num))
      (joined (dottedForms more ++ dotForms dotted) ++ byte :: rest) := by
  cases more with
  | nil =>
    cases dotted with
    | false => exact consumes_number hnum hdigit
    | true => exact consumes_number hnum (by decide)
  | cons next more => exact consumes_number hnum (by decide)

theorem consumes_partLoop {done more : List Nat} (hdone : done ≠ [])
    (hmore : ∀ num ∈ more, num < 2 ^ 32) (hdigit : isDigit byte = false)
    (hdot : dotted = false → byte ≠ dot) {fuel : Nat} (hfuel : more.length < fuel) :
    Consumes options (readSectionPartLoop options fuel done : Parser Decoder ε _)
      (dottedForms more ++ dotForms dotted) (done ++ more, dotted)
      (byte :: rest) := by
  induction more generalizing done fuel with
  | nil =>
    obtain ⟨fuel, rfl⟩ := Nat.exists_eq_add_of_lt hfuel
    rw [readSectionPartLoop, if_neg hdone, List.append_nil]
    cases dotted with
    | false =>
      exact (consumes_noSpecial (hdot rfl)).bind (.pure (done, false))
    | true =>
      refine .next consumes_special (.peek (consumes_noNumber hdigit) ?_)
      simpa [hdone] using Consumes.pure (done, true)
  | cons num more ih =>
    obtain ⟨fuel, rfl⟩ := Nat.exists_eq_add_of_lt hfuel
    obtain ⟨hnum, hmore⟩ := List.forall_mem_cons.mp hmore
    have hnat : (UInt32.ofNat num).toNat = num := UInt32.toNat_ofNat_of_lt hnum
    have hloop := @ih (done ++ [num]) (by simp) hmore (more.length + 1 + fuel) (by omega)
    rw [readSectionPartLoop, if_neg hdone]
    refine .next consumes_special (.next (consumes_partNumber hnum hdigit) ?_)
    simpa [hnat, dottedForms, List.flatMap] using hloop

theorem dottedForms_cons (num : Nat) (more : List Nat) :
    dottedForms (num :: more) = .atom [dot] :: .atom (formatUint num) :: dottedForms more := rfl

theorem intercalate_dot (num : Nat) (more : List Nat) :
    [dot].intercalate (formatUint num :: more.map formatUint) =
      formatUint num ++ joined (dottedForms more) := by
  induction more generalizing num with
  | nil => simp [dottedForms]
  | cons next more ih =>
    rw [List.map_cons, List.intercalate_cons_cons, ih next]
    simp [dottedForms_cons]

theorem counted_dottedForms (part : List Nat) :
    counted (dottedForms part) = (joined (dottedForms part)).length := by
  induction part with
  | nil => rfl
  | cons num part ih =>
    simp [dottedForms_cons, ih]
    omega

theorem length_le_dottedForms (part : List Nat) :
    part.length ≤ (joined (dottedForms part)).length := by
  induction part with
  | nil => simp
  | cons num part ih =>
    simp [dottedForms_cons]
    omega

theorem consumes_sectionPart {part : List Nat} (settings : EncoderOptions)
    (hpart : ∀ num ∈ part, num < 2 ^ 32) (hsome : dotted = true → part ≠ [])
    (hdigit : isDigit byte = false) (hdot : dotted = false → byte ≠ dot) :
    Consumes options (readSectionPart options : Parser Decoder ε _)
      ((writeSectionPart part).map (Op.form settings) ++ dotForms dotted)
      (part, dotted) (byte :: rest) := by
  cases part with
  | nil =>
    obtain rfl : dotted = false := by simpa using hsome
    intro dec count hready
    refine Consumes.bind (.pure true) (.peek (consumes_noNumber hdigit) ?_) dec count hready
    exact .pure ([], false)
  | cons num more =>
    obtain ⟨hnum, hmore⟩ := List.forall_mem_cons.mp hpart
    have hnat : (UInt32.ofNat num).toNat = num := UInt32.toNat_ofNat_of_lt hnum
    have hforms : Consumes options (readSectionPart options :
        Parser Decoder ε _) ([.atom (formatUint num)] ++
          (dottedForms more ++ dotForms dotted)) (num :: more, dotted)
        (byte :: rest) := by
      intro dec count hready
      have hfuel : more.length < dec.rest.length := by
        have hlength := length_le_dottedForms more
        have hpos := List.length_pos_iff.mpr (formatUint_ne_nil num)
        rw [hready.rest_eq]
        simp only [joined_append, joined_cons, bytes_atom, List.length_append]
        omega
      refine Consumes.bind (.pure true) ((consumes_partNumber hnum hdigit).bind ?_) dec count hready
      simpa [hnat] using @consumes_partLoop dotted ε options byte rest [num]
        more (by simp) hmore hdigit hdot _ hfuel
    refine hforms.congr ?_ ?_
    · simp [writeSectionPart, Op.form, intercalate_dot]
    · simp [writeSectionPart, Op.form, intercalate_dot, counted_dottedForms, Nat.add_assoc]

end Path

/-! ## What is wanted of a part -/

namespace FetchItemBodySection

def fieldNames (item : FetchItemBodySection) : List Bytes :=
  item.headerFields ++ item.headerFieldsNot

structure Requestable (item : FetchItemBodySection) : Prop where
  part : ∀ num ∈ item.part, 1 ≤ num ∧ num < 2 ^ 32
  specifier : item.specifier ∈ [.none, .header, .text] ∨ item.specifier = .mime ∧ item.part ≠ []
  header : item.fieldNames ≠ [] → item.specifier = .header
  oneList : item.headerFields = [] ∨ item.headerFieldsNot = []
  ascii : ∀ name ∈ item.fieldNames, ∀ byte ∈ name, byte.toNat < 128
  range : ∀ range ∈ item.sectionPartial, (0 ≤ range.offset ∧ range.offset < 2 ^ 63) ∧
      0 ≤ range.size ∧ range.size < 2 ^ 63

def entered (known item : FetchItemBodySection) : FetchItemBodySection :=
  { known with
    specifier := item.specifier
    headerFields := item.headerFields
    headerFieldsNot := item.headerFieldsNot }

end FetchItemBodySection

open FetchItemBodySection

section Specifier

variable (fieldForm : Bytes → StringForm) (item : FetchItemBodySection)

def fieldListForms (names : List Bytes) : List StringForm :=
  .atom [SP] :: listForms (names.map ([fieldForm ·]))

def headerListForms : List StringForm :=
  if item.headerFields ≠ [] then
    .atom (ascii ".FIELDS") :: fieldListForms fieldForm item.headerFields
  else if item.headerFieldsNot ≠ [] then
    .atom (ascii ".FIELDS.NOT") :: fieldListForms fieldForm item.headerFieldsNot
  else []

def specifierForms : List StringForm :=
  if item.specifier ≠ .none then
    .atom item.specifier.string :: headerListForms fieldForm item
  else []

end Specifier

theorem map_headerListOps (settings : EncoderOptions) (field : Bytes → Op)
    (item : FetchItemBodySection) :
    (headerListOps field item).map (Op.form settings) =
      headerListForms (fun name => (field name).form settings) item := by
  rw [headerListOps, headerListForms]
  split_ifs <;>
    simp [fieldListForms, map_listOps, Server.atom, Server.space, Op.form, Function.comp_def]

section Reading

variable {ε : Type} {wire : Option DecoderError → ε} {options : Options}
  {byte : UInt8} {rest : Bytes} {fieldForm : Bytes → StringForm}

def specifierNames : List Bytes :=
  ["HEADER", "MIME", "TEXT", "HEADER.FIELDS", "HEADER.FIELDS.NOT"].map ascii

theorem specifierNames_facts : ∀ name ∈ specifierNames, isAtom name = true ∧
      (∀ byte ∈ name, byte.toNat < 128) ∧ name.map upperByte = name := by
  decide +kernel

theorem consumes_fields {names : List Bytes} (h : ∀ name ∈ names, Element options
      (demand wire (·.expectAString options)) [fieldForm name] name) :
    Consumes options (readHeaderList wire options)
      (listForms (names.map ([fieldForm ·]))) names rest := by
  have hlist := @consumes_expectedList _ _ wire options
    (demand wire (·.expectAString options)) rest _ names ([fieldForm ·]) id h
  rwa [List.map_id] at hlist

variable [UpperCase]

theorem consumes_specifier {name : Bytes} (hname : name ∈ specifierNames)
    (hstop : isAtomChar byte = false) (dotted : Bool) :
    Consumes options (readSpecifier wire options dotted) [.atom name] name (byte :: rest) := by
  obtain ⟨hatom, hascii, hmap⟩ := specifierNames_facts name hname
  have hupper := (toUpper_of_ascii hascii).trans hmap
  cases dotted with
  | true =>
    refine .next (consumes_expectAtom hatom hstop) ?_
    simpa [hupper] using Consumes.pure name
  | false =>
    obtain ⟨hne, hall⟩ := Internal.isAtom_iff.mp hatom
    refine .next (consumes_func hne hall hstop) (.peek (.pure name) ?_)
    simpa [hupper] using Consumes.pure name

end Reading

theorem Wire.Consumes.reading {p : Client.Read α} {options : Options} {forms : List StringForm}
    {a : α} {rest : Bytes} (place : String) (h : Consumes options p forms a rest) :
    Consumes options (Client.reading place p) forms a rest := by
  intro dec count hready
  obtain ⟨next, hreturns, hnext⟩ := h dec count hready
  refine ⟨next, ?_, hnext⟩
  rw [Parser.Returns] at hreturns ⊢
  rw [Client.reading, hreturns]

section Sections

variable {options : Options} {byte : UInt8} {rest : Bytes}
  {fieldForm : Bytes → StringForm} {item known : FetchItemBodySection}
  {ε : Type}

def FieldsRead {ε : Type} (wire : Option DecoderError → ε) (options : Options)
    (fieldForm : Bytes → StringForm) (item : FetchItemBodySection) : Prop :=
  ∀ name ∈ item.fieldNames, Element options
    (demand wire (·.expectAString options)) [fieldForm name] name

theorem consumes_fieldList {wire : Option DecoderError → ε} {names : List Bytes}
    (h : ∀ name ∈ names, Element options
      (demand wire (·.expectAString options)) [fieldForm name] name) (enter : List Bytes → α) :
    Consumes options (do
        require wire (·.expectSP options)
        let names ← readHeaderList wire options
        pure (enter names))
      (fieldListForms fieldForm names) (enter names) rest := by
  exact .next (consumes_expectSP (by decide)) ((consumes_fields h).map enter)

theorem ofString_string (hitem : item.Requestable) :
    item.specifier.string ∈ [[], ascii "HEADER", ascii "MIME", ascii "TEXT"] ∧
      PartSpecifier.ofString item.specifier.string = item.specifier ∧
      (item.specifier ≠ .none → item.specifier.string ∈ specifierNames) := by
  have hspecifier := hitem.specifier
  simp only [List.mem_cons, List.not_mem_nil, or_false] at hspecifier
  rcases hspecifier with (hnone | hheader | htext) | ⟨hmime, -⟩
  · rw [hnone]; decide
  · rw [hheader]; decide
  · rw [htext]; decide
  · rw [hmime]; decide

def dottedPath (item : FetchItemBodySection) : Bool := item.part ≠ [] ∧ item.specifier ≠ .none

def pathForms (settings : EncoderOptions) (item : FetchItemBodySection) : List StringForm :=
  (writeSectionPart item.part).map (Op.form settings) ++ dotForms (dottedPath item)

theorem specifierForms_head (hitem : item.Requestable) (forms : List StringForm) :
    ∃ first tail, joined (specifierForms fieldForm item ++
        .atom [closeBracket] :: forms) ++ rest = first :: tail ∧
      isDigit first = false ∧ first ≠ dot ∧
      (item.specifier ≠ .none → first ≠ closeBracket) := by
  have hspecifier := hitem.specifier
  simp only [List.mem_cons, List.not_mem_nil, or_false] at hspecifier
  rcases hspecifier with (hnone | hheader | htext) | ⟨hmime, -⟩
  · rw [specifierForms, if_neg (by simp [hnone])]
    exact ⟨closeBracket, _, rfl, by decide, by decide, fun h => absurd hnone h⟩
  · rw [specifierForms, if_pos (by simp [hheader]), hheader]
    exact ⟨72, _, rfl, by decide, by decide, fun _ => by decide⟩
  · rw [specifierForms, if_pos (by simp [htext]), htext]
    exact ⟨84, _, rfl, by decide, by decide, fun _ => by decide⟩
  · rw [specifierForms, if_pos (by simp [hmime]), hmime]
    exact ⟨77, _, rfl, by decide, by decide, fun _ => by decide⟩

theorem consumes_path (settings : EncoderOptions) (hitem : item.Requestable)
    (forms : List StringForm) :
    Consumes options (readSectionPart options : Parser Decoder ε _)
      (pathForms settings item) (item.part, dottedPath item)
      (joined (specifierForms fieldForm item ++ .atom [closeBracket] :: forms) ++ rest) := by
  obtain ⟨first, tail, hjoined, hdigit, hdot, -⟩ :=
    @specifierForms_head rest fieldForm item hitem forms
  rw [hjoined]
  exact consumes_sectionPart settings (fun num hnum => (hitem.part num hnum).2)
    (fun h => (of_decide_eq_true h).1) hdigit (fun _ => hdot)

def bracketForms (settings : EncoderOptions) (fieldForm : Bytes → StringForm)
    (item : FetchItemBodySection) : List StringForm :=
  pathForms settings item ++ (specifierForms fieldForm item ++ [.atom [closeBracket]])

theorem fieldNames_of_none (hitem : item.Requestable)
    (hnone : item.specifier = .none) : item.fieldNames = [] := by
  by_contra hsome
  rw [hitem.header hsome] at hnone
  cases hnone

theorem bracketForms_head (settings : EncoderOptions) (hitem : item.Requestable)
    (hsome : ¬(item.part = [] ∧ item.specifier = .none)) :
    ∃ first tail, joined (bracketForms settings fieldForm item) ++
        rest = first :: tail ∧ first ≠ closeBracket := by
  cases hpart : item.part with
  | nil =>
    obtain ⟨first, tail, hjoined, -, -, hne⟩ := @specifierForms_head rest fieldForm item hitem []
    have hspecifier : item.specifier ≠ .none := fun h => hsome ⟨hpart, h⟩
    refine ⟨first, tail, ?_, hne hspecifier⟩
    rw [← hjoined, bracketForms, pathForms, hpart, dottedPath, hpart]
    rfl
  | cons num more =>
    obtain ⟨first, tail, hdigits⟩ := List.exists_cons_of_ne_nil (formatUint_ne_nil num)
    have hmem : first ∈ formatUint num := by simp [hdigits]
    have hdigit : isDigit first = true := isDigit_of_mem_formatUint hmem
    have htext : [dot].intercalate (formatUint num :: more.map formatUint) =
        first :: (tail ++ joined (dottedForms more)) := by
      rw [intercalate_dot, hdigits, List.cons_append]
    have hforms : bracketForms settings fieldForm item =
        .atom (first :: (tail ++ joined (dottedForms more))) ::
          (dotForms (dottedPath item) ++
            (specifierForms fieldForm item ++ [.atom [closeBracket]])) := by
      simp [bracketForms, pathForms, hpart, writeSectionPart, Op.form, htext]
    refine ⟨first, _, by rw [hforms]; rfl, ?_⟩
    rintro rfl
    revert hdigit
    decide

def originForms : Option SectionPartial → List StringForm
  | none => []
  | some range =>
    [.atom [openAngle], .atom (formatUint range.offset.toNat), .atom [closeAngle]]

theorem Client.consumes_offset (hrange : ∀ range ∈ item.sectionPartial,
      (0 ≤ range.offset ∧ range.offset < 2 ^ 63) ∧ 0 ≤ range.size ∧ range.size < 2 ^ 63)
    (hbyte : byte ≠ openAngle) :
    Consumes options (Client.readPartialOffset options) (originForms item.sectionPartial)
      (item.sectionPartial.map SectionPartial.offset) (byte :: rest) := by
  cases hpart : item.sectionPartial with
  | none => exact .peek (consumes_noSpecial hbyte) (.pure none)
  | some range =>
    obtain ⟨⟨hpos, hlt⟩, -⟩ := hrange range (by simp [hpart])
    have hvalue : some (range.offset.toNat : Int) = (some range).map SectionPartial.offset := by
      rw [Int.toNat_of_nonneg hpos]
      rfl
    rw [← hvalue]
    exact .next consumes_special (.next (consumes_number64 (by omega) (by decide))
      (consumes_expectSpecial.map _))

def rangeForms : Option SectionPartial → List StringForm
  | none => []
  | some range =>
    [.atom [openAngle], .atom (formatUint range.offset.toNat), .atom [dot],
      .atom (formatUint range.size.toNat), .atom [closeAngle]]

theorem Server.consumes_range (hitem : item.Requestable) (hbyte : byte ≠ openAngle) :
    Consumes options (Server.maybeReadPartial options)
      (rangeForms item.sectionPartial) item.sectionPartial
      (byte :: rest) := by
  cases hpart : item.sectionPartial with
  | none => exact .peek (consumes_noSpecial hbyte) (.pure none)
  | some range =>
    obtain ⟨⟨hpos, hlt⟩, hsizePos, hsizeLt⟩ := hitem.range range (by simp [hpart])
    have hvalue : range = ⟨range.offset.toNat, range.size.toNat⟩ := by
      rw [Int.toNat_of_nonneg hpos, Int.toNat_of_nonneg hsizePos]
    rw [show some range = some ⟨range.offset.toNat, range.size.toNat⟩ by
      rw [← hvalue]]
    have hoffset : range.offset.toNat < 2 ^ 63 := by omega
    have hsize : range.size.toNat < 2 ^ 63 := by omega
    exact .next consumes_special (.next (consumes_number64 hoffset (by decide))
      (.next consumes_expectSpecial (.next (consumes_number64 hsize (by decide))
        (consumes_expectSpecial.map _))))

variable [UpperCase]

theorem consumes_specified {wire : Option DecoderError → ε}
    {f : Bytes → Parser Decoder ε FetchItemBodySection} (hitem : item.Requestable)
    (hsome : item.specifier ≠ .none) (hread : FieldsRead wire options fieldForm item)
    (hknown : known.fieldNames = [])
    (hplain : f item.specifier.string = pure { known with specifier := item.specifier })
    (hfields : f (ascii "HEADER.FIELDS") = do
      require wire (·.expectSP options)
      let names ← readHeaderList wire options
      pure { known with specifier := .header, headerFields := names })
    (hfieldsNot : f (ascii "HEADER.FIELDS.NOT") = do
      require wire (·.expectSP options)
      let names ← readHeaderList wire options
      pure { known with specifier := .header, headerFieldsNot := names }) (dotted : Bool) :
    Consumes options (readSpecifier wire options dotted >>= f)
      (specifierForms fieldForm item) (known.entered item) (closeBracket :: rest) := by
  obtain ⟨hknown, hknownNot⟩ := List.append_eq_nil_iff.mp hknown
  rw [specifierForms, if_pos hsome, headerListForms]
  by_cases hfirst : item.headerFields = []
  · by_cases hsecond : item.headerFieldsNot = []
    · have henter : known.entered item = { known with specifier := item.specifier } := by
        simp [entered, hfirst, hsecond, hknown, hknownNot]
      have hname := (ofString_string hitem).2.2 hsome
      rw [if_neg (by simpa using hfirst), if_neg (by simpa using hsecond), henter]
      refine .next (consumes_specifier hname (by decide) dotted) ?_
      rw [hplain]
      exact .pure _
    · have hheader := hitem.header (by simp [fieldNames, hsecond])
      have hlist : Consumes options (f (ascii "HEADER.FIELDS.NOT"))
          (fieldListForms fieldForm item.headerFieldsNot) (known.entered item)
          (closeBracket :: rest) := by
        rw [hfieldsNot, entered, hheader, hfirst, ← hknown]
        exact consumes_fieldList (fun name hname => hread name (List.mem_append_right _ hname)) _
      rw [if_neg (by simpa using hfirst), if_pos hsecond, hheader]
      exact .congr (.next (consumes_specifier (by decide) (by decide) dotted) hlist) rfl rfl
  · have hheader := hitem.header (by simp [fieldNames, hfirst])
    have hlist : Consumes options (f (ascii "HEADER.FIELDS"))
        (fieldListForms fieldForm item.headerFields) (known.entered item)
        (closeBracket :: rest) := by
      rw [hfields, entered, hheader, hitem.oneList.resolve_left hfirst, ← hknownNot]
      exact consumes_fieldList (fun name hname => hread name (List.mem_append_left _ hname)) _
    rw [if_pos hfirst, hheader]
    exact .congr (.next (consumes_specifier (by decide) (by decide) dotted) hlist) rfl rfl

theorem Server.consumes_specified (hitem : item.Requestable) (hsome : item.specifier ≠ .none)
    (hfields : FieldsRead SearchError.wire options fieldForm item)
    (hknown : known.fieldNames = []) (dotted : Bool) :
    Consumes options (Server.readSpecified options known dotted)
      (specifierForms fieldForm item) (known.entered item)
      (closeBracket :: rest) := by
  obtain ⟨hlisted, hof, -⟩ := ofString_string hitem
  refine GoImap.consumes_specified hitem hsome hfields hknown ?_ ?_ ?_ dotted
  · rw [if_pos hlisted, hof]
  · rw [if_neg (by decide), if_pos rfl]
  · rw [if_neg (by decide), if_neg (by decide), if_pos rfl]

theorem Client.consumes_specified (hitem : item.Requestable) (hsome : item.specifier ≠ .none)
    (hfields : FieldsRead ReadError.wire options fieldForm item)
    (hknown : known.fieldNames = []) (dotted : Bool) :
    Consumes options (Client.readSpecified options known dotted)
      (specifierForms fieldForm item) (known.entered item)
      (closeBracket :: rest) := by
  obtain ⟨hlisted, hof, -⟩ := ofString_string hitem
  have hnot : ∀ name ∈ [[], ascii "HEADER", ascii "MIME", ascii "TEXT"],
      name ≠ ascii "HEADER.FIELDS" ∧ name ≠ ascii "HEADER.FIELDS.NOT" := by
    decide
  obtain ⟨hname, hnameNot⟩ := hnot _ hlisted
  refine GoImap.consumes_specified hitem hsome hfields hknown ?_ ?_ ?_ dotted
  · rw [if_neg hname, if_neg hnameNot, hof]
  · rw [if_pos rfl]
  · rw [if_neg (by decide), if_pos rfl]

theorem Server.consumes_section (settings : EncoderOptions) (hitem : item.Requestable)
    (hfields : FieldsRead SearchError.wire options fieldForm item) (peek : Bool) :
    Consumes options (Server.readSection options { peek := peek })
      (bracketForms settings fieldForm item)
      { item with
        sectionPartial := none
        peek := peek } rest := by
  rw [readSection]
  by_cases hempty : item.part = [] ∧ item.specifier = .none
  · obtain ⟨hpart, hnone⟩ := hempty
    have hnames := fieldNames_of_none hitem hnone
    obtain ⟨hfirst, hsecond⟩ := List.append_eq_nil_iff.mp hnames
    have hforms : bracketForms settings fieldForm item = [.atom [closeBracket]] ++ [] := by
      simp [bracketForms, pathForms, writeSectionPart, dotForms, dottedPath,
        specifierForms, hpart, hnone]
    rw [hforms, hpart, hnone, hfirst, hsecond]
    exact consumes_special.bind (.pure _)
  · obtain ⟨first, tail, hjoined, hne⟩ :=
      @bracketForms_head rest fieldForm item settings hitem hempty
    refine .peek (hjoined ▸ consumes_noSpecial hne) (.bind (consumes_path settings hitem []) ?_)
    dsimp only
    by_cases hnone : item.specifier = .none
    · have hpart : item.part ≠ [] := fun h => hempty ⟨h, hnone⟩
      have hnames := fieldNames_of_none hitem hnone
      obtain ⟨hfirst, hsecond⟩ := List.append_eq_nil_iff.mp hnames
      rw [if_neg (by simp [dottedPath, hpart, hnone]), specifierForms,
        if_neg (by simp [hnone]), hnone, hfirst, hsecond]
      exact .peek (.pure _) (consumes_expectSpecial.map _)
    · rw [if_pos (by by_cases h : item.part = [] <;>
        simp [dottedPath, h, hnone])]
      exact .bind (Server.consumes_specified hitem hnone hfields rfl _)
        (consumes_expectSpecial.map _)

theorem Client.consumes_unspecified : Consumes options (Client.readSpecified options known false) []
      { known with specifier := .none } (closeBracket :: rest) := by
  have hupper : toUpper [] = [] := by rw [toUpper, runes_nil]; rfl
  have hread : Consumes options (readSpecifier ReadError.wire options false) []
      [] (joined [] ++ closeBracket :: rest) := by
    rw [readSpecifier]
    refine .peek (consumes_noFunc (by decide)) (.peek (.pure []) ?_)
    simpa [hupper] using Consumes.pure []
  refine hread.peek ?_
  rw [if_neg (by decide), if_neg (by decide)]
  exact .pure _

theorem Client.consumes_sectionSpec (settings : EncoderOptions) (hitem : item.Requestable)
    (hfields : FieldsRead ReadError.wire options fieldForm item) (hbyte : byte ≠ openAngle) :
    Consumes options (Client.readSectionSpec options) (bracketForms settings fieldForm item ++
        originForms item.sectionPartial)
      { item with
        sectionPartial := item.sectionPartial.map (⟨·.offset, 0⟩)
        peek := false } (byte :: rest) := by
  have horigin := @Client.consumes_offset options byte rest item hitem.range hbyte
  have hforms : bracketForms settings fieldForm item ++ originForms item.sectionPartial =
        pathForms settings item ++ (specifierForms fieldForm item ++
          ([.atom [closeBracket]] ++ originForms item.sectionPartial)) := by
    simp [bracketForms]
  rw [readSectionSpec, hforms]
  refine Consumes.bind (consumes_path settings hitem _) ?_
  dsimp only
  have hvalue : (item.sectionPartial.map SectionPartial.offset).map
      (fun offset => (⟨offset, 0⟩ : SectionPartial)) =
        item.sectionPartial.map (⟨·.offset, 0⟩) := Option.map_map ..
  by_cases hnone : item.specifier = .none
  · have hnames := fieldNames_of_none hitem hnone
    obtain ⟨hfirst, hsecond⟩ := List.append_eq_nil_iff.mp hnames
    have hempty : specifierForms fieldForm item = [] := by
      simp [specifierForms, hnone]
    have hdotted : dottedPath item = false := by simp [dottedPath, hnone]
    rw [hempty, List.nil_append, hnone, hfirst, hsecond, hdotted]
    by_cases hpart : item.part = []
    · rw [if_pos (.inr hpart)]
      refine .peek Client.consumes_unspecified (.next consumes_expectSpecial ?_)
      rw [← hvalue]
      exact horigin.map _
    · rw [if_neg (by simp [hpart])]
      refine .peek (.pure _) (.next consumes_expectSpecial ?_)
      rw [← hvalue]
      exact horigin.map _
  · rw [if_pos (by by_cases h : item.part = [] <;>
      simp [dottedPath, h, hnone])]
    refine .bind (Client.consumes_specified hitem hnone hfields rfl _)
      (.next consumes_expectSpecial ?_)
    rw [← hvalue]
    exact horigin.map _

/-! ## Items -/

theorem consumes_attName {wire : Option DecoderError → ε} {name : Bytes}
    (hname : name ∈ [ascii "BODY", ascii "BODY.PEEK"]) :
    Consumes options (readAttName wire options) [.atom name] name (openBracket :: rest) := by
  have hfacts : ∀ name ∈ [ascii "BODY", ascii "BODY.PEEK"], name ≠ [] ∧
      (∀ byte ∈ name, isMsgAttNameChar byte = true ∧ byte.toNat < 128) ∧
        name.map upperByte = name := by
    decide +kernel
  obtain ⟨hne, hall, hmap⟩ := hfacts name hname
  have hupper : toUpper name = name :=
    (toUpper_of_ascii fun byte hbyte => (hall byte hbyte).2).trans hmap
  suffices h : Consumes options (readAttName wire options) [.atom name] (toUpper name)
      (openBracket :: rest) by
    rwa [hupper] at h
  refine .map (consumes_of_advance fun dec count hready => demand_returns ?_) toUpper
  rw [Decoder.func_advance (fun byte hbyte => (hall byte hbyte).1) hne
    (by decide) hready.roomFor hready.rest_eq]
  rfl

def itemForms (settings : EncoderOptions) (fieldForm : Bytes → StringForm)
    (name : Bytes) (item : FetchItemBodySection) (range : List StringForm) :
    List StringForm :=
  [.atom name] ++ ([.atom [openBracket]] ++ (bracketForms settings fieldForm item ++ range))

theorem Server.consumes_fetchAtt (settings : EncoderOptions) (hitem : item.Requestable)
    (hfields : FieldsRead SearchError.wire options fieldForm item) (hbyte : byte ≠ openAngle) :
    Consumes options (Server.readFetchAtt options) (itemForms settings fieldForm
        (if item.peek then ascii "BODY.PEEK" else ascii "BODY") item
        (rangeForms item.sectionPartial))
      (.bodySection item) (byte :: rest) := by
  have hsection : Consumes options (Server.readBodySection options item.peek)
      (bracketForms settings fieldForm item ++ rangeForms item.sectionPartial)
      (.bodySection item) (byte :: rest) :=
    (Server.consumes_section settings hitem hfields item.peek).bind
      ((Server.consumes_range hitem hbyte).map fun range =>
        Server.FetchAtt.bodySection { item with sectionPartial := range })
  cases hpeek : item.peek with
  | false =>
    rw [hpeek] at hsection
    have hname : ascii "BODY" ∈ [ascii "BODY", ascii "BODY.PEEK"] := by simp
    refine Consumes.bind (consumes_attName hname) ?_
    exact Consumes.bind consumes_special hsection
  | true =>
    rw [hpeek] at hsection
    have hname : ascii "BODY.PEEK" ∈ [ascii "BODY", ascii "BODY.PEEK"] := by
      simp
    refine Consumes.bind (consumes_attName hname) ?_
    exact Consumes.bind consumes_expectSpecial hsection

theorem Client.consumes_sectionName (settings : EncoderOptions) (hitem : item.Requestable)
    (hfields : FieldsRead ReadError.wire options fieldForm item) (hbyte : byte ≠ openAngle) :
    Consumes options (Client.readSectionName options)
      (itemForms settings fieldForm (ascii "BODY") item (originForms item.sectionPartial))
      (some { item with
        sectionPartial := item.sectionPartial.map (⟨·.offset, 0⟩)
        peek := false }) (byte :: rest) := by
  have hspec := Consumes.reading "section-spec"
    (@Client.consumes_sectionSpec options byte rest fieldForm item _ settings hitem hfields hbyte)
  have hname : ascii "BODY" ∈ [ascii "BODY", ascii "BODY.PEEK"] := by simp
  refine Consumes.bind (consumes_attName hname) ?_
  rw [if_pos rfl]
  exact Consumes.bind consumes_special (hspec.map some)

end Sections

/-! ## What is written -/

section Writing

variable {settings : EncoderOptions} {item : FetchItemBodySection}

theorem form_aString (s : Bytes) : (Op.aString s).form settings = settings.aStringForm s := by
  rw [Op.aString, EncoderOptions.aStringForm]
  split_ifs
  · rfl
  · rfl

theorem map_sectionOps (field : Bytes → Op) :
    (sectionOps field item).map (Op.form settings) = [.atom [openBracket]] ++ bracketForms settings
        (fun name => (field name).form settings) item := by
  have hdot : (if item.part ≠ [] ∧ item.specifier ≠ .none then
      [Server.special dot] else []).map (Op.form settings) = dotForms (dottedPath item) := by
    rw [dotForms, dottedPath]
    split_ifs with h₁ h₂ h₂
    · rfl
    · simp [h₁] at h₂
    · simp [h₁] at h₂
    · rfl
  have hspecifier : (if item.specifier ≠ .none then
      .text item.specifier.string :: headerListOps field item
      else []).map (Op.form settings) =
        specifierForms (fun name => (field name).form settings) item := by
    rw [specifierForms]
    split_ifs
    · rw [List.map_cons, map_headerListOps]
      rfl
    · rfl
  rw [sectionOps, List.map_cons, List.map_append, List.map_append,
    List.map_append, hdot, hspecifier]
  simp [bracketForms, pathForms, Server.special, Op.form]

theorem sends_sectionOps {field : Bytes → Op}
    (h : ∀ name ∈ item.fieldNames, (field name).Sends settings) :
    ∀ op ∈ sectionOps field item, op.Sends settings := by
  have hlist : ∀ names : List Bytes, (∀ name ∈ names, (field name).Sends settings) →
      ∀ op ∈ listOps (names.map ([field ·])), op.Sends settings := by
    intro names hnames
    rw [forall_mem_listOps fun s => Op.sends_text settings s]
    simpa using hnames
  have hfields : ∀ op ∈ headerListOps field item, op.Sends settings := by
    rw [headerListOps]
    split_ifs
    · simp only [List.forall_mem_cons]
      exact ⟨trivial, trivial, hlist _ fun name hname =>
        h name (List.mem_append_left _ hname)⟩
    · simp only [List.forall_mem_cons]
      exact ⟨trivial, trivial, hlist _ fun name hname =>
        h name (List.mem_append_right _ hname)⟩
    · simp
  have hpart : ∀ op ∈ writeSectionPart item.part, op.Sends settings := by
    rw [writeSectionPart]
    split_ifs <;> simp
  simp only [sectionOps, List.forall_mem_cons, List.forall_mem_append]
  refine ⟨trivial, ⟨⟨hpart, ?_⟩, ?_⟩, by simp [Server.special]⟩
  · split_ifs <;> simp [Server.special]
  · split_ifs
    · exact List.forall_mem_cons.mpr ⟨trivial, hfields⟩
    · simp

end Writing

end GoImap
