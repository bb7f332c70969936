import GoImap.Server.SearchSteps

/-!
# The text of search keys

The reader of a key takes the pieces of text it is written in, whatever stands
behind them as long as it ends a key.  So does the loop over the keys.
-/

namespace GoImap.Server

open Wire Utf8 Parsing Internal StringForm
open Wire.Decoder (Facing Room isDelimiter)

/-! ## Keys -/

def Starts (forms : List StringForm) : Prop :=
  ∃ first tail, joined forms = first :: tail ∧
    isLineChar first = true ∧ first ≠ closeParen

variable {forms : List StringForm} {set : NumSet} {flag : Flag} {options : Options} {rest : Bytes}

theorem starts_atom {s : Bytes} (hne : s ≠ [])
    (h : ∀ byte ∈ s, isLineChar byte = true ∧ byte ≠ closeParen) :
    Starts (.atom s :: forms) := by
  obtain ⟨first, tail, rfl⟩ := List.exists_cons_of_ne_nil hne
  exact ⟨first, _, rfl, h first List.mem_cons_self⟩

theorem starts_char {byte : UInt8} (hline : isLineChar byte = true)
    (hclose : byte ≠ closeParen) : Starts (.atom [byte] :: forms) :=
  ⟨byte, _, rfl, hline, hclose⟩

def spaced (items : List (List StringForm)) : List StringForm :=
  [StringForm.atom [SP]].intercalate items

theorem spaced_starts {items : List (List StringForm)}
    (h : ∀ item ∈ items, Starts item) (hne : items ≠ []) :
    Starts (spaced items) := by
  obtain ⟨item, rest, rfl⟩ := List.exists_cons_of_ne_nil hne
  obtain ⟨first, tail, hjoined, hfirst⟩ := h item List.mem_cons_self
  cases rest with
  | nil => exact ⟨first, tail, by simpa [spaced] using hjoined, hfirst⟩
  | cons second rest =>
    exact ⟨first, _, by
      rw [spaced, List.intercalate_cons_cons, joined_append, joined_append, hjoined]
      rfl, hfirst⟩

theorem length_le_spaced {items : List (List StringForm)} (h : ∀ item ∈ items, Starts item) :
    items.length ≤ (joined (spaced items)).length := by
  induction items with
  | nil => simp
  | cons item rest ih =>
    obtain ⟨hitem, hrest⟩ := List.forall_mem_cons.mp h
    obtain ⟨first, tail, hjoined, -⟩ := hitem
    have hlength := ih hrest
    cases rest with
    | nil => simp [spaced, hjoined]
    | cons second rest =>
      rw [spaced, List.intercalate_cons_cons, joined_append, joined_append, hjoined]
      simp only [spaced, List.length_append, List.length_cons] at hlength ⊢
      omega

theorem keyChar_plain {byte : UInt8} (h : byte = Wire.star ∨ isAtomChar byte = true) :
    isLineChar byte = true ∧ byte ≠ closeParen := by
  constructor
  · rw [isLineChar, decide_eq_true_eq]
    constructor <;> rintro rfl <;> revert h <;> decide
  · rintro rfl
    revert h
    decide

theorem starts_string (h : set ≠ []) : Starts [.atom set.string] :=
  starts_atom (string_ne_nil h) fun _ hbyte =>
    keyChar_plain (isSetChar_facts (isSetChar_of_mem_string hbyte)).1

theorem starts_number (n : Nat) : Starts [.atom (formatUint n)] := by
  refine starts_atom (formatUint_ne_nil n) fun byte hbyte => ?_
  have hset : isSetChar byte = true := by
    rw [isSetChar, isDigit_of_mem_formatUint hbyte]
    rfl
  exact keyChar_plain (isSetChar_facts hset).1

theorem starts_flag (h : IsFlag flag) : Starts [.atom flag] := by
  obtain ⟨name, hname, rfl | rfl⟩ := h
  · obtain ⟨hne, hall⟩ := isAtom_iff.mp hname
    exact starts_atom hne fun byte hbyte =>
      keyChar_plain (.inr (hall byte hbyte))
  · exact ⟨backslash, _, rfl, by decide, by decide⟩

theorem starts_stringForm (settings : EncoderOptions) (s : Bytes)
    (forms : List StringForm) : Starts (settings.stringForm s :: forms) := by
  rw [EncoderOptions.stringForm]
  split_ifs
  · exact ⟨quote, _, rfl, by decide, by decide⟩
  · exact ⟨openBrace, _, rfl, by decide, by decide⟩

theorem consumes_spaceBefore (h : Starts forms) :
    Consumes options (readSP options) [.atom [SP]] () (joined forms ++ rest) := by
  obtain ⟨first, tail, hjoined, hfirst, -⟩ := h
  rw [hjoined]
  exact consumes_expectSP hfirst

theorem consumes_argument {α : Type} {p : Read α} {a : α} (hstarts : Starts forms)
    (hp : Consumes options p forms a rest) (f : α → SearchKey) :
    Consumes options
      (do
        readSP options
        let a ← p
        pure (f a))
      (.atom [SP] :: forms) (f a) rest := by
  exact Consumes.bind (consumes_spaceBefore hstarts) (Consumes.map hp f)

theorem consumes_noMetadata [LowerCase] (n : Nat) :
    Consumes options (readMetadata options) [] ([], []) (formatUint n ++ rest) := by
  obtain ⟨first, tail, hdigits⟩ := List.exists_cons_of_ne_nil (formatUint_ne_nil n)
  have hfirst : first ≠ quote := by
    rintro rfl
    have hdigit := @isDigit_of_mem_formatUint n quote (by simp [hdigits])
    revert hdigit
    decide
  rw [hdigits]
  exact .peek (consumes_of_stay fun dec count hfacing => attempt_returns
    (Decoder.quoted_miss hfacing.room hfacing.rest_eq hfirst)) (.pure _)

theorem consumes_metadata [LowerCase] {name typeName : Bytes} {first : UInt8}
    (htype : isAtom typeName = true) (hlower : toLower typeName = typeName)
    (hfirst : isLineChar first = true) :
    Consumes options (readMetadata options) [.quoted name, .atom [SP], .atom typeName, .atom [SP]]
      (name, typeName) (first :: rest) := by
  obtain ⟨hne, hall⟩ := isAtom_iff.mp htype
  have hstarts : Starts [.atom typeName, .atom [SP]] :=
    starts_atom hne fun byte hbyte => keyChar_plain (.inr (hall byte hbyte))
  have hpair : Consumes options (readSP options >>= fun _ => pure (name, toLower typeName))
      [.atom [SP]] (name, typeName) (first :: rest) := by
    rw [hlower]
    exact (consumes_expectSP hfirst).map fun _ => (name, typeName)
  exact .next consumes_quoted (.next (consumes_spaceBefore hstarts)
    (.next (consumes_expectAtom htype (by decide)) hpair))

section Keys

theorem keyForms_names :
    ∀ entry ∈ keyForms, isAtom entry.1 = true ∧ entry.1.map upperByte = entry.1 ∧
      ∀ byte ∈ entry.1, byte.toNat < 128 := by
  decide +kernel

theorem keyForms_no_set : ∀ entry ∈ keyForms, ∃ byte ∈ entry.1, isSetChar byte = false := by
  decide

theorem lookup_string (set : NumSet) : keyForms.lookup set.string = none := by
  rw [List.lookup_eq_none_iff]
  intro entry hentry
  obtain ⟨byte, hmem, hbyte⟩ := keyForms_no_set entry hentry
  rw [bne_iff_ne]
  intro heq
  rw [← heq] at hmem
  rw [isSetChar_of_mem_string hmem] at hbyte
  cases hbyte

variable {key : Bytes} {byte : UInt8} {left : Nat}
  {items : List (List StringForm)} {keys : List SearchKey}

theorem name_of_lookup [UpperCase] {form : KeyForm} (h : keyForms.lookup key = some form) :
    isAtom key = true ∧ toUpper key = key := by
  obtain ⟨before, after, hsplit, -⟩ := List.lookup_eq_some_iff.mp h
  obtain ⟨hatom, hupper, hascii⟩ := keyForms_names (key, form) (by simp [hsplit])
  exact ⟨hatom, (toUpper_of_ascii hascii).trans hupper⟩

variable [LowerCase] [UpperCase]

theorem consumes_named {form : KeyForm} {result : SearchKey}
    (hlookup : keyForms.lookup key = some form)
    (hstop : ∃ byte tail, joined forms ++ rest = byte :: tail ∧ isDelimiter byte = true)
    (hform : Consumes options (readForm options (readSearchKeyDepth options left) key form) forms
      result rest) :
    Consumes options (readSearchKeyDepth options (left + 1)) (.atom key :: forms) result rest := by
  obtain ⟨hatom, hupper⟩ := name_of_lookup hlookup
  obtain ⟨hne, hall⟩ := isAtom_iff.mp hatom
  obtain ⟨byte, tail, htail, hbyte⟩ := hstop
  rw [readSearchKeyDepth]
  refine .next
    (htail ▸ consumes_keyAtom hne (fun other hother => .inr (hall other hother)) hbyte) ?_
  simpa [readSearchKeyWithAtom, hupper, hlookup] using hform

theorem consumes_seqNum (hne : set ≠ []) (hset : set.Canonical) (hstop : isDelimiter byte = true) :
    Consumes options (readSearchKeyDepth options (left + 1))
      [.atom set.string] (.seqNum set) (byte :: rest) := by
  have hfacts := fun other (hother : other ∈ set.string) =>
    isSetChar_facts (isSetChar_of_mem_string hother)
  have hupper : toUpper set.string = set.string := by
    rw [toUpper_of_ascii fun other hother => (hfacts other hother).2.2.1]
    exact (List.map_congr_left fun other hother =>
      (hfacts other hother).2.1).trans (List.map_id _)
  rw [readSearchKeyDepth]
  refine .next (consumes_keyAtom (string_ne_nil hne) (fun other hother => (hfacts other hother).1)
    hstop) ?_
  simp only [readSearchKeyWithAtom, hupper, lookup_string, parseSet_string hne hset]
  exact Consumes.pure _

/-! ## Lists of keys -/

structure Item (options : Options) (left : Nat) (forms : List StringForm)
    (key : SearchKey) : Prop where
  starts : Starts forms
  consumes : ∀ byte rest, isDelimiter byte = true →
    Consumes options (readSearchKeyDepth options left) forms key (byte :: rest)

section

variable (h : List.Forall₂ (Item options left) items keys)

include h

theorem items_start : ∀ item ∈ items, Starts item := by
  induction h with
  | nil => simp
  | cons hitem _ ih => exact List.forall_mem_cons.mpr ⟨hitem.starts, ih⟩

variable (hne : items ≠ [])

include hne

theorem consumes_separated (hbyte : byte = closeParen ∨ byte = CR) {fuel : Nat}
    (hfuel : keys.length ≤ fuel) :
    Consumes options (Parser.separated (readSearchKeyDepth options left)
        (attempt (·.sp options)) (stuck .wire) fuel)
      (spaced items) keys (byte :: rest) := by
  induction h generalizing fuel with
  | nil => exact absurd rfl hne
  | @cons item key items keys hitem hrest ih =>
    obtain ⟨fuel, rfl⟩ := Nat.exists_eq_add_of_lt hfuel
    rw [Parser.separated]
    cases hrest with
    | nil =>
      rw [show spaced [item] = item ++ [] by simp [spaced]]
      refine Consumes.bind (hitem.consumes byte rest (by rcases hbyte with rfl | rfl <;> rfl)) ?_
      refine .peek (a := false) ?_ (.pure [key])
      rcases hbyte with rfl | rfl
      · exact consumes_noSP (by decide) (by decide)
      · exact consumes_noSP (by decide) (by decide)
    | @cons second key' items keys hsecond hrest =>
      have hall := List.Forall₂.cons hsecond hrest
      obtain ⟨first, tail, hjoined, hfirst, -⟩ := spaced_starts (items_start hall) (by simp)
      have hspace : Consumes options (attempt (·.sp options) : Read Bool) [.atom [SP]] true
          (joined (spaced (second :: items)) ++ byte :: rest) := by
        rw [hjoined]
        exact consumes_sp hfirst
      have hloop := ih (by simp)
        (show (key' :: keys).length ≤ (key' :: keys).length + fuel by omega)
      rw [spaced, List.intercalate_cons_cons, List.append_assoc]
      refine Consumes.bind (hitem.consumes SP _ rfl) ?_
      refine Consumes.bind hspace ?_
      exact Consumes.map hloop _

theorem consumes_keys (hbyte : byte = closeParen ∨ byte = CR) :
    Consumes options (readKeys options (readSearchKeyDepth options left))
      (spaced items) keys (byte :: rest) := by
  intro dec count hfacing
  have hfuel : keys.length ≤ dec.rest.length + 1 := by
    have hlength := length_le_spaced (items_start h)
    rw [h.length_eq] at hlength
    rw [hfacing.rest_eq, List.length_append]
    omega
  exact consumes_separated h hne hbyte hfuel dec count hfacing

theorem consumes_groups (fuel : Nat) :
    Consumes options (Parser.separated (readKeys options (readSearchKeyDepth options left))
        (anotherItem options) (stuck .wire) (fuel + 1))
      (spaced items ++ [.atom [closeParen]]) [keys] rest := by
  exact Consumes.bind (consumes_keys h hne (.inl rfl)) (.next consumes_closeParen (.pure [keys]))

theorem consumes_expectList :
    Consumes options (expectList options (readKeys options (readSearchKeyDepth options left)))
      (.atom [openParen] :: (spaced items ++ [.atom [closeParen]])) keys
      rest := by
  obtain ⟨first, tail, hjoined, -, hfirst⟩ := spaced_starts (items_start h) hne
  have hopen : Consumes options (attempt (·.acceptByte options closeParen) : Read Bool) []
      false (joined (spaced items ++ [.atom [closeParen]]) ++ rest) := by
    rw [joined_append, hjoined]
    exact consumes_noSpecial hfirst
  have hgroups : Consumes options (fun dec =>
      Parser.separated (readKeys options (readSearchKeyDepth options left))
        (anotherItem options) (stuck .wire) (dec.rest.length + 1) dec)
      (spaced items ++ [.atom [closeParen]]) [keys] rest := fun dec =>
    consumes_groups h hne dec.rest.length dec
  have hflatten := Consumes.map hgroups List.flatten
  rw [List.flatten_singleton] at hflatten
  exact .next consumes_special (.peek hopen hflatten)

theorem consumes_list : Consumes options (readSearchKeyDepth options (left + 1))
      (.atom [openParen] :: (spaced items ++ [.atom [closeParen]]))
      (.list keys) rest := by
  exact .peek (consumes_noFunc (by decide)) ((consumes_expectList h hne).map SearchKey.list)

end

theorem consumes_program {forms : List (List StringForm)}
    (h : List.Forall₂ (Item options (maxSearchKeyDepth + 1)) forms keys) (hne : forms ≠ []) :
    Consumes options (readSearchKeys options) (spaced forms ++ [.atom [CR, LF]]) keys rest := by
  exact Consumes.bind (consumes_keys h hne (.inr rfl)) (.next consumes_crlf (.pure keys))

/-! ## The keys one by one -/

theorem item_named (form : KeyForm) {result : SearchKey} (hlookup : keyForms.lookup key = some form)
    (hforms : forms = [] ∨ ∃ tail, forms = .atom [SP] :: tail)
    (hform : ∀ byte rest, isDelimiter byte = true → Consumes options
        (readForm options (readSearchKeyDepth options left) key form) forms
        result (byte :: rest)) :
    Item options (left + 1) (.atom key :: forms) result where
  starts := by
    obtain ⟨hne, hall⟩ := isAtom_iff.mp (name_of_lookup hlookup).1
    exact starts_atom hne fun byte hbyte =>
      keyChar_plain (.inr (hall byte hbyte))
  consumes := fun byte rest hbyte => by
    refine consumes_named hlookup ?_ (hform byte rest hbyte)
    rcases hforms with rfl | ⟨tail, rfl⟩
    · exact ⟨byte, rest, rfl, hbyte⟩
    · exact ⟨SP, _, rfl, by decide⟩

theorem item_all : Item options (left + 1) [.atom (ascii "ALL")] .all :=
  item_named .all (by decide) (.inl rfl) fun _ _ _ => Consumes.pure _

theorem item_seqNum (hne : set ≠ []) (hset : set.Canonical) :
    Item options (left + 1) [.atom set.string] (.seqNum set) where
  starts := starts_string hne
  consumes := fun _ _ hstop => consumes_seqNum hne hset hstop

theorem item_uid (hne : set ≠ []) (hset : set.Canonical) :
    Item options (left + 1) [.atom (ascii "UID"), .atom [SP], .atom set.string]
      (.uid (.nums set)) :=
  item_named .uid (by decide) (.inr ⟨_, rfl⟩) fun _ _ hstop =>
    consumes_argument (starts_string hne) (consumes_uidSet hne hset hstop) SearchKey.uid

theorem item_searchRes :
    Item options (left + 1) [.atom (ascii "UID"), .atom [SP], .atom [dollar]] (.uid .searchRes) :=
  item_named .uid (by decide) (.inr ⟨_, rfl⟩) fun _ _ _ =>
    consumes_argument (starts_char (by decide) (by decide)) consumes_searchRes SearchKey.uid

theorem item_flag (hlookup : keyForms.lookup key = some .flag) :
    Item options (left + 1) [.atom key] (.flag (searchKeyFlag key)) :=
  item_named .flag hlookup (.inl rfl) fun _ _ _ => Consumes.pure _

theorem item_unflag (hlookup : keyForms.lookup key = some .unflag) :
    Item options (left + 1) [.atom key] (.notFlag (searchKeyFlag (key.drop 2))) :=
  item_named .unflag hlookup (.inl rfl) fun _ _ _ => Consumes.pure _

theorem item_keyword (hflag : IsFlag flag) :
    Item options (left + 1) [.atom (ascii "KEYWORD"), .atom [SP], .atom flag]
      (.flag (canonicalFlag flag)) :=
  item_named .keyword (by decide) (.inr ⟨_, rfl⟩) fun _ _ hstop =>
    consumes_argument (starts_flag hflag) (consumes_flag hflag hstop) SearchKey.flag

theorem item_unkeyword (hflag : IsFlag flag) :
    Item options (left + 1) [.atom (ascii "UNKEYWORD"), .atom [SP], .atom flag]
      (.notFlag (canonicalFlag flag)) :=
  item_named .unkeyword (by decide) (.inr ⟨_, rfl⟩) fun _ _ hstop =>
    consumes_argument (starts_flag hflag) (consumes_flag hflag hstop) SearchKey.notFlag

theorem item_larger {n : Nat} (hn : n < 2 ^ 63) :
    Item options (left + 1) [.atom (ascii "LARGER"), .atom [SP], .atom (formatUint n)]
      (.larger n) :=
  item_named .larger (by decide) (.inr ⟨_, rfl⟩) fun _ _ hstop =>
    consumes_argument (starts_number n) (consumes_number64 hn (not_isDigit_of_isDelimiter hstop))
      SearchKey.larger

theorem item_smaller {n : Nat} (hn : n < 2 ^ 63) :
    Item options (left + 1) [.atom (ascii "SMALLER"), .atom [SP], .atom (formatUint n)]
      (.smaller n) :=
  item_named .smaller (by decide) (.inr ⟨_, rfl⟩) fun _ _ hstop =>
    consumes_argument (starts_number n) (consumes_number64 hn (not_isDigit_of_isDelimiter hstop))
      SearchKey.smaller

section Strings

variable {settings : EncoderOptions} {s : Bytes}

theorem item_body (hpasses : Decoder.Passes settings options s) :
    Item options (left + 1) [.atom (ascii "BODY"), .atom [SP], settings.stringForm s] (.body s) :=
  item_named .body (by decide) (.inr ⟨_, rfl⟩) fun _ _ _ =>
    consumes_argument (starts_stringForm settings s []) (consumes_aString hpasses) SearchKey.body

theorem item_text (hpasses : Decoder.Passes settings options s) :
    Item options (left + 1) [.atom (ascii "TEXT"), .atom [SP], settings.stringForm s] (.text s) :=
  item_named .text (by decide) (.inr ⟨_, rfl⟩) fun _ _ _ =>
    consumes_argument (starts_stringForm settings s []) (consumes_aString hpasses) SearchKey.text

theorem item_address (hlookup : keyForms.lookup key = some .address)
    (hpasses : Decoder.Passes settings options s) :
    Item options (left + 1) [.atom key, .atom [SP], settings.stringForm s]
      (.header (titleCase key) s) :=
  item_named .address hlookup (.inr ⟨_, rfl⟩) fun _ _ _ =>
    consumes_argument (starts_stringForm settings s []) (consumes_aString hpasses)
      (SearchKey.header (titleCase key))

theorem item_header (hkey : Decoder.Passes settings options key)
    (hpasses : Decoder.Passes settings options s) :
    Item options (left + 1) [.atom (ascii "HEADER"), .atom [SP], settings.stringForm key,
        .atom [SP], settings.stringForm s]
      (.header key s) := by
  refine item_named .header (by decide) (.inr ⟨_, rfl⟩) fun byte rest _ => ?_
  refine Consumes.bind (consumes_spaceBefore (starts_stringForm settings key _)) ?_
  refine Consumes.bind (consumes_aString hkey) ?_
  exact consumes_argument (starts_stringForm settings s [])
    (consumes_aString hpasses) (SearchKey.header key)

theorem item_date {kind : DateKey} {date : Calendar.Date}
    (hlookup : keyForms.lookup key = some (.date kind))
    (hpasses : Decoder.Passes settings options (formatDate date))
    (hvalid : date.Valid) (hyear : date.year < 10000) :
    Item options (left + 1) [.atom key, .atom [SP], settings.stringForm (formatDate date)]
      (.date kind date) :=
  item_named (.date kind) hlookup (.inr ⟨_, rfl⟩) fun _ _ _ =>
    consumes_argument (starts_stringForm settings _ [])
      (consumes_date hpasses hvalid hyear) (SearchKey.date kind)

end Strings

theorem item_not (h : List.Forall₂ (Item options left) items keys) (hne : items ≠ []) :
    Item options (left + 2) (.atom (ascii "NOT") :: .atom [SP] :: .atom [openParen] ::
        (spaced items ++ [.atom [closeParen]]))
      (.not (.list keys)) :=
  item_named .not (by decide) (.inr ⟨_, rfl⟩) fun _ _ _ =>
    consumes_argument (starts_char (by decide) (by decide)) (consumes_list h hne) SearchKey.not

theorem item_or {items' : List (List StringForm)} {keys' : List SearchKey}
    (h : List.Forall₂ (Item options left) items keys) (hne : items ≠ [])
    (h' : List.Forall₂ (Item options left) items' keys') (hne' : items' ≠ []) :
    Item options (left + 2) (.atom (ascii "OR") :: .atom [SP] ::
        (.atom [openParen] :: (spaced items ++ [.atom [closeParen]]) ++
          .atom [SP] :: .atom [openParen] :: (spaced items' ++ [.atom [closeParen]])))
      (.or (.list keys) (.list keys')) := by
  refine item_named .or (by decide) (.inr ⟨_, rfl⟩) fun byte rest _ => ?_
  refine Consumes.bind (consumes_spaceBefore (starts_char (by decide) (by decide))) ?_
  refine Consumes.bind (consumes_list h hne) ?_
  exact consumes_argument (starts_char (by decide) (by decide))
    (consumes_list h' hne') (SearchKey.or (.list keys))

def metadataForms (name typeName : Bytes) : List StringForm :=
  if name ≠ [] ∧ typeName ≠ [] then
    [.quoted name, .atom [SP], .atom typeName, .atom [SP]]
  else []

/-- There is a name and a type in lower case, or neither. -/
def MetadataFits (bound : SearchCriteriaModSeq) : Prop :=
  bound.metadataName = [] ∧ bound.metadataType = [] ∨
    bound.metadataName ≠ [] ∧ isAtom bound.metadataType = true ∧
      toLower bound.metadataType = bound.metadataType

theorem item_modSeq {bound : SearchCriteriaModSeq} (h : MetadataFits bound) :
    Item options (left + 1) (.atom (ascii "MODSEQ") :: .atom [SP] ::
        (metadataForms bound.metadataName bound.metadataType ++
          [.atom (formatUint bound.modSeq.toNat)]))
      (.modSeq bound) := by
  refine item_named .modSeq (by decide) (.inr ⟨_, rfl⟩) fun byte rest hstop => ?_
  obtain ⟨first, tail, hdigits, hfirst, -⟩ := starts_number bound.modSeq.toNat
  have hnumber : Consumes options
      (demand SearchError.wire (·.expectModSeq options) >>= fun modSeq =>
        pure (SearchKey.modSeq ⟨modSeq, bound.metadataName, bound.metadataType⟩))
      [.atom (formatUint bound.modSeq.toNat)] (.modSeq bound) (byte :: rest) :=
    (consumes_modSeq hstop).map _
  have hmetadata : Consumes options (readMetadata options)
      (metadataForms bound.metadataName bound.metadataType)
      (bound.metadataName, bound.metadataType)
      (joined [.atom (formatUint bound.modSeq.toNat)] ++ byte :: rest) := by
    rcases h with ⟨hname, htype⟩ | ⟨hname, htype, hlower⟩
    · rw [hname, htype]
      have hnone := @consumes_noMetadata options (byte :: rest) _ bound.modSeq.toNat
      simpa [metadataForms] using hnone
    · rw [hdigits, metadataForms, if_pos ⟨hname, (isAtom_iff.mp htype).1⟩]
      exact consumes_metadata htype hlower hfirst
  have hstarts : Starts (metadataForms bound.metadataName bound.metadataType ++
      [.atom (formatUint bound.modSeq.toNat)]) := by
    rw [metadataForms]
    split_ifs
    · exact ⟨quote, _, rfl, by decide, by decide⟩
    · exact starts_number _
  refine Consumes.bind (consumes_spaceBefore hstarts) ?_
  exact Consumes.bind hmetadata hnumber

end Keys

end GoImap.Server
