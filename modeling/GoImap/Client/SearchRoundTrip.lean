import GoImap.Client.SearchRebuild
import GoImap.Server.SearchText
import GoImap.Wire.Pieces

/-!
# Search criteria survive the wire

Each item the client writes is read as its key, so the criteria are read as
their program, and the criteria the server enters it into are the ones the
client started from, but for the spelling of some names.
-/

namespace GoImap.Client

open Wire Utf8 Internal GoImap.Server
open Wire.Decoder (Passes)

structure Reads [LowerCase] [UpperCase] (settings : EncoderOptions)
    (options : Options) (left : Nat) (ops : List Op) (key : SearchKey) :
    Prop where
  sends : ∀ op ∈ ops, op.Sends settings
  item : Item options left (ops.map (Op.form settings)) key

structure Carries (settings : EncoderOptions) (options : Options) : Prop where
  sends : ∀ s : Bytes, s.length ≤ 4096 → settings.MaySend s
  passes : ∀ s : Bytes, s.length ≤ 4096 → Passes settings options s

variable {s : Bytes} {flag : Flag}

section Sends

variable {settings : EncoderOptions} {options : Options}

theorem sends_argument {key : String} {op : Op} (h : op.Sends settings) :
    ∀ other ∈ argument key op, other.Sends settings := by
  simp [argument, h]

theorem sends_string (hcarries : Carries settings options)
    (h : s.length ≤ 4096) : (Op.string s).Sends settings :=
  .inr (hcarries.sends s h)

theorem sends_flag (h : IsFlag flag) : (Op.flag flag).Sends settings := .inr h.isValidFlag

theorem sends_date {t : Int} (hcarries : Carries settings options)
    (ht : IsDate t) : (Op.string (dateString t)).Sends settings :=
  sends_string hcarries ((length_formatDate (Calendar.dateOf_valid _) ht.year).trans (by decide))

theorem sends_spacedItems {items : List (List Op)}
    (h : ∀ item ∈ orAll items, ∀ op ∈ item, op.Sends settings) :
    ∀ op ∈ spacedItems items, op.Sends settings :=
  (forall_mem_intercalate (by simp) _).mpr h

theorem map_spacedItems (items : List (List Op)) : (spacedItems items).map (Op.form settings) =
      spaced ((orAll items).map (List.map (Op.form settings))) :=
  map_intercalate _ _

theorem orAll_ne_nil (items : List (List Op)) : orAll items ≠ [] := by
  rw [orAll]
  split_ifs with hempty
  · simp
  · exact hempty

end Sends

/-! ## Keys of flags and addresses -/

theorem keyFlags_keys : ∀ flag ∈ keyFlags, (∀ byte ∈ trimBackslash flag, byte.toNat < 128) ∧
      keyForms.lookup ((trimBackslash flag).map upperByte) = some .flag ∧
      keyForms.lookup (ascii "UN" ++ (trimBackslash flag).map upperByte) = some .unflag ∧
      searchKeyFlag ((trimBackslash flag).map upperByte) = flag := by
  decide +kernel

theorem flagSearchKey_of_mem [UpperCase] (h : flag ∈ keyFlags) :
    keyForms.lookup (flagSearchKey flag) = some .flag ∧
      keyForms.lookup (ascii "UN" ++ flagSearchKey flag) = some .unflag ∧
      searchKeyFlag (flagSearchKey flag) = flag := by
  obtain ⟨hascii, hkeys⟩ := keyFlags_keys flag h
  rw [flagSearchKey, if_pos h, toUpper_of_ascii hascii]
  exact hkeys

theorem flagSearchKey_ne_nil [UpperCase] (h : flag ∈ keyFlags) : flagSearchKey flag ≠ [] := by
  intro hempty
  have hlookup := (flagSearchKey_of_mem h).1
  rw [hempty] at hlookup
  revert hlookup
  decide

theorem flagSearchKey_of_not_mem [UpperCase] (h : flag ∉ keyFlags) : flagSearchKey flag = [] := by
  rw [flagSearchKey, if_neg h]

theorem addressKeys_lookup : ∀ key ∈ addressKeys, keyForms.lookup key = some .address := by
  decide

/-! ## Items -/

section Items

variable [LowerCase] [UpperCase] {settings : EncoderOptions} {options : Options} {left : Nat}

theorem reads_uid {set : UIDSet} (hset : ∀ nums, set = .nums nums → nums ≠ [] ∧ nums.Canonical) :
    Reads settings options (left + 1) (argument "UID" (.numSet set.string)) (.uid set) := by
  cases set with
  | nums nums =>
    obtain ⟨hne, hcanonical⟩ := hset nums rfl
    exact ⟨sends_argument (string_ne_nil hne), item_uid hne hcanonical⟩
  | searchRes =>
    exact ⟨sends_argument (by simp [Op.Sends, UIDSet.string, ascii]), item_searchRes⟩

theorem reads_flag (hflag : IsFlag flag) :
    Reads settings options (left + 1) (flagItem flag) (.flag (flagName flag)) := by
  rw [flagItem, flagName]
  by_cases hkey : flag ∈ keyFlags
  · obtain ⟨hlookup, -, hname⟩ := flagSearchKey_of_mem hkey
    have hitem : Item options (left + 1) _ _ := item_flag hlookup
    rw [hname] at hitem
    rw [if_pos (flagSearchKey_ne_nil hkey), if_pos hkey]
    exact ⟨by simp, hitem⟩
  · rw [flagSearchKey_of_not_mem hkey, if_neg (by simp), if_neg hkey]
    exact ⟨sends_argument (sends_flag hflag), item_keyword hflag⟩

theorem reads_notFlag (hflag : IsFlag flag) :
    Reads settings options (left + 1) (notFlagItem flag) (.notFlag (flagName flag)) := by
  rw [notFlagItem, flagName]
  by_cases hkey : flag ∈ keyFlags
  · obtain ⟨-, hlookup, hname⟩ := flagSearchKey_of_mem hkey
    have hitem : Item options (left + 1) _ _ := item_unflag hlookup
    rw [show (ascii "UN" ++ flagSearchKey flag).drop 2 = flagSearchKey flag
      from rfl, hname] at hitem
    rw [if_pos (flagSearchKey_ne_nil hkey), if_pos hkey]
    exact ⟨by simp, hitem⟩
  · rw [flagSearchKey_of_not_mem hkey, if_neg (by simp), if_neg hkey]
    exact ⟨sends_argument (sends_flag hflag), item_unkeyword hflag⟩

theorem reads_modSeq {bound : SearchCriteriaModSeq} (h : MetadataFits bound) :
    Reads settings options (left + 1) (modSeqItem bound) (.modSeq bound) where
  sends := by
    rw [modSeqItem]
    split_ifs <;> simp [Op.Sends]
  item := by
    have hforms : (modSeqItem bound).map (Op.form settings) =
        .atom (ascii "MODSEQ") :: .atom [SP] ::
          (metadataForms bound.metadataName bound.metadataType ++
            [.atom (formatUint bound.modSeq.toNat)]) := by
      have hzero : (if bound.modSeq ≠ 0 then formatUint bound.modSeq.toNat
          else ascii "0") = formatUint bound.modSeq.toNat := by
        split_ifs with hset
        · rfl
        · rw [not_not.mp hset]
          rfl
      rw [modSeqItem, metadataForms, hzero]
      split_ifs <;> rfl
    rw [hforms]
    exact item_modSeq h

section Strings

variable (hcarries : Carries settings options)

include hcarries

theorem reads_date {t : Int} (ht : IsDate t) {name : String} {key : DateKey}
    (hlookup : keyForms.lookup (ascii name) = some (.date key)) :
    Reads settings options (left + 1) (argument name (.string (dateString t)))
      (.date key (dateOfTime t)) where
  sends := sends_argument (sends_date hcarries ht)
  item := item_date hlookup (hcarries.passes _ ((length_formatDate (Calendar.dateOf_valid _)
      ht.year).trans (by decide)))
    (Calendar.dateOf_valid _) ht.year

theorem reads_header {field : SearchCriteriaHeaderField}
    (hkey : field.key.length ≤ 4096) (hvalue : field.value.length ≤ 4096) :
    Reads settings options (left + 1) (headerItem field)
      (.header (headerKey field.key) field.value) := by
  have hsend := sends_string hcarries hvalue
  rw [headerItem, headerKey]
  by_cases haddress : toUpper field.key ∈ addressKeys
  · rw [if_pos haddress, if_pos haddress]
    exact ⟨by simp [hsend], item_address (addressKeys_lookup _ haddress) (hcarries.passes _ hvalue)⟩
  · rw [if_neg haddress, if_neg haddress]
    exact ⟨by simp [argument, hsend, sends_string hcarries hkey],
      item_header (hcarries.passes _ hkey) (hcarries.passes _ hvalue)⟩

end Strings

/-! ## Lists of items -/

variable {items items' : List (List Op)} {keys keys' : List SearchKey}

variable (h : List.Forall₂ (Reads settings options (left + 1)) items keys)

include h

theorem reads_orAll :
    List.Forall₂ (Reads settings options (left + 1)) (orAll items) (program keys) := by
  cases h with
  | nil => exact .cons ⟨by simp, item_all⟩ .nil
  | cons hitem hrest => exact .cons hitem hrest

omit h in
theorem items_of_reads (h : List.Forall₂ (Reads settings options left) items keys) :
    List.Forall₂ (Item options left) (items.map (List.map (Op.form settings))) keys ∧
      ∀ item ∈ items, ∀ op ∈ item, op.Sends settings := by
  induction h with
  | nil => exact ⟨.nil, by simp⟩
  | cons hitem hrest ih =>
    exact ⟨.cons hitem.item ih.1, List.forall_mem_cons.mpr ⟨hitem.sends, ih.2⟩⟩

theorem reads_not :
    Reads settings options (left + 3) (.text (ascii "NOT") :: .text [SP] :: listed items)
      (.not (.list (program keys))) := by
  obtain ⟨hitems, hsends⟩ := items_of_reads (reads_orAll h)
  have hall := sends_spacedItems hsends
  refine ⟨by simpa [listed, or_imp, forall_and] using hall, ?_⟩
  have hitem := item_not hitems (by simp [orAll_ne_nil])
  simpa [listed, map_spacedItems, Op.form] using hitem

theorem reads_or (h' : List.Forall₂ (Reads settings options (left + 1)) items' keys') :
    Reads settings options (left + 3) (.text (ascii "OR") :: .text [SP] ::
        (listed items ++ .text [SP] :: listed items'))
      (.or (.list (program keys)) (.list (program keys'))) := by
  obtain ⟨hitems, hsends⟩ := items_of_reads (reads_orAll h)
  obtain ⟨hitems', hsends'⟩ := items_of_reads (reads_orAll h')
  have hall := sends_spacedItems hsends
  have hall' := sends_spacedItems hsends'
  have hitem := item_or hitems (by simp [orAll_ne_nil]) hitems' (by simp [orAll_ne_nil])
  refine ⟨?_, ?_⟩
  · simp only [listed, List.forall_mem_cons, List.forall_mem_append]
    simpa using ⟨hall, hall'⟩
  · simpa [listed, map_spacedItems, Op.form] using hitem

end Items

/-! ## The fields -/

section Fields

variable [LowerCase]

structure FieldsFit (fields : SearchFields) : Prop extends BoundsFit fields where
  seqNum : ∀ set ∈ fields.seqNum, set ≠ [] ∧ set.Canonical
  uid : ∀ set : NumSet, .nums set ∈ fields.uid → set ≠ [] ∧ set.Canonical
  header : ∀ field ∈ fields.header, field.key.length ≤ 4096 ∧ field.value.length ≤ 4096
  body : ∀ s ∈ fields.body, s.length ≤ 4096
  text : ∀ s ∈ fields.text, s.length ≤ 4096
  flag : ∀ flag ∈ fields.flag, IsFlag flag
  notFlag : ∀ flag ∈ fields.notFlag, IsFlag flag
  larger_lt : fields.larger < 2 ^ 63
  smaller_lt : fields.smaller < 2 ^ 63
  modSeq : ∀ bound, fields.modSeq = some bound → MetadataFits bound

variable [UpperCase] {settings : EncoderOptions} {options : Options} {left : Nat}

theorem reads_map {α : Type} {entries : List α} {item : α → List Op} {key : α → SearchKey}
    (h : ∀ a ∈ entries, Reads settings options left (item a) (key a)) :
    List.Forall₂ (Reads settings options left) (entries.map item) (entries.map key) := by
  rw [List.forall₂_map_left_iff, List.forall₂_map_right_iff, List.forall₂_same]
  exact h

theorem reads_dates (hcarries : Carries settings options) {t₁ t₂ : Int} (ht₁ : IsDate t₁)
    (ht₂ : IsDate t₂) {on since before : String} {day lower upper : DateKey}
    (hon : keyForms.lookup (ascii on) = some (.date day))
    (hsince : keyForms.lookup (ascii since) = some (.date lower))
    (hbefore : keyForms.lookup (ascii before) = some (.date upper)) :
    List.Forall₂ (Reads settings options (left + 1))
      (dateItems on since before t₁ t₂) (dateKeys day lower upper t₁ t₂) := by
  have hday := @reads_date _ _ settings options left hcarries t₁ ht₁ on day hon
  have hlower := @reads_date _ _ settings options left hcarries t₁ ht₁ since lower hsince
  have hupper := @reads_date _ _ settings options left hcarries t₂ ht₂ before upper hbefore
  rw [dateItems, dateKeys]
  split_ifs
  · exact .cons hday .nil
  · exact .cons hlower (.cons hupper .nil)
  · exact .cons hlower .nil
  · exact .cons hupper .nil
  · exact .nil

theorem reads_fields (hcarries : Carries settings options)
    {fields : SearchFields} (h : FieldsFit fields) :
    List.Forall₂ (Reads settings options (left + 1)) (fieldItems true fields)
      (fieldKeys fields) := by
  rw [fieldItems, fieldKeys]
  refine List.rel_append (List.rel_append (List.rel_append (List.rel_append
    (List.rel_append (List.rel_append (List.rel_append (List.rel_append
    (List.rel_append (List.rel_append (List.rel_append ?_ ?_) ?_) ?_) ?_) ?_)
    ?_) ?_) ?_) ?_) ?_) ?_
  · refine reads_map fun set hset => ?_
    obtain ⟨hne, hcanonical⟩ := h.seqNum set hset
    exact ⟨by simpa [Op.Sends] using string_ne_nil hne, item_seqNum hne hcanonical⟩
  · exact reads_map fun set hset => reads_uid fun nums hnums =>
      h.uid nums (hnums ▸ hset)
  · exact reads_dates hcarries h.since h.before (by decide) (by decide) (by decide)
  · exact reads_dates hcarries h.sentSince h.sentBefore (by decide) (by decide) (by decide)
  · exact reads_map fun field hfield =>
      reads_header hcarries (h.header field hfield).1 (h.header field hfield).2
  · exact reads_map fun s hs => ⟨sends_argument (sends_string hcarries (h.body s hs)),
      item_body (hcarries.passes s (h.body s hs))⟩
  · exact reads_map fun s hs => ⟨sends_argument (sends_string hcarries (h.text s hs)),
      item_text (hcarries.passes s (h.text s hs))⟩
  · exact reads_map fun flag hflag => reads_flag (h.flag flag hflag)
  · exact reads_map fun flag hflag => reads_notFlag (h.notFlag flag hflag)
  · have hlt := h.larger_lt
    rw [sizeItems, sizeKeys]
    split_ifs with hpos
    · exact .cons ⟨sends_argument hpos.le, item_larger (by omega)⟩ .nil
    · exact .nil
  · have hlt := h.smaller_lt
    rw [sizeItems, sizeKeys]
    split_ifs with hpos
    · exact .cons ⟨sends_argument hpos.le, item_smaller (by omega)⟩ .nil
    · exact .nil
  · cases hbound : fields.modSeq with
    | none => exact .nil
    | some bound => exact .cons (reads_modSeq (h.modSeq bound hbound)) .nil

/-! ## The criteria -/

/-- Two levels are needed for each `NOT` and `OR` and one for the keys. -/
theorem reads_criteria (hcarries : Carries settings options) (criteria : SearchCriteria)
    (h : ∀ fields ∈ criteria.allFields, FieldsFit fields) (hleft : 2 * criteria.depth ≤ left) :
    List.Forall₂ (Reads settings options (left + 1))
      (searchItems true criteria) (searchKeys criteria) := by
  induction criteria using SearchCriteria.tree_induction generalizing left with
  | h fields not or hnot hor =>
    obtain ⟨hfields, hbelow, hpairs⟩ := SearchCriteria.forall_mem_allFields.mp h
    have hdepth : (SearchCriteria.mk fields not or).depth ≤ left / 2 := by
      omega
    obtain ⟨hnotDepth, horDepth⟩ := SearchCriteria.depth_le_iff.mp hdepth
    rw [searchItems, searchKeys, notItems_eq, orItems_eq, notKeys_eq, orKeys_eq]
    refine List.rel_append (List.rel_append
      (reads_fields hcarries hfields) (reads_map fun criteria hmem => ?_))
      (reads_map fun pair hmem => ?_)
    · have hroom := hnotDepth criteria hmem
      obtain ⟨fewer, rfl⟩ : ∃ fewer, left = fewer + 2 := ⟨left - 2, by omega⟩
      exact reads_not (hnot criteria hmem (hbelow criteria hmem) (by omega))
    · obtain ⟨hfirst, hsecond⟩ := horDepth pair hmem
      obtain ⟨fewer, rfl⟩ : ∃ fewer, left = fewer + 2 := ⟨left - 2, by omega⟩
      exact reads_or ((hor pair hmem).1 (hpairs pair hmem).1 (by omega))
        ((hor pair hmem).2 (hpairs pair hmem).2 (by omega))

end Fields

/-! ## Up to letter case -/

theorem toLower_flagName [LowerCase] (flag : Flag) : toLower (flagName flag) = toLower flag := by
  rw [flagName]
  split_ifs
  · rfl
  · exact toLower_canonicalFlag flag

theorem addressKeys_titleCase : ∀ key ∈ addressKeys, (∀ byte ∈ titleCase key, byte.toNat < 128) ∧
      (titleCase key).map upperByte = key := by
  decide +kernel

theorem toUpper_headerKey [UpperCase] (key : Bytes) : toUpper (headerKey key) = toUpper key := by
  rw [headerKey]
  split_ifs with haddress
  · obtain ⟨hascii, hupper⟩ := addressKeys_titleCase _ haddress
    rw [toUpper_of_ascii hascii, hupper]
  · rfl

section FoldCase

variable [LowerCase] [UpperCase]

def foldCase (fields : SearchFields) : SearchFields := { fields with
    header := fields.header.map fun field => ⟨toUpper field.key, field.value⟩
    flag := fields.flag.map toLower
    notFlag := fields.notFlag.map toLower }

theorem foldCase_respell : foldCase ∘ respell = foldCase := by
  funext fields
  simp [foldCase, respell, Function.comp_def, toLower_flagName, toUpper_headerKey]

end FoldCase

theorem carries_conn {settings : EncoderOptions} (hclient : settings.side = .client)
    (hsend : settings.literalMinus = true ∨ settings.literalPlus = true ∨
      settings.newContinuationRequest = some (.ok ()))
    (literalPlus : Bool) : Carries settings (connOptions literalPlus) where
  sends := fun s hs => by
    rcases hsend with hminus | hplus | hgranted
    · exact .inr (.inr (.inl ⟨hminus, hs⟩))
    · exact .inr (.inl hplus)
    · exact .inr (.inr (.inr hgranted))
  passes := fun s hs => by
    have hsmall : ¬s.length > 4096 := Nat.not_lt.mpr hs
    refine ⟨by simp [connOptions, hclient], .inr ⟨hs.trans (by decide), rfl, ?_⟩⟩
    simp [Decoder.checkBuffered, connOptions, checkBufferedLiteral, acceptLiteral, hsmall]

/--
The criteria a client writes are read by the server up to the end of the line,
and entered they are the criteria the client started from, but for the spelling
of flags and header fields, which changes in letter case only.

Each level of `NOT` or `OR` takes two levels of the server's limit.  What the
calls write counts against the limit on the size of a command, but for the
payload of a literal.
-/
theorem searchCriteria_read [LowerCase] [UpperCase] (settings : EncoderOptions)
    (hclient : settings.side = .client)
    (hsend : settings.literalMinus = true ∨ settings.literalPlus = true ∨
      settings.newContinuationRequest = some (.ok ())) (literalPlus : Bool)
    (criteria : SearchCriteria) (hfits : ∀ fields ∈ criteria.allFields, FieldsFit fields)
    (hdepth : 2 * criteria.depth ≤ maxSearchKeyDepth) (dec : Decoder) (rest : Bytes)
    (hroom : Decoder.Room (connOptions literalPlus) dec (StringForm.counted
        ((writeSearchKey true criteria).map (Op.form settings)) + 2))
    (hrest : dec.rest = (newEncoder.run settings (writeSearchKey true criteria)).1.written ++
        CR :: LF :: rest) :
    (newEncoder.run settings (writeSearchKey true criteria)).2 = .done ∧ ∃ keys next,
        (readSearchKeys (connOptions literalPlus)).Returns dec keys next ∧
        next.rest = rest ∧ next.err = none ∧
        SearchKey.criteria true keys = criteria.mapFields respell ∧
        (SearchKey.criteria true keys).mapFields foldCase = criteria.mapFields foldCase := by
  have hreads := reads_orAll (reads_criteria
    (carries_conn hclient hsend literalPlus) criteria hfits hdepth)
  obtain ⟨hitems, hsends⟩ := items_of_reads hreads
  have hrun : newEncoder.run settings (writeSearchKey true criteria) = (⟨StringForm.joined
        ((writeSearchKey true criteria).map (Op.form settings)), none,
        false⟩, .done) :=
    Encoder.run_sends [] (sends_spacedItems hsends)
  have hforms : (writeSearchKey true criteria).map (Op.form settings) =
      spaced ((orAll (searchItems true criteria)).map (List.map (Op.form settings))) :=
    map_spacedItems _
  rw [hrun] at hrest ⊢
  rw [hforms] at hrest hroom
  have hfacing : Decoder.Facing (connOptions literalPlus) dec
      (StringForm.counted (spaced ((orAll (searchItems true criteria)).map
        (List.map (Op.form settings))) ++ [.atom [CR, LF]]) + 0)
      (StringForm.joined (spaced ((orAll (searchItems true criteria)).map
        (List.map (Op.form settings))) ++ [.atom [CR, LF]]) ++ rest) := by
    refine ⟨?_, ?_⟩
    · simpa using hroom
    · simpa using hrest
  obtain ⟨next, hreturns, hnext, -⟩ :=
    consumes_program hitems (by simp [orAll_ne_nil]) dec 0 hfacing
  have hcriteria : SearchKey.criteria true (program (searchKeys criteria)) =
      criteria.mapFields respell :=
    (criteria_program _).trans (criteria_searchKeys criteria
      fun fields h => (hfits fields h).toBoundsFit)
  refine ⟨rfl, _, next, hreturns, hnext.rest_eq, hnext.running, hcriteria, ?_⟩
  rw [hcriteria, SearchCriteria.mapFields_mapFields, foldCase_respell]

def unlike : SearchCriteria :=
  .mk { flag := [ascii "$forwarded"] } [.mk { text := [[CR, LF]] } [] []] []

theorem unlike_fits [LowerCase] : ∀ fields ∈ unlike.allFields, FieldsFit fields := by
  have hzero : IsDate 0 := ⟨le_refl 0, rfl, by decide⟩
  have hflag : IsFlag (ascii "$forwarded") := ⟨_, by decide, .inl rfl⟩
  simp only [unlike, SearchCriteria.forall_mem_allFields]
  refine ⟨?_, ?_, by simp⟩
  · exact ⟨⟨hzero, hzero, hzero, hzero, le_refl 0, le_refl 0⟩, by simp,
      by simp, by simp, by simp, by simp, by simpa using hflag, by simp,
      by decide, by decide, by simp⟩
  · intro criteria hcriteria
    rw [List.mem_singleton.mp hcriteria]
    simp only [SearchCriteria.forall_mem_allFields]
    refine ⟨?_, by simp, by simp⟩
    exact ⟨⟨hzero, hzero, hzero, hzero, le_refl 0, le_refl 0⟩, by simp,
      by simp, by simp, by simp, by simp, by simp, by simp,
      by decide, by decide, by simp⟩

theorem searchCriteria_read_unlike : ∃ keys next,
      (@readSearchKeys (connOptions false) unicode asciiUpper).Returns
        (newDecoder ((newEncoder.run literalMinusClient
          (@writeSearchKey asciiUpper true unlike)).1.written ++ [CR, LF]))
        keys next ∧
      next.rest = [] ∧
      (SearchKey.criteria true keys).mapFields (@foldCase unicode asciiUpper) =
        unlike.mapFields (@foldCase unicode asciiUpper) := by
  have hcounted : StringForm.counted ((@writeSearchKey asciiUpper true
      unlike).map (Op.form literalMinusClient)) + 2 ≤ maxCommandSize := by
    decide +kernel
  obtain ⟨-, keys, next, hreturns, hrest, -, -, hcase⟩ :=
    @searchCriteria_read unicode asciiUpper literalMinusClient rfl (.inl rfl)
      false unlike (@unlike_fits unicode) (by decide)
      (newDecoder ((newEncoder.run literalMinusClient
        (@writeSearchKey asciiUpper true unlike)).1.written ++ [CR, LF])) []
      ⟨rfl, rfl, fun _ => by simp only [newDecoder, connOptions]; omega⟩ rfl
  exact ⟨keys, next, hreturns, hrest, hcase⟩

end GoImap.Client
