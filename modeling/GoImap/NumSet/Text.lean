import GoImap.Decimal
import GoImap.NumSet.Build
import Mathlib.Data.List.Forall2
import Mathlib.Data.List.TakeWhile

/-!
# Number sets as text

`parseSet` accepts the comma-separated lists of numbers and ranges, and inserts
what they denote.  `string` writes a canonical set so that it is read back.
-/

namespace GoImap

open Intervals

def star : UInt8 := 42

def comma : UInt8 := 44

def zero : UInt8 := 48

def colon : UInt8 := 58

structure BadNumSet where
  value : Bytes
  deriving DecidableEq, Repr

def parseNum (text : Bytes) : Except BadNumSet UInt32 :=
  match parseUint text 32, text.head? == some zero with
  | some number, false => .ok (UInt32.ofNat number)
  | _, _ => if text = [star] then .ok 0 else .error ⟨text⟩

def parseNumRange (text : Bytes) : Except BadNumSet NumRange :=
  match text.dropWhile (· ≠ colon) with
  | [] =>
    match parseNum text with
    | .ok number => .ok ⟨number, number⟩
    | .error err => .error err
  | _ :: back =>
    match parseNum (text.takeWhile (· ≠ colon)), parseNum back with
    | .ok start, .ok stop => .ok (NumRange.ordered start stop)
    | _, _ => .error ⟨text⟩

/-- The loop of `ParseSet`; on an error the set read so far is returned. -/
def parseSetLoop : List Bytes → NumSet → NumSet × Option BadNumSet
  | [], set => (set, none)
  | element :: rest, set =>
    match parseNumRange element with
    | .error err => (set, some err)
    | .ok range => parseSetLoop rest (set.addRange range.start range.stop)

def parseSet (text : Bytes) : NumSet × Option BadNumSet := parseSetLoop (text.splitOn comma) []

def rangeText (range : NumRange) : Bytes :=
  if range.start = 0 then [star]
  else
    formatUint range.start.toNat ++
      if range.start = range.stop then []
      else if range.stop = 0 then [colon, star]
      else colon :: formatUint range.stop.toNat

def NumSet.string (set : NumSet) : Bytes :=
  (set.flatMap fun range => comma :: rangeText range).drop 1

/-! ## The grammar -/

/-- The text of a number: `*`, which is zero, or a number without a leading
zero that fits into a word. -/
inductive NumText : Bytes → UInt32 → Prop
  | star : NumText [star] 0
  | number {text : Bytes} {number : UInt32} (hne : text ≠ [])
      (hdigits : ∀ byte ∈ text, isDigit byte = true)
      (hhead : text.head? ≠ some zero) (hvalue : decimal text = number.toNat) :
      NumText text number

inductive ElementText : Bytes → NumRange → Prop
  | single {text : Bytes} {number : UInt32} :
      NumText text number → ElementText text ⟨number, number⟩
  | range {first second : Bytes} {start stop : UInt32} : NumText first start → NumText second stop →
      ElementText (first ++ colon :: second) (.ordered start stop)

def SetText (text : Bytes) (ranges : List NumRange) : Prop :=
  ∃ elements : List Bytes, elements ≠ [] ∧ text = [comma].intercalate elements ∧
    List.Forall₂ ElementText elements ranges

variable {text : Bytes} {number : UInt32} {range : NumRange} {set : NumSet}

theorem NumText.plain (h : NumText text number) : comma ∉ text ∧ colon ∉ text := by
  cases h with
  | star => decide
  | number hne hdigits hhead hvalue =>
    exact ⟨fun hmem => absurd (hdigits comma hmem) (by decide),
      fun hmem => absurd (hdigits colon hmem) (by decide)⟩

theorem ElementText.comma_not_mem (h : ElementText text range) : comma ∉ text := by
  cases h with
  | single hnumber => exact hnumber.plain.1
  | range hfirst hsecond =>
    have hcolon : comma ≠ colon := by decide
    simp [hfirst.plain.1, hsecond.plain.1, hcolon]

theorem ElementText.valid (h : ElementText text range) : range.Valid := by
  cases h with
  | single => exact le_refl _
  | range => exact NumRange.ordered_valid _ _

/-! ## Parsing -/

theorem parseNum_ok_iff : parseNum text = .ok number ↔ NumText text number := by
  constructor
  · intro h
    unfold parseNum at h
    split at h
    · next value hvalue hhead =>
        obtain ⟨hne, hdigits, hdecimal, hlt⟩ := parseUint_eq_some.mp hvalue
        cases h
        refine .number hne hdigits (by simpa using hhead) ?_
        rw [hdecimal, Word.toNat_ofNat_of_lt hlt]
    · split_ifs at h with hstar
      cases h
      rw [hstar]
      exact .star
  · intro h
    cases h with
    | star => decide
    | number hne hdigits hhead hvalue =>
      have hparse := parseUint_eq_some.mpr ⟨hne, hdigits, hvalue, number.toNat_lt⟩
      have hzero : (text.head? == some zero) = false := by simpa using hhead
      simp [parseNum, hparse, hzero]

theorem dropWhile_colon_of_not_mem (h : colon ∉ text) : text.dropWhile (· ≠ colon) = [] := by
  rw [List.dropWhile_eq_nil_iff]
  intro byte hbyte
  simpa using ne_of_mem_of_not_mem hbyte h

theorem split_colon {first second : Bytes} (h : colon ∉ first) :
    (first ++ colon :: second).takeWhile (· ≠ colon) = first ∧
      (first ++ colon :: second).dropWhile (· ≠ colon) = colon :: second := by
  have hfirst : ∀ byte ∈ first, decide (byte ≠ colon) = true := by
    intro byte hbyte
    simpa using ne_of_mem_of_not_mem hbyte h
  rw [List.takeWhile_append_of_pos hfirst, List.dropWhile_append_of_pos hfirst]
  simp

theorem parseNumRange_ok_iff : parseNumRange text = .ok range ↔ ElementText text range := by
  constructor
  · intro h
    unfold parseNumRange at h
    split at h
    · split at h
      · next number hnumber =>
          cases h
          exact .single (parseNum_ok_iff.mp hnumber)
      · cases h
    · next byte back hdrop =>
        split at h
        · next start stop hstart hstop =>
            cases h
            have hcolon : byte = colon := by
              have hhead := List.head?_dropWhile_not (· ≠ colon) text
              rw [hdrop] at hhead
              simpa using hhead
            have htext : text = text.takeWhile (· ≠ colon) ++ colon :: back := by
              conv_lhs =>
                rw [← @List.takeWhile_append_dropWhile _ (· ≠ colon) text, hdrop, hcolon]
            rw [htext]
            exact .range (parseNum_ok_iff.mp hstart) (parseNum_ok_iff.mp hstop)
        · cases h
  · intro h
    cases h with
    | single hnumber =>
      simp only [parseNumRange, dropWhile_colon_of_not_mem hnumber.plain.2,
        parseNum_ok_iff.mpr hnumber]
    | range hfirst hsecond =>
      obtain ⟨htake, hdrop⟩ := @split_colon _ ‹_› hfirst.plain.2
      simp only [parseNumRange, htake, hdrop, parseNum_ok_iff.mpr hfirst,
        parseNum_ok_iff.mpr hsecond]

theorem ordered_of_valid (h : range.Valid) : NumRange.ordered range.start range.stop = range := by
  rw [NumRange.valid_iff] at h
  unfold NumRange.ordered
  split_ifs with hswap
  · rcases hswap with ⟨hlt, hstop⟩ | hstart
    · exact absurd hlt (UInt32.not_lt.mpr (h hstop).2)
    · by_cases hstop : range.stop = 0
      · cases range
        simp_all
      · exact absurd hstart (h hstop).1
  · rfl

theorem parseSetLoop_spec {elements : List Bytes} {result : NumSet} :
    parseSetLoop elements set = (result, none) ↔
      ∃ ranges, List.Forall₂ ElementText elements ranges ∧
        result = ranges.foldl NumSet.insert set := by
  induction elements generalizing set with
  | nil => simp [parseSetLoop, eq_comm]
  | cons element rest ih =>
    rw [parseSetLoop]
    constructor
    · intro h
      cases hrange : parseNumRange element with
      | error err => simp [hrange] at h
      | ok range =>
        have helement := parseNumRange_ok_iff.mp hrange
        simp only [hrange] at h
        obtain ⟨ranges, hranges, rfl⟩ := ih.mp h
        refine ⟨range :: ranges, .cons helement hranges, ?_⟩
        rw [NumSet.addRange_eq, ordered_of_valid helement.valid]
        rfl
    · rintro ⟨ranges, hranges, rfl⟩
      cases hranges with
      | cons helement hrest =>
        simp only [parseNumRange_ok_iff.mpr helement]
        rw [ih]
        refine ⟨_, hrest, ?_⟩
        rw [NumSet.addRange_eq, ordered_of_valid helement.valid]
        rfl

theorem parseSet_of_setText {ranges : List NumRange} (h : SetText text ranges) :
    parseSet text = (ranges.foldl NumSet.insert [], none) := by
  obtain ⟨elements, hne, rfl, hranges⟩ := h
  have hboth : List.Forall₂ (fun element range => comma ∉ element ∧
      ElementText element range) elements ranges :=
    hranges.imp fun _ _ h => ⟨h.comma_not_mem, h⟩
  have hplain := ((List.forall₂_and_left _ _).mp hboth).1
  rw [parseSet, List.splitOn_intercalate comma hplain hne]
  exact parseSetLoop_spec.mpr ⟨ranges, hranges, rfl⟩

theorem setText_of_parseSet (h : (parseSet text).2 = none) : ∃ ranges, SetText text ranges := by
  have hparse : parseSetLoop (text.splitOn comma) [] = ((parseSet text).1, none) := by
    rw [← h]
    rfl
  obtain ⟨ranges, hranges, -⟩ := parseSetLoop_spec.mp hparse
  exact ⟨ranges, _, List.splitOn_ne_nil _ _, (List.intercalate_splitOn comma).symm, hranges⟩

theorem SetText.collects {ranges : List NumRange} (h : SetText text ranges) :
    (parseSet text).1.Collects ranges := by
  rw [parseSet_of_setText h]
  obtain ⟨elements, -, -, hranges⟩ := h
  have hempty : NumSet.Collects [] [] := ⟨NumSet.empty_canonical, fun _ => Iff.rfl⟩
  have hboth : List.Forall₂ (fun range element => NumRange.Valid range ∧
      ElementText element range) ranges elements :=
    (hranges.imp fun _ _ h => ⟨h.valid, h⟩).flip
  exact hempty.foldl ((List.forall₂_and_left _ _).mp hboth).1

theorem parseSet_canonical (h : parseSet text = (set, none)) : set.Canonical := by
  have hnone : (parseSet text).2 = none := by rw [h]
  obtain ⟨ranges, hranges⟩ := setText_of_parseSet hnone
  have hcanonical := hranges.collects.1
  rwa [h] at hcanonical

/-! ## Printing -/

theorem numText_formatUint (h : number ≠ 0) : NumText (formatUint number.toNat) number :=
  .number (formatUint_ne_nil _) (fun _ => isDigit_of_mem_formatUint)
    (head_formatUint (Word.ne_zero_iff.mp h)) (decimal_formatUint _)

theorem elementText_rangeText (h : range.Valid) : ElementText (rangeText range) range := by
  have hordered := ordered_of_valid h
  obtain ⟨start, stop⟩ := range
  simp only [rangeText] at hordered ⊢
  split_ifs with hstart hequal hstop
  · have hzero : stop = 0 := by
      by_contra hne
      exact ((NumRange.valid_iff _).mp h hne).1 hstart
    subst hstart hzero
    exact .single .star
  · subst hequal
    simpa using ElementText.single (numText_formatUint hstart)
  · subst hstop
    rw [← hordered]
    exact .range (numText_formatUint hstart) .star
  · rw [← hordered]
    exact .range (numText_formatUint hstart) (numText_formatUint hstop)

theorem string_eq_intercalate (h : set ≠ []) :
    set.string = [comma].intercalate (set.map rangeText) := by
  induction set with
  | nil => exact absurd rfl h
  | cons range rest ih =>
    cases rest with
    | nil => simp [NumSet.string]
    | cons next rest =>
      have htail := ih (by simp)
      rw [List.map_cons, List.map_cons, List.intercalate_cons_cons, ← List.map_cons, ← htail]
      simp [NumSet.string]

theorem setText_string (hne : set ≠ []) (h : set.Canonical) : SetText set.string set := by
  refine ⟨set.map rangeText, by simpa using hne, string_eq_intercalate hne, ?_⟩
  rw [List.forall₂_map_left_iff, List.forall₂_same]
  exact fun range hrange => elementText_rangeText (h.valid hrange)

theorem string_cons_ne_nil (range : NumRange) (rest : NumSet) :
    NumSet.string (range :: rest) ≠ [] := by
  have hnumber := formatUint_ne_nil range.start.toNat
  rw [NumSet.string, List.flatMap_cons, List.cons_append, List.drop_succ_cons,
    List.drop_zero, rangeText]
  split_ifs <;> simp [hnumber]

theorem parseSet_string (hne : set ≠ []) (h : set.Canonical) :
    parseSet set.string = (set, none) := by
  have htext := setText_string hne h
  have hset := htext.collects.1.eq_of_covers h htext.collects.2
  rw [parseSet_of_setText htext] at hset ⊢
  simp only at hset
  rw [hset]

/-- The parser accepts the grammar and reads what it denotes, and what is
printed is read back. -/
theorem parseSet_accepts_grammar :
    (∀ text, (parseSet text).2 = none ↔ ∃ ranges, SetText text ranges) ∧
      (∀ text ranges, SetText text ranges → ∀ number,
        ((∃ range ∈ (parseSet text).1, range.contains number = true) ↔
          ∃ range ∈ ranges, range.contains number = true)) ∧
      ∀ set : NumSet, set ≠ [] → set.Canonical → parseSet set.string = (set, none) := by
  refine ⟨fun text => ⟨setText_of_parseSet, ?_⟩, ?_, fun _ => parseSet_string⟩
  · rintro ⟨ranges, h⟩
    rw [parseSet_of_setText h]
  · intro text ranges h number
    rw [← NumSet.covers_spans_iff, ← NumSet.covers_spans_iff]
    exact h.collects.2 _

theorem parseSet_accepts_grammar_reversed :
    (parseSet (ascii "4:2,*,7")).2 = none ∧ parseSet (NumSet.string [⟨2, 4⟩, ⟨7, 7⟩, ⟨0, 0⟩]) =
        ([⟨2, 4⟩, ⟨7, 7⟩, ⟨0, 0⟩], none) :=
  ⟨by decide, parseSet_accepts_grammar.2.2 _ (by decide)
    ((NumSet.canonical_iff_ascending _).mpr ⟨by decide, by decide⟩)⟩

end GoImap
