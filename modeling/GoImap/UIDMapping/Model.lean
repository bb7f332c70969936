import GoImap.NumSet.Expand
import Mathlib.Data.List.Sort

/-!
# UID mappings

A mapping pairs ranges of source UIDs with ranges of destination UIDs of the
same length, in the order of copying.  `validate` sorts the ranges of each side
and looks at neighbours.  The order of ranges with the same start, which the
sort leaves open, does not matter: they are refused either way.
-/

namespace GoImap

structure UIDPairRange where
  source : NumRange
  dest : NumRange
  deriving DecidableEq, Repr

abbrev UIDMapping := List UIDPairRange

namespace UIDPairRange

def cardinality (pair : UIDPairRange) : UInt64 :=
  if pair.source.start = 0 ∨ pair.dest.start = 0 ∨ pair.source.stop < pair.source.start ∨
      pair.dest.stop < pair.dest.start ∨
      pair.source.stop - pair.source.start ≠ pair.dest.stop - pair.dest.start then 0
  else pair.source.stop.toUInt64 - pair.source.start.toUInt64 + 1

def all (pair : UIDPairRange) : List (UID × UID) :=
  (List.range' pair.source.start.toNat
    (pair.source.stop.toNat + 1 - pair.source.start.toNat)).map fun n =>
      (UInt32.ofNat n, (pair.dest.start.toUInt64 + UInt64.ofNat n -
          pair.source.start.toUInt64).toUInt32)

end UIDPairRange

namespace UIDMapping

def cardinalityLoop : UIDMapping → UInt64 → UInt64
  | [], count => count
  | pair :: rest, count =>
    let n := pair.cardinality
    if n = 0 ∨ count > 0xFFFFFFFF - n then 0
    else cardinalityLoop rest (count + n)

def cardinality (m : UIDMapping) : UInt64 := cardinalityLoop m 0

def all (m : UIDMapping) : List (UID × UID) :=
  if m.cardinality = 0 then [] else m.flatMap UIDPairRange.all

def repeats : List NumRange → Bool
  | first :: second :: rest =>
    second.start ≤ first.stop || repeats (second :: rest)
  | _ => false

def sortRanges (ranges : List NumRange) : List NumRange :=
  ranges.mergeSort fun a b => a.start ≤ b.start

def validate (m : UIDMapping) : Except String Unit :=
  if m = [] then .error "imap: empty UID mapping"
  else
    match m.findIdx? (·.cardinality = 0) with
    | some i => .error ("imap: invalid UID mapping range " ++ toString i)
    | none =>
      if repeats (sortRanges (m.map UIDPairRange.source)) ||
          repeats (sortRanges (m.map UIDPairRange.dest)) then
        .error "imap: repeated UID in mapping"
      else .ok ()

end UIDMapping

/-! ## Valid pairs -/

namespace UIDPairRange

/-- The two ranges are ascending, without zero, and of the same length. -/
structure Valid (pair : UIDPairRange) : Prop where
  source_pos : 0 < pair.source.start.toNat
  dest_pos : 0 < pair.dest.start.toNat
  source_le : pair.source.start.toNat ≤ pair.source.stop.toNat
  dest_le : pair.dest.start.toNat ≤ pair.dest.stop.toNat
  same_length : pair.source.stop.toNat - pair.source.start.toNat =
    pair.dest.stop.toNat - pair.dest.start.toNat

theorem valid_iff (pair : UIDPairRange) :
    pair.Valid ↔ ¬(pair.source.start = 0 ∨ pair.dest.start = 0 ∨
      pair.source.stop < pair.source.start ∨
      pair.dest.stop < pair.dest.start ∨
      pair.source.stop - pair.source.start ≠ pair.dest.stop - pair.dest.start) := by
  simp only [not_or, not_not, UInt32.lt_iff_toNat_lt, Nat.not_lt]
  rw [← ne_eq, ← ne_eq, Word.ne_zero_iff, Word.ne_zero_iff]
  have hsub : pair.source.start.toNat ≤ pair.source.stop.toNat →
      pair.dest.start.toNat ≤ pair.dest.stop.toNat →
      (pair.source.stop - pair.source.start = pair.dest.stop - pair.dest.start ↔
        pair.source.stop.toNat - pair.source.start.toNat =
          pair.dest.stop.toNat - pair.dest.start.toNat) := by
    intro hsource hdest
    rw [← UInt32.toNat_inj, UInt32.toNat_sub_of_le _ _ hsource, UInt32.toNat_sub_of_le _ _ hdest]
  constructor
  · intro h
    exact ⟨h.source_pos, h.dest_pos, h.source_le, h.dest_le,
      (hsub h.source_le h.dest_le).mpr h.same_length⟩
  · rintro ⟨hsource, hdest, hle, hle', hsame⟩
    exact ⟨hsource, hdest, hle, hle', (hsub hle hle').mp hsame⟩

theorem cardinality_of_valid {pair : UIDPairRange} (h : pair.Valid) :
    pair.cardinality.toNat = pair.source.stop.toNat - pair.source.start.toNat + 1 := by
  have hstop := pair.source.stop.toNat_lt
  have hle : pair.source.start.toUInt64 ≤ pair.source.stop.toUInt64 := by
    rw [UInt64.le_iff_toNat_le]
    simpa using h.source_le
  rw [cardinality, if_neg ((valid_iff pair).mp h), UInt64.toNat_add, UInt64.toNat_sub_of_le _ _ hle]
  simp
  omega

theorem cardinality_ne_zero_iff (pair : UIDPairRange) : pair.cardinality ≠ 0 ↔ pair.Valid := by
  constructor
  · intro hne
    rw [valid_iff]
    intro hbad
    rw [cardinality, if_pos hbad] at hne
    exact hne rfl
  · intro h hzero
    have hcard := cardinality_of_valid h
    rw [hzero] at hcard
    simp at hcard

theorem length_numbers_of_valid {pair : UIDPairRange} (h : pair.Valid) :
    pair.source.numbers.length = pair.cardinality.toNat ∧
      pair.dest.numbers.length = pair.cardinality.toNat := by
  have hsource := h.source_le
  have hdest := h.dest_le
  have hsame := h.same_length
  rw [cardinality_of_valid h]
  simp only [NumRange.numbers, List.length_map, List.length_range']
  omega

theorem all_eq_zip {pair : UIDPairRange} (h : pair.Valid) :
    pair.all = pair.source.numbers.zip pair.dest.numbers := by
  have hsource := h.source_le
  have hdest := h.dest_le
  have hsame := h.same_length
  have hstop := pair.source.stop.toNat_lt
  have hstop' := pair.dest.stop.toNat_lt
  have hcount : pair.dest.stop.toNat + 1 - pair.dest.start.toNat =
      pair.source.stop.toNat + 1 - pair.source.start.toNat := by omega
  rw [all, NumRange.numbers, NumRange.numbers, hcount, List.range'_eq_map_range,
    List.range'_eq_map_range, List.map_map, List.map_map, List.map_map, List.zip_map']
  apply List.map_congr_left
  intro i hi
  rw [List.mem_range] at hi
  simp only [Function.comp_apply, Prod.mk.injEq, true_and]
  apply UInt32.toNat_inj.mp
  have hle : pair.source.start.toUInt64 ≤ pair.dest.start.toUInt64 +
      UInt64.ofNat (pair.source.start.toNat + i) := by
    rw [UInt64.le_iff_toNat_le, UInt64.toNat_add]
    simp
    omega
  rw [UInt64.toNat_toUInt32, UInt64.toNat_sub_of_le _ _ hle, UInt64.toNat_add]
  simp
  omega

end UIDPairRange

/-! ## Valid mappings -/

namespace UIDMapping

def sources (m : UIDMapping) : List UID := (m.map UIDPairRange.source).flatMap NumRange.numbers

def dests (m : UIDMapping) : List UID := (m.map UIDPairRange.dest).flatMap NumRange.numbers

theorem repeats_eq_false_iff {ranges : List NumRange}
    (hvalid : ∀ range ∈ ranges, range.start ≤ range.stop)
    (hsorted : ranges.Pairwise fun a b => a.start ≤ b.start) :
    repeats ranges = false ↔ (ranges.flatMap NumRange.numbers).Nodup := by
  have hnodup : ∀ range : NumRange, range.numbers.Nodup := fun range =>
    range.numbers_pairwise.imp fun hlt heq => by
      rw [heq] at hlt
      exact UInt32.lt_irrefl _ hlt
  induction ranges with
  | nil => simp [repeats]
  | cons first rest ih =>
    cases rest with
    | nil => simp [repeats, hnodup]
    | cons second rest =>
      obtain ⟨hfirst, hrest⟩ := List.pairwise_cons.mp hsorted
      have htail := ih (fun range hrange =>
        hvalid range (List.mem_cons_of_mem _ hrange)) hrest
      rw [repeats, Bool.or_eq_false_iff, decide_eq_false_iff_not,
        List.flatMap_cons, List.nodup_append]
      constructor
      · rintro ⟨hapart, hnone⟩
        refine ⟨hnodup first, htail.mp hnone, ?_⟩
        rintro number hmem other hother rfl
        obtain ⟨range, hrange, hnumber⟩ := List.mem_flatMap.mp hother
        have hstart : second.start ≤ range.start := by
          rcases List.mem_cons.mp hrange with rfl | hlater
          · exact UInt32.le_refl _
          · exact (List.pairwise_cons.mp hrest).1 range hlater
        have hge := ((NumRange.mem_numbers number).mp hnumber).1
        have hle := ((NumRange.mem_numbers number).mp hmem).2
        exact hapart (UInt32.le_trans (UInt32.le_trans hstart hge) hle)
      · rintro ⟨-, hrestNodup, hdisjoint⟩
        refine ⟨fun hle => ?_, htail.mpr hrestNodup⟩
        have hmem := (NumRange.mem_numbers _).mpr ⟨hfirst second List.mem_cons_self, hle⟩
        have hmem' : second.start ∈ (second :: rest).flatMap NumRange.numbers :=
          List.mem_flatMap.mpr ⟨second, List.mem_cons_self,
            (NumRange.mem_numbers _).mpr ⟨UInt32.le_refl _, hvalid second (by simp)⟩⟩
        exact hdisjoint _ hmem _ hmem' rfl

theorem repeats_sortRanges {ranges : List NumRange}
    (hvalid : ∀ range ∈ ranges, range.start ≤ range.stop) :
    repeats (sortRanges ranges) = false ↔ (ranges.flatMap NumRange.numbers).Nodup := by
  have hperm : (sortRanges ranges).Perm ranges := List.mergeSort_perm ranges _
  have hsorted : (sortRanges ranges).Pairwise fun a b => a.start ≤ b.start := by
    have hpairwise := @List.pairwise_mergeSort _
      (fun a b : NumRange => decide (a.start ≤ b.start)) ?_ ?_ ranges
    · simpa [sortRanges] using hpairwise
    · intro a b c hab hbc
      simp only [decide_eq_true_eq] at hab hbc ⊢
      exact UInt32.le_trans hab hbc
    · intro a b
      simpa using UInt32.le_total a.start b.start
  rw [repeats_eq_false_iff (fun range hrange => hvalid range (hperm.mem_iff.mp hrange)) hsorted]
  exact (hperm.flatMap_right NumRange.numbers).nodup_iff

structure Valid (m : UIDMapping) : Prop where
  ne_nil : m ≠ []
  pairs : ∀ pair ∈ m, pair.Valid
  sources : m.sources.Nodup
  dests : m.dests.Nodup

theorem validate_iff (m : UIDMapping) : m.validate = .ok () ↔ m.Valid := by
  have hle : (∀ pair ∈ m, pair.Valid) →
      (∀ range ∈ m.map UIDPairRange.source, range.start ≤ range.stop) ∧
        ∀ range ∈ m.map UIDPairRange.dest, range.start ≤ range.stop := by
    intro hpairs
    simp only [List.forall_mem_map]
    exact ⟨fun pair hpair => (hpairs pair hpair).source_le,
      fun pair hpair => (hpairs pair hpair).dest_le⟩
  have hfind : m.findIdx? (·.cardinality = 0) = none ↔ ∀ pair ∈ m, pair.Valid := by
    simp [UIDPairRange.cardinality_ne_zero_iff]
  rw [validate]
  by_cases hnil : m = []
  · rw [if_pos hnil]
    exact ⟨fun h => (by cases h), fun h => absurd hnil h.ne_nil⟩
  · rw [if_neg hnil]
    cases hindex : m.findIdx? (·.cardinality = 0) with
    | some i =>
      refine ⟨fun h => (by cases h), fun h => ?_⟩
      rw [hfind.mpr h.pairs] at hindex
      cases hindex
    | none =>
      have hpairs := hfind.mp hindex
      have hsources := repeats_sortRanges (hle hpairs).1
      have hdests := repeats_sortRanges (hle hpairs).2
      split_ifs with hrepeats
      · refine ⟨fun h => (by cases h), fun h => ?_⟩
        rw [hsources.mpr h.sources, hdests.mpr h.dests] at hrepeats
        cases hrepeats
      · rw [Bool.not_eq_true, Bool.or_eq_false_iff, hsources, hdests] at hrepeats
        exact ⟨fun _ => ⟨hnil, hpairs, hrepeats.1, hrepeats.2⟩, fun _ => rfl⟩

theorem length_of_valid_pairs {m : UIDMapping} (hpairs : ∀ pair ∈ m, pair.Valid) :
    m.sources.length = m.dests.length ∧ m.flatMap UIDPairRange.all = m.sources.zip m.dests := by
  induction m with
  | nil => exact ⟨rfl, rfl⟩
  | cons pair rest ih =>
    obtain ⟨hpair, hrest⟩ := List.forall_mem_cons.mp hpairs
    obtain ⟨hlength, hall⟩ := ih hrest
    have hnumbers := UIDPairRange.length_numbers_of_valid hpair
    simp only [sources, dests, List.map_cons, List.flatMap_cons] at hlength hall ⊢
    refine ⟨?_, ?_⟩
    · rw [List.length_append, List.length_append, hlength, hnumbers.1, hnumbers.2]
    · rw [List.zip_append (hnumbers.1.trans hnumbers.2.symm), hall, UIDPairRange.all_eq_zip hpair]

theorem cardinalityLoop_eq {m : UIDMapping} (hpairs : ∀ pair ∈ m, pair.Valid) {count : UInt64}
    (hcount : count.toNat + m.sources.length ≤ 2 ^ 32 - 1) :
    (cardinalityLoop m count).toNat = count.toNat + m.sources.length := by
  induction m generalizing count with
  | nil => rfl
  | cons pair rest ih =>
    obtain ⟨hpair, hrest⟩ := List.forall_mem_cons.mp hpairs
    have hlength : sources (pair :: rest) = pair.source.numbers ++ sources rest := rfl
    have hnumbers := (UIDPairRange.length_numbers_of_valid hpair).1
    rw [hlength, List.length_append, hnumbers] at hcount ⊢
    have hn : (0xFFFFFFFF - pair.cardinality).toNat = 2 ^ 32 - 1 - pair.cardinality.toNat := by
      rw [UInt64.toNat_sub_of_le _ _ (by
        rw [UInt64.le_iff_toNat_le]
        simp
        omega)]
      rfl
    have hsum : (count + pair.cardinality).toNat = count.toNat + pair.cardinality.toNat := by
      rw [UInt64.toNat_add]
      omega
    rw [cardinalityLoop, if_neg, ih hrest (by omega), hsum]
    · omega
    · rw [not_or, gt_iff_lt, UInt64.lt_iff_toNat_lt, hn]
      exact ⟨(UIDPairRange.cardinality_ne_zero_iff pair).mpr hpair, by omega⟩

theorem length_lt_of_nodup {uids : List UID} (hnodup : uids.Nodup)
    (hpos : ∀ uid ∈ uids, uid ≠ 0) : uids.length ≤ 2 ^ 32 - 1 := by
  have hmap := hnodup.map fun _ _ heq => UInt32.toNat_inj.mp heq
  have hsubset : uids.map UInt32.toNat ⊆ List.range' 1 (2 ^ 32 - 1) := by
    intro value hvalue
    obtain ⟨uid, huid, rfl⟩ := List.mem_map.mp hvalue
    have hlt := uid.toNat_lt
    have huidPos := Word.ne_zero_iff.mp (hpos uid huid)
    rw [List.mem_range'_1]
    omega
  have hle := (hmap.subperm hsubset).length_le
  rwa [List.length_map, List.length_range'] at hle

namespace Valid

variable {m : UIDMapping}

theorem sources_pos (hpairs : ∀ pair ∈ m, pair.Valid) : ∀ uid ∈ m.sources, uid ≠ 0 := by
  intro uid huid
  obtain ⟨range, hrange, hmem⟩ := List.mem_flatMap.mp huid
  obtain ⟨pair, hpair, rfl⟩ := List.mem_map.mp hrange
  have hstart := (hpairs pair hpair).source_pos
  have hle := UInt32.le_iff_toNat_le.mp ((NumRange.mem_numbers uid).mp hmem).1
  exact Word.ne_zero_iff.mpr (by omega)

theorem cardinality_eq (h : m.Valid) : m.cardinality.toNat = m.sources.length := by
  have hlength := length_lt_of_nodup h.sources (sources_pos h.pairs)
  rw [cardinality, cardinalityLoop_eq h.pairs (by simpa using hlength)]
  simp

theorem all_eq (h : m.Valid) : m.all = m.sources.zip m.dests := by
  have hne : m.sources ≠ [] := by
    obtain ⟨pair, rest, rfl⟩ := List.exists_cons_of_ne_nil h.ne_nil
    have hpair := h.pairs pair List.mem_cons_self
    have hlength := (UIDPairRange.length_numbers_of_valid hpair).1
    rw [UIDPairRange.cardinality_of_valid hpair] at hlength
    intro hnil
    have hnumbers := (List.append_eq_nil_iff.mp hnil).1
    simp [hnumbers] at hlength
  rw [all, if_neg, (length_of_valid_pairs h.pairs).2]
  intro hzero
  have hcard := h.cardinality_eq
  rw [hzero] at hcard
  exact hne (List.length_eq_zero_iff.mp hcard.symm)

theorem map_all (h : m.Valid) : m.all.map Prod.fst = m.sources ∧ m.all.map Prod.snd = m.dests := by
  have hlength := (length_of_valid_pairs h.pairs).1
  rw [h.all_eq, List.map_fst_zip hlength.le, List.map_snd_zip hlength.ge]
  exact ⟨rfl, rfl⟩

theorem length_all (h : m.Valid) : m.cardinality.toNat = m.all.length := by
  rw [h.cardinality_eq, ← h.map_all.1, List.length_map]

end Valid

end UIDMapping

end GoImap
