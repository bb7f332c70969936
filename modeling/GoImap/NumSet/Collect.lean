import GoImap.NumSet.Insert

/-!
# Collecting numbers into a set

Numbers added one by one form a canonical set that holds exactly them.  When
they are distinct and none is `*`, the cardinality of the set is their number:
no word of the sum wraps.
-/

namespace GoImap.NumSet

open Intervals

def addNums (set : NumSet) (numbers : List UInt32) : NumSet := numbers.foldl addNum set

theorem addNum_adds {set : NumSet} (h : set.Canonical) (number : UInt32) :
    Adds set ⟨number, number⟩ (set.addNum number) :=
  insert_adds h (le_refl _)

theorem addNums_spec {set : NumSet} (h : set.Canonical) (numbers : List UInt32) :
    (set.addNums numbers).Canonical ∧ ∀ place, Covers (set.addNums numbers).spans place ↔
        Covers set.spans place ∨ ∃ number ∈ numbers, position number = place := by
  induction numbers generalizing set with
  | nil => simp [addNums, h]
  | cons number rest ih =>
    obtain ⟨hcanonical, hcovers⟩ := addNum_adds h number
    obtain ⟨hcanonical', hcovers'⟩ := ih hcanonical
    refine ⟨hcanonical', ?_⟩
    intro place
    have hsingle : (NumRange.span ⟨number, number⟩).Covers place ↔ position number = place := by
      simp only [Span.Covers, NumRange.span]
      omega
    have hstep := hcovers' place
    rw [hcovers, hsingle] at hstep
    simp only [addNums, List.foldl_cons] at hstep ⊢
    rw [hstep]
    simp only [List.mem_cons, exists_eq_or_imp]
    tauto

theorem empty_canonical : Canonical [] := Intervals.canonical_nil

theorem contains_addNums {numbers : List UInt32} (h : 0 ∉ numbers) (number : UInt32) :
    contains (addNums [] numbers) number = true ↔ number ∈ numbers := by
  obtain ⟨hcanonical, hcovers⟩ := addNums_spec empty_canonical numbers
  rw [contains_iff hcanonical, hcovers]
  simp only [spans_nil, covers_nil, false_or]
  constructor
  · rintro ⟨-, other, hother, hplace⟩
    rwa [← position_inj hplace]
  · intro hnumber
    refine ⟨?_, number, hnumber, rfl⟩
    rintro rfl
    exact h hnumber

/-! ## Cardinality -/

theorem toNat_static_size {range : NumRange} (hstart : range.start ≠ 0)
    (hstop : range.stop ≠ 0) (hvalid : range.Valid) :
    (range.stop - range.start + 1).toUInt64.toNat = range.span.hi + 1 - range.span.lo := by
  have hupper := range.stop.toNat_lt
  have hlower := Word.ne_zero_iff.mp hstart
  simp only [NumRange.Valid, NumRange.span, position_of_ne_zero hstart,
    position_of_ne_zero hstop] at hvalid ⊢
  rw [UInt32.toNat_toUInt64, UInt32.toNat_add, UInt32.toNat_sub_of_le _ _
    (UInt32.le_iff_toNat_le.mpr hvalid)]
  simp only [UInt32.reduceToNat]
  omega

theorem cardinalityLoop_static {set : NumSet} {count : UInt64}
    (hstatic : ∀ range ∈ set, range.start ≠ 0 ∧ range.stop ≠ 0)
    (hvalid : ∀ range ∈ set, range.Valid) (hbound : count.toNat + total set.spans < 2 ^ 64) :
    (cardinalityLoop set count).toNat = count.toNat + total set.spans := by
  induction set generalizing count with
  | nil => simp [cardinalityLoop, total]
  | cons range rest ih =>
    obtain ⟨hstart, hstop⟩ := hstatic range (by simp)
    have hsize := toNat_static_size hstart hstop (hvalid range (by simp))
    have htotal : total (spans (range :: rest)) =
        (range.span.hi + 1 - range.span.lo) + total (spans rest) := by
      simp [total]
    have hsum : (count + (range.stop - range.start + 1).toUInt64).toNat =
        count.toNat + (range.span.hi + 1 - range.span.lo) := by
      rw [UInt64.toNat_add, hsize]
      omega
    rw [cardinalityLoop, if_neg (by tauto), ih, hsum]
    · omega
    · exact fun other hother => hstatic other (List.mem_cons_of_mem _ hother)
    · exact fun other hother => hvalid other (List.mem_cons_of_mem _ hother)
    · omega

theorem cardinality_addNums {numbers : List UInt32} (hzero : 0 ∉ numbers) (hnodup : numbers.Nodup) :
    (cardinality (addNums [] numbers)).toNat = numbers.length := by
  obtain ⟨hcanonical, hcovers⟩ := addNums_spec empty_canonical numbers
  have hmember : ∀ place, Covers (addNums [] numbers).spans place ↔
      place ∈ (numbers.map UInt32.toNat).toFinset := by
    intro place
    rw [hcovers, List.mem_toFinset, List.mem_map]
    simp only [spans_nil, covers_nil, false_or]
    apply exists_congr
    intro number
    apply and_congr_right
    intro hnumber
    rw [position_of_ne_zero]
    rintro rfl
    exact hzero hnumber
  have hcard : (numbers.map UInt32.toNat).toFinset.card = numbers.length := by
    rw [List.toFinset_card_of_nodup, List.length_map]
    exact hnodup.map fun _ _ => UInt32.toNat_inj.mp
  have htotal := total_eq_card hcanonical hmember
  have hsmall : numbers.length ≤ 2 ^ 32 := by
    rw [← hcard, ← Finset.card_range (2 ^ 32)]
    apply Finset.card_le_card
    intro place hplace
    obtain ⟨number, -, rfl⟩ := List.mem_map.mp (List.mem_toFinset.mp hplace)
    exact Finset.mem_range.mpr number.toNat_lt
  have hstatic : ∀ range ∈ addNums [] numbers, range.start ≠ 0 ∧ range.stop ≠ 0 := by
    intro range hrange
    have hvalid := hcanonical.valid hrange
    have hend : ∀ number : UInt32, range.span.Covers (position number) → number ≠ 0 := by
      rintro number hcover rfl
      have hplace := (hmember _).mp ⟨range.span, List.mem_map_of_mem hrange, hcover⟩
      obtain ⟨other, -, hother⟩ := List.mem_map.mp (List.mem_toFinset.mp hplace)
      have hlt := other.toNat_lt
      have hstar : position 0 = 2 ^ 32 + 1 := rfl
      omega
    exact ⟨hend _ ⟨le_refl _, hvalid⟩, hend _ ⟨hvalid, le_refl _⟩⟩
  have hzeroCount : (0 : UInt64).toNat = 0 := rfl
  rw [cardinality, cardinalityLoop_static hstatic fun _ => hcanonical.valid,
    htotal, hcard, hzeroCount, Nat.zero_add]
  omega

end GoImap.NumSet
