import GoImap.NumSet.Collect

/-!
# Sets built by insertion

However a set is built from the empty one, its ranges ascend with a gap between
neighbours, and it holds what the inserted ranges hold.  A set in this form is
determined by what it holds, so the order of the insertions does not matter.
-/

namespace GoImap

open Intervals

namespace NumRange

def ordered (start stop : UInt32) : NumRange :=
  if (stop < start ∧ stop ≠ 0) ∨ start = 0 then ⟨stop, start⟩
  else ⟨start, stop⟩

theorem valid_iff (range : NumRange) :
    range.Valid ↔ (range.stop ≠ 0 → range.start ≠ 0 ∧ range.start ≤ range.stop) := by
  have hstart := range.start.toNat_lt
  have hstop := range.stop.toNat_lt
  simp only [Valid, span, position, UInt32.le_iff_toNat_le]
  split_ifs <;> simp_all <;> omega

theorem ordered_valid (start stop : UInt32) : (ordered start stop).Valid := by
  rw [valid_iff]
  unfold ordered
  split_ifs with h
  · rintro hne
    rcases h with ⟨hlt, hstop⟩ | hzero
    · exact ⟨hstop, UInt32.le_of_lt hlt⟩
    · exact absurd hzero hne
  · rintro hne
    simp only [not_or, not_and, not_not] at h
    refine ⟨h.2, ?_⟩
    by_contra hlt
    exact hne (h.1 (UInt32.not_le.mp hlt))

end NumRange

namespace NumSet

/-- The ranges ascend with a gap between neighbours, and only the last one may
be dynamic. -/
structure Ascending (set : NumSet) : Prop where
  ends : ∀ range ∈ set, range.stop ≠ 0 → range.start ≠ 0 ∧ range.start ≤ range.stop
  apart : set.Pairwise fun first second => first.stop ≠ 0 ∧
    (second.start = 0 ∨ first.stop.toNat + 1 < second.start.toNat)

theorem separated_iff (first second : NumRange) :
    first.span.Separated second.span ↔ first.stop ≠ 0 ∧
      (second.start = 0 ∨ first.stop.toNat + 1 < second.start.toNat) := by
  have hfirst := first.stop.toNat_lt
  have hsecond := second.start.toNat_lt
  simp only [Span.Separated, NumRange.span, position]
  split_ifs <;> simp_all <;> omega

theorem canonical_iff_ascending (set : NumSet) : set.Canonical ↔ set.Ascending := by
  constructor
  · intro h
    refine ⟨fun range hrange => (NumRange.valid_iff range).mp (h.valid hrange), ?_⟩
    exact (List.pairwise_map.mp h.separated).imp
      fun {first second} => (separated_iff first second).mp
  · rintro ⟨hends, hapart⟩
    refine ⟨?_, List.pairwise_map.mpr (hapart.imp
      fun {first second} => (separated_iff first second).mpr)⟩
    intro interval hinterval
    obtain ⟨range, hrange, rfl⟩ := List.mem_map.mp hinterval
    exact (NumRange.valid_iff range).mpr (hends range hrange)

theorem addRange_eq (set : NumSet) (start stop : UInt32) :
    set.addRange start stop = insert set (.ordered start stop) := by
  unfold addRange NumRange.ordered
  split_ifs <;> rfl

theorem Canonical.eq_of_covers {first second : NumSet} (hfirst : first.Canonical)
    (hsecond : second.Canonical)
    (h : ∀ number, Covers first.spans number ↔ Covers second.spans number) :
    first = second := by
  have hspans := Intervals.Canonical.eq_of_covers hfirst hsecond h
  exact List.map_injective_iff.mpr (fun _ _ => NumRange.span_inj) hspans

/-! ## Histories -/

def Collects (set : NumSet) (ranges : List NumRange) : Prop :=
  set.Canonical ∧ ∀ number, Covers set.spans number ↔ Covers (spans ranges) number

variable {set : NumSet} {ranges : List NumRange}

theorem Collects.insert (h : set.Collects ranges) {range : NumRange} (hrange : range.Valid) :
    (set.insert range).Collects (ranges ++ [range]) := by
  obtain ⟨hcanonical, hcovers⟩ := insert_adds h.1 hrange
  refine ⟨hcanonical, fun number => ?_⟩
  rw [hcovers, h.2, spans_append, covers_append, or_comm]
  simp

theorem Collects.foldl (h : set.Collects ranges) {others : List NumRange}
    (hothers : ∀ range ∈ others, range.Valid) :
    (others.foldl NumSet.insert set).Collects (ranges ++ others) := by
  induction others generalizing set ranges with
  | nil => simpa using h
  | cons range rest ih =>
    have hstep := ih (h.insert (hothers range (by simp)))
      (fun other hother => hothers other (List.mem_cons_of_mem _ hother))
    simpa using hstep

inductive Built : NumSet → List NumRange → Prop
  | empty : Built [] []
  | addNum {set : NumSet} {inserted : List NumRange} (numbers : List UInt32) : Built set inserted →
      Built (set.addNums numbers) (inserted ++ numbers.map fun number => ⟨number, number⟩)
  | addRange {set : NumSet} {inserted : List NumRange} (start stop : UInt32) : Built set inserted →
      Built (set.addRange start stop) (inserted ++ [.ordered start stop])
  | addSet {set other : NumSet} {inserted others : List NumRange} :
      Built set inserted → Built other others →
      Built (set.addSet other) (inserted ++ other)

theorem addNums_eq_foldl (set : NumSet) (numbers : List UInt32) :
    set.addNums numbers = (numbers.map fun number => ⟨number, number⟩).foldl insert set := by
  rw [List.foldl_map]
  rfl

theorem Built.collects {inserted : List NumRange} (h : Built set inserted) :
    set.Collects inserted := by
  induction h with
  | empty => exact ⟨empty_canonical, fun _ => Iff.rfl⟩
  | addNum numbers _ ih =>
    rw [addNums_eq_foldl]
    refine ih.foldl fun range hrange => ?_
    obtain ⟨number, -, rfl⟩ := List.mem_map.mp hrange
    exact le_refl _
  | addRange start stop _ ih =>
    rw [addRange_eq]
    exact ih.insert (NumRange.ordered_valid start stop)
  | addSet _ _ ih ihother =>
    exact ih.foldl fun _ => ihother.1.valid

/-! ## What the set holds -/

theorem covers_spans_iff (ranges : List NumRange) (number : UInt32) :
    Covers (spans ranges) (position number) ↔ ∃ range ∈ ranges, range.contains number = true := by
  simp [Covers, spans, NumRange.contains_iff]

theorem Collects.contains_iff (h : set.Collects ranges) {number : UInt32} (hne : number ≠ 0) :
    set.contains number = true ↔ ∃ range ∈ ranges, range.contains number = true := by
  rw [NumSet.contains_iff h.1, h.2, covers_spans_iff]
  simp [hne]

theorem contains_zero_iff (range : NumRange) : range.contains 0 = true ↔ range.stop = 0 := by
  simp [NumRange.contains]

theorem isDynamic_iff (h : set.Canonical) :
    set.isDynamic = true ↔ ∃ range ∈ set, range.stop = 0 := by
  induction set using List.reverseRecOn with
  | nil => simp [isDynamic]
  | append_singleton front last _ =>
    have hfront : ∀ range ∈ front, range.stop ≠ 0 := by
      intro range hrange
      have hapart := (canonical_iff_ascending _).mp h |>.apart
      exact ((List.pairwise_append.mp hapart).2.2 range hrange last (by simp)).1
    simp only [isDynamic, List.getLast?_append, List.getLast?_singleton,
      Option.some_or, decide_eq_true_eq, List.mem_append,
      List.mem_singleton, or_and_right, exists_or, exists_eq_left]
    constructor
    · exact .inr
    · rintro (⟨range, hrange, hstop⟩ | hstop)
      · exact absurd hstop (hfront range hrange)
      · exact hstop

theorem Collects.isDynamic_iff (h : set.Collects ranges) :
    set.isDynamic = true ↔ ∃ range ∈ ranges, range.stop = 0 := by
  have hstar := h.2 (position 0)
  rw [covers_spans_iff, covers_spans_iff] at hstar
  simpa [NumSet.isDynamic_iff h.1, contains_zero_iff] using hstar

theorem Collects.eq_of_perm {other : NumSet} {others : List NumRange} (h : set.Collects ranges)
    (hother : other.Collects others) (hperm : others.Perm ranges) : other = set := by
  apply hother.1.eq_of_covers h.1
  intro number
  rw [h.2, hother.2]
  simp only [Covers, spans, List.mem_map]
  simp [hperm.mem_iff]

/-- The form and the contents of a set do not depend on how it was built. -/
theorem built_set_canonical (set : NumSet) (inserted : List NumRange) (h : Built set inserted) :
    set.Ascending ∧ (∀ number, number ≠ 0 → (set.contains number = true ↔
        ∃ range ∈ inserted, range.contains number = true)) ∧
      (set.isDynamic = true ↔ ∃ range ∈ inserted, range.stop = 0) ∧
      ∀ other others, Built other others → others.Perm inserted → other = set := by
  have hset := h.collects
  refine ⟨(canonical_iff_ascending set).mp hset.1,
    fun number hne => hset.contains_iff hne, hset.isDynamic_iff, ?_⟩
  intro other others hother hperm
  exact hset.eq_of_perm hother.collects hperm

/-- The largest number, `*` and a reversed range, some of them in a set of
their own. -/
theorem built_set_canonical_starred :
    ((addNums [] [0, 7]).addRange 4294967295 6).addSet (addNums [] [3]) =
        [⟨3, 3⟩, ⟨6, 4294967295⟩, ⟨0, 0⟩] ∧
      Ascending (((addNums [] [0, 7]).addRange 4294967295 6).addSet (addNums [] [3])) :=
  ⟨by decide, (built_set_canonical _ _ ((Built.empty.addNum [0, 7]).addRange 4294967295 6 |>.addSet
      (Built.empty.addNum [3]))).1⟩

end NumSet

end GoImap
