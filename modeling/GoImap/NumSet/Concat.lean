import GoImap.NumSet.Expand
import Mathlib.Data.Set.Card

/-!
# Ranges behind each other

Sets that are put behind each other without merging their ranges are searched
right only if the ranges come out in ascending order, and counted right only if
no number is in two of them.
-/

namespace GoImap.NumSet

/-! ## What the search presupposes -/

theorem searchLoop_bounds (set : NumSet) (number : UInt32) {fuel min max : Nat} (h : min ≤ max) :
    min ≤ searchLoop set number fuel min max ∧ searchLoop set number fuel min max ≤ max := by
  induction fuel generalizing min max with
  | zero => exact ⟨le_refl _, h⟩
  | succ fuel ih =>
    rw [searchLoop]
    split_ifs with hlt
    · simp only
      split_ifs
      · have hnext := @ih ((min + max) / 2 + 1) max (by omega)
        omega
      · have hnext := @ih min ((min + max) / 2) (by omega)
        omega
    · omega

theorem searchLoop_rising {set : NumSet} (hstatic : set.Static)
    {fuel min max : Nat} (hfuel : max ≤ min + fuel) (hmax : max < set.length)
    (h : ∀ i (hi : i < set.length), min ≤ i → i ≤ max →
      ∀ number ∈ set[i].numbers, searchLoop set number fuel min max = i) :
    ∀ i, min ≤ i → (hi : i < max) → set[i].stop < set[i + 1].start := by
  induction fuel generalizing min max with
  | zero =>
    omega
  | succ fuel ih =>
    intro i hmin hi
    have hlt : min < max := by omega
    have hmid : (min + max) / 2 < set.length := by omega
    have hround : ∀ number, searchLoop set number (fuel + 1) min max =
        if set[(min + max) / 2].less number then
          searchLoop set number fuel ((min + max) / 2 + 1) max
        else searchLoop set number fuel min ((min + max) / 2) := by
      intro number
      rw [searchLoop, if_pos hlt]
      simp only [List.getD_eq_getElem _ _ hmid]
    -- A number that is found in one half was not looked for in the other.
    have hleft : ∀ j (hj : j < set.length), min ≤ j → j ≤ (min + max) / 2 →
        ∀ number ∈ set[j].numbers, searchLoop set number fuel min ((min + max) / 2) = j := by
      intro j hj hlow hhigh number hnumber
      have hfound := h j hj hlow (by omega) number hnumber
      rw [hround] at hfound
      split_ifs at hfound
      · have hbounds := @searchLoop_bounds set number fuel ((min + max) / 2 + 1) max (by omega)
        omega
      · exact hfound
    have hright : ∀ j (hj : j < set.length), (min + max) / 2 + 1 ≤ j →
        j ≤ max → ∀ number ∈ set[j].numbers, set[(min + max) / 2].less number = true ∧
            searchLoop set number fuel ((min + max) / 2 + 1) max = j := by
      intro j hj hlow hhigh number hnumber
      have hfound := h j hj (by omega) hhigh number hnumber
      rw [hround] at hfound
      split_ifs at hfound with hless
      · exact ⟨hless, hfound⟩
      · have hbounds := @searchLoop_bounds set number fuel min ((min + max) / 2) (by omega)
        omega
    rcases Nat.lt_trichotomy i ((min + max) / 2) with hbefore | rfl | hbehind
    · exact ih (by omega) (by omega) hleft i hmin hbefore
    · have hnext : (min + max) / 2 + 1 < set.length := by omega
      have hmem := List.getElem_mem hnext
      obtain ⟨hends, horder⟩ := hstatic _ hmem
      have hstart := (@NumRange.mem_numbers set[(min + max) / 2 + 1]
        _).mpr ⟨UInt32.le_refl _, horder⟩
      have hless := (hright _ hnext (le_refl _) (by omega) _ hstart).1
      simp only [NumRange.isStatic, decide_eq_true_eq] at hends
      rw [NumRange.less, decide_eq_true_eq] at hless
      exact hless.1.resolve_right hends.1
    · exact ih (by omega) hmax (fun j hj hlow hhigh number hnumber =>
          (hright j hj hlow hhigh number hnumber).2) i (by omega) hi

theorem Static.rising_of_contains {set : NumSet} (hstatic : set.Static)
    (hnodup : (set.flatMap NumRange.numbers).Nodup)
    (h : ∀ number ∈ set.flatMap NumRange.numbers, set.contains number = true) : set.Rising := by
  have hdisjoint := List.pairwise_iff_getElem.mp (List.nodup_flatMap.mp hnodup).2
  have hsame : ∀ i j (hi : i < set.length) (hj : j < set.length), ∀ number,
      number ∈ set[i].numbers → number ∈ set[j].numbers → i = j := by
    intro i j hi hj number hfirst hsecond
    rcases Nat.lt_trichotomy i j with hlt | heq | hlt
    · exact absurd hsecond (hdisjoint i j hi hj hlt hfirst)
    · exact heq
    · exact absurd hfirst (hdisjoint j i hj hi hlt hsecond)
  have hindex : ∀ i (hi : i < set.length), ∀ number ∈ set[i].numbers,
      searchLoop set number set.length 0 (set.length - 1) = i := by
    intro i hi number hnumber
    have hall := List.mem_flatMap.mpr ⟨_, List.getElem_mem hi, hnumber⟩
    have hne := hstatic.ne_zero hall
    have hfound := h number hall
    have hlt : searchLoop set number set.length 0 (set.length - 1) < set.length := by
      have hbounds := @searchLoop_bounds set number set.length 0 (set.length - 1) (Nat.zero_le _)
      omega
    rw [contains, Bool.and_eq_true, search] at hfound
    split_ifs at hfound with hmiss
    · exact absurd hfound.1 (by simp)
    · simp only [List.getD_eq_getElem _ _ hlt] at hfound
      exact hsame _ i hlt hi number ((NumRange.contains_iff_mem_numbers
        (hstatic _ (List.getElem_mem hlt)).1 hne).mp hfound.1) hnumber
  have hnext : ∀ i (hi : i + 1 < set.length), set[i].stop < set[i + 1].start := by
    intro i hi
    exact searchLoop_rising hstatic (by omega) (by omega)
      (fun j hj _ _ number hnumber => hindex j hj number hnumber) i
      (Nat.zero_le _) (by omega)
  rw [Rising, List.pairwise_iff_getElem]
  intro i j hi hj hlt
  -- The ranges between two ranges keep the order.
  induction j, hlt using Nat.le_induction with
  | base => exact hnext i hj
  | succ j hle ih =>
    have hstep := hnext j hj
    have hbefore := ih (by omega)
    have horder := (hstatic _ (List.getElem_mem (show j < set.length by
      omega))).2
    rw [UInt32.lt_iff_toNat_lt] at hstep hbefore ⊢
    rw [UInt32.le_iff_toNat_le] at horder
    omega

/-! ## Sets behind each other -/

section Sets

variable {sets : List NumSet}

def countAll (sets : List NumSet) : Nat :=
  sets.foldr (fun set count => set.cardinality.toNat + count) 0

def Follow (sets : List NumSet) : Prop :=
  sets.Pairwise fun first second => ∀ low high : UInt32,
    first.contains low = true → second.contains high = true → low < high

structure Accumulates (set : NumSet) (sets : List NumSet) : Prop where
  contains : ∀ number, set.contains number = true ↔ ∃ other ∈ sets, other.contains number = true
  cardinality : set.cardinality.toNat =
    {number : UInt32 | ∃ other ∈ sets, other.contains number = true}.ncard

variable (hsets : ∀ set ∈ sets, set.Canonical ∧ set.isDynamic = false)

include hsets

theorem static_flatten : NumSet.Static sets.flatten := by
  intro range hrange
  obtain ⟨set, hset, hmem⟩ := List.mem_flatten.mp hrange
  obtain ⟨hcanonical, hdynamic⟩ := hsets set hset
  exact hcanonical.static hdynamic range hmem

theorem mem_flatten_numbers (number : UInt32) :
    number ∈ sets.flatten.flatMap NumRange.numbers ↔ ∃ set ∈ sets, set.contains number = true := by
  rw [List.mem_flatMap]
  constructor
  · rintro ⟨range, hrange, hnumber⟩
    obtain ⟨set, hset, hmem⟩ := List.mem_flatten.mp hrange
    obtain ⟨hcanonical, hdynamic⟩ := hsets set hset
    exact ⟨set, hset, (mem_flatMap_numbers hcanonical hdynamic number).mp
      (List.mem_flatMap.mpr ⟨range, hmem, hnumber⟩)⟩
  · rintro ⟨set, hset, hcontains⟩
    obtain ⟨hcanonical, hdynamic⟩ := hsets set hset
    obtain ⟨range, hmem, hnumber⟩ := List.mem_flatMap.mp
      ((mem_flatMap_numbers hcanonical hdynamic number).mpr hcontains)
    exact ⟨range, List.mem_flatten.mpr ⟨set, hset, hmem⟩, hnumber⟩

theorem length_flatten_numbers :
    (sets.flatten.flatMap NumRange.numbers).length = countAll sets := by
  induction sets with
  | nil => rfl
  | cons set sets ih =>
    obtain ⟨⟨hcanonical, hdynamic⟩, hmore⟩ := List.forall_mem_cons.mp hsets
    have hcount : countAll (set :: sets) = set.cardinality.toNat + countAll sets := rfl
    rw [List.flatten_cons, List.flatMap_append, List.length_append,
      ih hmore, hcount, cardinality_static hcanonical hdynamic]

theorem ncard_flatten : {number : UInt32 | ∃ set ∈ sets, set.contains number = true}.ncard =
      (sets.flatten.flatMap NumRange.numbers).toFinset.card := by
  rw [← Set.ncard_coe_finset]
  congr 1
  ext number
  rw [Set.mem_ofPred_eq, List.coe_toFinset]
  exact (mem_flatten_numbers hsets number).symm

theorem rising_flatten_iff : NumSet.Rising sets.flatten ↔ Follow sets := by
  rw [Rising, List.pairwise_flatten, Follow]
  have hnumbers : ∀ set ∈ sets, ∀ number, set.contains number = true ↔
      ∃ range ∈ set, number ∈ range.numbers := by
    intro set hset number
    obtain ⟨hcanonical, hdynamic⟩ := hsets set hset
    rw [← mem_flatMap_numbers hcanonical hdynamic, List.mem_flatMap]
  constructor
  · rintro ⟨-, hacross⟩
    refine hacross.imp_of_mem ?_
    intro first second hfirst hsecond hlt low high hlow hhigh
    obtain ⟨left, hleft, hlow⟩ := (hnumbers first hfirst low).mp hlow
    obtain ⟨right, hright, hhigh⟩ := (hnumbers second hsecond high).mp hhigh
    have hgap := hlt left hleft right hright
    rw [NumRange.mem_numbers, UInt32.le_iff_toNat_le, UInt32.le_iff_toNat_le] at hlow hhigh
    rw [UInt32.lt_iff_toNat_lt] at hgap ⊢
    omega
  · intro hfollow
    refine ⟨fun set hset => ?_, hfollow.imp_of_mem ?_⟩
    · exact (hsets set hset).1.rising (hsets set hset).2
    · intro first second hfirst hsecond hlt left hleft right hright
      have hordered := fun set hset range hrange =>
        ((hsets set hset).1.static (hsets set hset).2 range hrange).2
      refine hlt left.stop right.start ?_ ?_
      · exact (hnumbers first hfirst _).mpr ⟨left, hleft,
          (NumRange.mem_numbers _).mpr ⟨hordered first hfirst left hleft, UInt32.le_refl _⟩⟩
      · exact (hnumbers second hsecond _).mpr ⟨right, hright,
          (NumRange.mem_numbers _).mpr ⟨UInt32.le_refl _, hordered second hsecond right hright⟩⟩

/-- Static sets that are put behind each other are searched and counted right,
and the counter does not overflow, if and only if each set is above the ones
before it. -/
theorem flatten_accumulates_iff :
    Accumulates sets.flatten sets ∧ countAll sets < 2 ^ 64 ↔ Follow sets := by
  have hstatic := static_flatten hsets
  have hmem := mem_flatten_numbers hsets
  rw [← rising_flatten_iff hsets, ← length_flatten_numbers hsets]
  constructor
  · rintro ⟨⟨hcontains, hcardinality⟩, hbound⟩
    rw [hstatic.cardinality_eq hbound, ncard_flatten hsets] at hcardinality
    refine hstatic.rising_of_contains ?_ fun number hnumber =>
      (hcontains number).mpr ((hmem number).mp hnumber)
    have hdedup : (sets.flatten.flatMap NumRange.numbers).dedup =
        sets.flatten.flatMap NumRange.numbers := by
      refine (List.dedup_sublist _).eq_of_length ?_
      rw [← List.card_toFinset, hcardinality]
    exact List.dedup_eq_self.mp hdedup
  · intro hrising
    have hpairwise := hrising.pairwise_numbers
    have hbound := length_le_of_ascending hpairwise
    have hnodup : (sets.flatten.flatMap NumRange.numbers).Nodup := by
      refine hpairwise.imp fun hlt => ?_
      rw [UInt32.lt_iff_toNat_lt] at hlt
      rintro rfl
      omega
    refine ⟨⟨fun number => ?_, ?_⟩, by omega⟩
    · rw [hstatic.contains_iff hrising, hmem]
    · rw [hstatic.cardinality_eq (by omega), ncard_flatten hsets,
        List.toFinset_card_of_nodup hnodup]

end Sets

theorem toNat_cardinality {set : NumSet} (h : set.Canonical) (hstatic : set.isDynamic = false) :
    set.cardinality.toNat = {number : UInt32 | set.contains number = true}.ncard := by
  have hsets : ∀ other ∈ [set], other.Canonical ∧ other.isDynamic = false := by simp [h, hstatic]
  have hfollow : Follow [set] := List.pairwise_singleton ..
  have haccumulates := ((flatten_accumulates_iff hsets).mpr hfollow).1
  simpa using haccumulates.cardinality

end GoImap.NumSet
