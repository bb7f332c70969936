import GoImap.NumSet.Build
import Mathlib.Data.List.TakeWhile

/-!
# Expanding a set into its numbers

The loop that lists a range counts in the type of its bound.  It ends when the
counter passes the bound, which no counter does if the bound is the largest
word.  Runs are given fuel; a run that needs more has no result.
-/

namespace GoImap

open Intervals

namespace NumRange

/-- The loop of `append`, with no result if it takes `fuel` rounds or more. -/
def appendLoop (stop : UInt32) : Nat → UInt32 → List UInt32 → Option (List UInt32)
  | 0, _, _ => none
  | fuel + 1, number, nums =>
    if number ≤ stop then appendLoop stop fuel (number + 1) (nums ++ [number])
    else some nums

def append (fuel : Nat) (range : NumRange) (nums : List UInt32) : Option (List UInt32 × Bool) :=
  if range.start = 0 ∨ range.stop = 0 then some ([], false)
  else
    (appendLoop range.stop fuel range.start nums).map fun nums => (nums, true)

end NumRange

namespace NumSet

def numsLoop (fuel : Nat) : NumSet → List UInt32 → Option (List UInt32 × Bool)
  | [], nums => some (nums, true)
  | range :: rest, nums =>
    match range.append fuel nums with
    | none => none
    | some (nums, true) => numsLoop fuel rest nums
    | some (_, false) => some ([], false)

def nums (fuel : Nat) (set : NumSet) : Option (List UInt32 × Bool) := numsLoop fuel set []

end NumSet

inductive SearchAll where
  | absent
  | seqSet (set : NumSet)
  | uidSet (set : NumSet)
  deriving DecidableEq, Repr

namespace SearchAll

def expanded : Option (List UInt32 × Bool) → Option (Except String (List UInt32))
  | none => none
  | some (nums, true) => some (.ok nums)
  | some (_, false) =>
    some (.error "imap: SearchData.All is a dynamic number set")

def allSeqNums (fuel : Nat) : SearchAll → Option (Except String (List UInt32))
  | .seqSet set => expanded (set.nums fuel)
  | _ => some (.ok [])

def allUIDs (fuel : Nat) : SearchAll → Option (Except String (List UID))
  | .uidSet set => expanded (set.nums fuel)
  | _ => some (.ok [])

theorem expanded_isSome (result : Option (List UInt32 × Bool)) :
    (expanded result).isSome = result.isSome := by
  rcases result with _ | ⟨nums, _ | _⟩ <;> rfl

end SearchAll

/-! ## One range -/

variable {stop number : UInt32} {fuel : Nat} {range : NumRange}

namespace NumRange

def numbers (range : NumRange) : List UInt32 := (List.range' range.start.toNat
    (range.stop.toNat + 1 - range.start.toNat)).map UInt32.ofNat

def isStatic (range : NumRange) : Bool := range.start ≠ 0 ∧ range.stop ≠ 0

theorem toNat_lt_of_ne_max (h : stop ≠ 0xFFFFFFFF) : stop.toNat < 2 ^ 32 - 1 := by
  have hlt := stop.toNat_lt
  have hne : stop.toNat ≠ 2 ^ 32 - 1 := fun heq =>
    h (UInt32.toNat_inj.mp heq)
  omega

theorem appendLoop_eq (hstop : stop ≠ 0xFFFFFFFF)
    (hfuel : stop.toNat + 1 - number.toNat < fuel) (nums : List UInt32) :
    appendLoop stop fuel number nums = some (nums ++ numbers ⟨number, stop⟩) := by
  have hlt := toNat_lt_of_ne_max hstop
  induction fuel generalizing number nums with
  | zero => omega
  | succ fuel ih =>
    unfold appendLoop
    split_ifs with hle
    · rw [UInt32.le_iff_toNat_le] at hle
      have hnext := Word.toNat_succ 0xFFFFFFFF (Nat.lt_of_le_of_lt hle hlt)
      have hcount : stop.toNat + 1 - number.toNat = (stop.toNat + 1 - (number.toNat + 1)) + 1 := by
        omega
      rw [ih (by omega)]
      simp only [numbers, hnext, hcount, List.range'_succ, List.map_cons,
        UInt32.ofNat_toNat, List.append_assoc, List.singleton_append]
    · have hcount : stop.toNat + 1 - number.toNat = 0 := by
        rw [UInt32.le_iff_toNat_le] at hle
        omega
      simp [numbers, hcount]

theorem appendLoop_max (fuel : Nat) (number : UInt32) (nums : List UInt32) :
    appendLoop 0xFFFFFFFF fuel number nums = none := by
  induction fuel generalizing number nums with
  | zero => rfl
  | succ fuel ih =>
    have hle : number ≤ 0xFFFFFFFF := by
      have hlt := number.toNat_lt
      rw [UInt32.le_iff_toNat_le]
      simp only [UInt32.reduceToNat]
      omega
    rw [appendLoop, if_pos hle, ih]

theorem append_static (h : range.isStatic = true) (hstop : range.stop ≠ 0xFFFFFFFF)
    (hfuel : 2 ^ 32 ≤ fuel) (nums : List UInt32) :
    range.append fuel nums = some (nums ++ range.numbers, true) := by
  have hends : ¬(range.start = 0 ∨ range.stop = 0) := by
    simpa [isStatic, not_or] using h
  have hlt := toNat_lt_of_ne_max hstop
  rw [append, if_neg hends, appendLoop_eq hstop (by omega)]
  rfl

theorem append_dynamic (h : range.isStatic = false) (fuel : Nat)
    (nums : List UInt32) : range.append fuel nums = some ([], false) := by
  have hends : range.start = 0 ∨ range.stop = 0 := by
    simp only [isStatic, decide_eq_false_iff_not] at h
    tauto
  rw [append, if_pos hends]

theorem append_max (h : range.isStatic = true)
    (hstop : range.stop = 0xFFFFFFFF) (fuel : Nat) (nums : List UInt32) :
    range.append fuel nums = none := by
  have hends : ¬(range.start = 0 ∨ range.stop = 0) := by
    simpa [isStatic, not_or] using h
  rw [append, if_neg hends, hstop, appendLoop_max]
  rfl

theorem append_static_cases (h : range.isStatic = true) (fuel : Nat) (nums : List UInt32) :
    range.append fuel nums = none ∨ ∃ longer, range.append fuel nums = some (longer, true) := by
  have hends : ¬(range.start = 0 ∨ range.stop = 0) := by
    simpa [isStatic, not_or] using h
  rw [append, if_neg hends]
  cases appendLoop range.stop fuel range.start nums with
  | none => exact .inl rfl
  | some longer => exact .inr ⟨longer, rfl⟩

theorem mem_numbers (number : UInt32) : number ∈ range.numbers ↔
      range.start ≤ number ∧ number ≤ range.stop := by
  have hnumber := number.toNat_lt
  have hstop := range.stop.toNat_lt
  simp only [numbers, List.mem_map, List.mem_range'_1, UInt32.le_iff_toNat_le]
  constructor
  · rintro ⟨value, hvalue, rfl⟩
    rw [Word.toNat_ofNat_of_lt (by omega)]
    omega
  · intro h
    exact ⟨number.toNat, by omega, UInt32.ofNat_toNat⟩

theorem numbers_pairwise (range : NumRange) : range.numbers.Pairwise (· < ·) := by
  have hstop := range.stop.toNat_lt
  have hstart := range.start.toNat_lt
  have hascending : (List.range' range.start.toNat
      (range.stop.toNat + 1 - range.start.toNat)).Pairwise (· < ·) :=
    List.pairwise_lt_range'
  rw [numbers, List.pairwise_map]
  refine hascending.imp_of_mem ?_
  intro first second hfirst hsecond hlt
  rw [List.mem_range'_1] at hfirst hsecond
  rw [UInt32.lt_iff_toNat_lt, Word.toNat_ofNat_of_lt (by omega), Word.toNat_ofNat_of_lt (by omega)]
  exact hlt

theorem length_numbers (h : range.isStatic = true) :
    range.numbers.length = range.span.hi + 1 - range.span.lo := by
  simp only [isStatic, decide_eq_true_eq] at h
  simp [numbers, span, position_of_ne_zero h.1, position_of_ne_zero h.2]

theorem contains_iff_mem_numbers (h : range.isStatic = true) (hne : number ≠ 0) :
    range.contains number = true ↔ number ∈ range.numbers := by
  simp only [isStatic, decide_eq_true_eq] at h
  rw [mem_numbers]
  simp [contains, hne, h.1, h.2]

end NumRange

/-! ## Whole sets -/

namespace NumSet

def Listable (set : NumSet) : Prop :=
  ∀ range ∈ set.takeWhile NumRange.isStatic, range.stop ≠ 0xFFFFFFFF

instance (set : NumSet) : Decidable set.Listable := inferInstanceAs (Decidable (∀ _ ∈ _, _))

theorem Listable.tail {rest : NumSet} (h : NumSet.Listable (range :: rest))
    (hstatic : range.isStatic = true) :
    range.stop ≠ 0xFFFFFFFF ∧ rest.Listable := by
  rw [Listable, List.takeWhile_cons_of_pos hstatic] at h
  exact ⟨h range (by simp), fun other hother =>
    h other (List.mem_cons_of_mem _ hother)⟩

variable {set : NumSet}

theorem numsLoop_static (hstatic : ∀ range ∈ set, range.isStatic = true)
    (h : set.Listable) (hfuel : 2 ^ 32 ≤ fuel) (nums : List UInt32) :
    numsLoop fuel set nums = some (nums ++ set.flatMap NumRange.numbers, true) := by
  induction set generalizing nums with
  | nil => simp [numsLoop]
  | cons range rest ih =>
    have hrange := hstatic range (by simp)
    obtain ⟨hstop, hrest⟩ := h.tail hrange
    rw [numsLoop, NumRange.append_static hrange hstop hfuel]
    simp only
    rw [ih (fun other hother => hstatic other (List.mem_cons_of_mem _ hother)) hrest]
    simp [List.append_assoc]

theorem numsLoop_dynamic (hdynamic : ∃ range ∈ set, range.isStatic = false)
    (h : set.Listable) (hfuel : 2 ^ 32 ≤ fuel) (nums : List UInt32) :
    numsLoop fuel set nums = some ([], false) := by
  induction set generalizing nums with
  | nil => simp at hdynamic
  | cons range rest ih =>
    rw [numsLoop]
    cases hrange : range.isStatic with
    | false => rw [NumRange.append_dynamic hrange]
    | true =>
      obtain ⟨hstop, hrest⟩ := h.tail hrange
      rw [NumRange.append_static hrange hstop hfuel]
      obtain ⟨other, hother, hfalse⟩ := hdynamic
      rcases List.mem_cons.mp hother with rfl | hmem
      · rw [hrange] at hfalse
        cases hfalse
      · exact ih ⟨other, hmem, hfalse⟩ hrest _

theorem numsLoop_diverges (h : ¬set.Listable) (fuel : Nat)
    (nums : List UInt32) : numsLoop fuel set nums = none := by
  induction set generalizing nums with
  | nil => exact absurd (fun _ hrange => absurd hrange (by simp)) h
  | cons range rest ih =>
    cases hrange : range.isStatic with
    | false =>
      refine absurd ?_ h
      rw [Listable, List.takeWhile_cons_of_neg (by simp [hrange])]
      simp
    | true =>
      rw [numsLoop]
      by_cases hstop : range.stop = 0xFFFFFFFF
      · rw [NumRange.append_max hrange hstop]
      · rcases NumRange.append_static_cases hrange fuel nums with
          hnone | ⟨longer, hsome⟩
        · rw [hnone]
        · rw [hsome]
          refine ih (fun hrest => h ?_) longer
          rw [Listable, List.takeWhile_cons_of_pos hrange]
          intro other hother
          rcases List.mem_cons.mp hother with rfl | hmem
          · exact hstop
          · exact hrest other hmem

/-! ## The numbers of a set -/

theorem length_le_of_ascending {numbers : List UInt32}
    (h : numbers.Pairwise (· < ·)) : numbers.length ≤ 2 ^ 32 := by
  have hnodup : (numbers.map UInt32.toNat).Nodup := by
    refine List.Pairwise.map _ ?_ h
    intro first second hlt
    exact Nat.ne_of_lt (UInt32.lt_iff_toNat_lt.mp hlt)
  rw [← List.length_map UInt32.toNat, ← List.toFinset_card_of_nodup hnodup,
    ← Finset.card_range (2 ^ 32)]
  apply Finset.card_le_card
  intro value hvalue
  obtain ⟨number, -, rfl⟩ := List.mem_map.mp (List.mem_toFinset.mp hvalue)
  exact Finset.mem_range.mpr number.toNat_lt

theorem length_flatMap_numbers (hstatic : ∀ range ∈ set, range.isStatic = true) :
    (set.flatMap NumRange.numbers).length = total set.spans := by
  induction set with
  | nil => rfl
  | cons range rest ih =>
    rw [List.flatMap_cons, List.length_append, NumRange.length_numbers (hstatic range (by simp)),
      ih fun other hother => hstatic other (List.mem_cons_of_mem _ hother)]
    simp [total]

def Static (set : NumSet) : Prop := ∀ range ∈ set, range.isStatic = true ∧ range.start ≤ range.stop

def Rising (set : NumSet) : Prop :=
  set.Pairwise fun first second => first.stop < second.start

theorem Rising.pairwise_numbers (hrising : set.Rising) :
    (set.flatMap NumRange.numbers).Pairwise (· < ·) := by
  rw [List.pairwise_flatMap]
  refine ⟨fun range _ => range.numbers_pairwise, ?_⟩
  refine hrising.imp ?_
  intro first second hlt left hleft right hright
  rw [NumRange.mem_numbers, UInt32.le_iff_toNat_le, UInt32.le_iff_toNat_le] at hleft hright
  rw [UInt32.lt_iff_toNat_lt] at hlt ⊢
  omega

section Static

variable (hstatic : set.Static)

include hstatic

theorem Static.ne_zero {number : UInt32}
    (h : number ∈ set.flatMap NumRange.numbers) : number ≠ 0 := by
  obtain ⟨range, hrange, hmem⟩ := List.mem_flatMap.mp h
  rintro rfl
  have hends := (hstatic range hrange).1
  simp only [NumRange.isStatic, decide_eq_true_eq] at hends
  have hpos := Word.ne_zero_iff.mp hends.1
  rw [NumRange.mem_numbers, UInt32.le_iff_toNat_le] at hmem
  simp only [UInt32.toNat_zero] at hmem
  omega

theorem Static.mem_of_contains {number : UInt32} (h : set.contains number = true) :
    number ∈ set.flatMap NumRange.numbers := by
  rw [contains, Bool.and_eq_true, bne_iff_ne] at h
  obtain ⟨hfound, hne⟩ := h
  rw [search] at hfound
  split_ifs at hfound with hmiss
  by_cases hlt : searchLoop set number set.length 0 (set.length - 1) < set.length
  · rw [List.getD_eq_getElem _ _ hlt] at hfound
    have hmem := List.getElem_mem hlt
    exact List.mem_flatMap.mpr ⟨_, hmem,
      (NumRange.contains_iff_mem_numbers (hstatic _ hmem).1 hne).mp hfound⟩
  · rw [List.getD_eq_default _ _ (Nat.not_lt.mp hlt)] at hfound
    simp [NumRange.contains, hne] at hfound

theorem Static.contains_iff (hrising : set.Rising) (number : UInt32) :
    set.contains number = true ↔ number ∈ set.flatMap NumRange.numbers := by
  refine ⟨hstatic.mem_of_contains, fun hnumber => ?_⟩
  have hne := hstatic.ne_zero hnumber
  have hless : ∀ range ∈ set, range.less number = true ↔ range.stop < number := by
    intro range hrange
    have hends := (hstatic range hrange).1
    simp only [NumRange.isStatic, decide_eq_true_eq] at hends
    simp [NumRange.less, hne, hends.2]
  have hstepped : set.Stepped number := by
    refine hrising.imp_of_mem ?_
    intro first second hfirst hsecond hlt hbelow
    have horder := (hstatic second hsecond).2
    rw [hless second hsecond, UInt32.lt_iff_toNat_lt] at hbelow
    rw [hless first hfirst]
    rw [UInt32.lt_iff_toNat_lt] at hlt ⊢
    rw [UInt32.le_iff_toNat_le] at horder
    omega
  obtain ⟨range, hrange, hmem⟩ := List.mem_flatMap.mp hnumber
  obtain ⟨front, back, rfl⟩ := List.append_of_mem hrange
  have hfind : (front ++ range :: back).find? (fun other => !other.less number) = some range := by
    rw [List.find?_eq_some_iff_append]
    rw [NumRange.mem_numbers, UInt32.le_iff_toNat_le, UInt32.le_iff_toNat_le] at hmem
    refine ⟨?_, front, back, rfl, fun other hother => ?_⟩
    · have hnot : ¬range.less number = true := by
        rw [hless range hrange, UInt32.lt_iff_toNat_lt]
        omega
      simpa using hnot
    · have hbefore := (List.pairwise_append.mp hrising).2.2 other hother range List.mem_cons_self
      have hbelow : other.less number = true := by
        rw [hless other (List.mem_append_left _ hother), UInt32.lt_iff_toNat_lt]
        rw [UInt32.lt_iff_toNat_lt] at hbefore
        omega
      simp [hbelow]
  simp only [contains, search_eq hstepped, hfind, Option.any_some, Bool.and_eq_true, bne_iff_ne]
  exact ⟨(NumRange.contains_iff_mem_numbers (hstatic range hrange).1 hne).mpr hmem, hne⟩

theorem Static.cardinality_eq (hbound : (set.flatMap NumRange.numbers).length < 2 ^ 64) :
    set.cardinality.toNat = (set.flatMap NumRange.numbers).length := by
  have hends := fun range hrange => (hstatic range hrange).1
  rw [length_flatMap_numbers hends] at hbound ⊢
  have hzero : (0 : UInt64).toNat = 0 := rfl
  rw [cardinality, cardinalityLoop_static, hzero, Nat.zero_add]
  · intro range hrange
    simpa [NumRange.isStatic] using hends range hrange
  · intro range hrange
    have hrange' := hends range hrange
    simp only [NumRange.isStatic, decide_eq_true_eq] at hrange'
    simpa [NumRange.Valid, NumRange.span, position_of_ne_zero hrange'.1,
      position_of_ne_zero hrange'.2, UInt32.le_iff_toNat_le] using (hstatic range hrange).2
  · rw [hzero]
    omega

end Static

/-! ## Canonical sets -/

section Canonical

variable (h : set.Canonical) (hdynamic : set.isDynamic = false)

include h hdynamic

theorem isStatic_of_canonical : ∀ range ∈ set, range.isStatic = true := by
  intro range hrange
  have hstop : range.stop ≠ 0 := by
    intro hzero
    have hsome := (isDynamic_iff h).mpr ⟨range, hrange, hzero⟩
    rw [hdynamic] at hsome
    cases hsome
  have hstart := ((canonical_iff_ascending set).mp h).ends range hrange hstop
  simp [NumRange.isStatic, hstart.1, hstop]

theorem Canonical.static : set.Static := by
  intro range hrange
  have hends := isStatic_of_canonical h hdynamic range hrange
  refine ⟨hends, ?_⟩
  simp only [NumRange.isStatic, decide_eq_true_eq] at hends
  have hvalid := h.valid hrange
  simpa [NumRange.Valid, NumRange.span, position_of_ne_zero hends.1,
    position_of_ne_zero hends.2, UInt32.le_iff_toNat_le] using hvalid

theorem Canonical.rising : set.Rising := by
  refine ((canonical_iff_ascending set).mp h).apart.imp_of_mem ?_
  rintro first second - hmem ⟨-, hgap⟩
  have hends := isStatic_of_canonical h hdynamic second hmem
  simp only [NumRange.isStatic, decide_eq_true_eq] at hends
  have hlt := hgap.resolve_left hends.1
  rw [UInt32.lt_iff_toNat_lt]
  omega

theorem mem_flatMap_numbers (number : UInt32) :
    number ∈ set.flatMap NumRange.numbers ↔ set.contains number = true :=
  ((h.static hdynamic).contains_iff (h.rising hdynamic) number).symm

theorem cardinality_static : set.cardinality.toNat = (set.flatMap NumRange.numbers).length := by
  have hbound := length_le_of_ascending (h.rising hdynamic).pairwise_numbers
  exact (h.static hdynamic).cardinality_eq (by omega)

theorem listable_iff : set.Listable ↔ set.contains 0xFFFFFFFF = false := by
  have hstatic := isStatic_of_canonical h hdynamic
  rw [Listable, List.takeWhile_eq_self_iff.mpr hstatic, ← Bool.not_eq_true,
    ← mem_flatMap_numbers h hdynamic, List.mem_flatMap]
  constructor
  · rintro hstops ⟨range, hrange, hmem⟩
    obtain ⟨-, hle⟩ := (NumRange.mem_numbers _).mp hmem
    refine hstops range hrange (UInt32.toNat_inj.mp ?_)
    have hlt := range.stop.toNat_lt
    rw [UInt32.le_iff_toNat_le] at hle
    simp only [UInt32.reduceToNat] at hle ⊢
    omega
  · intro hnone range hrange hstop
    refine hnone ⟨range, hrange, (NumRange.mem_numbers _).mpr ⟨?_, ?_⟩⟩
    · rw [UInt32.le_iff_toNat_le]
      have hlt := range.start.toNat_lt
      simp only [UInt32.reduceToNat]
      omega
    · rw [hstop]
      exact UInt32.le_refl _

end Canonical

theorem appendLoop_mono {more : Nat} {nums result : List UInt32} (hle : fuel ≤ more)
    (h : NumRange.appendLoop stop fuel number nums = some result) :
    NumRange.appendLoop stop more number nums = some result := by
  induction fuel generalizing more number nums with
  | zero => cases h
  | succ fuel ih =>
    cases more with
    | zero => omega
    | succ more =>
      unfold NumRange.appendLoop at h ⊢
      split_ifs at h ⊢ with hnext
      · exact ih (by omega) h
      · exact h

theorem numsLoop_mono {more : Nat} {nums : List UInt32} {result : List UInt32 × Bool}
    (hle : fuel ≤ more) (h : numsLoop fuel set nums = some result) :
    numsLoop more set nums = some result := by
  induction set generalizing nums with
  | nil => exact h
  | cons range rest ih =>
    rw [numsLoop] at h ⊢
    have happend : ∀ found, range.append fuel nums = some found →
        range.append more nums = some found := by
      intro found hfound
      rw [NumRange.append] at hfound ⊢
      split_ifs at hfound ⊢
      · exact hfound
      · obtain ⟨list, hlist, rfl⟩ := Option.map_eq_some_iff.mp hfound
        rw [appendLoop_mono hle hlist]
        rfl
    cases hfound : range.append fuel nums with
    | none =>
      rw [hfound] at h
      cases h
    | some found =>
      rw [hfound] at h
      rw [happend found hfound]
      obtain ⟨list, ok⟩ := found
      cases ok with
      | true => exact ih h
      | false => exact h

def Expands (set : NumSet) : Prop := (set.isDynamic = false →
    (∃ fuel list, set.nums fuel = some (list, true) ∧
      list.Pairwise (· < ·) ∧ list.length = set.cardinality.toNat ∧
      ∀ number, number ∈ list ↔ set.contains number = true) ∧
    (∃ fuel, ((SearchAll.seqSet set).allSeqNums fuel).isSome) ∧
    ∃ fuel, ((SearchAll.uidSet set).allUIDs fuel).isSome) ∧
  (set.isDynamic = true → ∃ fuel, set.nums fuel = some ([], false))

theorem Listable.expands (h : set.Listable)
    (hset : set.isDynamic = true ∨ set.Canonical) : set.Expands := by
  constructor
  · intro hdynamic
    have hcanonical := hset.resolve_left (by simp [hdynamic])
    have hstatic := isStatic_of_canonical hcanonical hdynamic
    have hnums : set.nums (2 ^ 32) = some (set.flatMap NumRange.numbers, true) :=
      numsLoop_static hstatic h (le_refl _) []
    refine ⟨⟨2 ^ 32, _, hnums, (hcanonical.rising hdynamic).pairwise_numbers,
      (cardinality_static hcanonical hdynamic).symm,
      mem_flatMap_numbers hcanonical hdynamic⟩, ⟨2 ^ 32, ?_⟩, ⟨2 ^ 32, ?_⟩⟩
    · simp only [SearchAll.allSeqNums, SearchAll.expanded_isSome, hnums, Option.isSome_some]
    · simp only [SearchAll.allUIDs, SearchAll.expanded_isSome, hnums, Option.isSome_some]
  · intro hdynamic
    refine ⟨2 ^ 32, numsLoop_dynamic ?_ h (le_refl _) []⟩
    unfold isDynamic at hdynamic
    cases hlast : set.getLast? with
    | none => simp [hlast] at hdynamic
    | some last =>
      simp only [hlast, decide_eq_true_eq] at hdynamic
      exact ⟨last, List.mem_of_getLast? hlast, by simp [NumRange.isStatic, hdynamic]⟩

theorem not_expands_of_not_listable (h : ¬set.Listable) : ¬set.Expands := by
  rintro ⟨hstatic, hdynamic⟩
  cases hset : set.isDynamic with
  | false =>
    obtain ⟨⟨fuel, list, hnums, -⟩, -⟩ := hstatic hset
    rw [nums, numsLoop_diverges h] at hnums
    cases hnums
  | true =>
    obtain ⟨fuel, hnums⟩ := hdynamic hset
    rw [nums, numsLoop_diverges h] at hnums
    cases hnums

/-- Listing a set ends exactly if no range that is reached ends in the largest
word. -/
theorem expands_iff_listable (set : NumSet) (h : set.isDynamic = true ∨ set.Canonical) :
    set.Expands ↔ set.Listable :=
  ⟨fun hexpands => not_not.mp fun hlist =>
    not_expands_of_not_listable hlist hexpands, fun hlist => hlist.expands h⟩

theorem expands_iff_listable_gap : NumSet.Canonical [⟨1, 3⟩, ⟨4294967290, 4294967294⟩] ∧
      NumSet.Expands [⟨1, 3⟩, ⟨4294967290, 4294967294⟩] := by
  have h : NumSet.Canonical [⟨1, 3⟩, ⟨4294967290, 4294967294⟩] := by
    rw [canonical_iff_ascending]
    exact ⟨by decide, by decide⟩
  exact ⟨h, (expands_iff_listable _ (.inr h)).mpr (by decide)⟩

/-- The set of the largest UID alone is static and in canonical form. -/
theorem largest_uid_not_listed : NumSet.Canonical [⟨4294967295, 4294967295⟩] ∧
      NumSet.isDynamic [⟨4294967295, 4294967295⟩] = false ∧
      ¬NumSet.Expands [⟨4294967295, 4294967295⟩] ∧
      ∀ fuel, (SearchAll.uidSet [⟨4294967295, 4294967295⟩]).allUIDs fuel = none := by
  have hlist : ¬NumSet.Listable [⟨4294967295, 4294967295⟩] := by decide
  refine ⟨(canonical_iff_ascending _).mpr ⟨by decide, by decide⟩, rfl,
    not_expands_of_not_listable hlist, fun fuel => ?_⟩
  rw [SearchAll.allUIDs, nums, numsLoop_diverges hlist]
  rfl

end NumSet

end GoImap
