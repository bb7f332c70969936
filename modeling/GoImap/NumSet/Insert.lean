import GoImap.Lib.Intervals
import GoImap.Lib.Word
import GoImap.NumSet.Model
import Mathlib.Data.List.GetD
import Mathlib.Data.List.TakeWhile

/-!
# Insertion keeps number sets canonical

A range is read as an interval of naturals in which `*` is a number of its own
beyond every word, with a gap below it: `4294967295` and `*` do not merge.
Under this reading `merge` joins intervals that touch, the binary search finds
the first range that is not entirely below a number, and `insert` splices an
interval into a canonical list.
-/

namespace GoImap

open Intervals

def position (number : UInt32) : Nat :=
  if number = 0 then 2 ^ 32 + 1 else number.toNat

variable {number : UInt32} {range other : NumRange}

theorem position_of_ne_zero (h : number ≠ 0) : position number = number.toNat := if_neg h

theorem position_le (number : UInt32) : position number ≤ 2 ^ 32 + 1 := by
  have hlt := number.toNat_lt
  unfold position
  split_ifs <;> omega

theorem position_inj {first second : UInt32}
    (h : position first = position second) : first = second := by
  have hfirst := first.toNat_lt
  have hsecond := second.toNat_lt
  unfold position at h
  split_ifs at h with hzero hzero' hzero'
  · rw [hzero, hzero']
  · omega
  · omega
  · exact UInt32.toNat_inj.mp h

namespace NumRange

def span (range : NumRange) : Span where
  lo := position range.start
  hi := position range.stop

def Valid (range : NumRange) : Prop := range.span.lo ≤ range.span.hi

theorem span_inj {first second : NumRange} (h : first.span = second.span) :
    first = second := by
  cases first
  cases second
  simp only [span, Span.mk.injEq] at h
  rw [position_inj h.1, position_inj h.2]

theorem contains_iff (range : NumRange) (number : UInt32) :
    range.contains number = true ↔ range.span.Covers (position number) := by
  have hnumber := number.toNat_lt
  have hstart := range.start.toNat_lt
  have hstop := range.stop.toNat_lt
  have hbound := position_le range.start
  unfold contains span Span.Covers
  by_cases hzero : number = 0
  · subst hzero
    simp only [if_true, decide_eq_true_eq]
    unfold position at hbound ⊢
    simp only [if_true]
    constructor
    · intro h
      exact ⟨hbound, by simp [h]⟩
    · rintro ⟨-, h⟩
      by_contra hne
      rw [if_neg hne] at h
      omega
  · rw [if_neg hzero, position_of_ne_zero hzero]
    simp only [decide_eq_true_eq, UInt32.le_iff_toNat_le]
    unfold position
    constructor
    · rintro ⟨hne, hle, hupper⟩
      rw [if_neg hne]
      refine ⟨hle, ?_⟩
      split_ifs with hstopZero
      · omega
      · exact hupper.resolve_right hstopZero
    · rintro ⟨hlower, hupper⟩
      split_ifs at hlower hupper with hstartZero hstopZero hstopZero
      · omega
      · omega
      · exact ⟨hstartZero, hlower, .inr hstopZero⟩
      · exact ⟨hstartZero, hlower, .inl hupper⟩

theorem less_iff (range : NumRange) (number : UInt32) :
    range.less number = true ↔ range.span.hi < position number := by
  have hnumber := number.toNat_lt
  have hstop := range.stop.toNat_lt
  unfold less span position
  simp only [decide_eq_true_eq, UInt32.lt_iff_toNat_lt]
  by_cases hzero : number = 0
  · by_cases hstopZero : range.stop = 0
    · simp [hzero, hstopZero]
    · simp only [hzero, hstopZero, or_true, not_false_eq_true, and_self,
        if_true, if_false, ne_eq, true_iff]
      omega
  · by_cases hstopZero : range.stop = 0
    · simp only [hstopZero, hzero, ne_eq, not_true_eq_false, and_false,
        if_true, if_false, false_iff]
      omega
    · simp [hstopZero, hzero]

def MergeResult (original : NumRange) (first second : Span) :
    NumRange × Bool → Prop
  | (union, true) => first.Touches second ∧ union.span = first.join second
  | (union, false) => ¬first.Touches second ∧ union = original

theorem mergeOrdered_spec (original : NumRange) {first second : NumRange} (hsecond : second.Valid)
    (hstart : first.start ≠ 0) (hstart' : second.start ≠ 0) (hle : first.start ≤ second.start) :
    MergeResult original first.span second.span (mergeOrdered original first second) := by
  have hstopLt := first.stop.toNat_lt
  have hstopLt' := second.stop.toNat_lt
  have hstartLt := second.start.toNat_lt
  rw [UInt32.le_iff_toNat_le] at hle
  simp only [Valid, span, position_of_ne_zero hstart'] at hsecond
  unfold mergeOrdered
  split_ifs with hsuper htouch
  · have hupper : position second.stop ≤ position first.stop := by
      rcases hsuper with ⟨hge, hne⟩ | hzero
      · rw [ge_iff_le, UInt32.le_iff_toNat_le] at hge
        have hne' : first.stop ≠ 0 := by
          rw [Word.ne_zero_iff] at hne ⊢
          omega
        rw [position_of_ne_zero hne, position_of_ne_zero hne']
        exact hge
      · rw [hzero]
        exact position_le _
    simp only [MergeResult, span, Span.Touches, Span.join,
      position_of_ne_zero hstart, position_of_ne_zero hstart', Span.mk.injEq]
    omega
  · rw [not_or] at hsuper
    obtain ⟨hshort, hne⟩ := hsuper
    have hupper : position first.stop ≤ position second.stop := by
      by_cases hzero : second.stop = 0
      · rw [hzero]
        exact position_le _
      · rw [position_of_ne_zero hne, position_of_ne_zero hzero]
        by_contra hlt
        apply hshort
        refine ⟨?_, hzero⟩
        rw [ge_iff_le, UInt32.le_iff_toNat_le]
        omega
    have hreach : second.start.toNat ≤ first.stop.toNat + 1 := by
      rcases htouch with hge | hmax
      · rw [ge_iff_le, UInt32.le_iff_toNat_le, UInt32.toNat_add] at hge
        exact le_trans hge (Nat.mod_le _ _)
      · rw [hmax]
        simp only [UInt32.reduceToNat]
        omega
    simp only [MergeResult, span, Span.Touches, Span.join, position_of_ne_zero hstart,
      position_of_ne_zero hstart', position_of_ne_zero hne, Span.mk.injEq] at hupper ⊢
    omega
  · rw [not_or] at hsuper htouch
    obtain ⟨-, hne⟩ := hsuper
    obtain ⟨hapart, hmax⟩ := htouch
    have hroom : (first.stop + 1).toNat = first.stop.toNat + 1 := by
      have hmaxNat : first.stop.toNat ≠ 4294967295 := fun h =>
        hmax (UInt32.toNat_inj.mp h)
      rw [UInt32.toNat_add]
      simp only [UInt32.reduceToNat]
      omega
    rw [ge_iff_le, UInt32.le_iff_toNat_le, hroom] at hapart
    simp only [MergeResult, span, Span.Touches, position_of_ne_zero hstart,
      position_of_ne_zero hstart', position_of_ne_zero hne, and_true]
    omega

theorem Valid.span_star (h : range.Valid) (hstart : range.start = 0) :
    range.span = ⟨2 ^ 32 + 1, 2 ^ 32 + 1⟩ := by
  have hupper := position_le range.stop
  have hlo : position range.start = 2 ^ 32 + 1 := if_pos hstart
  simp only [Valid, span, hlo] at h
  simp only [span, hlo, Span.mk.injEq, true_and]
  omega

theorem Valid.merge_star (h : range.Valid) (hstart : range.start = 0) :
    (range.span.Touches other.span ↔ other.stop = 0) ∧
      (other.stop = 0 → other.span = range.span.join other.span) := by
  have hlower := position_le other.start
  have hlt := other.stop.toNat_lt
  rw [h.span_star hstart]
  by_cases hopen : other.stop = 0
  · have hstar : position 0 = 2 ^ 32 + 1 := rfl
    simp only [span, hopen, hstar, Span.Touches, Span.join, Span.mk.injEq, iff_true, true_implies]
    omega
  · simp only [span, position_of_ne_zero hopen, Span.Touches, hopen, iff_false, false_implies,
      and_true]
    omega

theorem merge_spec (hrange : range.Valid) (hother : other.Valid) :
    MergeResult range range.span other.span (range.merge other) := by
  unfold merge
  split_ifs with hsame hstarts horder hstar hopen hopen
  · subst hsame
    simp only [Valid] at hrange
    simp only [MergeResult, Span.Touches, Span.join, min_self, max_self, and_true]
    omega
  · have hle : other.start ≤ range.start := by
      rw [gt_iff_lt, UInt32.lt_iff_toNat_lt] at horder
      rw [UInt32.le_iff_toNat_le]
      omega
    have hmerge := mergeOrdered_spec range hrange hstarts.2 hstarts.1 hle
    revert hmerge
    generalize mergeOrdered range other range = result
    obtain ⟨union, ok⟩ := result
    cases ok
    · simp [MergeResult, Span.touches_comm]
    · simp [MergeResult, Span.touches_comm, Span.join_comm]
  · exact mergeOrdered_spec range hother hstarts.1 hstarts.2 (UInt32.not_lt.mp horder)
  · obtain ⟨htouches, hjoin⟩ := @Valid.merge_star range other hrange hstar
    exact ⟨htouches.mpr hopen, hjoin hopen⟩
  · obtain ⟨htouches, -⟩ := @Valid.merge_star range other hrange hstar
    exact ⟨mt htouches.mp hopen, rfl⟩
  · have hstar' := not_not.mp fun hne => hstarts ⟨hstar, hne⟩
    obtain ⟨htouches, hjoin⟩ := @Valid.merge_star other range hother hstar'
    rw [MergeResult, Span.touches_comm, Span.join_comm]
    exact ⟨htouches.mpr hopen, hjoin hopen⟩
  · have hstar' := not_not.mp fun hne => hstarts ⟨hstar, hne⟩
    obtain ⟨htouches, -⟩ := @Valid.merge_star other range hother hstar'
    rw [MergeResult, Span.touches_comm]
    exact ⟨mt htouches.mp hopen, rfl⟩

end NumRange

namespace NumSet

def spans (set : NumSet) : List Span :=
  set.map NumRange.span

def Canonical (set : NumSet) : Prop := Intervals.Canonical set.spans

@[simp] theorem spans_nil : spans [] = [] := rfl

@[simp] theorem spans_cons (range : NumRange) (rest : NumSet) :
    spans (range :: rest) = range.span :: rest.spans := rfl

@[simp] theorem spans_append (first second : NumSet) :
    spans (first ++ second) = first.spans ++ second.spans :=
  List.map_append

theorem canonical_append {first second : NumSet} :
    NumSet.Canonical (first ++ second) ↔
      first.Canonical ∧ second.Canonical ∧ ∀ left ∈ first.spans,
        ∀ right ∈ second.spans, left.Separated right := by
  unfold Canonical
  rw [spans_append, Intervals.canonical_append]

theorem canonical_cons {rest : NumSet} : NumSet.Canonical (range :: rest) ↔
      range.Valid ∧ rest.Canonical ∧ ∀ right ∈ rest.spans, range.span.Separated right := by
  unfold Canonical
  rw [spans_cons, Intervals.canonical_cons]
  rfl

variable {set : NumSet} {union : NumRange}

theorem Canonical.valid (h : set.Canonical) (hmem : range ∈ set) : range.Valid :=
  h.nonempty range.span (List.mem_map_of_mem hmem)

/-! ## The binary search -/

def Stepped (set : NumSet) (number : UInt32) : Prop :=
  set.Pairwise fun first second =>
    second.less number = true → first.less number = true

theorem Canonical.stepped (h : set.Canonical) (number : UInt32) : set.Stepped number := by
  refine (List.pairwise_map.mp h.separated).imp_of_mem ?_
  intro first second _ hsecond hgap hless
  have hne := h.valid hsecond
  rw [NumRange.less_iff] at hless ⊢
  simp only [Span.Separated, NumRange.Valid] at hgap hne
  omega

theorem less_antitone (h : set.Stepped number) {first second : Nat} (hle : first ≤ second)
    (hsecond : second < set.length) (hless : set[second].less number = true) :
    set[first].less number = true := by
  rcases Nat.eq_or_lt_of_le hle with rfl | hlt
  · exact hless
  · exact List.pairwise_iff_getElem.mp h first second (by omega) hsecond hlt hless

theorem Stepped.not_less (h : set.Stepped number) :
    ∀ range ∈ set.dropWhile (·.less number), range.less number = false := by
  induction set with
  | nil => simp
  | cons first rest ih =>
    obtain ⟨hfirst, hrest⟩ := List.pairwise_cons.mp h
    cases hless : first.less number with
    | true => simpa [hless] using ih hrest
    | false =>
      rw [List.dropWhile_cons_of_neg (by simp [hless])]
      refine List.forall_mem_cons.mpr ⟨hless, fun other hother => ?_⟩
      simpa [hless] using hfirst other hother

def Candidate (set : NumSet) (number : UInt32) (index : Nat) : Prop :=
  ∃ hlt : index < set.length, (∀ j (hj : j < index), set[j].less number = true) ∧
      (index + 1 = set.length ∨ set[index].less number = false)

theorem searchLoop_candidate (h : set.Stepped number) {fuel min max : Nat}
    (hfuel : max ≤ min + fuel) (hle : min ≤ max) (hmax : max < set.length)
    (hbelow : ∀ j (hj : j < min), set[j].less number = true)
    (habove : max + 1 = set.length ∨ set[max].less number = false) :
    Candidate set number (searchLoop set number fuel min max) := by
  induction fuel generalizing min max with
  | zero =>
    have hsame : min = max := by omega
    subst hsame
    exact ⟨hmax, hbelow, habove⟩
  | succ fuel ih =>
    rw [searchLoop]
    by_cases hlt : min < max
    · have hmid : (min + max) / 2 < set.length := by omega
      simp only [if_pos hlt, List.getD_eq_getElem _ _ hmid]
      cases hless : (set[(min + max) / 2]).less number with
      | true =>
        apply ih (by omega) (by omega) hmax _ habove
        intro j hj
        exact less_antitone h (by omega) hmid hless
      | false =>
        exact ih (by omega) (by omega) hmid hbelow (.inr hless)
    · have hsame : min = max := by omega
      subst hsame
      simp only [lt_irrefl, if_false]
      exact ⟨hmax, hbelow, habove⟩

theorem searchLoop_start (h : set.Stepped number) (hpos : 0 < set.length) :
    Candidate set number (searchLoop set number set.length 0 (set.length - 1)) :=
  searchLoop_candidate h (by omega) (by omega) (by omega) (by simp) (.inl (by omega))

theorem search_eq (h : set.Stepped number) :
    search set number = ((set.takeWhile (·.less number)).length,
      (set.find? fun range => !range.less number).any (·.contains number)) := by
  by_cases hempty : set = []
  · subst hempty
    rfl
  obtain ⟨hlt, hbelow, habove⟩ := searchLoop_start h (List.length_pos_iff.mpr hempty)
  simp only [search, hempty, false_or, List.getD_eq_getElem _ _ hlt]
  generalize searchLoop set number set.length 0 (set.length - 1) = index at *
  split_ifs with hless
  · have hlast := habove.resolve_right (by simp [hless])
    have hall : ∀ range ∈ set, range.less number = true := by
      intro range hrange
      obtain ⟨j, hj, rfl⟩ := List.getElem_of_mem hrange
      exact less_antitone h (by omega) hlt hless
    rw [List.takeWhile_eq_self_iff.mpr hall, List.find?_eq_none.mpr (by simpa using hall)]
    rfl
  · have hsome : (set.find? fun range => !range.less number) = some set[index] := by
      rw [List.find?_eq_some_iff_getElem]
      exact ⟨by simpa using hless, _, hlt, rfl, fun j hj => by simp [hbelow j hj]⟩
    have hfront : ∀ range ∈ set.take index, range.less number = true := by
      intro range hrange
      obtain ⟨j, hj, rfl⟩ := List.mem_take_iff_getElem.mp hrange
      exact hbelow j (by omega)
    have htake : set.takeWhile (·.less number) = set.take index := by
      conv_lhs => rw [← List.take_append_drop index set, List.drop_eq_getElem_cons hlt]
      rw [List.takeWhile_append_of_pos hfront, List.takeWhile_cons, if_neg hless, List.append_nil]
    rw [htake, hsome, List.length_take_of_le hlt.le]
    rfl

theorem search_contains (h : set.Canonical) (number : UInt32) :
    (search set number).2 = true ↔ Covers set.spans (position number) := by
  rw [search_eq (h.stepped number), Option.any_eq_true]
  constructor
  · rintro ⟨range, hfind, hcontains⟩
    exact ⟨range.span, List.mem_map_of_mem (List.mem_of_find?_eq_some hfind),
      (NumRange.contains_iff _ _).mp hcontains⟩
  · rintro ⟨_, hspan, hcovers⟩
    obtain ⟨range, hrange, rfl⟩ := List.mem_map.mp hspan
    refine ⟨range, ?_, (NumRange.contains_iff _ _).mpr hcovers⟩
    obtain ⟨front, back, rfl⟩ := List.append_of_mem hrange
    have hgap := (canonical_append.mp h).2.2
    simp only [Span.Covers] at hcovers
    refine List.find?_eq_some_iff_append.mpr ⟨?_, front, back, rfl, fun other hother => ?_⟩
    · have hless : ¬range.less number = true := by
        rw [NumRange.less_iff]
        omega
      simpa using hless
    · have hsep := hgap other.span (List.mem_map_of_mem hother) range.span (by simp)
      have hless : other.less number = true := by
        rw [NumRange.less_iff]
        simp only [Span.Separated] at hsep
        omega
      simp [hless]

theorem contains_iff (h : set.Canonical) (number : UInt32) :
    set.contains number = true ↔ number ≠ 0 ∧ Covers set.spans (position number) := by
  simp [contains, ← search_contains h, and_comm]

/-! ## Insertion -/

theorem mergeTail_spans {current : NumRange} {rest : NumSet}
    (hcurrent : current.Valid) (hrest : ∀ range ∈ rest, range.Valid) :
    (mergeTail current rest).spans = absorb current.span rest.spans := by
  induction rest generalizing current with
  | nil => rfl
  | cons next rest ih =>
    have hnext := hrest next (by simp)
    have htail := fun range hrange =>
      hrest range (List.mem_cons_of_mem next hrange)
    have hmerge := NumRange.merge_spec hcurrent hnext
    rw [mergeTail]
    generalize current.merge next = outcome at hmerge
    obtain ⟨union, _ | _⟩ := outcome
    · simp [spans, absorb, if_neg hmerge.1]
    · have hunion : union.Valid := by
        unfold NumRange.Valid at hcurrent hnext ⊢
        rw [hmerge.2]
        simp only [Span.join]
        omega
      simp only [spans, List.map_cons, absorb, if_pos hmerge.1] at ih ⊢
      rw [ih hunion htail, hmerge.2]

def Apart (neighbour : Option NumRange) (range : NumRange) : Prop :=
  ∀ other, neighbour = some other → (other.merge range).2 = false

inductive Inserted (before after : NumSet) (range : NumRange) : NumSet → Prop
  | previous (front : NumSet) (prev union : NumRange) (hbefore : before = front ++ [prev])
      (hmerge : prev.merge range = (union, true)) :
      Inserted before after range (front ++ mergeTail union after)
  | found (next union : NumRange) (back : NumSet)
      (hprevious : Apart before.getLast? range) (hafter : after = next :: back)
      (hmerge : next.merge range = (union, true)) :
      Inserted before after range (before ++ mergeTail union back)
  | between (hprevious : Apart before.getLast? range) (hnext : Apart after.head? range) :
      Inserted before after range (before ++ range :: after)

theorem insert_inserted {before after : NumSet}
    (hindex : (search (before ++ after) range.start).1 = before.length) :
    Inserted before after range (insert (before ++ after) range) := by
  rw [insert, hindex]
  have hatEnd : before.length = (before ++ after).length ↔ after = [] := by
    simp
  have hbetween : insertAt (before ++ after) before.length range =
      before ++ range :: after := by simp [insertAt]
  have hnext : ∀ found back, after = found :: back →
      (before ++ after).getD before.length ⟨0, 0⟩ = found ∧
        ∀ union, mergeFrom (before ++ after) before.length union =
          before ++ mergeTail union back := by
    rintro found back rfl
    constructor
    · simp
    · intro union
      simp [mergeFrom, ← List.drop_drop]
  have hapart : Apart before.getLast? range → Inserted before after range
        (if before.length = (before ++ after).length then
          insertAt (before ++ after) before.length range
        else
          let found := ((before ++ after).getD before.length ⟨0, 0⟩).merge range
          if found.2 then mergeFrom (before ++ after) before.length found.1
          else insertAt (before ++ after) before.length range) := by
    intro hprevious
    rw [hbetween]
    cases after with
    | nil =>
      rw [if_pos (by simp)]
      exact .between hprevious (by simp [Apart])
    | cons found back =>
      obtain ⟨hfound, hfrom⟩ := hnext found back rfl
      rw [if_neg (by simp), hfound]
      cases hmerge : found.merge range with
      | mk union ok =>
        cases ok with
        | false =>
          exact .between hprevious (by simp [Apart, hmerge])
        | true =>
          simp only [if_true, hfrom]
          exact .found found union back hprevious rfl hmerge
  rcases List.eq_nil_or_concat before with rfl | ⟨front, prev, rfl⟩
  · simpa using hapart (by simp [Apart])
  · rw [List.concat_eq_append] at *
    have hlast : (front ++ [prev] ++ after).getD
        ((front ++ [prev]).length - 1) ⟨0, 0⟩ = prev := by simp
    simp only [hlast]
    cases hmerge : prev.merge range with
    | mk union ok =>
      cases ok with
      | false => simpa using hapart (by simp [Apart, hmerge])
      | true =>
        have hresult : Inserted (front ++ [prev]) after range (front ++ mergeTail union after) :=
          .previous front prev union rfl hmerge
        have hset : (front ++ [prev] ++ after).set front.length union =
            front ++ union :: after := by simp
        have hfrom : mergeFrom (front ++ [prev] ++ after) front.length
            union = front ++ mergeTail union after := by
          simp [mergeFrom]
        simp only [List.length_append, List.length_cons, List.length_nil, Nat.zero_add,
          Nat.add_sub_cancel, Nat.zero_lt_succ, if_true, hset, hfrom]
        cases after with
        | nil => simpa [mergeTail] using hresult
        | cons found back => simpa using hresult

def Adds (set : NumSet) (range : NumRange) (result : NumSet) : Prop :=
  result.Canonical ∧ ∀ number, Covers result.spans number ↔
    range.span.Covers number ∨ Covers set.spans number

theorem apart_not_touches (hother : other.Valid) (hrange : range.Valid)
    (h : (other.merge range).2 = false) : ¬other.span.Touches range.span := by
  have hmerge := NumRange.merge_spec hother hrange
  generalize other.merge range = outcome at h hmerge
  obtain ⟨union, ok⟩ := outcome
  subst h
  exact hmerge.1

theorem merge_true (hother : other.Valid) (hrange : range.Valid)
    (h : other.merge range = (union, true)) :
    other.span.Touches range.span ∧ union.span = other.span.join range.span := by
  have hmerge := NumRange.merge_spec hother hrange
  rw [h] at hmerge
  exact hmerge

theorem splice_mergeTail {front back : NumSet} {current : NumRange} (hcurrent : current.Valid)
    (hfront : front.Canonical) (hback : back.Canonical)
    (hleft : ∀ interval ∈ front.spans, interval.Separated current.span)
    (hright : ∀ interval ∈ back.spans, current.span.lo ≤ interval.lo) :
    NumSet.Canonical (front ++ mergeTail current back) ∧
      ∀ number, Covers (NumSet.spans (front ++ mergeTail current back)) number ↔
        current.span.Covers number ∨ Covers front.spans number ∨ Covers back.spans number := by
  have hspans : NumSet.spans (front ++ mergeTail current back) =
      front.spans ++ absorb current.span back.spans := by
    rw [spans_append, mergeTail_spans hcurrent fun _ => hback.valid]
  have hsplice := splice_spec hcurrent hfront hback hleft hright
  unfold Canonical
  rw [hspans]
  simpa [covers_append] using hsplice

section Splice

variable {before after : NumSet}

theorem separated_of_apart (hbefore : before.Canonical) (hrange : range.Valid)
    (hbelow : ∀ other ∈ before, other.span.hi < range.span.lo)
    (hprevious : Apart before.getLast? range) :
    ∀ interval ∈ before.spans, interval.Separated range.span := by
  rcases List.eq_nil_or_concat before with rfl | ⟨front, prev, rfl⟩
  · simp
  · rw [List.concat_eq_append] at *
    have hprev : prev.Valid := hbefore.valid (by simp)
    have hlast : prev.span.Separated range.span := by
      have htouch := apart_not_touches hprev hrange (hprevious prev (by simp))
      have hlt := hbelow prev (by simp)
      simp only [Span.Touches, Span.Separated, NumRange.Valid] at *
      omega
    intro interval hinterval
    rw [spans_append, List.mem_append] at hinterval
    rcases hinterval with hfront | hlastMem
    · have hgap := (canonical_append.mp hbefore).2.2 interval hfront prev.span (by simp)
      simp only [Span.Separated, NumRange.Valid] at *
      omega
    · simp only [spans_cons, spans_nil, List.mem_singleton] at hlastMem
      rw [hlastMem]
      exact hlast

theorem adds_found {next : NumRange} {back : NumSet} (h : NumSet.Canonical (before ++ next :: back))
    (hrange : range.Valid) (hleft : ∀ interval ∈ before.spans, interval.Separated range.span)
    (hmerge : next.merge range = (union, true)) :
    Adds (before ++ next :: back) range (before ++ mergeTail union back) := by
  rw [canonical_append, canonical_cons] at h
  obtain ⟨hbefore, ⟨hnext, hback, hright⟩, hcross⟩ := h
  obtain ⟨htouch, hunion⟩ := merge_true hnext hrange hmerge
  unfold NumRange.Valid at hnext hrange
  have hvalid : union.Valid := by
    unfold NumRange.Valid
    rw [hunion]
    exact le_trans (min_le_left _ _) (le_trans hnext (le_max_left _ _))
  obtain ⟨hcanonical, hcovers⟩ := splice_mergeTail hvalid hbefore hback (by
        intro interval hinterval
        have hgap := hcross interval hinterval next.span (by simp)
        have hgap' := hleft interval hinterval
        simp only [Span.Separated, hunion, Span.join] at hgap hgap' ⊢
        omega)
      (by
        intro interval hinterval
        have hgap := hright interval hinterval
        simp only [Span.Separated, hunion, Span.join] at hgap ⊢
        omega)
  refine ⟨hcanonical, ?_⟩
  intro number
  rw [hcovers, hunion, Span.covers_join htouch, spans_append, spans_cons,
    covers_append, covers_cons]
  tauto

theorem adds_between (h : NumSet.Canonical (before ++ after)) (hrange : range.Valid)
    (hleft : ∀ interval ∈ before.spans, interval.Separated range.span)
    (habove : ∀ other ∈ after, range.span.lo ≤ other.span.hi) (hnext : Apart after.head? range) :
    Adds (before ++ after) range (before ++ range :: after) := by
  have hsame := h
  rw [canonical_append] at h
  obtain ⟨hbefore, hafter, hcross⟩ := h
  have hright : ∀ interval ∈ after.spans, range.span.Separated interval := by
    cases after with
    | nil => simp
    | cons next back =>
      obtain ⟨hvalid, -, hgap⟩ := canonical_cons.mp hafter
      have hfirst : range.span.Separated next.span := by
        have htouch := apart_not_touches hvalid hrange (hnext next rfl)
        have hle := habove next (by simp)
        simp only [Span.Touches, Span.Separated] at htouch ⊢
        omega
      intro interval hinterval
      rcases List.mem_cons.mp hinterval with rfl | hinterval
      · exact hfirst
      · have hsecond := hgap interval hinterval
        simp only [Span.Separated, NumRange.Valid] at *
        omega
  constructor
  · rw [canonical_append, canonical_cons]
    refine ⟨hbefore, ⟨hrange, hafter, hright⟩, ?_⟩
    intro left hmem right hmem'
    rcases List.mem_cons.mp hmem' with rfl | hmem'
    · exact hleft left hmem
    · exact hcross left hmem right hmem'
  · intro number
    simp only [spans_append, spans_cons, covers_append, covers_cons]
    tauto

end Splice

theorem insert_adds (h : set.Canonical) (hrange : range.Valid) :
    Adds set range (insert set range) := by
  have hindex : (search set range.start).1 = (set.takeWhile (·.less range.start)).length := by
    rw [search_eq (h.stepped range.start)]
  have hbelow : ∀ other ∈ set.takeWhile (·.less range.start), other.span.hi < range.span.lo := by
    intro other hother
    have hless := List.mem_takeWhile_imp hother
    exact (NumRange.less_iff _ _).mp hless
  have habove : ∀ other ∈ set.dropWhile (·.less range.start), range.span.lo ≤ other.span.hi := by
    intro other hother
    have hless := (h.stepped range.start).not_less other hother
    rwa [Bool.eq_false_iff, ne_eq, NumRange.less_iff, Nat.not_lt] at hless
  obtain ⟨before, after, rfl, hbefore, hafter⟩ : ∃ before after, set = before ++ after ∧
      set.takeWhile (·.less range.start) = before ∧ set.dropWhile (·.less range.start) = after :=
    ⟨_, _, List.takeWhile_append_dropWhile.symm, rfl, rfl⟩
  rw [hbefore] at hindex hbelow
  rw [hafter] at habove
  have hresult := insert_inserted hindex
  generalize insert (before ++ after) range = result at hresult ⊢
  cases hresult with
  | previous front prev union hcut hmerge =>
    subst hcut
    rw [List.append_assoc, List.singleton_append] at h ⊢
    obtain ⟨-, hprev, hcross⟩ := canonical_append.mp h
    refine adds_found h hrange (fun interval hinterval => ?_) hmerge
    have hgap := hcross interval hinterval prev.span (by simp)
    have hlt := hbelow prev (by simp)
    have hne := (canonical_cons.mp hprev).1
    simp only [Span.Separated, NumRange.Valid] at hgap hne ⊢
    omega
  | found next union back hprevious hcut hmerge =>
    subst hcut
    have hbefore := (canonical_append.mp h).1
    exact adds_found h hrange (separated_of_apart hbefore hrange hbelow hprevious) hmerge
  | between hprevious hnext =>
    have hbefore := (canonical_append.mp h).1
    exact adds_between h hrange (separated_of_apart hbefore hrange hbelow hprevious) habove hnext

end NumSet

end GoImap
