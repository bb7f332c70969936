import Mathlib.Algebra.GroupWithZero.Nat
import Mathlib.Data.Finset.Card
import Mathlib.Order.Interval.Finset.Nat

/-!
# Sets of naturals as lists of separated intervals

A canonical list holds nonempty intervals in ascending order with a gap
between neighbours.  A new interval is merged in by splitting the list around
it, joining what it touches and absorbing the intervals that follow.
-/

namespace Intervals

structure Span where
  lo : Nat
  hi : Nat
  deriving DecidableEq, Repr

namespace Span

def Covers (interval : Span) (number : Nat) : Prop := interval.lo ≤ number ∧ number ≤ interval.hi

def Separated (first second : Span) : Prop :=
  first.hi + 1 < second.lo

def Touches (first second : Span) : Prop :=
  first.lo ≤ second.hi + 1 ∧ second.lo ≤ first.hi + 1

instance (first second : Span) : Decidable (first.Touches second) :=
  inferInstanceAs (Decidable (_ ∧ _))

def join (first second : Span) : Span where
  lo := min first.lo second.lo
  hi := max first.hi second.hi

theorem touches_comm {first second : Span} : first.Touches second ↔ second.Touches first :=
  and_comm

theorem join_comm (first second : Span) :
    first.join second = second.join first := by
  simp [join, min_comm, max_comm]

theorem covers_join {first second : Span} (h : first.Touches second) (number : Nat) :
    (first.join second).Covers number ↔
      first.Covers number ∨ second.Covers number := by
  obtain ⟨hleft, hright⟩ := h
  simp only [Covers, join]
  omega

end Span

open Span

def Covers (intervals : List Span) (number : Nat) : Prop :=
  ∃ interval ∈ intervals, interval.Covers number

structure Canonical (intervals : List Span) : Prop where
  nonempty : ∀ interval ∈ intervals, interval.lo ≤ interval.hi
  separated : intervals.Pairwise Separated

@[simp] theorem canonical_nil : Canonical [] := ⟨by simp, .nil⟩

@[simp] theorem covers_nil (number : Nat) : ¬Covers [] number := by
  simp [Covers]

@[simp] theorem covers_cons (interval : Span) (rest : List Span) (number : Nat) :
    Covers (interval :: rest) number ↔ interval.Covers number ∨ Covers rest number := by
  simp [Covers]

@[simp] theorem covers_append (first second : List Span) (number : Nat) :
    Covers (first ++ second) number ↔ Covers first number ∨ Covers second number := by
  simp [Covers, or_and_right, exists_or]

theorem canonical_append {first second : List Span} :
    Canonical (first ++ second) ↔ Canonical first ∧ Canonical second ∧
        ∀ left ∈ first, ∀ right ∈ second, left.Separated right := by
  constructor
  · rintro ⟨hnonempty, hseparated⟩
    obtain ⟨hfirst, hsecond, hcross⟩ := List.pairwise_append.mp hseparated
    exact ⟨⟨fun i hi => hnonempty i (List.mem_append_left _ hi), hfirst⟩,
      ⟨fun i hi => hnonempty i (List.mem_append_right _ hi), hsecond⟩, hcross⟩
  · rintro ⟨hfirst, hsecond, hcross⟩
    refine ⟨?_, List.pairwise_append.mpr ⟨hfirst.separated, hsecond.separated, hcross⟩⟩
    intro interval hinterval
    rcases List.mem_append.mp hinterval with h | h
    · exact hfirst.nonempty interval h
    · exact hsecond.nonempty interval h

variable {interval : Span} {rest : List Span}

theorem canonical_cons : Canonical (interval :: rest) ↔ interval.lo ≤ interval.hi ∧ Canonical rest ∧
        ∀ right ∈ rest, interval.Separated right := by
  constructor
  · rintro ⟨hnonempty, hseparated⟩
    obtain ⟨hfirst, hrest⟩ := List.pairwise_cons.mp hseparated
    exact ⟨hnonempty interval (by simp),
      ⟨fun i hi => hnonempty i (List.mem_cons_of_mem _ hi), hrest⟩, hfirst⟩
  · rintro ⟨hne, hrest, hfirst⟩
    refine ⟨?_, List.pairwise_cons.mpr ⟨hfirst, hrest.separated⟩⟩
    intro other hother
    rcases List.mem_cons.mp hother with rfl | hother
    · exact hne
    · exact hrest.nonempty other hother

def absorb (current : Span) : List Span → List Span
  | [] => [current]
  | next :: rest =>
    if current.Touches next then absorb (current.join next) rest
    else current :: next :: rest

theorem absorb_spec {current : Span} (hne : current.lo ≤ current.hi) (hrest : Canonical rest)
    (hlower : ∀ interval ∈ rest, current.lo ≤ interval.lo) :
    Canonical (absorb current rest) ∧ (∀ interval ∈ absorb current rest, current.lo ≤ interval.lo) ∧
      ∀ number, Covers (absorb current rest) number ↔
        current.Covers number ∨ Covers rest number := by
  induction rest generalizing current with
  | nil => simp [absorb, canonical_cons, hne]
  | cons next rest ih =>
    obtain ⟨hnext, htail, hgap⟩ := canonical_cons.mp hrest
    have hstart := hlower next (by simp)
    rw [absorb]
    split_ifs with htouch
    · have hjoin : (current.join next).lo = current.lo := min_eq_left hstart
      have hjoinNe : (current.join next).lo ≤ (current.join next).hi := by
        rw [hjoin]
        exact le_trans hne (le_max_left _ _)
      have hjoinLower : ∀ interval ∈ rest, (current.join next).lo ≤ interval.lo := by
        intro interval hinterval
        rw [hjoin]
        exact hlower interval (List.mem_cons_of_mem _ hinterval)
      obtain ⟨hcanonical, hbound, hcovers⟩ := ih hjoinNe htail hjoinLower
      refine ⟨hcanonical, ?_, ?_⟩
      · rw [← hjoin]
        exact hbound
      · intro number
        rw [hcovers, covers_join htouch, covers_cons, or_assoc]
    · have hseparated : current.Separated next := by
        simp only [Touches, Separated] at htouch ⊢
        omega
      refine ⟨canonical_cons.mpr ⟨hne, hrest, ?_⟩, ?_, ?_⟩
      · intro right hright
        rcases List.mem_cons.mp hright with rfl | hright
        · exact hseparated
        · have hafter := hgap right hright
          simp only [Separated] at hseparated hafter ⊢
          omega
      · intro interval hinterval
        rcases List.mem_cons.mp hinterval with rfl | hinterval
        · exact le_refl _
        · exact hlower interval hinterval
      · intro number
        rw [covers_cons]

theorem splice_spec {before after : List Span} {current : Span} (hne : current.lo ≤ current.hi)
    (hbefore : Canonical before) (hafter : Canonical after)
    (hleft : ∀ interval ∈ before, interval.Separated current)
    (hright : ∀ interval ∈ after, current.lo ≤ interval.lo) :
    Canonical (before ++ absorb current after) ∧
      ∀ number, Covers (before ++ absorb current after) number ↔
        current.Covers number ∨ Covers (before ++ after) number := by
  obtain ⟨hcanonical, hbound, hcovers⟩ := absorb_spec hne hafter hright
  constructor
  · refine canonical_append.mpr ⟨hbefore, hcanonical, ?_⟩
    intro left hmem right hmem'
    have hgap := hleft left hmem
    have hstart := hbound right hmem'
    simp only [Separated] at hgap ⊢
    omega
  · intro number
    rw [covers_append, covers_append, hcovers]
    tauto

/-! ## Uniqueness -/

theorem Canonical.lo_le_of_covers (h : Canonical (interval :: rest))
    {number : Nat} (hcovers : Covers (interval :: rest) number) :
    interval.lo ≤ number := by
  obtain ⟨hne, -, hgap⟩ := canonical_cons.mp h
  rcases (covers_cons _ _ _).mp hcovers with hfirst | ⟨other, hother, hlower, -⟩
  · exact hfirst.1
  · have hsep := hgap other hother
    simp only [Separated] at hsep
    omega

theorem Canonical.covers_rest (h : Canonical (interval :: rest)) (number : Nat) :
    Covers rest number ↔ Covers (interval :: rest) number ∧ interval.hi < number := by
  obtain ⟨-, -, hgap⟩ := canonical_cons.mp h
  rw [covers_cons]
  constructor
  · rintro ⟨other, hother, hcover⟩
    have hsep := hgap other hother
    simp only [Separated] at hsep
    exact ⟨.inr ⟨other, hother, hcover⟩, by have := hcover.1; omega⟩
  · rintro ⟨⟨-, hupper⟩ | hcover, hlt⟩
    · omega
    · exact hcover

theorem Canonical.gap (h : Canonical (interval :: rest)) :
    ¬Covers (interval :: rest) (interval.hi + 1) := by
  obtain ⟨-, -, hgap⟩ := canonical_cons.mp h
  rw [covers_cons]
  rintro (⟨-, hupper⟩ | ⟨other, hother, hlower, -⟩)
  · omega
  · have hsep := hgap other hother
    simp only [Separated] at hsep
    omega

theorem covers_head {number : Nat} (hlower : interval.lo ≤ number)
    (hupper : number ≤ interval.hi) : Covers (interval :: rest) number :=
  (covers_cons _ _ _).mpr (.inl ⟨hlower, hupper⟩)

theorem Canonical.head_eq {first second : Span} {other : List Span}
    (hfirst : Canonical (first :: rest)) (hsecond : Canonical (second :: other))
    (h : ∀ number, Covers (first :: rest) number ↔ Covers (second :: other) number)
    : first = second := by
  have hne := (canonical_cons.mp hfirst).1
  have hne' := (canonical_cons.mp hsecond).1
  have hlo : first.lo = second.lo := by
    apply Nat.le_antisymm
    · exact hfirst.lo_le_of_covers ((h _).mpr (covers_head (le_refl _) hne'))
    · exact hsecond.lo_le_of_covers ((h _).mp (covers_head (le_refl _) hne))
  have hhi : first.hi = second.hi := by
    rcases Nat.lt_trichotomy first.hi second.hi with hlt | heq | hgt
    · exact absurd ((h _).mpr (covers_head (by omega) hlt)) hfirst.gap
    · exact heq
    · exact absurd ((h _).mp (covers_head (by omega) hgt)) hsecond.gap
  cases first
  cases second
  simp only at hlo hhi
  rw [hlo, hhi]

theorem Canonical.eq_of_covers {first second : List Span} (hfirst : Canonical first)
    (hsecond : Canonical second) (h : ∀ number, Covers first number ↔ Covers second number) :
    first = second := by
  induction first generalizing second with
  | nil =>
    cases second with
    | nil => rfl
    | cons interval rest =>
      have hne := (canonical_cons.mp hsecond).1
      exact absurd ((h _).mpr (covers_head (le_refl _) hne)) (covers_nil _)
  | cons interval rest ih =>
    cases second with
    | nil =>
      have hne := (canonical_cons.mp hfirst).1
      exact absurd ((h _).mp (covers_head (le_refl _) hne)) (covers_nil _)
    | cons interval' rest' =>
      have hhead := hfirst.head_eq hsecond h
      subst hhead
      rw [ih (canonical_cons.mp hfirst).2.1 (canonical_cons.mp hsecond).2.1]
      intro number
      rw [hfirst.covers_rest, hsecond.covers_rest, h]

/-! ## Counting -/

def total (intervals : List Span) : Nat :=
  (intervals.map fun interval => interval.hi + 1 - interval.lo).sum

theorem total_eq_card {intervals : List Span} (hcanonical : Canonical intervals)
    {numbers : Finset Nat} (h : ∀ number, Covers intervals number ↔ number ∈ numbers) :
    total intervals = numbers.card := by
  induction intervals generalizing numbers with
  | nil =>
    have hempty : numbers = ∅ := by
      apply Finset.eq_empty_of_forall_notMem
      intro number hmem
      exact covers_nil number ((h number).mpr hmem)
    simp [hempty, total]
  | cons interval rest ih =>
    have hrest := (canonical_cons.mp hcanonical).2.1
    have hsplit : numbers = Finset.Icc interval.lo interval.hi ∪
          numbers.filter (interval.hi < ·) := by
      ext number
      simp only [Finset.mem_union, Finset.mem_Icc, Finset.mem_filter]
      rw [← h number, ← hcanonical.covers_rest, covers_cons]
      rfl
    have htail : ∀ number, Covers rest number ↔ number ∈ numbers.filter (interval.hi < ·) := by
      intro number
      rw [Finset.mem_filter, ← h number, hcanonical.covers_rest]
    have hdisjoint : Disjoint (Finset.Icc interval.lo interval.hi)
        (numbers.filter (interval.hi < ·)) := by
      rw [Finset.disjoint_left]
      intro number hin hout
      rw [Finset.mem_Icc] at hin
      rw [Finset.mem_filter] at hout
      omega
    have hcount : total (interval :: rest) = (interval.hi + 1 - interval.lo) + total rest := by
      simp [total]
    rw [hcount, ih hrest htail]
    conv_rhs => rw [hsplit]
    rw [Finset.card_union_of_disjoint hdisjoint, Nat.card_Icc]

end Intervals
