import Mathlib.Algebra.Ring.Int.Defs
import Mathlib.Tactic.SplitIfs

/-!
# The calendar

Days are numbered from the first day of the year one in the Gregorian calendar,
which is extended to all years.  The year a day falls in is found by taking off
cycles of four hundred, one hundred, four and one years; the last century of
four and the last year of four are the longer ones.
-/

namespace Calendar

structure Date where
  year : Nat
  month : Nat
  day : Nat
  deriving DecidableEq, Repr

def isLeap (year : Nat) : Bool := year % 4 = 0 ∧ (year % 100 ≠ 0 ∨ year % 400 = 0)

def daysIn (year month : Nat) : Nat :=
  if month = 1 then if isLeap year then 29 else 28
  else if month ∈ [3, 5, 8, 10] then 30
  else 31

def daysBeforeMonth (year : Nat) : Nat → Nat
  | 0 => 0
  | month + 1 => daysBeforeMonth year month + daysIn year month

def daysBeforeYear (year : Nat) : Int :=
  365 * ((year : Int) - 1) + ((year : Int) - 1) / 4 -
    ((year : Int) - 1) / 100 + ((year : Int) - 1) / 400

namespace Date

structure Valid (date : Date) : Prop where
  month_lt : date.month < 12
  day_pos : 0 < date.day
  day_le : date.day ≤ daysIn date.year date.month

instance (date : Date) : Decidable date.Valid := decidable_of_iff
    (date.month < 12 ∧ 0 < date.day ∧ date.day ≤ daysIn date.year date.month)
    ⟨fun ⟨hmonth, hpos, hle⟩ => ⟨hmonth, hpos, hle⟩, fun ⟨hmonth, hpos, hle⟩ => ⟨hmonth, hpos, hle⟩⟩

def number (date : Date) : Int :=
  daysBeforeYear date.year + daysBeforeMonth date.year date.month + date.day - 1

end Date

/-! ## From a number to a date -/

def splitYear (number : Nat) : Nat × Nat :=
  let inCycle := number % 146097
  let century := if inCycle / 36524 = 4 then 3 else inCycle / 36524
  let inCentury := inCycle - 36524 * century
  let inFour := inCentury % 1461
  let year := if inFour / 365 = 4 then 3 else inFour / 365
  (400 * (number / 146097) + 100 * century + 4 * (inCentury / 1461) + year + 1, inFour - 365 * year)

def splitMonth (year : Nat) : Nat → Nat → Nat → Nat × Nat
  | 0, month, days => (month, days)
  | left + 1, month, days =>
    if days < daysIn year month then (month, days)
    else splitMonth year left (month + 1) (days - daysIn year month)

def dateOf (number : Nat) : Date :=
  match splitYear number with
  | (year, days) =>
    match splitMonth year 12 0 days with
    | (month, days) => ⟨year, month, days + 1⟩

theorem daysBeforeMonth_twelve (year : Nat) :
    daysBeforeMonth year 12 = if isLeap year then 366 else 365 := by
  simp only [daysBeforeMonth, daysIn]
  cases isLeap year <;> rfl

theorem splitMonth_spec {year left month days : Nat}
    (h : daysBeforeMonth year month + days < daysBeforeMonth year (month + left)) :
    (splitMonth year left month days).1 < month + left ∧ (splitMonth year left month days).2 <
        daysIn year (splitMonth year left month days).1 ∧
      daysBeforeMonth year (splitMonth year left month days).1 +
          (splitMonth year left month days).2 =
        daysBeforeMonth year month + days := by
  induction left generalizing month days with
  | zero =>
    rw [Nat.add_zero] at h
    omega
  | succ left ih =>
    rw [splitMonth]
    split_ifs with hlt
    · exact ⟨by omega, hlt, rfl⟩
    · have hnext : daysBeforeMonth year (month + 1) =
          daysBeforeMonth year month + daysIn year month := rfl
      rw [show month + (left + 1) = month + 1 + left by omega] at h ⊢
      have hless : daysBeforeMonth year (month + 1) + (days - daysIn year month) <
            daysBeforeMonth year (month + 1 + left) := by omega
      obtain ⟨hmonth, hdays, hsum⟩ := ih hless
      exact ⟨hmonth, hdays, by omega⟩

/-- A day by the cycles of years it lies behind; the last day of a leap year is
the only one left over. -/
def Cycles (number year days : Nat) : Prop :=
  ∃ cycle century four single, century ≤ 3 ∧ four ≤ 24 ∧ single ≤ 3 ∧
    year = 400 * cycle + 100 * century + 4 * four + single + 1 ∧
    number = 146097 * cycle + 36524 * century + 1461 * four + 365 * single + days ∧
    (days < 365 ∨ days = 365 ∧ single = 3 ∧ (four = 24 → century = 3))

theorem splitYear_cycles (number : Nat) :
    Cycles number (splitYear number).1 (splitYear number).2 := by
  refine ⟨number / 146097, _, _, _, ?_, ?_, ?_, rfl, ?_, ?_⟩
  · split_ifs <;> omega
  · split_ifs <;> omega
  · split_ifs <;> omega
  · simp only [splitYear]
    split_ifs <;> omega
  · simp only [splitYear]
    split_ifs <;> omega

theorem daysBeforeYear_cycles {cycle century four single : Nat}
    (hcentury : century ≤ 3) (hfour : four ≤ 24) (hsingle : single ≤ 3) :
    daysBeforeYear (400 * cycle + 100 * century + 4 * four + single + 1) =
      146097 * cycle + 36524 * century + 1461 * four + 365 * single := by
  have h4 : ((400 * cycle + 100 * century + 4 * four + single : Nat) : Int) /
      4 = 100 * cycle + 25 * century + four := by omega
  have h100 : ((400 * cycle + 100 * century + 4 * four + single : Nat) : Int) /
      100 = 4 * cycle + century := by omega
  have h400 : ((400 * cycle + 100 * century + 4 * four + single : Nat) : Int) /
      400 = cycle := by omega
  rw [daysBeforeYear, Nat.cast_succ, add_sub_cancel_right, h4, h100, h400]
  omega

theorem splitYear_sum (number : Nat) :
    daysBeforeYear (splitYear number).1 + (splitYear number).2 = number := by
  obtain ⟨cycle, century, four, single, hcentury, hfour, hsingle, hyear,
    hnumber, -⟩ := splitYear_cycles number
  have hdays := @daysBeforeYear_cycles cycle century four single hcentury hfour hsingle
  rw [hyear, hdays]
  omega

theorem splitYear_days (number : Nat) :
    (splitYear number).2 < daysBeforeMonth (splitYear number).1 12 := by
  obtain ⟨cycle, century, four, single, hcentury, hfour, hsingle, hyear,
    hnumber, hdays⟩ := splitYear_cycles number
  rw [daysBeforeMonth_twelve]
  rcases hdays with hlt | ⟨hlast, hthird, hcenturies⟩
  · split_ifs <;> omega
  · have hleap : isLeap (splitYear number).1 = true := by
      rw [isLeap, decide_eq_true_eq]
      omega
    rw [if_pos hleap]
    omega

theorem dateOf_valid (number : Nat) : (dateOf number).Valid := by
  have hdays := splitYear_days number
  obtain ⟨hmonth, hday, -⟩ :=
    @splitMonth_spec (splitYear number).1 12 0 (splitYear number).2
      (by simpa [daysBeforeMonth] using hdays)
  exact ⟨by simpa [dateOf] using hmonth, Nat.succ_pos _, hday⟩

theorem number_dateOf (number : Nat) : (dateOf number).number = number := by
  have hdays := splitYear_days number
  obtain ⟨-, -, hsum⟩ :=
    @splitMonth_spec (splitYear number).1 12 0 (splitYear number).2
      (by simpa [daysBeforeMonth] using hdays)
  have hyear := splitYear_sum number
  rw [show daysBeforeMonth (splitYear number).1 0 = 0 from rfl, Nat.zero_add] at hsum
  simp only [dateOf, Date.number]
  omega

theorem year_dateOf_lt {number year : Nat} (h : (number : Int) < daysBeforeYear year) :
    (dateOf number).year < year := by
  have hsum := splitYear_sum number
  change (splitYear number).1 < year
  simp only [daysBeforeYear] at h hsum
  omega

end Calendar
