import GoImap.Lib.Calendar
import GoImap.NumSet.Text
import GoImap.Wire.Strings
import Mathlib.Tactic.IntervalCases

/-!
# Dates on the wire

A date is written as its day, the first letters of its month and its year, and
read in any case of these letters and with a day of one or two digits.
-/

namespace GoImap.Internal

open Wire Calendar

def monthNames : List Bytes :=
  ["Jan", "Feb", "Mar", "Apr", "May", "Jun", "Jul", "Aug", "Sep", "Oct", "Nov", "Dec"].map ascii

def formatDate (date : Date) : Bytes :=
  formatUint date.day ++ minus :: (monthNames.getD date.month [] ++
    minus :: (List.replicate (4 - (formatUint date.year).length) zero ++ formatUint date.year))

/-! ## Reading -/

/-- `getnum`, for one digit or two. -/
def getNum : Bytes → Option (Nat × Bytes)
  | [] => none
  | [first] => if isDigit first then some (decimal [first], []) else none
  | first :: second :: rest =>
    if !isDigit first then none
    else if !isDigit second then some (decimal [first], second :: rest)
    else some (decimal [first, second], rest)

def skipMinus : Bytes → Option Bytes
  | [] => none
  | first :: rest => if first = minus then some rest else none

def sameLetter (c₁ c₂ : UInt8) : Bool :=
  c₁ = c₂ ∨ (c₁ ||| 32 = c₂ ||| 32 ∧ 97 ≤ c₁ ||| 32 ∧ c₁ ||| 32 ≤ 122)

def sameLetters (s₁ s₂ : Bytes) : Bool := (s₁.zip s₂).all fun (c₁, c₂) => sameLetter c₁ c₂

def lookupMonth (s : Bytes) : Option (Nat × Bytes) :=
  match monthNames.findIdx? fun name =>
      name.length ≤ s.length ∧ sameLetters (s.take name.length) name with
  | none => none
  | some month => some (month, s.drop (monthNames.getD month []).length)

def getYear (s : Bytes) : Option (Nat × Bytes) :=
  if s.length < 4 ∨ !(s.take 4).all isDigit then none
  else some (decimal (s.take 4), s.drop 4)

/-- `time.Parse` with `DateLayout`. -/
def parseDate (s : Bytes) : Option Date := do
  let (day, s) ← getNum s
  let s ← skipMinus s
  let (month, s) ← lookupMonth s
  let s ← skipMinus s
  let (year, s) ← getYear s
  let date : Date := ⟨year, month, day⟩
  if s = [] ∧ date.Valid then some date else none

/-- `%q`, which quotes the text, is left out of the error. -/
def expectDate (options : Options) (dec : Decoder) : Except (Option DecoderError) Date × Decoder :=
  match dec.expectAString options with
  | (none, dec) => (.error dec.err, dec)
  | (some s, dec) =>
    match parseDate s with
    | none => (.error (some (.expect "invalid date")), dec)
    | some date => (.ok date, dec)

/-! ## What is written is read -/

theorem length_formatUint_le {value width : Nat} (h : value < 10 ^ (width + 1)) :
    (formatUint value).length ≤ width + 1 := by
  induction width generalizing value with
  | zero =>
    rw [formatUint_eq, if_pos (by omega)]
    simp
  | succ width ih =>
    rw [formatUint_eq, List.length_append]
    split_ifs with hsmall
    · simp
    · have hfront : value / 10 < 10 ^ (width + 1) := by
        rw [Nat.div_lt_iff_lt_mul (by omega), ← Nat.pow_succ]
        exact h
      simpa using ih hfront

theorem decimal_replicate_zero (count : Nat) (digits : Bytes) :
    decimal (List.replicate count zero ++ digits) = decimal digits := by
  induction count with
  | zero => rfl
  | succ count ih =>
    rw [List.replicate_succ, List.cons_append, ← ih]
    rfl

theorem getNum_formatUint {day : Nat} (h : day < 100) (rest : Bytes) :
    getNum (formatUint day ++ minus :: rest) = some (day, minus :: rest) := by
  have hminus : isDigit minus = false := by decide
  have hvalue := decimal_formatUint day
  have hdigits := @isDigit_of_mem_formatUint day
  have hlength := @length_formatUint_le day 1 h
  have hne := formatUint_ne_nil day
  generalize formatUint day = digits at *
  match digits, hne, hlength with
  | [first], _, _ => simp [getNum, hdigits, hminus, hvalue]
  | [first, second], _, _ => simp [getNum, hdigits, hvalue]

theorem lookupMonth_name {month : Nat} (h : month < 12) (rest : Bytes) :
    lookupMonth (monthNames.getD month [] ++ minus :: rest) = some (month, minus :: rest) := by
  interval_cases month <;> rfl

theorem getYear_padded {year : Nat} (h : year < 10000) :
    getYear (List.replicate (4 - (formatUint year).length) zero ++
      formatUint year) = some (year, []) := by
  have hlength := @length_formatUint_le year 3 h
  have hfour : (List.replicate (4 - (formatUint year).length) zero ++
      formatUint year).length = 4 := by
    rw [List.length_append, List.length_replicate]
    omega
  have hdigits : (List.replicate (4 - (formatUint year).length) zero ++
      formatUint year).all isDigit = true := by
    simp only [List.all_append, List.all_replicate, Bool.and_eq_true, List.all_eq_true]
    refine ⟨?_, fun _ => isDigit_of_mem_formatUint⟩
    split_ifs
    · rfl
    · decide
  rw [getYear, List.take_of_length_le (Nat.le_of_eq hfour),
    List.drop_of_length_le (Nat.le_of_eq hfour), hdigits,
    decimal_replicate_zero, decimal_formatUint, if_neg (by simp [hfour])]

theorem day_lt_of_valid {date : Date} (hvalid : date.Valid) : date.day < 100 := by
  have hle := hvalid.day_le
  unfold daysIn at hle
  split_ifs at hle <;> omega

theorem length_monthName (month : Nat) : (monthNames.getD month []).length ≤ 3 := by
  by_cases hmonth : month < 12
  · interval_cases month <;> decide
  · rw [List.getD_eq_default _ _ (by simpa [monthNames] using hmonth)]
    exact Nat.zero_le 3

theorem length_formatDate {date : Date} (hvalid : date.Valid)
    (hyear : date.year < 10000) : (formatDate date).length ≤ 11 := by
  have hday := @length_formatUint_le date.day 1 (day_lt_of_valid hvalid)
  have hmonth := length_monthName date.month
  have hfour := @length_formatUint_le date.year 3 hyear
  simp only [formatDate, List.length_append, List.length_cons, List.length_replicate]
  omega

theorem parseDate_formatDate {date : Date} (hvalid : date.Valid) (hyear : date.year < 10000) :
    parseDate (formatDate date) = some date := by
  simp only [parseDate, formatDate, getNum_formatUint (day_lt_of_valid hvalid), Option.bind_eq_bind,
    Option.bind_some, skipMinus, if_true, lookupMonth_name hvalid.month_lt, getYear_padded hyear]
  simp [hvalid]

end GoImap.Internal
