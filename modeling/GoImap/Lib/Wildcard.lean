import Mathlib.Data.List.Infix
import Mathlib.Tactic.Common

/-!
# Patterns with wildcards

A pattern is a list of letters and wildcards.  A wildcard absorbs a part of the
word, either any or only one without a delimiter in it.  For a delimiter of one
letter at most, wildcards next to each other do what one of them does.
-/

namespace Wildcard

variable {α : Type*}

/-- A wildcard absorbs anything if it is a star. -/
inductive Token (α : Type*) where
  | letter (a : α)
  | wild (star : Bool)

/-- A word without a letter contains no delimiter, not even the empty one. -/
def Absorbs (delim : List α) (star : Bool) (gap : List α) : Prop :=
  star = true ∨ delim = [] ∨ ¬delim <:+: gap

inductive Matches (delim : List α) : List (Token α) → List α → Prop where
  | nil : Matches delim [] []
  | letter {a : α} {tokens : List (Token α)} {word : List α} (h : Matches delim tokens word) :
      Matches delim (.letter a :: tokens) (a :: word)
  | wild {star : Bool} {tokens : List (Token α)} {gap word : List α}
      (hgap : Absorbs delim star gap) (h : Matches delim tokens word) :
      Matches delim (.wild star :: tokens) (gap ++ word)

section

variable {delim : List α} {tokens : List (Token α)} {word : List α}

theorem absorbs_nil (star : Bool) : Absorbs delim star [] := by
  by_cases hdelim : delim = []
  · exact .inr (.inl hdelim)
  · exact .inr (.inr fun h => hdelim (List.infix_nil.mp h))

theorem matches_nil_iff : Matches delim [] word ↔ word = [] := by
  constructor
  · rintro ⟨⟩
    rfl
  · rintro rfl
    exact .nil

theorem matches_letter_iff {a : α} : Matches delim (.letter a :: tokens) word ↔
      ∃ rest, word = a :: rest ∧ Matches delim tokens rest := by
  constructor
  · intro h
    cases h with
    | letter h => exact ⟨_, rfl, h⟩
  · rintro ⟨rest, rfl, h⟩
    exact .letter h

theorem matches_wild_iff {star : Bool} : Matches delim (.wild star :: tokens) word ↔
      ∃ gap rest, word = gap ++ rest ∧ Absorbs delim star gap ∧ Matches delim tokens rest := by
  constructor
  · intro h
    cases h with
    | wild hgap h => exact ⟨_, _, rfl, hgap, h⟩
  · rintro ⟨gap, rest, rfl, hgap, h⟩
    exact .wild hgap h

end

/-! ## Runs of wildcards -/

def merge : List (Token α) → List (Token α)
  | [] => []
  | .letter a :: tokens => .letter a :: merge tokens
  | .wild star :: tokens =>
    match merge tokens with
    | .wild other :: rest => .wild (star || other) :: rest
    | rest => .wild star :: rest

section

variable {delim : List α}

theorem absorbs_append (hdelim : delim.length ≤ 1) {first second : Bool} {gap other : List α}
    (hgap : Absorbs delim first gap) (hother : Absorbs delim second other) :
    Absorbs delim (first || second) (gap ++ other) := by
  rcases hgap with hfirst | hempty | hgap
  · exact .inl (by simp [hfirst])
  · exact .inr (.inl hempty)
  · rcases hother with hsecond | hempty | hother
    · exact .inl (by simp [hsecond])
    · exact .inr (.inl hempty)
    · right
      cases delim with
      | nil => exact absurd List.nil_infix hgap
      | cons a rest =>
        have hrest : rest = [] := by
          simpa using hdelim
        subst hrest
        rw [List.singleton_infix_iff] at hgap hother ⊢
        simp [hgap, hother]

theorem matches_wild_wild (hdelim : delim.length ≤ 1) (first second : Bool)
    (tokens : List (Token α)) (word : List α) :
    Matches delim (.wild first :: .wild second :: tokens) word ↔
      Matches delim (.wild (first || second) :: tokens) word := by
  rw [matches_wild_iff, matches_wild_iff]
  constructor
  · rintro ⟨gap, rest, rfl, hgap, h⟩
    obtain ⟨other, rest, rfl, hother, h⟩ := matches_wild_iff.mp h
    exact ⟨gap ++ other, rest, by simp, absorbs_append hdelim hgap hother, h⟩
  · rintro ⟨gap, rest, rfl, hgap, h⟩
    cases first with
    | true =>
      exact ⟨gap, rest, rfl, .inl rfl, matches_wild_iff.mpr ⟨[], rest, rfl, absorbs_nil second, h⟩⟩
    | false =>
      exact ⟨[], gap ++ rest, rfl, absorbs_nil false,
        matches_wild_iff.mpr ⟨gap, rest, rfl, hgap, h⟩⟩

theorem matches_merge (hdelim : delim.length ≤ 1) (tokens : List (Token α)) (word : List α) :
    Matches delim (merge tokens) word ↔ Matches delim tokens word := by
  induction tokens generalizing word with
  | nil => rfl
  | cons token tokens ih =>
    cases token with
    | letter a => simp only [merge, matches_letter_iff, ih]
    | wild star =>
      have hstep : Matches delim (.wild star :: merge tokens) word ↔
          Matches delim (.wild star :: tokens) word := by
        simp [matches_wild_iff, ih]
      rw [← hstep, merge]
      cases hmerge : merge tokens with
      | nil => rfl
      | cons next rest =>
        cases next with
        | letter a => rfl
        | wild other =>
          exact (matches_wild_wild hdelim star other rest word).symm

end

/-! ## Letters -/

def letters : List (Token α) → Nat
  | [] => 0
  | .letter _ :: tokens => letters tokens + 1
  | .wild _ :: tokens => letters tokens

theorem letters_merge (tokens : List (Token α)) : letters (merge tokens) = letters tokens := by
  induction tokens with
  | nil => rfl
  | cons token tokens ih =>
    cases token with
    | letter a => simp [merge, letters, ih]
    | wild star =>
      rw [letters, ← ih, merge]
      cases merge tokens with
      | nil => rfl
      | cons next rest =>
        cases next with
        | letter a | wild other => rfl

theorem length_merge_le (tokens : List (Token α)) :
    (merge tokens).length ≤ 2 * letters tokens + 1 := by
  have hall : (merge tokens).length ≤ 2 * letters tokens ∨
      (merge tokens).length = 2 * letters tokens + 1 ∧
        ∃ star rest, merge tokens = .wild star :: rest := by
    induction tokens with
    | nil => exact .inl (Nat.le_refl _)
    | cons token tokens ih =>
      cases token with
      | letter a =>
        left
        simp only [merge, letters, List.length_cons]
        omega
      | wild star =>
        rw [merge, letters]
        rcases hmerge : merge tokens with _ | ⟨_ | other, rest⟩
        all_goals simp_all
        all_goals omega
  omega

theorem letters_le {delim : List α} {tokens : List (Token α)} {word : List α}
    (h : Matches delim tokens word) : letters tokens ≤ word.length := by
  induction h with
  | nil => exact Nat.le_refl _
  | letter h ih => simpa [letters] using ih
  | wild hgap h ih =>
    rw [letters, List.length_append]
    omega

theorem merge_letters (word : List α) : merge (word.map Token.letter) = word.map Token.letter := by
  induction word with
  | nil => rfl
  | cons a word ih => simp [merge, ih]

theorem matches_letters_append {delim : List α} (letters : List α)
    (tokens : List (Token α)) (word : List α) :
    Matches delim (letters.map Token.letter ++ tokens) word ↔
      ∃ rest, word = letters ++ rest ∧ Matches delim tokens rest := by
  induction letters generalizing word with
  | nil => simp
  | cons a letters ih =>
    rw [List.map_cons, List.cons_append, matches_letter_iff]
    constructor
    · rintro ⟨rest, rfl, h⟩
      obtain ⟨after, rfl, hafter⟩ := (ih rest).mp h
      exact ⟨after, rfl, hafter⟩
    · rintro ⟨rest, rfl, h⟩
      exact ⟨letters ++ rest, rfl, (ih _).mpr ⟨rest, rfl, h⟩⟩

/-! ## Parts of a word -/

def slice (word : List α) (start stop : Nat) : List α := (word.drop start).take (stop - start)

def EndsAt (delim word : List α) (stop : Nat) : Prop :=
  delim.length ≤ stop ∧ slice word (stop - delim.length) stop = delim

section

variable {delim word : List α} {start stop : Nat}

theorem length_slice (hstop : stop ≤ word.length) :
    (slice word start stop).length = stop - start := by
  simp [slice]
  omega

theorem slice_self (word : List α) (position : Nat) : slice word position position = [] := by
  simp [slice]

theorem slice_succ (hle : start ≤ stop) (hstop : stop < word.length) :
    slice word start (stop + 1) = slice word start stop ++ [word[stop]] := by
  rw [slice, slice, Nat.succ_sub hle, List.take_add_one, List.getElem?_drop,
    Nat.add_sub_cancel' hle, List.getElem?_eq_getElem hstop]
  rfl

theorem suffix_slice_iff (hstop : stop ≤ word.length) (hdelim : delim ≠ []) :
    delim <:+ slice word start stop ↔ start + delim.length ≤ stop ∧ EndsAt delim word stop := by
  rw [List.suffix_iff_eq_drop, length_slice hstop]
  have hpos := List.length_pos_iff.mpr hdelim
  by_cases hfits : start + delim.length ≤ stop
  · have hdrop : (slice word start stop).drop (stop - start - delim.length) =
        slice word (stop - delim.length) stop := by
      have hstart : start + (stop - start - delim.length) = stop - delim.length := by omega
      have hcount : stop - start - (stop - start - delim.length) =
          stop - (stop - delim.length) := by omega
      rw [slice, slice, List.drop_take, List.drop_drop, hstart, hcount]
    rw [hdrop, EndsAt]
    exact ⟨fun h => ⟨hfits, by omega, h.symm⟩, fun h => h.2.2.symm⟩
  · constructor
    · intro h
      have hlength := congrArg List.length h
      rw [List.length_drop, length_slice hstop] at hlength
      omega
    · rintro ⟨h, -⟩
      exact absurd h hfits

theorem drop_eq_slice_append (hle : start ≤ stop) :
    word.drop start = slice word start stop ++ word.drop stop := by
  have hdrop := List.take_append_drop (stop - start) (word.drop start)
  rw [List.drop_drop, Nat.add_sub_cancel' hle] at hdrop
  exact hdrop.symm

theorem absorbs_slice_succ (hle : start ≤ stop) (hstop : stop < word.length) (star : Bool)
    (hends : star = false → delim ≠ [] → ¬EndsAt delim word (stop + 1)) :
    Absorbs delim star (slice word start (stop + 1)) ↔
      Absorbs delim star (slice word start stop) := by
  cases star with
  | true => simp [Absorbs]
  | false =>
    by_cases hdelim : delim = []
    · simp [Absorbs, hdelim]
    · have hsuffix : ¬delim <:+ slice word start (stop + 1) := by
        rw [suffix_slice_iff (by omega) hdelim]
        exact fun h => hends rfl hdelim h.2
      rw [slice_succ hle hstop] at hsuffix ⊢
      simp [Absorbs, List.infix_concat_iff, hsuffix]

theorem absorbs_slice_of_endsAt (hstop : stop ≤ word.length)
    (hdelim : delim ≠ []) (hends : EndsAt delim word stop) :
    Absorbs delim false (slice word start stop) ↔ stop < start + delim.length := by
  constructor
  · rintro (hstar | hempty | hinfix)
    · cases hstar
    · exact absurd hempty hdelim
    · by_contra hfits
      exact hinfix ((suffix_slice_iff hstop hdelim).mpr ⟨by omega, hends⟩).isInfix
  · intro hshort
    refine .inr (.inr fun hinfix => ?_)
    have hpos := List.length_pos_iff.mpr hdelim
    have hlength := hinfix.length_le
    rw [length_slice hstop] at hlength
    omega

end

end Wildcard
