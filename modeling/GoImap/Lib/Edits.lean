import Mathlib.Data.List.Basic
import Mathlib.Data.List.Induction
import Mathlib.Tactic.Common

/-!
# Positional edit scripts

Two parties hold copies of one list.  The leading copy changes by removing the
entry at a position or by appending entries at the end, and the trailing copy
is brought up to date by replaying the same edits later.  While edits are
outstanding, a position of the trailing copy and a position of the leading
copy name the same entry exactly when `forward` and `backward` relate them.
-/

namespace Edits

universe u

variable {α : Type u} {position target size : Nat}

inductive Edit (α : Type u) where
  | remove (index : Nat)
  | append (items : List α)
  | keep

variable {edit : Edit α} {entries : List α}

namespace Edit

def apply : Edit α → List α → List α
  | .remove index, entries => entries.eraseIdx index
  | .append items, entries => entries ++ items
  | .keep, entries => entries

def resize : Edit α → Nat → Nat
  | .remove _, size => size - 1
  | .append items, size => size + items.length
  | .keep, size => size

def Fits : Edit α → Nat → Prop
  | .remove index, size => index < size
  | .append _, _ => True
  | .keep, _ => True

def forward : Edit α → Nat → Option Nat
  | .remove index, position =>
    if position = index then none
    else if index < position then some (position - 1)
    else some position
  | .append _, position => some position
  | .keep, position => some position

def backward : Edit α → Nat → Nat → Option Nat
  | .remove index, _, position =>
    some (if index ≤ position then position + 1 else position)
  | .append _, size, position =>
    if size ≤ position then none else some position
  | .keep, _, position => some position

def origin : Edit α → Nat → Nat
  | .remove index, position =>
    if index ≤ position then position + 1 else position
  | .append _, position => position
  | .keep, position => position

theorem forward_eq_some_iff :
    edit.forward position = some target ↔ position = edit.origin target := by
  cases edit with
  | remove index =>
    simp only [forward, origin]
    split_ifs <;> simp <;> omega
  | append items | keep => simp [forward, origin]

theorem length_apply (h : edit.Fits entries.length) :
    (edit.apply entries).length = edit.resize entries.length := by
  cases edit with
  | remove index =>
    simp only [Fits] at h
    simp [apply, resize, List.length_eraseIdx, h]
  | append items => simp [apply, resize]
  | keep => rfl

theorem backward_of_forward (hfits : edit.Fits size)
    (hposition : position < size) (h : edit.forward position = some target) :
    target < edit.resize size ∧ edit.backward size target = some position := by
  cases edit with
  | remove index =>
    simp only [Fits] at hfits
    simp only [forward] at h
    split_ifs at h with heq hlt
    · cases h
      simp only [resize, backward, Option.some.injEq]
      split_ifs <;> omega
    · cases h
      simp only [resize, backward, Option.some.injEq]
      split_ifs <;> omega
  | append items =>
    cases h
    simp only [resize, backward]
    rw [if_neg (by omega)]
    exact ⟨by omega, rfl⟩
  | keep =>
    cases h
    exact ⟨hposition, rfl⟩

theorem forward_of_backward (hfits : edit.Fits size) (htarget : target < edit.resize size)
    (h : edit.backward size target = some position) :
    position < size ∧ edit.forward position = some target := by
  cases edit with
  | remove index =>
    simp only [resize] at htarget
    simp only [backward, Option.some.injEq] at h
    subst h
    simp only [forward]
    split_ifs <;> first | omega | exact ⟨by omega, by simp⟩
  | append items =>
    simp only [backward] at h
    split_ifs at h with hle
    cases h
    exact ⟨by omega, rfl⟩
  | keep =>
    cases h
    exact ⟨htarget, rfl⟩

theorem getElem?_apply (hposition : position < entries.length)
    (h : edit.forward position = some target) :
    (edit.apply entries)[target]? = entries[position]? := by
  cases edit with
  | remove index =>
    simp only [forward] at h
    split_ifs at h with heq hlt
    · cases h
      rw [apply, List.getElem?_eraseIdx, if_neg (by omega)]
      congr 1
      omega
    · cases h
      rw [apply, List.getElem?_eraseIdx, if_pos (by omega)]
  | append items =>
    cases h
    rw [apply, List.getElem?_append_left hposition]
  | keep =>
    cases h
    rfl

end Edit

/-! ## Scripts -/

def applyAll (script : List (Edit α)) (entries : List α) : List α :=
  script.foldl (fun current edit => edit.apply current) entries

def resizeAll (script : List (Edit α)) (size : Nat) : Nat :=
  script.foldl (fun current edit => edit.resize current) size

def FitsAll : List (Edit α) → Nat → Prop
  | [], _ => True
  | edit :: rest, size => edit.Fits size ∧ FitsAll rest (edit.resize size)

def forwardAll : List (Edit α) → Nat → Option Nat
  | [], position => some position
  | edit :: rest, position => (edit.forward position).bind (forwardAll rest)

def backwardAll : List (Edit α) → Nat → Nat → Option Nat
  | [], _, position => some position
  | edit :: rest, size, position =>
    (backwardAll rest (edit.resize size) position).bind (edit.backward size)

def originAll : List (Edit α) → Nat → Nat
  | [], position => position
  | edit :: rest, position => edit.origin (originAll rest position)

variable {script : List (Edit α)}

theorem forwardAll_eq_some_iff : forwardAll script position = some target ↔
      position = originAll script target := by
  induction script generalizing position with
  | nil => simp [forwardAll, originAll]
  | cons edit rest ih =>
    simp [forwardAll, originAll, Option.bind_eq_some_iff, ih, Edit.forward_eq_some_iff]

@[simp] theorem applyAll_cons (edit : Edit α) (rest : List (Edit α)) (entries : List α) :
    applyAll (edit :: rest) entries = applyAll rest (edit.apply entries) := rfl

@[simp] theorem resizeAll_nil (size : Nat) : resizeAll ([] : List (Edit α)) size = size := rfl

@[simp] theorem resizeAll_cons (edit : Edit α) (rest : List (Edit α)) (size : Nat) :
    resizeAll (edit :: rest) size = resizeAll rest (edit.resize size) := rfl

theorem backwardAll_of_forwardAll (hfits : FitsAll script size) (hposition : position < size)
    (h : forwardAll script position = some target) :
    target < resizeAll script size ∧ backwardAll script size target = some position := by
  induction script generalizing size position with
  | nil =>
    cases h
    exact ⟨hposition, rfl⟩
  | cons edit rest ih =>
    obtain ⟨hedit, hrest⟩ := hfits
    obtain ⟨middle, hmiddle, htail⟩ := Option.bind_eq_some_iff.mp h
    obtain ⟨hlt, hback⟩ := Edit.backward_of_forward hedit hposition hmiddle
    obtain ⟨htarget, hbackAll⟩ := ih hrest hlt htail
    refine ⟨htarget, ?_⟩
    rw [backwardAll, hbackAll]
    exact hback

theorem forwardAll_of_backwardAll (hfits : FitsAll script size)
    (htarget : target < resizeAll script size)
    (h : backwardAll script size target = some position) :
    position < size ∧ forwardAll script position = some target := by
  induction script generalizing size position with
  | nil =>
    cases h
    exact ⟨htarget, rfl⟩
  | cons edit rest ih =>
    obtain ⟨hedit, hrest⟩ := hfits
    obtain ⟨middle, hmiddle, hedge⟩ := Option.bind_eq_some_iff.mp h
    obtain ⟨hlt, hforward⟩ := ih hrest htarget hmiddle
    obtain ⟨hposition, hstep⟩ := Edit.forward_of_backward hedit hlt hedge
    refine ⟨hposition, ?_⟩
    rw [forwardAll, hstep]
    exact hforward

theorem backwardAll_concat : backwardAll (script ++ [edit]) size position =
      (edit.backward (resizeAll script size) position).bind (backwardAll script size) := by
  induction script generalizing size with
  | nil => simp [backwardAll]
  | cons first rest ih => simp [backwardAll, ih, Option.bind_assoc]

theorem getElem?_applyAll (hfits : FitsAll script entries.length)
    (hposition : position < entries.length) (h : forwardAll script position = some target) :
    (applyAll script entries)[target]? = entries[position]? := by
  induction script generalizing entries position with
  | nil =>
    cases h
    rfl
  | cons edit rest ih =>
    obtain ⟨hedit, hrest⟩ := hfits
    obtain ⟨middle, hmiddle, htail⟩ := Option.bind_eq_some_iff.mp h
    have hlt := (Edit.backward_of_forward hedit hposition hmiddle).1
    rw [← Edit.length_apply hedit] at hrest hlt
    rw [applyAll_cons, ih hrest hlt htail, Edit.getElem?_apply hposition hmiddle]

end Edits
