import Mathlib.Data.List.Basic
import Mathlib.Tactic.Common

/-!
# Slices of one array

A program that divides a block of memory among several slices and writes to
one while it reads another.  Every access is checked against the slice and the
array; one that is out of bounds is a panic.  A slice may not be extended
again, which the language would allow up to its capacity.
-/

namespace Slices

inductive Panic where
  | indexOutOfRange
  | sliceBoundsOutOfRange
  deriving DecidableEq, Repr

abbrev Memory := List UInt8

structure Slice where
  offset : Nat
  length : Nat
  deriving DecidableEq, Repr

namespace Slice

def subslice (s : Slice) (low high : Nat) : Except Panic Slice :=
  if low ≤ high ∧ high ≤ s.length then
    .ok
      { offset := s.offset + low, length := high - low }
  else .error .sliceBoundsOutOfRange

def bytes (s : Slice) (memory : Memory) : List UInt8 := (memory.drop s.offset).take s.length

def read (s : Slice) (memory : Memory) (index : Nat) : Except Panic UInt8 :=
  if index < s.length then
    match memory[s.offset + index]? with
    | some byte => .ok byte
    | none => .error .indexOutOfRange
  else .error .indexOutOfRange

def write (s : Slice) (memory : Memory) (data : List UInt8) : Except Panic Memory :=
  if data.length ≤ s.length ∧ s.offset + s.length ≤ memory.length then
    .ok (memory.take s.offset ++ data ++ memory.drop (s.offset + data.length))
  else .error .indexOutOfRange

def copy (s : Slice) (memory : Memory) (data : List UInt8) : Memory × Nat :=
  let count := min s.length data.length
  (memory.take s.offset ++ data.take count ++ memory.drop (s.offset + count), count)

end Slice

section

variable (front inner back : Memory)

theorem subslice_ok {s : Slice} {low high : Nat} (hlow : low ≤ high) (hhigh : high ≤ s.length) :
    s.subslice low high = .ok ⟨s.offset + low, high - low⟩ := by
  rw [Slice.subslice, if_pos ⟨hlow, hhigh⟩]

theorem bytes_append : Slice.bytes ⟨front.length, inner.length⟩ (front ++ inner ++ back) =
      inner := by
  rw [Slice.bytes, List.append_assoc, List.drop_left, List.take_left]

theorem read_append {index : Nat} (h : index < inner.length) :
    Slice.read ⟨front.length, inner.length⟩ (front ++ inner ++ back) index = .ok inner[index] := by
  have hget : (front ++ inner ++ back)[front.length + index]? = some inner[index] := by
    rw [List.append_assoc, List.getElem?_append_right (by omega),
      Nat.add_sub_cancel_left, List.getElem?_append_left h,
      List.getElem?_eq_getElem h]
  rw [Slice.read, if_pos h]
  rw [hget]

theorem write_append {data : List UInt8} (h : data.length ≤ back.length) :
    Slice.write ⟨front.length, back.length⟩ (front ++ back) data =
      .ok (front ++ data ++ back.drop data.length) := by
  rw [Slice.write, if_pos ⟨h, by simp⟩]
  simp only [List.take_left, List.drop_append]
  rw [List.drop_eq_nil_of_le (by omega), Nat.add_sub_cancel_left, List.nil_append]

theorem copy_append (data : List UInt8) :
    Slice.copy ⟨front.length, inner.length⟩ (front ++ inner ++ back) data =
      (front ++ (data.take inner.length ++ inner.drop data.length) ++ back,
        min inner.length data.length) := by
  have hinner : inner.drop (min inner.length data.length) = inner.drop data.length := by
    rcases Nat.le_total inner.length data.length with h | h
    · rw [Nat.min_eq_left h, List.drop_length, List.drop_eq_nil_of_le h]
    · rw [Nat.min_eq_right h]
  have hdata : data.take (min inner.length data.length) = data.take inner.length := by
    rcases Nat.le_total inner.length data.length with h | h
    · rw [Nat.min_eq_left h]
    · rw [Nat.min_eq_right h, List.take_length, List.take_of_length_le h]
  simp only [Slice.copy]
  rw [List.append_assoc front, List.take_left, List.drop_append,
    List.drop_eq_nil_of_le (by omega), Nat.add_sub_cancel_left,
    List.nil_append, List.drop_append_of_le_length (Nat.min_le_left _ _),
    hinner, hdata]
  simp

end

end Slices
