import GoImap.Basic

/-!
# Number sets

A set of message numbers or UIDs is a list of ranges.  Zero stands for `*`, the
largest number in use: the range `n:*` has a zero `stop`, and `*` alone is zero
at both ends.  Slices are lists here, so the two ways of growing the backing
array coincide.
-/

namespace GoImap

structure NumRange where
  start : UInt32
  stop : UInt32
  deriving DecidableEq, Repr

namespace NumRange

def contains (range : NumRange) (number : UInt32) : Bool :=
  if number = 0 then range.stop = 0
  else range.start ≠ 0 ∧ range.start ≤ number ∧ (number ≤ range.stop ∨ range.stop = 0)

def less (range : NumRange) (number : UInt32) : Bool :=
  (range.stop < number ∨ number = 0) ∧ range.stop ≠ 0

/-- Merge two numeric ranges of which `first` starts at or before `second`. -/
def mergeOrdered (original first second : NumRange) : NumRange × Bool :=
  if (first.stop ≥ second.stop ∧ second.stop ≠ 0) ∨ first.stop = 0 then
    (first, true)
  else if first.stop + 1 ≥ second.start ∨ first.stop = 0xFFFFFFFF then
    (⟨first.start, second.stop⟩, true)
  else (original, false)

def merge (range other : NumRange) : NumRange × Bool :=
  if range = other then (range, true)
  else if range.start ≠ 0 ∧ other.start ≠ 0 then
    if range.start > other.start then mergeOrdered range other range
    else mergeOrdered range range other
  else if range.start = 0 then
    if other.stop = 0 then (other, true) else (range, false)
  else if range.stop = 0 then (range, true)
  else (range, false)

end NumRange

abbrev NumSet := List NumRange

namespace NumSet

/-- The binary search narrows `min` and `max`; it halves their distance. -/
def searchLoop (set : NumSet) (number : UInt32) : Nat → Nat → Nat → Nat
  | 0, min, _ => min
  | fuel + 1, min, max =>
    if min < max then
      let mid := (min + max) / 2
      if (set.getD mid ⟨0, 0⟩).less number then
        searchLoop set number fuel (mid + 1) max
      else searchLoop set number fuel min mid
    else min

def search (set : NumSet) (number : UInt32) : Nat × Bool :=
  let min := searchLoop set number set.length 0 (set.length - 1)
  if set = [] ∨ (set.getD min ⟨0, 0⟩).less number then (set.length, false)
  else (min, (set.getD min ⟨0, 0⟩).contains number)

def insertAt (set : NumSet) (index : Nat) (range : NumRange) : NumSet :=
  set.take index ++ range :: set.drop index

def mergeTail (current : NumRange) : NumSet → NumSet
  | [] => [current]
  | next :: rest =>
    match current.merge next with
    | (union, true) => mergeTail union rest
    | (_, false) => current :: next :: rest

def mergeFrom (set : NumSet) (index : Nat) (current : NumRange) : NumSet :=
  set.take index ++ mergeTail current (set.drop (index + 1))

def insert (set : NumSet) (range : NumRange) : NumSet :=
  let index := (search set range.start).1
  let previous :=
    if 0 < index then (set.getD (index - 1) ⟨0, 0⟩).merge range
    else (range, false)
  if index = set.length then
    if previous.2 then set.set (index - 1) previous.1
    else insertAt set index range
  else if previous.2 then mergeFrom set (index - 1) previous.1
  else
    let found := (set.getD index ⟨0, 0⟩).merge range
    if found.2 then mergeFrom set index found.1
    else insertAt set index range

def addNum (set : NumSet) (number : UInt32) : NumSet := insert set ⟨number, number⟩

def addRange (set : NumSet) (start stop : UInt32) : NumSet :=
  if (stop < start ∧ stop ≠ 0) ∨ start = 0 then insert set ⟨stop, start⟩
  else insert set ⟨start, stop⟩

def addSet (set other : NumSet) : NumSet := other.foldl insert set

def isDynamic (set : NumSet) : Bool :=
  match set.getLast? with
  | none => false
  | some range => range.stop = 0

def contains (set : NumSet) (number : UInt32) : Bool := (search set number).2 && number != 0

def cardinalityLoop : NumSet → UInt64 → UInt64
  | [], count => count
  | range :: rest, count =>
    if range.start = 0 ∨ range.stop = 0 then 0xFFFFFFFFFFFFFFFF
    else
      cardinalityLoop rest (count + (range.stop - range.start + 1).toUInt64)

/-- The number of values, or the largest word for a dynamic set. -/
def cardinality (set : NumSet) : UInt64 := cardinalityLoop set 0

end NumSet

end GoImap
