import GoImap.Internal.ListMatch

/-!
# The cost of LIST patterns

The table of `matchList` gets a row for each literal byte and each run of
wildcards.  What a row costs is counted along the loop that fills it: each of
its updates, with the reads of the loop over `k` in front of it.
-/

namespace GoImap.Internal

open Wildcard

/-- How often `acc = acc || reach[k]` reads the row: not once `acc` is true. -/
def readsUntil (reach : List Bool) : List Nat → Nat
  | [] => 0
  | k :: rest => if reach.getD k false then 1 else readsUntil reach rest + 1

def extraReads (name delim : Bytes) (star : Bool) (reach : List Bool) (j : Nat) : Nat :=
  if !star ∧ completes name delim j then
    readsUntil reach (List.range' (j - delim.length + 1) (delim.length - 1))
  else 0

def wildcardUpdates (name delim : Bytes) (star : Bool) (reach : List Bool) :
    Nat → Nat → Bool → List (Bool × Nat)
  | 0, _, _ => []
  | count + 1, j, acc =>
    let acc := wildcardAcc name delim star reach j acc
    (acc, extraReads name delim star reach j) ::
      wildcardUpdates name delim star reach count (j + 1) acc

def tableStep (name delim : Bytes) (c : UInt8) (rest : Bytes) (reach : List Bool) :
    List (Bool × Nat) × Bytes :=
  if isWildcard c then
    let (star, rest) := wildcardRun (c == asterisk) rest
    (wildcardUpdates name delim star reach (name.length + 1) 0 false, rest)
  else ((literalRow name c reach).map fun reached => (reached, 0), rest)

def matchLoopCounted (name delim : Bytes) : Nat → Bytes → List Bool → Bool × List (List Nat)
  | 0, _, _ => (false, [])
  | _ + 1, [], reach => (reach.getD name.length false, [])
  | fuel + 1, c :: rest, reach =>
    let (updates, rest) := tableStep name delim c rest reach
    let next := updates.map Prod.fst
    let reads := updates.map Prod.snd
    if next.any id then
      let (found, steps) := matchLoopCounted name delim fuel rest next
      (found, reads :: steps)
    else (false, [reads])

/-- `matchList`, with the extra reads of each update of each step of its
table. -/
def matchListCounted (name delim pattern : Bytes) : Bool × List (List Nat) :=
  let literals := (pattern.filter fun c => !isWildcard c).length
  if literals > name.length then (false, [])
  else if literals = pattern.length then (name = pattern, [])
  else matchLoopCounted name delim (pattern.length + 1) pattern
    (true :: List.replicate name.length false)

variable {name delim : Bytes} {reach : List Bool}

theorem readsUntil_le (ks : List Nat) : readsUntil reach ks ≤ ks.length := by
  induction ks with
  | nil => exact Nat.le_refl _
  | cons k rest ih =>
    rw [readsUntil]
    split_ifs
    · simp
    · simpa using ih

theorem extraReads_le (star : Bool) (j : Nat) :
    extraReads name delim star reach j ≤ delim.length - 1 := by
  rw [extraReads]
  split_ifs
  · simpa using readsUntil_le (List.range' (j - delim.length + 1) (delim.length - 1))
  · exact Nat.zero_le _

section Updates

variable (star : Bool) (count j : Nat) (acc : Bool)

theorem map_wildcardUpdates : (wildcardUpdates name delim star reach count j acc).map Prod.fst =
      wildcardLoop name delim star reach count j acc := by
  induction count generalizing j acc with
  | zero => rfl
  | succ count ih => simp [wildcardUpdates, wildcardLoop, ih]

theorem wildcardUpdates_reads : ∀ update ∈ wildcardUpdates name delim star reach count j acc,
    update.2 ≤ delim.length - 1 := by
  induction count generalizing j acc with
  | zero => simp [wildcardUpdates]
  | succ count ih => exact List.forall_mem_cons.mpr ⟨extraReads_le star j, ih _ _⟩

end Updates

variable (c : UInt8) (rest : Bytes)

theorem matchLoop_tableStep (fuel : Nat) : matchLoop name delim (fuel + 1) (c :: rest) reach =
      if ((tableStep name delim c rest reach).1.map Prod.fst).any id then
        matchLoop name delim fuel (tableStep name delim c rest reach).2
          ((tableStep name delim c rest reach).1.map Prod.fst)
      else false := by
  rw [matchLoop, tableStep]
  cases isWildcard c with
  | true => simp only [if_true, map_wildcardUpdates]
  | false => simp [Function.comp_def]

theorem length_tokens_tableStep :
    (tokens (c :: rest)).length = (tokens (tableStep name delim c rest reach).2).length + 1 := by
  rw [tableStep]
  cases hc : isWildcard c with
  | true => simp [tokens, singles_wildcard hc, merge_wildcardRun]
  | false => simp [tokens, singles_literal hc, merge]

theorem tableStep_row (hreach : reach.length = name.length + 1) :
    (tableStep name delim c rest reach).1.length = name.length + 1 ∧
      ∀ update ∈ (tableStep name delim c rest reach).1, update.2 ≤ delim.length - 1 := by
  rw [tableStep]
  split_ifs
  · refine ⟨?_, wildcardUpdates_reads _ _ _ _⟩
    simp only
    rw [← List.length_map Prod.fst, map_wildcardUpdates, length_wildcardLoop]
  · exact ⟨by simp [literalRow, hreach], List.forall_mem_map.mpr fun _ _ => Nat.zero_le _⟩

theorem matchLoopCounted_fst (fuel : Nat) (pattern : Bytes) (reach : List Bool) :
    (matchLoopCounted name delim fuel pattern reach).1 =
      matchLoop name delim fuel pattern reach := by
  induction fuel generalizing pattern reach with
  | zero => rfl
  | succ fuel ih =>
    cases pattern with
    | nil => rfl
    | cons c rest =>
      rw [matchLoop_tableStep, matchLoopCounted, ← ih]
      simp only
      split_ifs <;> rfl

theorem matchLoopCounted_cost (fuel : Nat) (pattern : Bytes)
    (hreach : reach.length = name.length + 1) :
    (matchLoopCounted name delim fuel pattern reach).2.length ≤ (tokens pattern).length ∧
      ∀ reads ∈ (matchLoopCounted name delim fuel pattern reach).2,
        reads.length = name.length + 1 ∧ ∀ count ∈ reads, count ≤ delim.length - 1 := by
  induction fuel generalizing pattern reach with
  | zero => simp [matchLoopCounted]
  | succ fuel ih =>
    cases pattern with
    | nil => simp [matchLoopCounted]
    | cons c rest =>
      obtain ⟨hlength, hreads⟩ := @tableStep_row name delim reach c rest hreach
      obtain ⟨hsteps, hall⟩ := @ih ((tableStep name delim c rest reach).1.map Prod.fst)
        (tableStep name delim c rest reach).2 (by simpa using hlength)
      have htokens := @length_tokens_tableStep name delim reach c rest
      rw [matchLoopCounted]
      simp only
      split_ifs
      · simp only [List.length_cons, List.forall_mem_cons, List.length_map, List.forall_mem_map]
        exact ⟨by omega, ⟨hlength, hreads⟩, hall⟩
      · simp only [List.length_cons, List.length_nil, List.forall_mem_singleton, List.length_map,
          List.forall_mem_map]
        exact ⟨by omega, hlength, hreads⟩

/--
The result is that of `matchList`.  Its table has at most `2n + 1` steps for a
name of `n` bytes, whatever the pattern, and each step updates `n + 1` entries
with at most three extra reads each.
-/
theorem matchList_cost (name delim pattern : Bytes) (hdelim : delim.length ≤ 4) :
    (matchListCounted name delim pattern).1 = matchList name delim pattern ∧
    (matchListCounted name delim pattern).2.length ≤ 2 * name.length + 1 ∧
    (matchListCounted name delim pattern).2.flatten.length ≤
      (2 * name.length + 1) * (name.length + 1) ∧
    ∀ reads ∈ (matchListCounted name delim pattern).2,
      reads.length = name.length + 1 ∧ ∀ count ∈ reads, count ≤ 3 := by
  rw [matchListCounted, matchList]
  split_ifs with hmany hall
  · simp
  · simp
  · obtain ⟨hsteps, hreads⟩ := @matchLoopCounted_cost name delim
      (true :: List.replicate name.length false) (pattern.length + 1) pattern (by simp)
    have htokens := length_merge_le (singles pattern)
    rw [letters_singles, ← tokens] at htokens
    have hlength : (matchLoopCounted name delim (pattern.length + 1) pattern
        (true :: List.replicate name.length false)).2.length ≤ 2 * name.length + 1 := by omega
    refine ⟨matchLoopCounted_fst _ _ _, hlength, ?_, fun reads h =>
      ⟨(hreads reads h).1, fun count hcount => ?_⟩⟩
    · rw [List.length_flatten, List.map_congr_left fun reads h => (hreads reads h).1]
      simpa using Nat.mul_le_mul_right (name.length + 1) hlength
    · have hcount := (hreads reads h).2 count hcount
      omega

theorem matchList_cost_wildcards : [(46 : UInt8)].length ≤ 4 ∧
    (matchListCounted [97, 46, 98] [46] [37, 42, 37, 98, 37, 37]).2.length ≤ 2 * 3 + 1 :=
  ⟨by decide, (matchList_cost [97, 46, 98] [46] [37, 42, 37, 98, 37, 37] (by decide)).2.1⟩

end GoImap.Internal
