import GoImap.Basic
import GoImap.Lib.Utf8
import GoImap.Lib.Wildcard

/-!
# LIST patterns

`matchList` goes through the pattern and keeps, for each position of the name,
whether what it has read of the pattern matches the name up to there.  The
reference it is tested against tries each wildcard on its own and backtracks.
-/

namespace GoImap.Internal

open Wildcard

def asterisk : UInt8 := 42
def percent : UInt8 := 37

def isWildcard (c : UInt8) : Bool := c = asterisk ∨ c = percent

def literalRow (name : Bytes) (c : UInt8) (reach : List Bool) : List Bool :=
  false :: List.zipWith (fun reached ch => reached && ch == c) reach name

/-- `name[j-len(delim):j] == delim`, for a delimiter that is not empty. -/
def completes (name delim : Bytes) (j : Nat) : Bool :=
  delim.length ≤ j ∧ 0 < delim.length ∧ slice name (j - delim.length) j = delim

def wildcardAcc (name delim : Bytes) (star : Bool) (reach : List Bool)
    (j : Nat) (acc : Bool) : Bool :=
  let acc :=
    if !star ∧ completes name delim j then
      (List.range' (j - delim.length + 1) (delim.length - 1)).any (reach.getD · false)
    else acc
  acc || reach.getD j false

def wildcardLoop (name delim : Bytes) (star : Bool) (reach : List Bool) :
    Nat → Nat → Bool → List Bool
  | 0, _, _ => []
  | count + 1, j, acc =>
    let acc := wildcardAcc name delim star reach j acc
    acc :: wildcardLoop name delim star reach count (j + 1) acc

def wildcardRun (star : Bool) : Bytes → Bool × Bytes
  | [] => (star, [])
  | c :: rest =>
    if isWildcard c then wildcardRun (star || c == asterisk) rest
    else (star, c :: rest)

/-- The loop over the pattern, which is shorter than the fuel. -/
def matchLoop (name delim : Bytes) : Nat → Bytes → List Bool → Bool
  | 0, _, _ => false
  | _ + 1, [], reach => reach.getD name.length false
  | fuel + 1, c :: rest, reach =>
    if isWildcard c then
      let (star, rest) := wildcardRun (c == asterisk) rest
      let next := wildcardLoop name delim star reach (name.length + 1) 0 false
      if next.any id then matchLoop name delim fuel rest next else false
    else
      let next := literalRow name c reach
      if next.any id then matchLoop name delim fuel rest next else false

def matchList (name delim pattern : Bytes) : Bool :=
  let literals := (pattern.filter fun c => !isWildcard c).length
  if literals > name.length then false
  else if literals = pattern.length then name = pattern
  else matchLoop name delim (pattern.length + 1) pattern (true :: List.replicate name.length false)

/-! ## The reference -/

def referenceLoop (stops : UInt8 → Bool) (attempt : Bytes → Bool) : Bytes → Bool
  | [] => attempt []
  | ch :: rest =>
    if stops ch then attempt (ch :: rest)
    else attempt (ch :: rest) || referenceLoop stops attempt rest

/-- `wildcard == '%' && string(name[j]) == delim`; `string` makes UTF-8 of a
byte. -/
def referenceStops (delim : Bytes) (wildcard ch : UInt8) : Bool :=
  wildcard = percent ∧ Utf8.encodeRune ch.toNat = delim

/-- `strings.IndexAny(pattern, "*%")` is the length of the chunk. -/
def matchListReference (name delim pattern : Bytes) : Bool :=
  match hafter : pattern.dropWhile (fun c => !isWildcard c) with
  | [] => name = pattern
  | wildcard :: rest =>
    let chunk := pattern.takeWhile fun c => !isWildcard c
    if chunk.isPrefixOf name then
      referenceLoop (referenceStops delim wildcard) (fun name => matchListReference name delim rest)
        (name.drop chunk.length)
    else false
termination_by pattern.length
decreasing_by
  have hlength := (List.dropWhile_suffix (fun c => !isWildcard c)
    (l := pattern)).length_le
  rw [hafter, List.length_cons] at hlength
  omega

/-! ## The relation -/

def singles (pattern : Bytes) : List (Token UInt8) := pattern.map fun c =>
    if c = asterisk then .wild true
    else if c = percent then .wild false
    else .letter c

def tokens (pattern : Bytes) : List (Token UInt8) := merge (singles pattern)

variable {c : UInt8} {pattern delim : Bytes}

theorem isWildcard_iff : isWildcard c = true ↔ c = asterisk ∨ c = percent := by
  simp [isWildcard]

theorem singles_wildcard (h : isWildcard c = true) (pattern : Bytes) :
    singles (c :: pattern) = .wild (c == asterisk) :: singles pattern := by
  rcases isWildcard_iff.mp h with rfl | rfl
  · rfl
  · rfl

theorem singles_literal (h : isWildcard c = false) (pattern : Bytes) :
    singles (c :: pattern) = .letter c :: singles pattern := by
  have hnone : ¬(c = asterisk ∨ c = percent) := by
    rw [← isWildcard_iff, h]
    simp
  rw [not_or] at hnone
  simp [singles, hnone]

theorem wildcardRun_or (first second : Bool) (pattern : Bytes) :
    wildcardRun (first || second) pattern = (first || (wildcardRun second pattern).1,
        (wildcardRun second pattern).2) := by
  induction pattern generalizing second with
  | nil => rfl
  | cons c rest ih =>
    by_cases hc : isWildcard c = true
    · simp only [wildcardRun, hc, if_true, Bool.or_assoc, ih]
    · simp [wildcardRun, hc]

theorem length_wildcardRun_le (star : Bool) (pattern : Bytes) :
    (wildcardRun star pattern).2.length ≤ pattern.length := by
  induction pattern generalizing star with
  | nil => exact Nat.le_refl _
  | cons c rest ih =>
    rw [wildcardRun]
    split_ifs
    · exact (ih _).trans (Nat.le_succ _)
    · exact Nat.le_refl _

theorem merge_wildcardRun (star : Bool) (pattern : Bytes) :
    merge (.wild star :: singles pattern) = .wild (wildcardRun star pattern).1 ::
        tokens (wildcardRun star pattern).2 := by
  induction pattern generalizing star with
  | nil => rfl
  | cons c rest ih =>
    by_cases hc : isWildcard c = true
    · rw [singles_wildcard hc, wildcardRun, if_pos hc, wildcardRun_or, merge, ih]
    · rw [Bool.not_eq_true] at hc
      rw [wildcardRun, if_neg (by simp [hc]), tokens, merge, singles_literal hc, merge]

/-! ## Rows -/

section

variable {name delim : Bytes} {reach : List Bool} {j : Nat} {star : Bool}

def Completes (name delim : Bytes) (reach : List Bool) (rest : List (Token UInt8)) : Prop :=
  ∃ k ≤ name.length, reach.getD k false = true ∧ Matches delim rest (name.drop k)

theorem completes_nil : Completes name delim reach [] ↔ reach.getD name.length false = true := by
  simp only [Completes, matches_nil_iff, List.drop_eq_nil_iff]
  constructor
  · rintro ⟨k, hk, hreach, hend⟩
    rwa [Nat.le_antisymm hend hk]
  · intro hreach
    exact ⟨name.length, Nat.le_refl _, hreach, Nat.le_refl _⟩

theorem literalRow_succ (c : UInt8) (hj : j < name.length)
    (hreach : reach.length = name.length + 1) :
    (literalRow name c reach).getD (j + 1) false = true ↔
      reach.getD j false = true ∧ name[j] = c := by
  have hj' : j < reach.length := by omega
  simp [literalRow, List.getElem?_zipWith, hj, hj']

theorem completes_literal (c : UInt8) (rest : List (Token UInt8))
    (hreach : reach.length = name.length + 1) :
    Completes name delim (literalRow name c reach) rest ↔
      Completes name delim reach (.letter c :: rest) := by
  simp only [Completes, matches_letter_iff]
  constructor
  · rintro ⟨j, hj, hnext, hrest⟩
    cases j with
    | zero => simp [literalRow] at hnext
    | succ j =>
      obtain ⟨hreached, rfl⟩ := (literalRow_succ c hj hreach).mp hnext
      exact ⟨j, by omega, hreached, _, List.drop_eq_getElem_cons hj, hrest⟩
  · rintro ⟨k, hk, hreached, after, hafter, hrest⟩
    have hlt : k < name.length := by
      by_contra hge
      rw [List.drop_of_length_le (by omega)] at hafter
      cases hafter
    rw [List.drop_eq_getElem_cons hlt] at hafter
    obtain ⟨hc, rfl⟩ := List.cons.inj hafter
    exact ⟨k + 1, hlt, (literalRow_succ c hlt hreach).mpr ⟨hreached, hc⟩, hrest⟩

def Extends (name delim : Bytes) (star : Bool) (reach : List Bool) (j : Nat) : Prop :=
  ∃ k ≤ j, reach.getD k false = true ∧ Absorbs delim star (slice name k j)

theorem completes_iff : completes name delim j = true ↔ delim ≠ [] ∧ EndsAt delim name j := by
  rw [completes, decide_eq_true_eq, List.length_pos_iff, EndsAt]
  tauto

theorem extends_of_reach (h : reach.getD j false = true) : Extends name delim star reach j :=
  ⟨j, Nat.le_refl _, h, by rw [slice_self]; exact absorbs_nil star⟩

theorem wildcardAcc_iff {acc : Bool} (hj : j ≤ name.length)
    (hacc : acc = true ↔ 0 < j ∧ Extends name delim star reach (j - 1)) :
    wildcardAcc name delim star reach j acc = true ↔ Extends name delim star reach j := by
  rw [wildcardAcc, Bool.or_eq_true]
  by_cases hends : !star ∧ completes name delim j
  · rw [if_pos hends]
    obtain ⟨hstar, hcompletes⟩ := hends
    rw [Bool.not_eq_true'] at hstar
    obtain ⟨hdelim, hends⟩ := completes_iff.mp hcompletes
    have hfits := hends.1
    have hpos := List.length_pos_iff.mpr hdelim
    simp only [List.any_eq_true, List.mem_range'_1]
    constructor
    · rintro (⟨k, hk, hreached⟩ | hreached)
      · refine ⟨k, by omega, hreached, ?_⟩
        rw [hstar, absorbs_slice_of_endsAt hj hdelim hends]
        omega
      · exact extends_of_reach hreached
    · rintro ⟨k, hk, hreached, habsorbs⟩
      rw [hstar, absorbs_slice_of_endsAt hj hdelim hends] at habsorbs
      by_cases hlast : k = j
      · rw [← hlast]
        exact .inr hreached
      · exact .inl ⟨k, by omega, hreached⟩
  · rw [if_neg hends, hacc]
    have hnot : star = false → delim ≠ [] → ¬EndsAt delim name j :=
      fun hstar hdelim hat => hends ⟨by simp [hstar], completes_iff.mpr ⟨hdelim, hat⟩⟩
    cases j with
    | zero =>
      constructor
      · rintro (⟨hpos, -⟩ | hreached)
        · exact absurd hpos (Nat.lt_irrefl 0)
        · exact extends_of_reach hreached
      · rintro ⟨k, hk, hreached, -⟩
        rw [Nat.le_zero.mp hk] at hreached
        exact .inr hreached
    | succ j =>
      rw [Nat.add_sub_cancel]
      constructor
      · rintro (⟨-, k, hk, hreached, habsorbs⟩ | hreached)
        · exact ⟨k, by omega, hreached, (absorbs_slice_succ hk hj star hnot).mpr habsorbs⟩
        · exact extends_of_reach hreached
      · rintro ⟨k, hk, hreached, habsorbs⟩
        by_cases hlast : k = j + 1
        · rw [← hlast]
          exact .inr hreached
        · have hle : k ≤ j := by omega
          exact .inl ⟨Nat.succ_pos j, k, hle, hreached,
            (absorbs_slice_succ hle hj star hnot).mp habsorbs⟩

theorem wildcardLoop_getD {count : Nat} {acc : Bool} (hcount : j + count ≤ name.length + 1)
    (hacc : acc = true ↔ 0 < j ∧ Extends name delim star reach (j - 1)) {i : Nat} (hi : i < count) :
    (wildcardLoop name delim star reach count j acc).getD i false = true ↔
      Extends name delim star reach (j + i) := by
  induction count generalizing j acc i with
  | zero => omega
  | succ count ih =>
    have hstep := wildcardAcc_iff (by omega) hacc
    rw [wildcardLoop]
    cases i with
    | zero => simpa using hstep
    | succ i =>
      have hnext : wildcardAcc name delim star reach j acc = true ↔
          0 < j + 1 ∧ Extends name delim star reach (j + 1 - 1) := by
        simpa using hstep
      rw [List.getD_cons_succ, ih (by omega) hnext (by omega), Nat.add_right_comm, Nat.add_assoc]

theorem length_wildcardLoop (star : Bool) (count j : Nat) (acc : Bool) :
    (wildcardLoop name delim star reach count j acc).length = count := by
  induction count generalizing j acc with
  | zero => rfl
  | succ count ih => simp [wildcardLoop, ih]

theorem completes_wildcard (star : Bool) (rest : List (Token UInt8)) :
    Completes name delim (wildcardLoop name delim star reach (name.length + 1) 0 false) rest ↔
      Completes name delim reach (.wild star :: rest) := by
  have hrow : ∀ j, j ≤ name.length →
      ((wildcardLoop name delim star reach (name.length + 1) 0 false).getD j
        false = true ↔ Extends name delim star reach j) := by
    intro j hj
    have hgetD := @wildcardLoop_getD name delim reach 0 star (name.length + 1)
      false (by omega) (by simp) j (by omega)
    rwa [Nat.zero_add] at hgetD
  simp only [Completes, matches_wild_iff]
  constructor
  · rintro ⟨j, hj, hnext, hrest⟩
    obtain ⟨k, hk, hreached, habsorbs⟩ := (hrow j hj).mp hnext
    exact ⟨k, by omega, hreached, _, _, drop_eq_slice_append hk, habsorbs, hrest⟩
  · rintro ⟨k, hk, hreached, gap, after, hafter, habsorbs, hrest⟩
    have hlength := congrArg List.length hafter
    rw [List.length_drop, List.length_append] at hlength
    have hgap : gap = slice name k (k + gap.length) := by
      rw [slice, hafter, Nat.add_sub_cancel_left, List.take_left]
    have hend : after = name.drop (k + gap.length) := by
      rw [← List.drop_drop, hafter, List.drop_left]
    refine ⟨k + gap.length, by omega, (hrow _ (by omega)).mpr ⟨k, by omega, hreached, ?_⟩, ?_⟩
    · rwa [← hgap]
    · rwa [← hend]

theorem any_of_completes {rest : List (Token UInt8)}
    (h : Completes name delim reach rest) : reach.any id = true := by
  obtain ⟨k, -, hreached, -⟩ := h
  rw [List.getD_eq_getElem?_getD] at hreached
  rw [List.any_eq_true]
  cases hget : reach[k]? with
  | none => simp [hget] at hreached
  | some reached =>
    rw [hget] at hreached
    exact ⟨reached, List.mem_of_getElem? hget, hreached⟩

theorem anyTrue_iff {rest : List (Token UInt8)} {result : Bool}
    (h : result = true ↔ Completes name delim reach rest) :
    (if reach.any id then result else false) = true ↔ Completes name delim reach rest := by
  rw [← h]
  by_cases hany : reach.any id = true
  · rw [if_pos hany]
  · rw [if_neg hany, h]
    simp only [Bool.false_eq_true, false_iff]
    exact fun hcompletes => hany (any_of_completes hcompletes)

theorem matchLoop_iff {fuel : Nat} (hfuel : pattern.length < fuel)
    (hreach : reach.length = name.length + 1) :
    matchLoop name delim fuel pattern reach = true ↔
      Completes name delim reach (tokens pattern) := by
  induction fuel generalizing pattern reach with
  | zero => omega
  | succ fuel ih =>
    cases pattern with
    | nil =>
      rw [matchLoop]
      exact completes_nil.symm
    | cons c rest =>
      rw [List.length_cons] at hfuel
      rw [matchLoop]
      by_cases hc : isWildcard c = true
      · rw [if_pos hc, tokens, singles_wildcard hc, merge_wildcardRun, ← completes_wildcard]
        have hlength := length_wildcardRun_le (c == asterisk) rest
        exact anyTrue_iff (ih (by omega) (length_wildcardLoop _ _ _ _))
      · rw [if_neg hc]
        rw [Bool.not_eq_true] at hc
        rw [tokens, singles_literal hc, merge, ← tokens, ← completes_literal c _ hreach]
        refine anyTrue_iff (ih (by omega) ?_)
        simp [literalRow, hreach]

end

/-! ## The whole name -/

theorem letters_singles (pattern : Bytes) : letters (singles pattern) =
      (pattern.filter fun c => !isWildcard c).length := by
  induction pattern with
  | nil => rfl
  | cons c rest ih =>
    by_cases hc : isWildcard c = true
    · simp [singles_wildcard hc, letters, hc, ih]
    · rw [Bool.not_eq_true] at hc
      simp [singles_literal hc, letters, hc, ih]

theorem singles_of_literals (h : ∀ c ∈ pattern, isWildcard c = false) :
    singles pattern = pattern.map Token.letter := by
  induction pattern with
  | nil => rfl
  | cons c rest ih =>
    rw [singles_literal (h c List.mem_cons_self),
      ih fun other hother => h other (List.mem_cons_of_mem _ hother)]
    rfl

theorem matches_literals (h : ∀ c ∈ pattern, isWildcard c = false)
    (name : Bytes) : Matches delim (singles pattern) name ↔ name = pattern := by
  have hletters := @matches_letters_append _ delim pattern [] name
  rw [List.append_nil] at hletters
  rw [singles_of_literals h, hletters]
  simp [matches_nil_iff]

theorem completes_start (name delim : Bytes) (rest : List (Token UInt8)) :
    Completes name delim (true :: List.replicate name.length false) rest ↔
      Matches delim rest name := by
  constructor
  · rintro ⟨k, -, hreached, hrest⟩
    cases k with
    | zero => exact hrest
    | succ k =>
      rw [List.getD_cons_succ, List.getD_eq_getElem?_getD, List.getElem?_replicate] at hreached
      split_ifs at hreached
      · cases hreached
      · cases hreached
  · intro h
    exact ⟨0, Nat.zero_le _, rfl, h⟩

theorem matchList_iff (name delim pattern : Bytes) :
    matchList name delim pattern = true ↔ Matches delim (tokens pattern) name := by
  have hletters : letters (tokens pattern) = (pattern.filter fun c => !isWildcard c).length := by
    rw [tokens, letters_merge, letters_singles]
  rw [matchList]
  by_cases hmany : (pattern.filter fun c => !isWildcard c).length > name.length
  · rw [if_pos hmany]
    simp only [Bool.false_eq_true, false_iff]
    intro h
    have hle := letters_le h
    omega
  · rw [if_neg hmany]
    by_cases hall : (pattern.filter fun c => !isWildcard c).length = pattern.length
    · have hliteral : ∀ c ∈ pattern, isWildcard c = false := by
        have hfilter := List.length_filter_eq_length_iff.mp hall
        simpa using hfilter
      rw [if_pos hall, decide_eq_true_eq, tokens, singles_of_literals hliteral, merge_letters,
        ← singles_of_literals hliteral, matches_literals hliteral]
    · rw [if_neg hall, matchLoop_iff (Nat.lt_succ_self _) (by simp), completes_start]

/-! ## Each wildcard on its own -/

theorem referenceLoop_iff (stops : UInt8 → Bool) (attempt : Bytes → Bool) (name : Bytes) :
    referenceLoop stops attempt name = true ↔
      ∃ gap rest, name = gap ++ rest ∧ (∀ ch ∈ gap, stops ch = false) ∧ attempt rest = true := by
  induction name with
  | nil =>
    rw [referenceLoop]
    constructor
    · intro h
      exact ⟨[], [], rfl, by simp, h⟩
    · rintro ⟨gap, rest, hsplit, -, h⟩
      rw [List.nil_eq_append_iff] at hsplit
      rwa [hsplit.2] at h
  | cons ch name ih =>
    have hempty : attempt (ch :: name) = true → ∃ gap rest, ch :: name = gap ++ rest ∧
          (∀ ch ∈ gap, stops ch = false) ∧ attempt rest = true :=
      fun h => ⟨[], ch :: name, rfl, by simp, h⟩
    rw [referenceLoop]
    cases hstops : stops ch with
    | true =>
      rw [if_pos rfl]
      refine ⟨hempty, ?_⟩
      rintro ⟨gap, rest, hsplit, hgap, h⟩
      cases gap with
      | nil => rwa [hsplit]
      | cons first gap =>
        obtain ⟨rfl, -⟩ := List.cons.inj hsplit
        rw [hgap ch List.mem_cons_self] at hstops
        cases hstops
    | false =>
      rw [if_neg Bool.false_ne_true, Bool.or_eq_true, ih]
      constructor
      · rintro (h | ⟨gap, rest, rfl, hgap, h⟩)
        · exact hempty h
        · exact ⟨ch :: gap, rest, rfl, List.forall_mem_cons.mpr ⟨hstops, hgap⟩, h⟩
      · rintro ⟨gap, rest, hsplit, hgap, h⟩
        cases gap with
        | nil =>
          rw [hsplit]
          exact .inl h
        | cons first gap =>
          obtain ⟨-, rfl⟩ := List.cons.inj hsplit
          exact .inr ⟨gap, rest, rfl, (List.forall_mem_cons.mp hgap).2, h⟩

def AsciiDelim (delim : Bytes) : Prop := delim = [] ∨ ∃ d : UInt8, d.toNat < 128 ∧ delim = [d]

theorem length_le_one (h : AsciiDelim delim) : delim.length ≤ 1 := by
  rcases h with rfl | ⟨d, -, rfl⟩
  · exact Nat.zero_le _
  · exact Nat.le_refl _

theorem encodeRune_eq_singleton {ch d : UInt8} (hd : d.toNat < 128) :
    Utf8.encodeRune ch.toNat = [d] ↔ ch = d := by
  have hvalid : ch.toNat.isValidChar := .inl (by have := ch.toNat_lt; omega)
  have hnat := Utf8.toNat_ofNat hvalid
  have hencode : Utf8.encodeRune ch.toNat = String.utf8EncodeChar (Char.ofNat ch.toNat) := by
    rw [Utf8.encodeRune, if_pos hvalid]
  rw [hencode]
  by_cases hlt : ch.toNat < 128
  · rw [Utf8.utf8EncodeChar_of_lt (by omega), hnat, UInt8.ofNat_toNat, List.singleton_inj]
  · constructor
    · intro h
      have hge := Utf8.utf8EncodeChar_of_ge (by omega) (h ▸ List.mem_singleton_self d)
      omega
    · rintro rfl
      omega

theorem absorbs_iff_stops (hdelim : AsciiDelim delim) {wildcard : UInt8}
    (hwild : isWildcard wildcard = true) (gap : Bytes) :
    Absorbs delim (wildcard == asterisk) gap ↔
      ∀ ch ∈ gap, referenceStops delim wildcard ch = false := by
  rcases isWildcard_iff.mp hwild with rfl | rfl
  · refine iff_of_true (.inl rfl) fun ch _ => ?_
    rw [referenceStops, decide_eq_false (fun h => absurd h.1 (by decide))]
  · have hstar : (percent == asterisk) = false := by decide
    simp only [Wildcard.Absorbs, hstar, Bool.false_eq_true, false_or, referenceStops,
      true_and, decide_eq_false_iff_not]
    rcases hdelim with rfl | ⟨d, hd, rfl⟩
    · refine iff_of_true (.inl rfl) fun ch _ h => ?_
      rw [Utf8.encodeRune] at h
      split_ifs at h
      · exact String.utf8EncodeChar_ne_nil h
      · exact String.utf8EncodeChar_ne_nil h
    · simp only [encodeRune_eq_singleton hd, List.cons_ne_nil, false_or, List.singleton_infix_iff]
      exact ⟨fun h ch hch heq => h (heq ▸ hch), fun h hmem => h d hmem rfl⟩

theorem singles_append (first second : Bytes) :
    singles (first ++ second) = singles first ++ singles second := by
  simp [singles]

theorem matchListReference_iff (hdelim : AsciiDelim delim) (name pattern : Bytes) :
    matchListReference name delim pattern = true ↔ Matches delim (singles pattern) name := by
  induction hlength : pattern.length using Nat.strongRecOn generalizing name pattern with
  | _ length ih =>
    subst hlength
    have hchunk : ∀ c ∈ pattern.takeWhile (fun c => !isWildcard c), isWildcard c = false := by
      intro c hc
      simpa using List.all_eq_true.mp List.all_takeWhile c hc
    have hpattern := @List.takeWhile_append_dropWhile _ (fun c => !isWildcard c) pattern
    rw [matchListReference]
    split
    · rename_i hafter
      rw [hafter, List.append_nil] at hpattern
      rw [hpattern] at hchunk
      rw [decide_eq_true_eq, matches_literals hchunk]
    · rename_i wildcard rest hafter
      have hwild : isWildcard wildcard = true := by
        have hhead := List.head?_dropWhile_not (fun c => !isWildcard c) pattern
        rw [hafter] at hhead
        simpa using hhead
      rw [hafter] at hpattern
      have hrest : rest.length < pattern.length := by
        rw [← hpattern, List.length_append, List.length_cons]
        omega
      generalize pattern.takeWhile (fun c => !isWildcard c) = chunk at *
      have htokens : singles pattern = chunk.map Token.letter ++
            .wild (wildcard == asterisk) :: singles rest := by
        rw [← hpattern, singles_append, singles_of_literals hchunk, singles_wildcard hwild]
      have hloop := referenceLoop_iff (referenceStops delim wildcard)
        (fun name => matchListReference name delim rest)
      rw [htokens, matches_letters_append]
      by_cases hstarts : chunk.isPrefixOf name = true
      · obtain ⟨after, rfl⟩ := List.isPrefixOf_iff_prefix.mp hstarts
        rw [if_pos hstarts, List.drop_left, hloop]
        simp [exists_eq_left', matches_wild_iff, absorbs_iff_stops hdelim hwild,
          ih rest.length hrest _ rest rfl]
      · rw [if_neg hstarts]
        simp only [Bool.false_eq_true, false_iff]
        rintro ⟨after, rfl, -⟩
        exact hstarts (List.isPrefixOf_iff_prefix.mpr ⟨after, rfl⟩)

/--
`matchList` is the relation in which a run of wildcards absorbs what any of it
may absorb, for every delimiter.  For a delimiter that is empty or one ASCII
byte this is what the reference computes.
-/
theorem matchList_relation (name delim pattern : Bytes) :
    (matchList name delim pattern = true ↔ Matches delim (tokens pattern) name) ∧
      (AsciiDelim delim → matchList name delim pattern =
          matchListReference name delim pattern) := by
  refine ⟨matchList_iff name delim pattern, fun hdelim => ?_⟩
  rw [Bool.eq_iff_iff, matchList_iff, matchListReference_iff hdelim, tokens,
    matches_merge (length_le_one hdelim)]

/-- The reference takes the byte 0xFF for the character with this number, which
is no delimiter of one byte. -/
theorem matchListReference_byte : matchList [0xFF] [0xFF] [percent] = false ∧
      matchListReference [0xFF] [0xFF] [percent] = true := by
  refine ⟨by decide, ?_⟩
  have hempty : matchListReference [] [0xFF] [] = true := by
    simp [matchListReference]
  have hstops : referenceStops [0xFF] percent 0xFF = false := by decide
  have hloop : referenceLoop (referenceStops [0xFF] percent)
      (fun name => matchListReference name [0xFF] []) [0xFF] = true := by
    simp [referenceLoop, hstops, hempty]
  rw [matchListReference]
  exact hloop

end GoImap.Internal
