import GoImap.UIDMapping.Pairing
import GoImap.Wire.Encoder

/-!
# Writing COPYUID

Each half is written on its own.  A range that continues the one before it is
joined with it, so the halves no longer have ranges of the same length; what
they list does not change.
-/

namespace GoImap

open UIDMapping

namespace Wire.Encoder

/-- The variables of one half: the range that is not yet written, and whether
it is the first. -/
structure Pending where
  enc : Encoder
  pending : NumRange := ⟨0, 0⟩
  first : Bool := true

namespace Pending

def flush (state : Pending) : Pending :=
  if state.pending.start = 0 then state
  else
    let enc := if state.first then state.enc else state.enc.special comma
    let enc := enc.number state.pending.start
    { state with
      enc :=
        if state.pending.stop = state.pending.start then enc
        else (enc.special colon).number state.pending.stop
      first := false }

def add (state : Pending) (r : NumRange) : Pending :=
  if state.pending.start ≠ 0 ∧ state.pending.stop.toUInt64 + 1 = r.start.toUInt64 then
    { state with pending := ⟨state.pending.start, r.stop⟩ }
  else { state.flush with pending := r }

end Pending

def uidHalf (enc : Encoder) (ranges : List NumRange) : Encoder :=
  (ranges.foldl Pending.add { enc }).flush.enc

def uidMapping (enc : Encoder) (m : UIDMapping) : Encoder :=
  ((enc.uidHalf (m.map UIDPairRange.source)).sp).uidHalf (m.map UIDPairRange.dest)

end Wire.Encoder

/-! ## The text of a half -/

namespace UIDMapping

theorem uidText_formatUint {uid : UInt32} (h : 0 < uid.toNat) :
    UIDText (formatUint uid.toNat) uid :=
  ⟨formatUint_ne_nil _, fun _ hbyte => isDigit_of_mem_formatUint hbyte, decimal_formatUint _, h⟩

theorem Proper.start_ne {range : NumRange} (h : Proper range) : range.start ≠ 0 :=
  Word.ne_zero_iff.mpr h.pos

theorem Proper.stop_ne {range : NumRange} (h : Proper range) : range.stop ≠ 0 :=
  Word.ne_zero_iff.mpr (Nat.lt_of_lt_of_le h.pos h.le)

theorem Proper.itemText {range : NumRange} (h : Proper range) :
    ItemText (rangeText range) range := by
  have hstart := uidText_formatUint h.pos
  have hstop := uidText_formatUint (Nat.lt_of_lt_of_le h.pos h.le)
  rw [rangeText, if_neg h.start_ne, if_neg h.stop_ne]
  split_ifs with hsame
  · have hrange : range = ⟨range.start, range.start⟩ := by
      rw [show range = ⟨range.start, range.stop⟩ from rfl, ← hsame]
    rw [List.append_nil]
    nth_rewrite 2 [hrange]
    exact .single hstart
  · have hordered : orderedRange range.start range.stop = range := if_pos h.le
    have hitem := ItemText.range hstart hstop
    rwa [hordered] at hitem

theorem uidSetText_string {ranges : NumSet} (hne : ranges ≠ [])
    (h : ∀ range ∈ ranges, Proper range) :
    UIDSetText ranges.string ranges := by
  refine ⟨ranges.map rangeText, by simpa using hne, string_eq_intercalate hne, ?_⟩
  rw [List.forall₂_map_left_iff, List.forall₂_same]
  exact fun range hrange => (h range hrange).itemText

theorem string_snoc (ranges : NumSet) (range : NumRange) :
    NumSet.string (ranges ++ [range]) = ranges.string ++ (if ranges = [] then [] else [comma]) ++
        rangeText range := by
  cases ranges with
  | nil | cons first rest => simp [NumSet.string]

theorem space_not_mem_string {ranges : NumSet}
    (h : ∀ range ∈ ranges, Proper range) : Wire.SP ∉ ranges.string := by
  intro hmem
  obtain ⟨range, hrange, hbyte⟩ := List.mem_flatMap.mp (List.mem_of_mem_drop hmem)
  rcases List.mem_cons.mp hbyte with hcomma | hitem
  · exact absurd hcomma (by decide)
  · exact (h range hrange).itemText.not_mem (by decide) (by decide) hitem

/-! ## Joining ranges -/

theorem numbers_join {first second : NumRange} (hfirst : Proper first) (hsecond : Proper second)
    (hnext : first.stop.toUInt64 + 1 = second.start.toUInt64) :
    Proper ⟨first.start, second.stop⟩ ∧ NumRange.numbers ⟨first.start, second.stop⟩ =
        first.numbers ++ second.numbers := by
  have hlt := first.stop.toNat_lt
  have hle := hfirst.le
  have hle' := hsecond.le
  have hstart : first.stop.toNat + 1 = second.start.toNat := by
    have htoNat := congrArg UInt64.toNat hnext
    simp at htoNat
    omega
  refine ⟨⟨hfirst.pos, by simp only; omega⟩, ?_⟩
  have hplace : second.start.toNat = first.start.toNat +
      1 * (first.stop.toNat + 1 - first.start.toNat) := by
    omega
  have hcount : second.stop.toNat + 1 - first.start.toNat =
      (first.stop.toNat + 1 - first.start.toNat) +
        (second.stop.toNat + 1 - second.start.toNat) := by
    omega
  simp only [NumRange.numbers, ← List.map_append]
  rw [hcount, ← List.range'_append, ← hplace]

end UIDMapping

namespace Wire.Encoder

open UIDMapping

structure Pending.Holds (before : Bytes) (given : List NumRange)
    (state : Pending) (done : NumSet) : Prop where
  enc : state.enc = ⟨before ++ done.string, none, false⟩
  first : state.first = decide (done = [])
  pending : Proper state.pending
  proper : ∀ range ∈ done, Proper range
  listed : expand (done ++ [state.pending]) = expand given

namespace Pending.Holds

variable {before : Bytes} {given : List NumRange} {state : Pending} {done : NumSet}

variable (h : state.Holds before given done)

include h

theorem flush : state.flush.enc = ⟨before ++ NumSet.string (done ++ [state.pending]), none, false⟩ ∧
      state.flush.first = false := by
  have hstart := h.pending.start_ne
  have hstop := h.pending.stop_ne
  rw [Pending.flush, if_neg hstart, h.enc, h.first, string_snoc, rangeText,
    if_neg hstart, if_neg hstop]
  by_cases hsame : state.pending.start = state.pending.stop
  · by_cases hdone : done = []
    · simp [hdone, ← hsame, number]
    · simp [hdone, ← hsame, special, number]
  · have hdiff := Ne.symm hsame
    by_cases hdone : done = []
    · simp [hdone, hsame, hdiff, special, number]
    · simp [hdone, hsame, hdiff, special, number]

theorem add {r : NumRange} (hr : Proper r) :
    ∃ done', (state.add r).Holds before (given ++ [r]) done' := by
  have hexpand : expand (given ++ [r]) = expand given ++ r.numbers := by
    simp [UIDMapping.expand]
  rw [Pending.add]
  split_ifs with hjoin
  · obtain ⟨hproper, hnumbers⟩ := numbers_join h.pending hr hjoin.2
    refine ⟨done, h.enc, h.first, hproper, h.proper, ?_⟩
    rw [hexpand, ← h.listed]
    simp [UIDMapping.expand, hnumbers]
  · obtain ⟨henc, hfirst⟩ := h.flush
    refine ⟨done ++ [state.pending], henc, ?_, hr, ?_, ?_⟩
    · simp [hfirst]
    · rw [List.forall_mem_append]
      exact ⟨h.proper, by simpa using h.pending⟩
    · rw [hexpand, ← h.listed]
      simp [UIDMapping.expand]

theorem foldl {ranges : List NumRange} (hranges : ∀ range ∈ ranges, Proper range) :
    ∃ done', (ranges.foldl Pending.add state).Holds before (given ++ ranges) done' := by
  induction ranges generalizing given state done with
  | nil => exact ⟨done, by simpa using h⟩
  | cons range rest ih =>
    obtain ⟨hrange, hrest⟩ := List.forall_mem_cons.mp hranges
    obtain ⟨done', hadd⟩ := h.add hrange
    obtain ⟨done'', hfold⟩ := ih hadd hrest
    exact ⟨done'', by simpa using hfold⟩

end Pending.Holds

theorem uidHalf_ready (before : Bytes) {ranges : List NumRange}
    (hne : ranges ≠ []) (hranges : ∀ range ∈ ranges, Proper range) :
    ∃ joined : NumSet, joined ≠ [] ∧ (∀ range ∈ joined, Proper range) ∧
      expand joined = expand ranges ∧
      uidHalf ⟨before, none, false⟩ ranges = ⟨before ++ joined.string, none, false⟩ := by
  obtain ⟨range, rest, rfl⟩ := List.exists_cons_of_ne_nil hne
  obtain ⟨hrange, hrest⟩ := List.forall_mem_cons.mp hranges
  have hstart : Pending.Holds before [range]
      (Pending.add { enc := ⟨before, none, false⟩ } range) [] := by
    refine ⟨?_, rfl, hrange, List.forall_mem_nil _, rfl⟩
    simp [Pending.add, Pending.flush, NumSet.string]
  obtain ⟨done, hdone⟩ := hstart.foldl hrest
  refine ⟨_, by simp, ?_, hdone.listed, hdone.flush.1⟩
  rw [List.forall_mem_append]
  exact ⟨hdone.proper, by simpa using hdone.pending⟩

theorem uidMapping_ready (before : Bytes) {m : UIDMapping} (h : m.Valid) :
    ∃ src dst : NumSet, UIDSetText src.string src ∧
      UIDSetText dst.string dst ∧ SP ∉ src.string ∧ SP ∉ dst.string ∧
      expand src = m.sources ∧ expand dst = m.dests ∧
      uidMapping ⟨before, none, false⟩ m =
        ⟨before ++ (src.string ++ SP :: dst.string), none, false⟩ := by
  have hsources : ∀ range ∈ m.map UIDPairRange.source, Proper range := by
    rw [List.forall_mem_map]
    exact fun pair hpair =>
      ⟨(h.pairs pair hpair).source_pos, (h.pairs pair hpair).source_le⟩
  have hdests : ∀ range ∈ m.map UIDPairRange.dest, Proper range := by
    rw [List.forall_mem_map]
    exact fun pair hpair =>
      ⟨(h.pairs pair hpair).dest_pos, (h.pairs pair hpair).dest_le⟩
  obtain ⟨src, hsrc, hproper, hexpand, hwritten⟩ :=
    uidHalf_ready before (by simpa using h.ne_nil) hsources
  obtain ⟨dst, hdst, hproper', hexpand', hwritten'⟩ :=
    uidHalf_ready (before ++ src.string ++ [SP]) (by simpa using h.ne_nil) hdests
  refine ⟨src, dst, uidSetText_string hsrc hproper,
    uidSetText_string hdst hproper', space_not_mem_string hproper,
    space_not_mem_string hproper', hexpand, hexpand', ?_⟩
  rw [uidMapping, hwritten, sp, writeString_ready, hwritten']
  simp

/-- A valid mapping is written in two words, from which it is read back. -/
theorem uidMapping_roundTrip (m : UIDMapping) (h : m.validate = .ok ()) (before : Bytes) :
    ∃ out left right m', uidMapping ⟨before, none, false⟩ m = ⟨before ++ out, none, false⟩ ∧
      out.splitOn SP = [left, right] ∧
      (∀ fuel, (left.splitOn comma).length + (right.splitOn comma).length ≤ fuel →
        parseUIDMapping fuel left right = some (.ok m')) ∧
      m'.validate = .ok () ∧ m'.all = m.all := by
  have hvalid := (validate_iff m).mp h
  obtain ⟨src, dst, hsrc, hdst, hspace, hspace', hsources, hdests, henc⟩ :=
    uidMapping_ready before hvalid
  have hpairable : Pairable src.string dst.string src dst := by
    refine ⟨hsrc, hdst, ?_, ?_, ?_⟩
    · rw [hsources, hdests]
      exact (length_of_valid_pairs hvalid.pairs).1
    · exact hsources ▸ hvalid.sources
    · exact hdests ▸ hvalid.dests
  obtain ⟨result, hresult, hok, hpairs⟩ := parseUIDMapping_spec src.string dst.string
  obtain ⟨m', rfl⟩ := hok.mpr ⟨src, dst, hpairable⟩
  obtain ⟨src', dst', ⟨hsrc', hdst', -⟩, hvalid', hsources', hdests'⟩ := hpairs m' rfl
  rw [hsrc'.unique hsrc, hsources] at hsources'
  rw [hdst'.unique hdst, hdests] at hdests'
  refine ⟨_, src.string, dst.string, m', henc, ?_, hresult, (validate_iff m').mpr hvalid', ?_⟩
  · have hsplit := List.splitOn_intercalate SP (show ∀ word ∈ [src.string, dst.string], SP ∉ word by
        simp [hspace, hspace']) (by simp)
    simpa using hsplit
  · rw [hvalid'.all_eq, hvalid.all_eq, hsources', hdests']

/-- Two ranges that are joined on one side only. -/
theorem uidMapping_roundTrip_joined : validate [⟨⟨1, 2⟩, ⟨10, 11⟩⟩, ⟨⟨3, 3⟩, ⟨7, 7⟩⟩] = .ok () ∧
      ∃ out left right m', uidMapping ⟨[], none, false⟩ [⟨⟨1, 2⟩, ⟨10, 11⟩⟩, ⟨⟨3, 3⟩, ⟨7, 7⟩⟩] =
          ⟨[] ++ out, none, false⟩ ∧
        out.splitOn SP = [left, right] ∧
        (∀ fuel, (left.splitOn comma).length + (right.splitOn comma).length ≤ fuel →
          parseUIDMapping fuel left right = some (.ok m')) ∧
        m'.validate = .ok () ∧
        m'.all = all [⟨⟨1, 2⟩, ⟨10, 11⟩⟩, ⟨⟨3, 3⟩, ⟨7, 7⟩⟩] := by
  have hpairs : ∀ pair ∈ [(⟨⟨1, 2⟩, ⟨10, 11⟩⟩ : UIDPairRange), ⟨⟨3, 3⟩, ⟨7, 7⟩⟩], pair.Valid := by
    simp only [← UIDPairRange.cardinality_ne_zero_iff]
    decide
  have hvalid := (validate_iff _).mpr ⟨by decide, hpairs, by decide, by decide⟩
  exact ⟨hvalid, uidMapping_roundTrip _ hvalid []⟩

end Wire.Encoder

end GoImap
