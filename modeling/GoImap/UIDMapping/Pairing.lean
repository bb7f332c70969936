import GoImap.UIDMapping.Model
import GoImap.UIDMapping.Ordered

/-!
# Pairing the halves of COPYUID

Each half is a list of ranges.  The loop walks along both lists with an offset
into the range it is in, and cuts off as many UIDs as are left in both.  A run
has a number of rounds; the model keeps what each round looked at.
-/

namespace GoImap

namespace UIDMapping

structure Round where
  source : NumRange
  dest : NumRange
  srcOffset : UInt64
  dstOffset : UInt64
  deriving DecidableEq, Repr

namespace Round

variable (round : Round)

def srcStart : UInt64 := round.source.start.toUInt64 + round.srcOffset

def dstStart : UInt64 := round.dest.start.toUInt64 + round.dstOffset

def srcLeft : UInt64 := round.source.stop.toUInt64 - round.srcStart + 1

def dstLeft : UInt64 := round.dest.stop.toUInt64 - round.dstStart + 1

def count : UInt64 :=
  if round.srcLeft ≤ round.dstLeft then round.srcLeft else round.dstLeft

def pair : UIDPairRange where
  source := ⟨round.srcStart.toUInt32, (round.srcStart + round.count - 1).toUInt32⟩
  dest := ⟨round.dstStart.toUInt32, (round.dstStart + round.count - 1).toUInt32⟩

def srcDone : Bool := round.srcStart + round.count > round.source.stop.toUInt64

def dstDone : Bool := round.dstStart + round.count > round.dest.stop.toUInt64

end Round

/-- How the loop ends: its rounds, what is left of the lists, and the
offsets. -/
structure Walk where
  rounds : List Round
  src : List NumRange
  dst : List NumRange
  srcOffset : UInt64
  dstOffset : UInt64

/-- The loop, with no result if it takes more than `fuel` rounds. -/
def pairLoop : Nat → List NumRange → List NumRange → UInt64 → UInt64 → List Round → Option Walk
  | fuel, source :: src, dest :: dst, srcOffset, dstOffset, rounds =>
    match fuel with
    | 0 => none
    | fuel + 1 =>
      let round : Round := ⟨source, dest, srcOffset, dstOffset⟩
      pairLoop fuel (if round.srcDone then src else source :: src)
        (if round.dstDone then dst else dest :: dst)
        (if round.srcDone then 0 else srcOffset + round.count)
        (if round.dstDone then 0 else dstOffset + round.count)
        (rounds ++ [round])
  | _, src, dst, srcOffset, dstOffset, rounds =>
    some ⟨rounds, src, dst, srcOffset, dstOffset⟩

def finishParse (walk : Walk) : Except String UIDMapping :=
  if walk.src ≠ [] ∨ walk.dst ≠ [] then
    .error "imapwire: COPYUID sets have unequal lengths"
  else
    match validate (walk.rounds.map Round.pair) with
    | .error err => .error err
    | .ok () => .ok (walk.rounds.map Round.pair)

/-- `ParseUIDMapping`, with no result if its loop takes more than `fuel`
rounds. -/
def parseUIDMapping (fuel : Nat) (source dest : Bytes) : Option (Except String UIDMapping) :=
  match parseOrderedUIDSet source with
  | .error err => some (.error err)
  | .ok src =>
    match parseOrderedUIDSet dest with
    | .error err => some (.error err)
    | .ok dst => (pairLoop fuel src dst 0 0 []).map finishParse

/-! ## One side of a round -/

structure Inside (range : NumRange) (offset : UInt64) : Prop where
  pos : 0 < range.start.toNat
  fits : range.start.toNat + offset.toNat ≤ range.stop.toNat

theorem length_numbers (range : NumRange) :
    range.numbers.length = range.stop.toNat + 1 - range.start.toNat := by
  simp [NumRange.numbers]

theorem drop_take_numbers {range : NumRange} {offset count : Nat} {start stop : UInt32}
    (hstart : start.toNat = range.start.toNat + offset)
    (hstop : stop.toNat + 1 = start.toNat + count) (hle : stop.toNat ≤ range.stop.toNat) :
    NumRange.numbers ⟨start, stop⟩ = (range.numbers.drop offset).take count := by
  have hcount : stop.toNat + 1 - start.toNat = count := by omega
  have hmin : min count (range.stop.toNat + 1 - range.start.toNat - offset) = count := by
    omega
  simp only [NumRange.numbers, ← List.map_drop, ← List.map_take, List.drop_range', Nat.mul_one]
  rw [hcount, hstart, List.range'_eq_map_range, List.range'_eq_map_range,
    ← List.map_take, List.take_range, hmin]

namespace Inside

variable {range : NumRange} {offset count : UInt64}

theorem zero (h : Proper range) : Inside range 0 := ⟨h.pos, by simpa using h.le⟩

variable (h : Inside range offset)

include h

theorem toNat_start : (range.start.toUInt64 + offset).toNat = range.start.toNat + offset.toNat := by
  have hfits := h.fits
  have hstop := range.stop.toNat_lt
  simp
  omega

theorem start_le : range.start.toUInt64 + offset ≤ range.stop.toUInt64 := by
  rw [UInt64.le_iff_toNat_le, h.toNat_start]
  simpa using h.fits

theorem toNat_left : (range.stop.toUInt64 - (range.start.toUInt64 + offset) + 1).toNat =
      range.stop.toNat + 1 - (range.start.toNat + offset.toNat) := by
  have hfits := h.fits
  have hstop := range.stop.toNat_lt
  rw [UInt64.toNat_add, UInt64.toNat_sub_of_le _ _ h.start_le, h.toNat_start]
  simp
  omega

section

variable (hle : range.start.toNat + offset.toNat + count.toNat ≤ range.stop.toNat + 1)

include hle

theorem toNat_end : (range.start.toUInt64 + offset + count).toNat =
      range.start.toNat + offset.toNat + count.toNat := by
  have hstop := range.stop.toNat_lt
  rw [UInt64.toNat_add, h.toNat_start]
  omega

theorem done_iff : decide (range.start.toUInt64 + offset + count > range.stop.toUInt64) = true ↔
      range.start.toNat + offset.toNat + count.toNat = range.stop.toNat + 1 := by
  rw [decide_eq_true_iff, gt_iff_lt, UInt64.lt_iff_toNat_lt, h.toNat_end hle]
  simp
  omega

end

theorem toNat_piece (hpos : 0 < count.toNat)
    (hle : range.start.toNat + offset.toNat + count.toNat ≤ range.stop.toNat + 1) :
    (range.start.toUInt64 + offset).toUInt32.toNat = range.start.toNat + offset.toNat ∧
      (range.start.toUInt64 + offset + count - 1).toUInt32.toNat =
        range.start.toNat + offset.toNat + count.toNat - 1 := by
  have hstop := range.stop.toNat_lt
  have hone : 1 ≤ range.start.toUInt64 + offset + count := by
    rw [UInt64.le_iff_toNat_le, h.toNat_end hle]
    simp
    omega
  rw [UInt64.toNat_toUInt32, UInt64.toNat_toUInt32, h.toNat_start,
    UInt64.toNat_sub_of_le _ _ hone, h.toNat_end hle]
  simp
  omega

theorem add (hlt : range.start.toNat + offset.toNat + count.toNat ≤ range.stop.toNat) :
    (offset + count).toNat = offset.toNat + count.toNat ∧ Inside range (offset + count) := by
  have hstop := range.stop.toNat_lt
  have hsum : (offset + count).toNat = offset.toNat + count.toNat := by
    rw [UInt64.toNat_add]
    omega
  exact ⟨hsum, h.pos, by omega⟩

end Inside

/-! ## What is left of a list -/

def expand (ranges : List NumRange) : List UID := ranges.flatMap NumRange.numbers

def remaining (ranges : List NumRange) (offset : UInt64) : List UID :=
  (expand ranges).drop offset.toNat

structure Place (ranges : List NumRange) (offset : UInt64) : Prop where
  proper : ∀ range ∈ ranges, Proper range
  inside : ∀ range ∈ ranges.head?, Inside range offset

namespace Place

variable {range : NumRange} {ranges : List NumRange} {offset count : UInt64}

theorem start (h : ∀ range ∈ ranges, Proper range) : Place ranges 0 :=
  ⟨h, fun range hrange => .zero (h range (List.mem_of_mem_head? hrange))⟩

theorem remaining_cons (h : Inside range offset) :
    remaining (range :: ranges) offset = range.numbers.drop offset.toNat ++ expand ranges := by
  have hlength : offset.toNat ≤ range.numbers.length := by
    have hfits := h.fits
    rw [length_numbers]
    omega
  rw [remaining, expand, List.flatMap_cons, List.drop_append_of_le_length hlength]
  rfl

theorem remaining_eq_nil_iff (h : Place ranges offset) :
    remaining ranges offset = [] ↔ ranges = [] := by
  cases ranges with
  | nil => simp [remaining, expand]
  | cons range rest =>
    have hinside := h.inside range rfl
    have hfits := hinside.fits
    rw [remaining_cons hinside]
    simp [length_numbers]
    omega

theorem step (h : Place (range :: ranges) offset) (hpos : 0 < count.toNat)
    (hle : range.start.toNat + offset.toNat + count.toNat ≤ range.stop.toNat + 1) {done : Bool}
    (hdone : done = decide (range.start.toUInt64 + offset + count > range.stop.toUInt64)) :
    Place (if done then ranges else range :: ranges) (if done then 0 else offset + count) ∧
      remaining (range :: ranges) offset =
        NumRange.numbers ⟨(range.start.toUInt64 + offset).toUInt32,
          (range.start.toUInt64 + offset + count - 1).toUInt32⟩ ++
        remaining (if done then ranges else range :: ranges)
          (if done then 0 else offset + count) := by
  have hinside := h.inside range rfl
  have hrest := fun range hrange => h.proper range (List.mem_cons_of_mem _ hrange)
  obtain ⟨hstart, hstop⟩ := hinside.toNat_piece hpos hle
  have hpiece : NumRange.numbers ⟨(range.start.toUInt64 + offset).toUInt32,
      (range.start.toUInt64 + offset + count - 1).toUInt32⟩ =
        (range.numbers.drop offset.toNat).take count.toNat :=
    drop_take_numbers hstart (by omega) (by omega)
  rw [remaining_cons hinside, hpiece]
  have hend := hinside.done_iff hle
  rw [← hdone] at hend
  cases done with
  | true =>
    have htake : (range.numbers.drop offset.toNat).take count.toNat =
        range.numbers.drop offset.toNat := by
      have hall := hend.mp rfl
      apply List.take_of_length_le
      rw [List.length_drop, length_numbers]
      omega
    exact ⟨.start hrest, by simp [htake, remaining]⟩
  | false =>
    have hlt : range.start.toNat + offset.toNat + count.toNat ≤ range.stop.toNat := by
      have hne : ¬range.start.toNat + offset.toNat + count.toNat =
          range.stop.toNat + 1 := fun hall => by
        cases hend.mpr hall
      omega
    obtain ⟨hsum, hnext⟩ := hinside.add hlt
    have hplace : Place (range :: ranges) (offset + count) := by
      refine ⟨h.proper, ?_⟩
      intro head hhead
      cases hhead
      exact hnext
    refine ⟨hplace, ?_⟩
    simp only [Bool.false_eq_true, if_false]
    rw [remaining_cons hnext, ← List.append_assoc, hsum, ← List.drop_drop, List.take_append_drop]

end Place

/-! ## One round -/

namespace Round

variable {round : Round}

structure Ready (round : Round) : Prop where
  source : Inside round.source round.srcOffset
  dest : Inside round.dest round.dstOffset

structure Exact (round : Round) : Prop where
  srcStart : round.source.start.toNat + round.srcOffset.toNat < 2 ^ 64
  dstStart : round.dest.start.toNat + round.dstOffset.toNat < 2 ^ 64
  srcLeft : round.srcStart.toNat ≤ round.source.stop.toNat
  dstLeft : round.dstStart.toNat ≤ round.dest.stop.toNat
  srcCount : round.source.stop.toNat - round.srcStart.toNat + 1 < 2 ^ 64
  dstCount : round.dest.stop.toNat - round.dstStart.toNat + 1 < 2 ^ 64
  srcStart_word : round.srcStart.toNat < 2 ^ 32
  dstStart_word : round.dstStart.toNat < 2 ^ 32
  srcEnd : round.srcStart.toNat + round.count.toNat < 2 ^ 64
  dstEnd : round.dstStart.toNat + round.count.toNat < 2 ^ 64
  srcStop : 1 ≤ round.srcStart.toNat + round.count.toNat
  dstStop : 1 ≤ round.dstStart.toNat + round.count.toNat
  srcStop_word : round.srcStart.toNat + round.count.toNat - 1 < 2 ^ 32
  dstStop_word : round.dstStart.toNat + round.count.toNat - 1 < 2 ^ 32
  srcOffset : round.srcOffset.toNat + round.count.toNat < 2 ^ 64
  dstOffset : round.dstOffset.toNat + round.count.toNat < 2 ^ 64

theorem Ready.toNat_count (h : round.Ready) : 0 < round.count.toNat ∧
      round.source.start.toNat + round.srcOffset.toNat + round.count.toNat ≤
        round.source.stop.toNat + 1 ∧
      round.dest.start.toNat + round.dstOffset.toNat + round.count.toNat ≤
        round.dest.stop.toNat + 1 ∧
      (round.source.start.toNat + round.srcOffset.toNat + round.count.toNat =
          round.source.stop.toNat + 1 ∨
        round.dest.start.toNat + round.dstOffset.toNat + round.count.toNat =
          round.dest.stop.toNat + 1) := by
  have hsource : round.srcLeft.toNat = _ := h.source.toNat_left
  have hdest : round.dstLeft.toNat = _ := h.dest.toNat_left
  have hfits := h.source.fits
  have hfits' := h.dest.fits
  unfold count
  split_ifs with hle
  all_goals
    rw [UInt64.le_iff_toNat_le] at hle
    omega

theorem Ready.exact (h : round.Ready) : round.Exact := by
  obtain ⟨hpos, hsource, hdest, -⟩ := h.toNat_count
  have hsrc : round.srcStart.toNat = _ := h.source.toNat_start
  have hdst : round.dstStart.toNat = _ := h.dest.toNat_start
  have hstop := round.source.stop.toNat_lt
  have hstop' := round.dest.stop.toNat_lt
  constructor <;> omega

theorem Ready.pair_valid (h : round.Ready) : round.pair.Valid := by
  obtain ⟨hpos, hsource, hdest, -⟩ := h.toNat_count
  obtain ⟨hstart, hstop⟩ := h.source.toNat_piece hpos hsource
  obtain ⟨hstart', hstop'⟩ := h.dest.toNat_piece hpos hdest
  have hpositive := h.source.pos
  have hpositive' := h.dest.pos
  constructor <;> simp only [pair, srcStart, dstStart] <;> omega

theorem Ready.done (h : round.Ready) : round.srcDone = true ∨ round.dstDone = true := by
  obtain ⟨-, hsource, hdest, hend⟩ := h.toNat_count
  exact hend.imp (h.source.done_iff hsource).mpr (h.dest.done_iff hdest).mpr

end Round

/-! ## The loop -/

theorem sources_cons (pair : UIDPairRange) (rest : UIDMapping) :
    sources (pair :: rest) = pair.source.numbers ++ sources rest := rfl

theorem dests_cons (pair : UIDPairRange) (rest : UIDMapping) :
    dests (pair :: rest) = pair.dest.numbers ++ dests rest := rfl

structure Paired (src dst : List NumRange) (srcOffset dstOffset : UInt64) (walk : Walk) : Prop where
  ready : ∀ round ∈ walk.rounds, round.Ready
  length_le : walk.rounds.length ≤ src.length + dst.length
  source : remaining src srcOffset =
    sources (walk.rounds.map Round.pair) ++ remaining walk.src walk.srcOffset
  dest : remaining dst dstOffset =
    dests (walk.rounds.map Round.pair) ++ remaining walk.dst walk.dstOffset
  srcPlace : Place walk.src walk.srcOffset
  dstPlace : Place walk.dst walk.dstOffset
  ended : walk.src = [] ∨ walk.dst = []

def Walk.after (round : Round) (walk : Walk) : Walk := { walk with rounds := round :: walk.rounds }

theorem Round.Ready.length_lt {round : Round} (h : round.Ready) (src dst : List NumRange) :
    (if round.srcDone then src else round.source :: src).length +
        (if round.dstDone then dst else round.dest :: dst).length <
      (round.source :: src).length + (round.dest :: dst).length := by
  rcases h.done with hdone | hdone
  all_goals
    split_ifs <;> simp +arith

theorem Paired.after {source dest : NumRange} {src dst : List NumRange}
    {srcOffset dstOffset : UInt64} {walk : Walk} {round : Round}
    (hround : round = ⟨source, dest, srcOffset, dstOffset⟩) (hsrc : Place (source :: src) srcOffset)
    (hdst : Place (dest :: dst) dstOffset)
    (h : Paired (if round.srcDone then src else source :: src)
      (if round.dstDone then dst else dest :: dst)
      (if round.srcDone then 0 else srcOffset + round.count)
      (if round.dstDone then 0 else dstOffset + round.count) walk) :
    Paired (source :: src) (dest :: dst) srcOffset dstOffset (walk.after round) := by
  subst hround
  have hready : Round.Ready ⟨source, dest, srcOffset, dstOffset⟩ :=
    ⟨hsrc.inside source rfl, hdst.inside dest rfl⟩
  obtain ⟨hpos, hsource, hdest, -⟩ := hready.toNat_count
  have hsrcStep := (hsrc.step hpos hsource rfl).2
  have hdstStep := (hdst.step hpos hdest rfl).2
  refine ⟨?_, ?_, ?_, ?_, h.srcPlace, h.dstPlace, h.ended⟩
  · exact List.forall_mem_cons.mpr ⟨hready, h.ready⟩
  · exact Nat.lt_of_le_of_lt h.length_le (hready.length_lt src dst)
  · rw [hsrcStep]
    simp only [Walk.after, List.map_cons, sources_cons, List.append_assoc]
    rw [← h.source]
    rfl
  · rw [hdstStep]
    simp only [Walk.after, List.map_cons, dests_cons, List.append_assoc]
    rw [← h.dest]
    rfl

theorem pairLoop_spec {src dst : List NumRange} {srcOffset dstOffset : UInt64}
    (hsrc : Place src srcOffset) (hdst : Place dst dstOffset) :
    ∃ walk, Paired src dst srcOffset dstOffset walk ∧
      ∀ fuel, src.length + dst.length ≤ fuel → ∀ rounds,
        pairLoop fuel src dst srcOffset dstOffset rounds =
          some { walk with rounds := rounds ++ walk.rounds } := by
  induction hn : src.length + dst.length using Nat.strong_induction_on
    generalizing src dst srcOffset dstOffset with
  | _ n ih =>
    subst hn
    match src, dst with
    | [], dst =>
      refine ⟨⟨[], [], dst, srcOffset, dstOffset⟩, ?_, ?_⟩
      · exact ⟨List.forall_mem_nil _, Nat.zero_le _, rfl, rfl, hsrc, hdst, .inl rfl⟩
      · intro fuel _ rounds
        simp [pairLoop]
    | source :: src, [] =>
      refine ⟨⟨[], source :: src, [], srcOffset, dstOffset⟩, ?_, ?_⟩
      · exact ⟨List.forall_mem_nil _, Nat.zero_le _, rfl, rfl, hsrc, hdst, .inr rfl⟩
      · intro fuel _ rounds
        simp [pairLoop]
    | source :: src, dest :: dst =>
      have hready : Round.Ready ⟨source, dest, srcOffset, dstOffset⟩ :=
        ⟨hsrc.inside source rfl, hdst.inside dest rfl⟩
      obtain ⟨hpos, hsource, hdest, -⟩ := hready.toNat_count
      have hlength := hready.length_lt src dst
      obtain ⟨walk, hwalk, hloop⟩ := ih _ hlength
        (hsrc.step hpos hsource rfl).1 (hdst.step hpos hdest rfl).1 rfl
      refine ⟨walk.after _, .after rfl hsrc hdst hwalk, ?_⟩
      intro fuel hfuel rounds
      cases fuel with
      | zero => simp at hfuel
      | succ fuel =>
        have hless := Nat.lt_of_lt_of_le hlength hfuel
        refine (hloop fuel (Nat.le_of_lt_succ hless) _).trans ?_
        simp [Walk.after]

namespace Paired

variable {src dst : List NumRange} {walk : Walk}

variable (h : Paired src dst 0 0 walk)

include h

theorem pairs_valid : ∀ pair ∈ walk.rounds.map Round.pair, pair.Valid := by
  rw [List.forall_mem_map]
  exact fun round hround => (h.ready round hround).pair_valid

theorem ended_iff : walk.src = [] ∧ walk.dst = [] ↔ (expand src).length = (expand dst).length := by
  have hsource : expand src = _ := h.source
  have hdest : expand dst = _ := h.dest
  have hlength := (length_of_valid_pairs h.pairs_valid).1
  have hended := h.ended
  rw [← h.srcPlace.remaining_eq_nil_iff, ← h.dstPlace.remaining_eq_nil_iff,
    ← List.length_eq_zero_iff, ← List.length_eq_zero_iff] at hended ⊢
  rw [hsource, hdest, List.length_append, List.length_append, hlength]
  omega

theorem mapping_eq (hsrc : walk.src = []) (hdst : walk.dst = []) :
    sources (walk.rounds.map Round.pair) = expand src ∧
      dests (walk.rounds.map Round.pair) = expand dst := by
  have hsource := h.source
  have hdest := h.dest
  rw [h.srcPlace.remaining_eq_nil_iff.mpr hsrc, List.append_nil] at hsource
  rw [h.dstPlace.remaining_eq_nil_iff.mpr hdst, List.append_nil] at hdest
  exact ⟨hsource.symm, hdest.symm⟩

theorem valid_iff (hne : expand src ≠ []) (hsrc : walk.src = []) (hdst : walk.dst = []) :
    Valid (walk.rounds.map Round.pair) ↔ (expand src).Nodup ∧ (expand dst).Nodup := by
  obtain ⟨hsources, hdests⟩ := h.mapping_eq hsrc hdst
  rw [← hsources, ← hdests]
  constructor
  · exact fun hvalid => ⟨hvalid.sources, hvalid.dests⟩
  · rintro ⟨hnodup, hnodup'⟩
    refine ⟨?_, h.pairs_valid, hnodup, hnodup'⟩
    intro hnil
    rw [hnil] at hsources
    exact hne hsources.symm

theorem finishParse_ok_iff (hne : expand src ≠ []) {m : UIDMapping} :
    finishParse walk = .ok m ↔ ((expand src).length = (expand dst).length ∧ (expand src).Nodup ∧
        (expand dst).Nodup) ∧ walk.rounds.map Round.pair = m := by
  rw [← h.ended_iff, finishParse]
  by_cases hended : walk.src = [] ∧ walk.dst = []
  · have hvalid := h.valid_iff hne hended.1 hended.2
    rw [← validate_iff] at hvalid
    rw [if_neg (by simp [hended])]
    cases hok : validate (walk.rounds.map Round.pair) with
    | error err =>
      rw [hok] at hvalid
      simp [← hvalid]
    | ok =>
      simp [hended, hvalid.mp hok]
  · have hopen := not_and_or.mp hended
    rw [if_pos hopen]
    simp [hended]

end Paired

theorem expand_ne_nil {text : Bytes} {ranges : List NumRange}
    (h : UIDSetText text ranges) : expand ranges ≠ [] := by
  have hnil := (Place.start h.proper).remaining_eq_nil_iff
  exact fun hexpand => h.ne_nil (hnil.mp hexpand)

/-- The expansions of the two texts can be paired: they have the same length
and no UID twice. -/
def Pairable (source dest : Bytes) (src dst : List NumRange) : Prop :=
  UIDSetText source src ∧ UIDSetText dest dst ∧
    (expand src).length = (expand dst).length ∧ (expand src).Nodup ∧
    (expand dst).Nodup

theorem parseUIDMapping_spec (source dest : Bytes) : ∃ result, (∀ fuel,
        (source.splitOn comma).length + (dest.splitOn comma).length ≤ fuel →
        parseUIDMapping fuel source dest = some result) ∧
      ((∃ m, result = .ok m) ↔ ∃ src dst, Pairable source dest src dst) ∧
      ∀ m, result = .ok m → ∃ src dst, Pairable source dest src dst ∧
        m.Valid ∧ m.sources = expand src ∧ m.dests = expand dst := by
  cases hsource : parseOrderedUIDSet source with
  | error err =>
    refine ⟨.error err, ?_, ?_, ?_⟩
    · intro fuel _
      simp [parseUIDMapping, hsource]
    · simp [Pairable, ← parseOrderedUIDSet_ok_iff, hsource]
    · intro m hm
      cases hm
  | ok src =>
    cases hdest : parseOrderedUIDSet dest with
    | error err =>
      refine ⟨.error err, ?_, ?_, ?_⟩
      · intro fuel _
        simp [parseUIDMapping, hsource, hdest]
      · simp [Pairable, ← parseOrderedUIDSet_ok_iff, hdest]
      · intro m hm
        cases hm
    | ok dst =>
      have hsrc := parseOrderedUIDSet_ok_iff.mp hsource
      have hdst := parseOrderedUIDSet_ok_iff.mp hdest
      obtain ⟨walk, hwalk, hloop⟩ := pairLoop_spec (.start hsrc.proper) (.start hdst.proper)
      refine ⟨finishParse walk, ?_, ?_, ?_⟩
      · intro fuel hfuel
        rw [← hsrc.length_eq, ← hdst.length_eq] at hfuel
        simp [parseUIDMapping, hsource, hdest, hloop fuel hfuel]
      · simp only [hwalk.finishParse_ok_iff (expand_ne_nil hsrc)]
        constructor
        · rintro ⟨m, hpairable, -⟩
          exact ⟨src, dst, hsrc, hdst, hpairable⟩
        · rintro ⟨src', dst', hsrc', hdst', hpairable⟩
          rw [hsrc'.unique hsrc, hdst'.unique hdst] at hpairable
          exact ⟨_, hpairable, rfl⟩
      · intro m hm
        obtain ⟨hpairable, rfl⟩ := (hwalk.finishParse_ok_iff (expand_ne_nil hsrc)).mp hm
        obtain ⟨hsrcEnd, hdstEnd⟩ := hwalk.ended_iff.mpr hpairable.1
        exact ⟨src, dst, ⟨hsrc, hdst, hpairable⟩,
          (hwalk.valid_iff (expand_ne_nil hsrc) hsrcEnd hdstEnd).mpr
            hpairable.2, hwalk.mapping_eq hsrcEnd hdstEnd⟩

theorem parseUIDMapping_pairs (source dest : Bytes) :
    (∀ src dst, parseOrderedUIDSet source = .ok src → parseOrderedUIDSet dest = .ok dst →
      ∃ walk, (∀ fuel, src.length + dst.length ≤ fuel → pairLoop fuel src dst 0 0 [] = some walk) ∧
        walk.rounds.length ≤ src.length + dst.length ∧
        ∀ round ∈ walk.rounds, round.Exact) ∧
    (∃ result, (∀ fuel, (source.splitOn comma).length + (dest.splitOn comma).length ≤ fuel →
        parseUIDMapping fuel source dest = some result) ∧
      ((∃ m, result = .ok m) ↔ ∃ src dst, Pairable source dest src dst) ∧
      ∀ m, result = .ok m → ∃ src dst, Pairable source dest src dst ∧
        m.all = (expand src).zip (expand dst) ∧
        m.cardinality.toNat = (expand src).length) ∧
    ∀ m : UIDMapping, m.validate = .ok () →
      m.all.map Prod.fst = m.sources ∧ m.all.map Prod.snd = m.dests ∧
      m.sources.Nodup ∧ m.dests.Nodup ∧
      m.cardinality.toNat = m.all.length := by
  refine ⟨?_, ?_, ?_⟩
  · intro src dst hsource hdest
    have hsrc := parseOrderedUIDSet_ok_iff.mp hsource
    have hdst := parseOrderedUIDSet_ok_iff.mp hdest
    obtain ⟨walk, hwalk, hloop⟩ := pairLoop_spec (.start hsrc.proper) (.start hdst.proper)
    exact ⟨walk, fun fuel hfuel => hloop fuel hfuel [], hwalk.length_le,
      fun round hround => (hwalk.ready round hround).exact⟩
  · obtain ⟨result, hresult, hok, hpairs⟩ := parseUIDMapping_spec source dest
    refine ⟨result, hresult, hok, ?_⟩
    intro m hm
    obtain ⟨src, dst, hpairable, hvalid, hsources, hdests⟩ := hpairs m hm
    refine ⟨src, dst, hpairable, ?_, ?_⟩
    · rw [hvalid.all_eq, hsources, hdests]
    · rw [hvalid.cardinality_eq, hsources]
  · intro m hm
    have hvalid := (validate_iff m).mp hm
    exact ⟨hvalid.map_all.1, hvalid.map_all.2, hvalid.sources, hvalid.dests, hvalid.length_all⟩

end UIDMapping

end GoImap
