import GoImap.NumSet.Expand
import GoImap.NumSet.Text

/-!
# The halves of COPYUID as text

Unlike a number set, a half of COPYUID keeps the order of its elements and does
not join them.  An element may have leading zeros, but is never zero or `*`.
-/

namespace GoImap

namespace UIDMapping

def parseOrderedUID (text : Bytes) (err : String) : Except String UInt32 :=
  match parseUint text 32 with
  | none => .error err
  | some 0 => .error err
  | some value => .ok (UInt32.ofNat value)

def orderedRange (start stop : UInt32) : NumRange :=
  if start ≤ stop then ⟨start, stop⟩ else ⟨stop, start⟩

def parseOrderedRange (item : Bytes) : Except String NumRange :=
  match parseOrderedUID (item.takeWhile (· ≠ colon)) "imapwire: invalid COPYUID UID" with
  | .error err => .error err
  | .ok start =>
    match item.dropWhile (· ≠ colon) with
    | [] => .ok (orderedRange start start)
    | _ :: stopText =>
      match parseOrderedUID stopText "imapwire: invalid COPYUID range" with
      | .error err => .error err
      | .ok stop => .ok (orderedRange start stop)

def parseOrderedLoop : List Bytes → List NumRange → Except String (List NumRange)
  | [], result => .ok result
  | item :: rest, result =>
    match parseOrderedRange item with
    | .error err => .error err
    | .ok range => parseOrderedLoop rest (result ++ [range])

def parseOrderedUIDSet (s : Bytes) : Except String (List NumRange) :=
  parseOrderedLoop (s.splitOn comma) []

/-! ## The grammar -/

/-- A decimal digit string with a value that is a UID. -/
structure UIDText (text : Bytes) (uid : UInt32) : Prop where
  ne_nil : text ≠ []
  digits : ∀ byte ∈ text, isDigit byte = true
  value : decimal text = uid.toNat
  pos : 0 < uid.toNat

inductive ItemText : Bytes → NumRange → Prop
  | single {text : Bytes} {uid : UInt32} : UIDText text uid → ItemText text ⟨uid, uid⟩
  | range {first second : Bytes} {start stop : UInt32} : UIDText first start → UIDText second stop →
      ItemText (first ++ colon :: second) (orderedRange start stop)

def UIDSetText (text : Bytes) (ranges : List NumRange) : Prop :=
  ∃ items : List Bytes, items ≠ [] ∧ text = [comma].intercalate items ∧
    List.Forall₂ ItemText items ranges

structure Proper (range : NumRange) : Prop where
  pos : 0 < range.start.toNat
  le : range.start.toNat ≤ range.stop.toNat

variable {text : Bytes} {uid : UInt32} {range : NumRange} {ranges : List NumRange}

theorem UIDText.not_mem (h : UIDText text uid) {byte : UInt8}
    (hbyte : isDigit byte = false) : byte ∉ text := by
  intro hmem
  rw [h.digits byte hmem] at hbyte
  cases hbyte

theorem UIDText.colon_not_mem (h : UIDText text uid) : colon ∉ text := h.not_mem (by decide)

theorem ItemText.not_mem (h : ItemText text range) {byte : UInt8}
    (hbyte : isDigit byte = false) (hcolon : byte ≠ colon) : byte ∉ text := by
  cases h with
  | single huid => exact huid.not_mem hbyte
  | range hfirst hsecond =>
    simp [hfirst.not_mem hbyte, hsecond.not_mem hbyte, hcolon]

theorem orderedRange_self (uid : UInt32) : orderedRange uid uid = ⟨uid, uid⟩ :=
  if_pos (UInt32.le_refl uid)

theorem ItemText.proper (h : ItemText text range) : Proper range := by
  cases h with
  | single huid => exact ⟨huid.pos, le_refl _⟩
  | range hfirst hsecond =>
    unfold orderedRange
    split_ifs with hle
    · exact ⟨hfirst.pos, hle⟩
    · exact ⟨hsecond.pos, Nat.le_of_not_le hle⟩

theorem UIDSetText.proper (h : UIDSetText text ranges) : ∀ range ∈ ranges, Proper range := by
  obtain ⟨items, -, -, hranges⟩ := h
  induction hranges with
  | nil => exact List.forall_mem_nil _
  | cons hitem _ ih => exact List.forall_mem_cons.mpr ⟨hitem.proper, ih⟩

theorem UIDSetText.ne_nil (h : UIDSetText text ranges) : ranges ≠ [] := by
  obtain ⟨items, hne, -, hranges⟩ := h
  rintro rfl
  exact hne (List.forall₂_nil_right_iff.mp hranges)

/-! ## Parsing -/

theorem parseOrderedUID_ok_iff {err : String} :
    parseOrderedUID text err = .ok uid ↔ UIDText text uid := by
  constructor
  · intro h
    unfold parseOrderedUID at h
    split at h
    · cases h
    · cases h
    · next value hzero hvalue =>
        obtain ⟨hne, hdigits, hdecimal, hlt⟩ := parseUint_eq_some.mp hvalue
        cases h
        have htoNat := Word.toNat_ofNat_of_lt hlt
        refine ⟨hne, hdigits, hdecimal.trans htoNat.symm, ?_⟩
        rw [htoNat]
        exact Nat.pos_of_ne_zero hzero
  · intro h
    have hparse : parseUint text 32 = some uid.toNat :=
      parseUint_eq_some.mpr ⟨h.ne_nil, h.digits, h.value, uid.toNat_lt⟩
    have hpos := h.pos
    unfold parseOrderedUID
    rw [hparse]
    split
    · next hnone => cases hnone
    · next hzero =>
        rw [Option.some.injEq] at hzero
        omega
    · next value _ hvalue =>
        cases hvalue
        rw [UInt32.ofNat_toNat]

theorem parseOrderedRange_ok_iff {item : Bytes} :
    parseOrderedRange item = .ok range ↔ ItemText item range := by
  constructor
  · intro h
    unfold parseOrderedRange at h
    split at h
    · cases h
    · next start hstart =>
        have hfirst := parseOrderedUID_ok_iff.mp hstart
        have hitem := @List.takeWhile_append_dropWhile _ (· ≠ colon) item
        split at h
        · next hdrop =>
            cases h
            rw [hdrop, List.append_nil] at hitem
            rw [hitem] at hfirst
            rw [orderedRange_self]
            exact .single hfirst
        · next byte back hdrop =>
            split at h
            · cases h
            · next stop hstop =>
                cases h
                have hcolon : byte = colon := by
                  have hhead := List.head?_dropWhile_not (· ≠ colon) item
                  rw [hdrop] at hhead
                  simpa using hhead
                rw [hdrop, hcolon] at hitem
                rw [← hitem]
                exact .range hfirst (parseOrderedUID_ok_iff.mp hstop)
  · intro h
    cases h with
    | single huid =>
      have htake : item.takeWhile (· ≠ colon) = item := by
        have hsplit := @List.takeWhile_append_dropWhile _ (· ≠ colon) item
        rwa [dropWhile_colon_of_not_mem huid.colon_not_mem, List.append_nil] at hsplit
      simp only [parseOrderedRange, dropWhile_colon_of_not_mem huid.colon_not_mem,
        htake, parseOrderedUID_ok_iff.mpr huid, orderedRange_self]
    | range hfirst hsecond =>
      obtain ⟨htake, hdrop⟩ := @split_colon _ ‹_› hfirst.colon_not_mem
      simp only [parseOrderedRange, htake, hdrop,
        parseOrderedUID_ok_iff.mpr hfirst, parseOrderedUID_ok_iff.mpr hsecond]

theorem parseOrderedLoop_ok_iff {items : List Bytes} {result : List NumRange} :
    parseOrderedLoop items result = .ok ranges ↔ ∃ added, List.Forall₂ ItemText items added ∧
        ranges = result ++ added := by
  induction items generalizing result with
  | nil => simp [parseOrderedLoop, eq_comm]
  | cons item rest ih =>
    rw [parseOrderedLoop]
    constructor
    · intro h
      cases hrange : parseOrderedRange item with
      | error err => simp [hrange] at h
      | ok range =>
        simp only [hrange] at h
        obtain ⟨added, hadded, rfl⟩ := ih.mp h
        exact ⟨range :: added, .cons (parseOrderedRange_ok_iff.mp hrange) hadded, by simp⟩
    · rintro ⟨added, hadded, rfl⟩
      cases hadded with
      | cons hitem hrest =>
        simp only [parseOrderedRange_ok_iff.mpr hitem]
        exact ih.mpr ⟨_, hrest, by simp⟩

theorem parseOrderedUIDSet_ok_iff {s : Bytes} :
    parseOrderedUIDSet s = .ok ranges ↔ UIDSetText s ranges := by
  rw [parseOrderedUIDSet, parseOrderedLoop_ok_iff]
  constructor
  · rintro ⟨added, hadded, rfl⟩
    exact ⟨_, List.splitOn_ne_nil _ _, (List.intercalate_splitOn comma).symm, by simpa using hadded⟩
  · rintro ⟨items, hne, rfl, hranges⟩
    have hboth : List.Forall₂ (fun item range => comma ∉ item ∧ ItemText item range) items ranges :=
      hranges.imp fun _ _ h => ⟨h.not_mem (by decide) (by decide), h⟩
    have hplain := ((List.forall₂_and_left _ _).mp hboth).1
    rw [List.splitOn_intercalate comma hplain hne]
    exact ⟨ranges, hranges, by simp⟩

theorem UIDSetText.length_eq (h : UIDSetText text ranges) :
    ranges.length = (text.splitOn comma).length := by
  obtain ⟨added, hadded, heq⟩ := parseOrderedLoop_ok_iff.mp (parseOrderedUIDSet_ok_iff.mpr h)
  rw [heq, List.nil_append, hadded.length_eq]

theorem UIDSetText.unique {first second : List NumRange}
    (hfirst : UIDSetText text first) (hsecond : UIDSetText text second) :
    first = second := by
  have hparse := parseOrderedUIDSet_ok_iff.mpr hfirst
  rw [parseOrderedUIDSet_ok_iff.mpr hsecond] at hparse
  exact (Except.ok.inj hparse).symm

end UIDMapping

end GoImap
