import Mathlib.Data.List.Induction
import Mathlib.Tactic.Common

/-!
# UTF-8 in strings of arbitrary bytes

A decoder takes the character a string starts with or, where none does, one
byte, for which it gives the replacement character.  Since the bytes after the
first of a character never start one, the bytes it replaces are those that are
in no encoded character at all.
-/

namespace Utf8

def decodeChar? (s : List UInt8) : Option Char := s.toByteArray.utf8DecodeChar? 0

variable {s rest : List UInt8} {c : Char} {byte : UInt8} {position : Nat}

theorem decodeChar?_eq_some_iff : decodeChar? s = some c ↔ String.utf8EncodeChar c <+: s := by
  constructor
  · intro h
    obtain ⟨rest, hrest⟩ := ByteArray.exists_of_utf8DecodeChar?_eq_some h
    refine ⟨rest.data.toList, ?_⟩
    have hdata := congrArg (fun bytes => bytes.data.toList) hrest
    simpa using hdata.symm
  · rintro ⟨rest, rfl⟩
    have hdecode := @ByteArray.utf8DecodeChar?_utf8EncodeChar_append rest.toByteArray c
    rwa [← List.toByteArray_append] at hdecode

theorem toNat_valid (c : Char) : c.toNat < 0xD800 ∨ 0xDFFF < c.toNat ∧ c.toNat < 0x110000 := c.valid

theorem toNat_ofNat {n : Nat} (h : n.isValidChar) : (Char.ofNat n).toNat = n := by
  rw [Char.ofNat, dif_pos h]
  rfl

def replacement : Char := '\uFFFD'

def decodeRune (s : List UInt8) : Char × Nat :=
  match decodeChar? s with
  | some c => (c, c.utf8Size)
  | none => (replacement, if s = [] then 0 else 1)

theorem decodeRune_append (c : Char) (rest : List UInt8) :
    decodeRune (String.utf8EncodeChar c ++ rest) = (c, c.utf8Size) := by
  have hdecode : decodeChar? (String.utf8EncodeChar c ++ rest) = some c :=
    decodeChar?_eq_some_iff.mpr ⟨rest, rfl⟩
  rw [decodeRune, hdecode]

theorem decodeRune_of_none (h : decodeChar? (byte :: rest) = none) :
    decodeRune (byte :: rest) = (replacement, 1) := by
  simp [decodeRune, h]

theorem decodeRune_size_pos (h : s ≠ []) : 0 < (decodeRune s).2 := by
  unfold decodeRune
  cases decodeChar? s with
  | none => simp [h]
  | some c => exact c.utf8Size_pos

/-- The characters of a string, with a replacement for each byte that does not
belong to one. -/
def runes (s : List UInt8) : List Char :=
  if s = [] then []
  else (decodeRune s).1 :: runes (s.drop (decodeRune s).2)
termination_by s.length
decreasing_by
  rename_i h
  have hpos := decodeRune_size_pos h
  have hlength := List.length_pos_iff.mpr h
  simp only [List.length_drop]
  omega

/-- The encoding of a code point; a value that is none is replaced. -/
def encodeRune (r : Nat) : List UInt8 :=
  if r.isValidChar then String.utf8EncodeChar (Char.ofNat r)
  else String.utf8EncodeChar replacement

theorem encodeRune_toNat (c : Char) : encodeRune c.toNat = String.utf8EncodeChar c := by
  rw [encodeRune, if_pos (toNat_valid c), Char.ofNat_toNat]

theorem length_encodeRune_le (r : Nat) : (encodeRune r).length ≤ 4 := by
  unfold encodeRune
  split_ifs
  · rw [String.length_utf8EncodeChar]
    exact Char.utf8Size_le_four _
  · decide

theorem length_encodeRune_le_three {r : Nat} (h : r < 0x10000) : (encodeRune r).length ≤ 3 := by
  unfold encodeRune
  split_ifs with hvalid
  · have hval : (Char.ofNat r).val.toNat = r := toNat_ofNat hvalid
    simp only [String.utf8EncodeChar, hval]
    split_ifs
    · simp
    · simp
    · simp
    · omega
  · decide

def encodeAll (chars : List Char) : List UInt8 := chars.flatMap String.utf8EncodeChar

@[simp] theorem runes_nil : runes [] = [] := by
  simp [runes]

theorem encodeAll_runes_ne_nil (h : s ≠ []) : encodeAll (runes s) ≠ [] := by
  rw [runes, if_neg h]
  simp [encodeAll, String.utf8EncodeChar_ne_nil]

theorem runes_append (c : Char) (rest : List UInt8) :
    runes (String.utf8EncodeChar c ++ rest) = c :: runes rest := by
  rw [runes, if_neg (by simp [String.utf8EncodeChar_ne_nil]),
    decodeRune_append, ← String.length_utf8EncodeChar, List.drop_left]

theorem runes_singleton (c : Char) : runes (String.utf8EncodeChar c) = [c] := by
  simpa using runes_append c []

theorem runes_of_none (h : decodeChar? (byte :: rest) = none) :
    runes (byte :: rest) = replacement :: runes rest := by
  rw [runes, if_neg (List.cons_ne_nil _ _), decodeRune_of_none h]
  rfl

theorem induction_runes {P : List UInt8 → Prop} (nil : P [])
    (char : ∀ c rest, P rest → P (String.utf8EncodeChar c ++ rest))
    (invalid : ∀ byte rest, decodeChar? (byte :: rest) = none → P rest → P (byte :: rest))
    (s : List UInt8) : P s := by
  induction hlength : s.length using Nat.strongRecOn generalizing s with
  | _ length ih =>
    subst hlength
    cases s with
    | nil => exact nil
    | cons byte rest =>
      cases hdecode : decodeChar? (byte :: rest) with
      | none =>
        exact invalid byte rest hdecode (ih rest.length (by simp) rest rfl)
      | some c =>
        obtain ⟨after, hafter⟩ := decodeChar?_eq_some_iff.mp hdecode
        rw [← hafter]
        refine char c after (ih after.length ?_ after rfl)
        have hpos := List.length_pos_iff.mpr (@String.utf8EncodeChar_ne_nil c)
        rw [← hafter, List.length_append]
        omega

theorem runes_encodeAll (chars : List Char) : runes (encodeAll chars) = chars := by
  induction chars with
  | nil => simp [encodeAll]
  | cons c rest ih =>
    rw [encodeAll, List.flatMap_cons, runes_append, ← encodeAll, ih]

/-! ## Valid strings -/

def valid (s : List UInt8) : Bool := s.toByteArray.validateUTF8

theorem valid_iff : valid s = true ↔ ∃ chars, s = encodeAll chars := by
  rw [valid, ByteArray.validateUTF8_eq_true_iff]
  constructor
  · rintro ⟨chars, hchars⟩
    refine ⟨chars, ?_⟩
    have hdata := congrArg (fun bytes => bytes.data.toList) hchars
    simpa [List.utf8Encode, encodeAll] using hdata
  · rintro ⟨chars, rfl⟩
    exact ⟨chars, rfl⟩

/-! ## ASCII -/

theorem utf8EncodeChar_of_lt (h : c.toNat < 128) :
    String.utf8EncodeChar c = [UInt8.ofNat c.toNat] := by
  have hle : c.val.toNat ≤ 127 := by
    have hval : c.val.toNat = c.toNat := rfl
    omega
  simp only [String.utf8EncodeChar, hle, if_true]
  rfl

theorem utf8EncodeChar_of_ge (h : 128 ≤ c.toNat)
    (hmem : byte ∈ String.utf8EncodeChar c) : 128 ≤ byte.toNat := by
  have hgt : ¬c.val.toNat ≤ 127 := by
    have hval : c.val.toNat = c.toNat := rfl
    omega
  simp only [String.utf8EncodeChar, hgt, if_false] at hmem
  split_ifs at hmem
  all_goals
    simp only [List.mem_cons, List.not_mem_nil, or_false] at hmem
    rcases hmem with rfl | rfl | rfl | rfl <;>
      simp only [UInt8.toNat_ofNat'] <;> omega

theorem exists_ascii (h : byte.toNat < 128) :
    ∃ c : Char, c.toNat = byte.toNat ∧ String.utf8EncodeChar c = [byte] := by
  have hnat : (Char.ofNat byte.toNat).toNat = byte.toNat := toNat_ofNat (.inl (by omega))
  refine ⟨Char.ofNat byte.toNat, hnat, ?_⟩
  rw [utf8EncodeChar_of_lt (by omega), hnat]
  simp

theorem eq_singleton_of_ascii (hmem : byte ∈ String.utf8EncodeChar c)
    (h : byte.toNat < 128) : String.utf8EncodeChar c = [byte] := by
  have hlt : c.toNat < 128 := by
    by_contra hge
    have hbyte := utf8EncodeChar_of_ge (Nat.not_lt.mp hge) hmem
    omega
  rw [utf8EncodeChar_of_lt hlt] at hmem ⊢
  rw [List.mem_singleton.mp hmem]

theorem runes_ascii (h : byte.toNat < 128) (rest : List UInt8) :
    ∃ c : Char, String.utf8EncodeChar c = [byte] ∧ runes (byte :: rest) = c :: runes rest := by
  obtain ⟨c, -, hencode⟩ := exists_ascii h
  refine ⟨c, hencode, ?_⟩
  have hrunes := runes_append c rest
  rwa [hencode] at hrunes

theorem valid_of_ascii (h : ∀ byte ∈ s, byte.toNat < 128) : valid s = true := by
  rw [valid_iff]
  induction s with
  | nil => exact ⟨[], rfl⟩
  | cons byte rest ih =>
    obtain ⟨c, -, hc⟩ := exists_ascii (h byte (by simp))
    obtain ⟨chars, rfl⟩ := ih fun other hother => h other (List.mem_cons_of_mem _ hother)
    exact ⟨c :: chars, by simp [encodeAll, hc]⟩

theorem runes_append_of_ascii (hrest : ∀ byte ∈ rest.head?, byte.toNat < 128)
    (s : List UInt8) : runes (s ++ rest) = runes s ++ runes rest := by
  induction s using induction_runes with
  | nil => simp
  | char c s ih =>
    rw [List.append_assoc, runes_append, runes_append, ih, List.cons_append]
  | invalid byte s hnone ih =>
    have hnone' : decodeChar? (byte :: (s ++ rest)) = none := by
      by_contra hsome
      obtain ⟨c, hc⟩ := Option.ne_none_iff_exists'.mp hsome
      obtain ⟨after, hafter⟩ := decodeChar?_eq_some_iff.mp hc
      rw [← List.cons_append] at hafter
      rcases List.append_eq_append_iff.mp hafter with
        ⟨inner, hinner, -⟩ | ⟨excess, hexcess, hsplit⟩
      · have hsome' := decodeChar?_eq_some_iff.mpr ⟨inner, hinner.symm⟩
        rw [hnone] at hsome'
        cases hsome'
      · cases excess with
        | nil =>
          rw [List.append_nil] at hexcess
          have hsome' := decodeChar?_eq_some_iff.mpr ⟨[], (List.append_nil _).trans hexcess⟩
          rw [hnone] at hsome'
          cases hsome'
        | cons first excess =>
          have hascii := hrest first (by simp [hsplit])
          have hmem : first ∈ String.utf8EncodeChar c := by
            rw [hexcess]
            simp
          have hone := eq_singleton_of_ascii hmem hascii
          have hlength := congrArg List.length (hexcess.symm.trans hone)
          simp at hlength
    rw [List.cons_append, runes_of_none hnone', runes_of_none hnone, ih, List.cons_append]

/-! ## The bytes that are in no character -/

def Occurs (s : List UInt8) (position : Nat) (c : Char) : Prop :=
  String.utf8EncodeChar c <+: s.drop position

def InChar (s : List UInt8) (index : Nat) : Prop :=
  ∃ position c, Occurs s position c ∧ position ≤ index ∧ index < position + c.utf8Size

open Classical in
noncomputable def replaceInvalid (s : List UInt8) : List UInt8 :=
  s.zipIdx.flatMap fun entry =>
    if InChar s entry.2 then [entry.1] else String.utf8EncodeChar replacement

def Boundary (s : List UInt8) (position : Nat) : Prop :=
  ∀ start c, Occurs s start c → start < position → start + c.utf8Size ≤ position

theorem Occurs.getElem? (h : Occurs s position c) {index : Nat} (hindex : index < c.utf8Size) :
    s[position + index]? = (String.utf8EncodeChar c)[index]? := by
  obtain ⟨after, hafter⟩ := h
  rw [← String.length_utf8EncodeChar] at hindex
  rw [← List.getElem?_drop, ← hafter, List.getElem?_append_left hindex]

theorem Occurs.not_inside {other : Char} (h : Occurs s position c)
    {index : Nat} (hpos : 0 < index) (hindex : index < c.utf8Size) :
    ¬Occurs s (position + index) other := by
  intro hother
  have hfirst := hother.getElem? other.utf8Size_pos
  rw [Nat.add_zero, h.getElem? hindex] at hfirst
  have hlength := String.length_utf8EncodeChar c
  have hlength' := String.length_utf8EncodeChar other
  have hother' := other.utf8Size_pos
  rw [List.getElem?_eq_getElem (by omega),
    List.getElem?_eq_getElem (by omega), Option.some_inj] at hfirst
  have hstart := @UInt8.isUTF8FirstByte_getElem_zero_utf8EncodeChar other
  rw [← hfirst] at hstart
  have hzero := UInt8.isUTF8FirstByte_getElem_utf8EncodeChar.mp hstart
  omega

theorem Occurs.unique {other : Char} (h : Occurs s position c)
    (hother : Occurs s position other) : c = other := by
  have hc := decodeChar?_eq_some_iff.mpr h
  rw [decodeChar?_eq_some_iff.mpr hother] at hc
  exact (Option.some.inj hc).symm

theorem Boundary.char (h : Boundary s position) (hc : Occurs s position c) :
    Boundary s (position + c.utf8Size) := by
  intro start other hother hstart
  rcases Nat.lt_trichotomy start position with hlt | rfl | hgt
  · have hend := h start other hother hlt
    omega
  · have hsame := hc.unique hother
    exact Nat.le_of_eq (by rw [hsame])
  · obtain ⟨index, rfl⟩ := Nat.exists_eq_add_of_lt hgt
    exact absurd hother (hc.not_inside (Nat.succ_pos index) (by omega))

theorem Boundary.invalid (h : Boundary s position) (hnone : decodeChar? (s.drop position) = none) :
    Boundary s (position + 1) := by
  intro start other hother hstart
  rcases Nat.lt_or_eq_of_le (Nat.le_of_lt_succ hstart) with hlt | rfl
  · have hend := h start other hother hlt
    omega
  · have hsome := decodeChar?_eq_some_iff.mpr hother
    rw [hnone] at hsome
    cases hsome

theorem Boundary.not_inChar (h : Boundary s position)
    (hnone : decodeChar? (s.drop position) = none) : ¬InChar s position := by
  rintro ⟨start, c, hc, hle, hlt⟩
  have hend := h.invalid hnone start c hc (Nat.lt_succ_of_le hle)
  have hstart : start = position := by
    by_contra hne
    have hend' := h start c hc (by omega)
    omega
  subst hstart
  have hsome := decodeChar?_eq_some_iff.mpr hc
  rw [hnone] at hsome
  cases hsome

open Classical in
theorem encodeAll_runes_from (s rest : List UInt8) (position : Nat)
    (hrest : s.drop position = rest) (hboundary : Boundary s position) :
    encodeAll (runes rest) = (rest.zipIdx position).flatMap fun entry =>
      if InChar s entry.2 then [entry.1]
      else String.utf8EncodeChar replacement := by
  induction rest using induction_runes generalizing position with
  | nil => simp [encodeAll]
  | char c rest ih =>
    have hc : Occurs s position c := ⟨rest, hrest.symm⟩
    have hnext : s.drop (position + c.utf8Size) = rest := by
      rw [← List.drop_drop, hrest, ← String.length_utf8EncodeChar, List.drop_left]
    have hcopied : ((String.utf8EncodeChar c).zipIdx position).flatMap
        (fun entry => if InChar s entry.2 then [entry.1]
          else String.utf8EncodeChar replacement) =
        String.utf8EncodeChar c := by
      have hin : ∀ entry ∈ (String.utf8EncodeChar c).zipIdx position,
          (if InChar s entry.2 then [entry.1]
            else String.utf8EncodeChar replacement) = [entry.1] := by
        intro entry hentry
        obtain ⟨hle, hlt, -⟩ := List.mem_zipIdx hentry
        rw [String.length_utf8EncodeChar] at hlt
        rw [if_pos ⟨position, c, hc, hle, hlt⟩]
      rw [List.flatMap_def, List.map_congr_left hin, ← List.flatMap_def,
        ← List.map_eq_flatMap, List.zipIdx_map_fst]
    rw [runes_append, encodeAll, List.flatMap_cons, ← encodeAll, ih _ hnext (hboundary.char hc),
      List.zipIdx_append, List.flatMap_append, hcopied, String.length_utf8EncodeChar]
  | invalid byte rest hnone ih =>
    rw [← hrest] at hnone
    have hnext : s.drop (position + 1) = rest := by
      rw [← List.drop_drop, hrest]
      rfl
    rw [hrest] at hnone
    rw [runes_of_none hnone, encodeAll, List.flatMap_cons, ← encodeAll,
      ih _ hnext (hboundary.invalid (hrest ▸ hnone)), List.zipIdx_cons,
      List.flatMap_cons, if_neg (hboundary.not_inChar (hrest ▸ hnone))]

theorem encodeAll_runes (s : List UInt8) : encodeAll (runes s) = replaceInvalid s :=
  encodeAll_runes_from s s 0 rfl (fun _ _ _ h => absurd h (Nat.not_lt_zero _))

theorem replaceInvalid_of_valid (h : valid s = true) : replaceInvalid s = s := by
  obtain ⟨chars, rfl⟩ := valid_iff.mp h
  rw [← encodeAll_runes, runes_encodeAll]

end Utf8
