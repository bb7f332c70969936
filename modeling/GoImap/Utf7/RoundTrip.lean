import GoImap.Utf7.Segment

/-!
# Modified UTF-7 there and back

Decoding gives back what was encoded, with the bytes that are no UTF-8
replaced.  No segment follows another directly, since each takes as many bytes
as it can, and nothing in a segment represents itself.
-/

namespace GoImap.Utf7

open Slices

variable {s : Bytes} {isAscii : Bool}

namespace Segment

/-! ## UTF-16 -/

variable {r : Nat} {body : Bytes}

theorem units_of_lt (h : r < 0x10000) : units r = unit r := by
  simp [units, Utf16.encodeRune_of_lt h]

theorem units_of_ge (hlow : 0x10000 ≤ r) (hhigh : r ≤ 0x10FFFF) :
    units r = unit (Utf16.encodeRune r).1 ++ unit (Utf16.encodeRune r).2 := by
  simp [units, Utf16.encodeRune_ne_runeError hlow hhigh]

theorem utf16Loop_eq (s : Bytes) : utf16Loop s = (Utf8.runes s).flatMap fun c => units c.toNat := by
  fun_induction utf16Loop s with
  | case1 => simp
  | case2 s hne ih =>
    rw [ih, decodeRune_eq]
    conv_rhs => rw [Utf8.runes, if_neg hne, List.flatMap_cons]

theorem toNat_unit (h : r < 0x10000) :
    (UInt8.ofNat (r / 256)).toNat * 256 + (UInt8.ofNat r).toNat = r := by
  rw [UInt8.toNat_ofNat', UInt8.toNat_ofNat']
  omega

theorem fromUTF16_units {c : Char} (h : selfRepresenting c.toNat = false) (rest : Bytes) :
    fromUTF16 (units c.toNat ++ rest) = (fromUTF16 rest).map (String.utf8EncodeChar c ++ ·) := by
  have hvalid := Utf8.toNat_valid c
  by_cases hlt : c.toNat < 0x10000
  · have hsurrogate : Utf16.isSurrogate c.toNat = false := by
      rw [Utf16.isSurrogate, decide_eq_false_iff_not]
      omega
    rw [units_of_lt hlt, unit, List.cons_append, List.cons_append,
      List.nil_append, fromUTF16.eq_def]
    simp only [toNat_unit hlt, hsurrogate, h, Utf8.encodeRune_toNat, Bool.false_eq_true, if_false]
  · have hlow : 0x10000 ≤ c.toNat := by omega
    have hhigh : c.toNat ≤ 0x10FFFF := by omega
    obtain ⟨hfirst, hsecond⟩ := Utf16.encodeRune_lt hlow hhigh
    have herror : c.toNat ≠ Utf16.runeError := by
      rw [Utf16.runeError]
      omega
    rw [units_of_ge hlow hhigh]
    simp only [unit, List.cons_append, List.nil_append, fromUTF16, toNat_unit hfirst,
      toNat_unit hsecond, Utf16.isSurrogate_encodeRune hlow hhigh,
      Utf16.decodeRune_encodeRune hlow hhigh, herror, Utf8.encodeRune_toNat, if_true, if_false]

theorem fromUTF16_utf16Loop (h : ∀ c ∈ Utf8.runes s, selfRepresenting c.toNat = false) :
    fromUTF16 (utf16Loop s) = some (Utf8.encodeAll (Utf8.runes s)) := by
  rw [utf16Loop_eq]
  generalize Utf8.runes s = chars at h ⊢
  induction chars with
  | nil => rfl
  | cons c rest ih =>
    rw [List.flatMap_cons, fromUTF16_units (h c (by simp)),
      ih fun other hother => h other (List.mem_cons_of_mem _ hother)]
    rfl

theorem length_units (r : Nat) : (units r).length % 2 = 0 ∧ units r ≠ [] := by
  unfold units unit
  simp only
  split_ifs <;> simp

theorem length_utf16Loop (s : Bytes) : (utf16Loop s).length % 2 = 0 := by
  rw [utf16Loop_eq]
  induction Utf8.runes s with
  | nil => rfl
  | cons c rest ih =>
    have hunits := (length_units c.toNat).1
    rw [List.flatMap_cons, List.length_append]
    omega

theorem utf16Loop_ne_nil (h : s ≠ []) : utf16Loop s ≠ [] := by
  rw [utf16Loop, if_neg h]
  simp [(length_units _).2]

theorem not_selfRepresenting_of_shifted (h : ∀ byte ∈ s, shifted byte = true) :
    ∀ c ∈ Utf8.runes s, selfRepresenting c.toNat = false := by
  induction s using Utf8.induction_runes with
  | nil => simp
  | char c rest ih =>
    rw [Utf8.runes_append]
    intro other hother
    rcases List.mem_cons.mp hother with rfl | hrest
    · by_contra hself
      rw [Bool.not_eq_false] at hself
      have hrange := selfRepresenting_iff.mp hself
      have hencode := Utf8.utf8EncodeChar_of_lt (show other.toNat < 128 by omega)
      have hbyte := h (UInt8.ofNat other.toNat) (by simp [hencode])
      have hnat : (UInt8.ofNat other.toNat).toNat = other.toNat := by
        rw [UInt8.toNat_ofNat']
        omega
      rw [shifted, hnat] at hbyte
      simp_all
    · exact ih (fun byte hbyte => h byte (by simp [hbyte])) other hrest
  | invalid byte rest hnone ih =>
    rw [Utf8.runes_of_none hnone]
    intro other hother
    rcases List.mem_cons.mp hother with rfl | hrest
    · rfl
    · exact ih (fun byte hbyte => h byte (by simp [hbyte])) other hrest

/-! ## The text of a segment -/

/-- A segment is its symbols between the shifts; padded, they are the base64
of the UTF-16. -/
theorem encode_eq (s : Bytes) : ∃ body, encode s = ampersand :: (body ++ [hyphen]) ∧
      b64Enc.encode (utf16Loop s) = body ++ List.replicate
        (2 - ((utf16Loop s).length + 2) % 3) Base64.padding ∧
      ∀ byte ∈ body, byte ∈ b64Enc.symbols := by
  obtain ⟨body, hbody, hmem⟩ := b64Enc.encode_eq_append (utf16Loop s)
  refine ⟨body, ?_, hbody, hmem⟩
  have hlength := b64Enc.length_encode (utf16Loop s)
  rw [hbody, List.length_append, List.length_replicate] at hlength
  have hn : Base64.encodedLen (utf16Loop s).length + 2 -
      (2 - ((utf16Loop s).length + 2) % 3) = body.length + 2 := by omega
  rw [encode]
  simp only [hn, hbody]
  generalize 2 - ((utf16Loop s).length + 2) % 3 = k
  -- The byte after the symbols is padding or a zero, and overwritten.
  obtain ⟨last, tail, htail⟩ : ∃ last tail,
      List.replicate k Base64.padding ++ [0] = last :: tail := by
    cases k with
    | zero | succ k => exact ⟨_, _, rfl⟩
  rw [List.append_assoc, htail]
  simp [List.take_append, List.take_of_length_le]

theorem symbols_printable : ∀ byte ∈ b64Enc.symbols,
    selfRepresenting byte.toNat = true ∧ byte ≠ hyphen := by
  decide +kernel

theorem padded_eq {data : Bytes}
    (h : b64Enc.encode data = body ++ List.replicate (2 - (data.length + 2) % 3) Base64.padding) :
    padded body = b64Enc.encode data := by
  have hlength := b64Enc.length_encode data
  rw [h, List.length_append, List.length_replicate, Base64.encodedLen] at hlength
  rw [h, padded]
  obtain hmod | hmod | hmod : (data.length + 2) % 3 = 2 ∨
      (data.length + 2) % 3 = 1 ∨ (data.length + 2) % 3 = 0 := by omega
  · rw [if_pos (by omega), hmod]
    simp
  · rw [if_neg (by omega), hmod, show 4 - body.length % 4 = 1 by omega]
    rfl
  · rw [if_neg (by omega), hmod, show 4 - body.length % 4 = 2 by omega]
    rfl

theorem meaning_encode (hshifted : ∀ byte ∈ s, shifted byte = true)
    (hbody : b64Enc.encode (utf16Loop s) = body ++ List.replicate
      (2 - ((utf16Loop s).length + 2) % 3) Base64.padding)
    (hmem : ∀ byte ∈ body, byte ∈ b64Enc.symbols) :
    meaning body = some (Utf8.encodeAll (Utf8.runes s)) := by
  have hlast : body.getLast? ≠ some Base64.padding := by
    intro hlast
    exact b64Enc.unpadded (hmem _ (List.mem_of_getLast? hlast))
  have heven := length_utf16Loop s
  rw [meaning, if_neg hlast, padded_eq hbody, b64Enc.decode_encode]
  simp only
  rw [if_neg (by omega), fromUTF16_utf16Loop (not_selfRepresenting_of_shifted hshifted)]

theorem body_ne_nil {data : Bytes} (hdata : data ≠ [])
    (h : b64Enc.encode data = body ++ List.replicate (2 - (data.length + 2) % 3) Base64.padding) :
    body ≠ [] := by
  rintro rfl
  have hlength := b64Enc.length_encode data
  have hpos := List.length_pos_iff.mpr hdata
  rw [h, List.length_append, List.length_replicate, List.length_nil, Base64.encodedLen] at hlength
  omega

/-- A run of bytes as a segment: its symbols are told from what ends it, and
decoded. -/
theorem decode_encode (hne : s ≠ []) (hshifted : ∀ byte ∈ s, shifted byte = true) :
    ∃ body, encode s = ampersand :: (body ++ [hyphen]) ∧ body ≠ [] ∧
      (∀ byte ∈ body, byte ≠ hyphen ∧ Base64.isLineEnd byte = false) ∧
      decode body = .ok (some (Utf8.encodeAll (Utf8.runes s))) := by
  obtain ⟨body, hsegment, hbody, hmem⟩ := encode_eq s
  have hbodyNe := body_ne_nil (utf16Loop_ne_nil hne) hbody
  refine ⟨body, hsegment, hbodyNe, fun byte hbyte => ?_, ?_⟩
  · exact ⟨(symbols_printable byte (hmem byte hbyte)).2, b64Enc.noLineEnd byte (hmem byte hbyte)⟩
  · rw [decode_eq hbodyNe, meaning_encode hshifted hbody hmem]

end Segment

/-! ## Whole names -/

theorem encode_printable (s : Bytes) : ∀ byte ∈ encode s, selfRepresenting byte.toNat = true := by
  fun_induction encode s with
  | case1 => simp
  | case2 rest hself ih =>
    simp only [List.mem_cons]
    rintro byte (rfl | rfl | hrest)
    · exact hself
    · rfl
    · exact ih byte hrest
  | case3 ch rest hself hne ih =>
    simp only [List.mem_cons]
    rintro byte (rfl | hrest)
    · exact hself
    · exact ih byte hrest
  | case4 ch rest hself ih =>
    obtain ⟨body, hsegment, -, hmem⟩ := Segment.encode_eq (ch :: rest.takeWhile shifted)
    rw [hsegment]
    simp only [List.cons_append, List.mem_cons, List.mem_append, List.not_mem_nil, or_false]
    rintro byte (rfl | (hbody | rfl) | hrest)
    · rfl
    · exact (Segment.symbols_printable byte (hmem byte hbody)).1
    · rfl
    · exact ih byte hrest

theorem decodeLoop_char {sb rest : Bytes} {ch : UInt8}
    (hself : selfRepresenting ch.toNat = true) (hne : ch ≠ ampersand) :
    decodeLoop sb isAscii (ch :: rest) = decodeLoop (sb ++ [ch]) true rest := by
  have hrange := selfRepresenting_iff.mp hself
  rw [decodeLoop, if_neg, if_pos hne]
  rw [UInt8.lt_iff_toNat_lt, UInt8.lt_iff_toNat_lt, gt_iff_lt, UInt8.lt_iff_toNat_lt]
  simp
  omega

theorem decodeLoop_shift {sb b64 rest : Bytes}
    (hclean : ∀ byte ∈ b64, byte ≠ hyphen ∧ Base64.isLineEnd byte = false) :
    decodeLoop sb isAscii (ampersand :: (b64 ++ hyphen :: rest)) =
      if b64 = [] then decodeLoop (sb ++ [ampersand]) true rest
      else if !isAscii then .ok (.error errInvalidUTF7)
      else
        match Segment.decode b64 with
        | .error panic => .error panic
        | .ok result =>
          if result.getD [] = [] then .ok (.error errInvalidUTF7)
          else decodeLoop (sb ++ result.getD []) false rest := by
  have htake : (b64 ++ hyphen :: rest).takeWhile (· ≠ hyphen) = b64 := by
    rw [List.takeWhile_append_of_pos (by simpa using fun b h => (hclean b h).1)]
    simp
  have hdrop : (b64 ++ hyphen :: rest).dropWhile (· ≠ hyphen) = hyphen :: rest := by
    rw [List.dropWhile_append_of_pos (by simpa using fun b h => (hclean b h).1)]
    simp
  rw [decodeLoop, if_neg (by decide), if_neg (by simp)]
  simp only [htake]
  rw [if_neg (by simpa using fun b h => (hclean b h).2)]
  split
  · rename_i hend
    rw [hdrop] at hend
    cases hend
  · rename_i hend
    rw [hdrop] at hend
    cases hend
    rfl

theorem shifted_run {ch : UInt8} (hch : shifted ch = true) (rest : Bytes) :
    ∀ byte ∈ ch :: rest.takeWhile shifted, shifted byte = true := by
  intro byte hbyte
  rcases List.mem_cons.mp hbyte with rfl | hmem
  · exact hch
  · exact List.all_eq_true.mp List.all_takeWhile byte hmem

theorem shifted_head_dropWhile (rest : Bytes) :
    ∀ byte ∈ (rest.dropWhile shifted).head?, shifted byte = false := by
  intro byte hbyte
  have hhead := List.head?_dropWhile_not shifted rest
  rw [Option.mem_def.mp hbyte] at hhead
  simpa using hhead

theorem runes_run (ch : UInt8) (rest : Bytes) : Utf8.runes (ch :: rest) =
      Utf8.runes (ch :: rest.takeWhile shifted) ++ Utf8.runes (rest.dropWhile shifted) := by
  rw [← Utf8.runes_append_of_ascii, List.cons_append, List.takeWhile_append_dropWhile]
  intro byte hbyte
  have hself := shifted_head_dropWhile rest byte hbyte
  rw [shifted, Bool.not_eq_false'] at hself
  have hrange := selfRepresenting_iff.mp hself
  omega

/-- The loop over what was encoded; a segment is only met where the one before
has ended. -/
theorem decodeLoop_encode (s sb : Bytes) (h : isAscii = true ∨ ∀ ch ∈ s.head?, shifted ch = false) :
    decodeLoop sb isAscii (encode s) = .ok (.ok (sb ++ Utf8.encodeAll (Utf8.runes s))) := by
  fun_induction encode s generalizing sb isAscii with
  | case1 => simp [decodeLoop, Utf8.encodeAll]
  | case2 rest hself ih =>
    obtain ⟨c, hc, hrunes⟩ := Utf8.runes_ascii (show ampersand.toNat < 128 by decide) rest
    have hshift := @decodeLoop_shift isAscii sb [] (encode rest) (by simp)
    rw [List.nil_append, if_pos rfl] at hshift
    rw [hshift, ih _ (.inl rfl), hrunes]
    simp [Utf8.encodeAll, hc]
  | case3 ch rest hself hne ih =>
    have hrange := selfRepresenting_iff.mp hself
    obtain ⟨c, hc, hrunes⟩ := Utf8.runes_ascii (show ch.toNat < 128 by omega) rest
    rw [decodeLoop_char hself hne, ih _ (.inl rfl), hrunes]
    simp [Utf8.encodeAll, hc]
  | case4 ch rest hself ih =>
    have hch : shifted ch = true := by simp [shifted, hself]
    have hascii : isAscii = true := by
      rcases h with h | h
      · exact h
      · rw [h ch rfl] at hch
        cases hch
    obtain ⟨body, hsegment, hne, hclean, hdecode⟩ :=
      Segment.decode_encode (List.cons_ne_nil _ _) (shifted_run hch rest)
    rw [hsegment, List.cons_append, List.append_assoc, List.singleton_append,
      decodeLoop_shift hclean, if_neg hne, hascii, hdecode]
    simp only [Bool.not_true, Bool.false_eq_true, if_false, Option.getD_some]
    rw [if_neg (Utf8.encodeAll_runes_ne_nil (List.cons_ne_nil _ _)),
      ih _ (.inr (shifted_head_dropWhile rest)), runes_run ch rest]
    simp [Utf8.encodeAll]

theorem decodeLoop_ok (src sb : Bytes) (isAscii : Bool) :
    ∃ result, decodeLoop sb isAscii src = .ok result := by
  fun_induction decodeLoop sb isAscii src with
  | case3 | case6 => assumption
  | case8 _ _ _ _ _ _ _ _ _ _ _ hne _ panic hpanic =>
    rw [Segment.decode_eq hne] at hpanic
    cases hpanic
  | case10 => assumption
  | _ => exact ⟨_, rfl⟩

theorem valid_encode (s : Bytes) : Utf8.valid (encode s) = true := by
  refine Utf8.valid_of_ascii fun byte hbyte => ?_
  have hrange := selfRepresenting_iff.mp (encode_printable s byte hbyte)
  omega

theorem decode_encode_eq (s : Bytes) : decode (encode s) = .ok (.ok (Utf8.replaceInvalid s)) := by
  rw [decode, valid_encode, ← Utf8.encodeAll_runes]
  exact decodeLoop_encode s [] (.inl rfl)

theorem encode_eq_self (h : ampersand ∉ encode s) : encode s = s := by
  fun_induction encode s with
  | case1 => rfl
  | case2 rest hself ih => simp at h
  | case3 ch rest hself hne ih =>
    rw [List.mem_cons, not_or] at h
    rw [ih h.2]
  | case4 ch rest hself ih =>
    obtain ⟨body, hsegment, -⟩ := Segment.encode_eq (ch :: rest.takeWhile shifted)
    simp [hsegment] at h

/--
Names encoded in modified UTF-7 are printable and decode to what they were,
with each byte that is in no UTF-8 character replaced.  Decoding any string
ends without a panic.
-/
theorem decode_encode_replaced : (∀ s : Bytes, (∀ byte ∈ encode s, 0x20 ≤ byte ∧ byte ≤ 0x7E) ∧
      decode (encode s) = .ok (.ok (Utf8.replaceInvalid s)) ∧
      (Utf8.valid s = true → decode (encode s) = .ok (.ok s))) ∧
    ∀ x : Bytes, ∃ result, decode x = .ok result := by
  refine ⟨fun s => ⟨fun byte hbyte => ?_, decode_encode_eq s, fun hvalid => ?_⟩, fun x => ?_⟩
  · have hself := encode_printable s byte hbyte
    rw [UInt8.le_iff_toNat_le, UInt8.le_iff_toNat_le]
    exact selfRepresenting_iff.mp hself
  · rw [decode_encode_eq, Utf8.replaceInvalid_of_valid hvalid]
  · rw [decode]
    split_ifs
    · exact ⟨_, rfl⟩
    · exact decodeLoop_ok x [] true

end GoImap.Utf7
