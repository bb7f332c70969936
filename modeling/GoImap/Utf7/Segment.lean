import GoImap.Utf7.Model

/-!
# Segments of modified UTF-7

What a segment means, without the memory it is decoded in: `decode` finds it,
and never leaves the slices it has divided its block into.  The room for UTF-8
suffices because two bytes of UTF-16 never become more than three.
-/

namespace GoImap.Utf7.Segment

open Slices

/-! ## The meaning of a segment -/

def fromUTF16 : Bytes → Option Bytes
  | [] => some []
  | high :: low :: rest =>
    let r := high.toNat * 256 + low.toNat
    if Utf16.isSurrogate r then
      match rest with
      | high2 :: low2 :: rest =>
        let r := Utf16.decodeRune r (high2.toNat * 256 + low2.toNat)
        if r = Utf16.runeError then none
        else (fromUTF16 rest).map (Utf8.encodeRune r ++ ·)
      | _ => none
    else if selfRepresenting r then none
    else (fromUTF16 rest).map (Utf8.encodeRune r ++ ·)
  | [_] => none

def padded (b64 : Bytes) : Bytes :=
  if b64.length % 4 = 0 then b64
  else b64 ++ (ascii "==" ++ [0]).take (4 - b64.length % 4)

def meaning (b64 : Bytes) : Option Bytes :=
  if b64.getLast? = some Base64.padding then none
  else
    match b64Enc.decode (padded b64) with
    | none => none
    | some data => if data.length % 2 = 1 then none else fromUTF16 data

/-! ## The loop over UTF-16 -/

theorem readUnit_append (front before rest back : Bytes) (high low : UInt8) :
    readUnit (front ++ (before ++ high :: low :: rest) ++ back)
        ⟨front.length, (before ++ high :: low :: rest).length⟩ before.length =
      .ok (high.toNat * 256 + low.toNat) := by
  have hhigh := read_append front (before ++ high :: low :: rest) back
    (show before.length < _ by simp)
  have hlow := read_append front (before ++ high :: low :: rest) back
    (show before.length + 1 < _ by simp)
  rw [readUnit, hhigh, hlow]
  simp

theorem encodeRune_append (front out free : Bytes) {r : Nat}
    (h : (Utf8.encodeRune r).length ≤ free.length) :
    encodeRune (front ++ (out ++ free)) ⟨front.length, (out ++ free).length⟩ out.length r =
      .ok (front ++ ((out ++ Utf8.encodeRune r) ++
        free.drop (Utf8.encodeRune r).length), (Utf8.encodeRune r).length) := by
  have hwrite := write_append (front ++ out) free h
  rw [List.length_append] at hwrite
  rw [encodeRune, subslice_ok (by simp) (Nat.le_refl _)]
  simp only [List.length_append, Nat.add_sub_cancel_left]
  rw [← List.append_assoc, hwrite]
  simp

/-- The loop with its block laid out: the UTF-16 it has read and has still to
read, the UTF-8 it has written, and the room that is left. -/
def loopAt (front before rest out free : Bytes) : Except Panic (Option Bytes) :=
  utf8Loop (front ++ (before ++ rest) ++ (out ++ free)) ⟨front.length, (before ++ rest).length⟩
    ⟨(front ++ (before ++ rest)).length, (out ++ free).length⟩
    before.length out.length

theorem loopAt_nil (front before out free : Bytes) :
    loopAt front before [] out free = .ok (some out) := by
  have hbytes := bytes_append (front ++ before) out free
  rw [List.append_assoc _ out] at hbytes
  rw [loopAt, utf8Loop, if_neg (by simp), subslice_ok (by simp) (by simp)]
  simp only [List.append_nil, Nat.add_zero, Nat.sub_zero]
  rw [hbytes]

theorem loopAt_next (front before read rest out free : Bytes) {r : Nat}
    (hroom : (Utf8.encodeRune r).length ≤ free.length) :
    utf8Loop (front ++ (before ++ (read ++ rest)) ++
        ((out ++ Utf8.encodeRune r) ++ free.drop (Utf8.encodeRune r).length))
        ⟨front.length, (before ++ (read ++ rest)).length⟩
        ⟨(front ++ (before ++ (read ++ rest))).length, (out ++ free).length⟩
        (before.length + read.length)
        (out.length + (Utf8.encodeRune r).length) =
      loopAt front (before ++ read) rest (out ++ Utf8.encodeRune r)
        (free.drop (Utf8.encodeRune r).length) := by
  have hlength : (out ++ Utf8.encodeRune r ++
      free.drop (Utf8.encodeRune r).length).length = (out ++ free).length := by
    simp only [List.length_append, List.length_drop]
    omega
  have hread : (before ++ read).length = before.length + read.length := List.length_append
  have hout : (out ++ Utf8.encodeRune r).length =
      out.length + (Utf8.encodeRune r).length := List.length_append
  rw [loopAt, hlength, List.append_assoc before, hread, hout]

section Unit

variable (front before rest out free : Bytes) (high low : UInt8)

theorem readUnit_second (high2 low2 : UInt8) :
    readUnit (front ++ (before ++ high :: low :: high2 :: low2 :: rest) ++ (out ++ free))
        ⟨front.length, (before ++ high :: low :: high2 :: low2 :: rest).length⟩
        (before.length + 2) =
      .ok (high2.toNat * 256 + low2.toNat) := by
  have hread := readUnit_append front (before ++ [high, low]) rest (out ++ free) high2 low2
  simpa using hread

theorem loopAt_surrogate_last (h : Utf16.isSurrogate (high.toNat * 256 + low.toNat) = true) :
    loopAt front before [high, low] out free = .ok none := by
  rw [loopAt, utf8Loop, if_pos (by simp), readUnit_append]
  simp [h]

theorem loopAt_surrogates (high2 low2 : UInt8) {r : Nat}
    (h : Utf16.isSurrogate (high.toNat * 256 + low.toNat) = true)
    (hr : Utf16.decodeRune (high.toNat * 256 + low.toNat) (high2.toNat * 256 + low2.toNat) = r)
    (hroom : 4 ≤ free.length) :
    loopAt front before (high :: low :: high2 :: low2 :: rest) out free =
      if r = Utf16.runeError then .ok none
      else
        loopAt front (before ++ [high, low, high2, low2]) rest (out ++ Utf8.encodeRune r)
          (free.drop (Utf8.encodeRune r).length) := by
  have hsize := Nat.le_trans (Utf8.length_encodeRune_le r) hroom
  rw [loopAt, utf8Loop, if_pos (by simp), readUnit_append]
  simp only [h, if_true]
  rw [if_neg (by simp), readUnit_second]
  simp only [hr]
  rw [encodeRune_append _ _ _ hsize]
  rw [← loopAt_next front before [high, low, high2, low2] rest out free hsize]
  rfl

theorem loopAt_selfRepresenting (h : Utf16.isSurrogate (high.toNat * 256 + low.toNat) = false)
    (hself : selfRepresenting (high.toNat * 256 + low.toNat) = true) :
    loopAt front before (high :: low :: rest) out free = .ok none := by
  rw [loopAt, utf8Loop, if_pos (by simp), readUnit_append]
  simp [h, hself]

theorem loopAt_unit (h : Utf16.isSurrogate (high.toNat * 256 + low.toNat) = false)
    (hself : selfRepresenting (high.toNat * 256 + low.toNat) = false) (hroom : 3 ≤ free.length) :
    loopAt front before (high :: low :: rest) out free = loopAt front (before ++ [high, low]) rest
        (out ++ Utf8.encodeRune (high.toNat * 256 + low.toNat))
        (free.drop (Utf8.encodeRune (high.toNat * 256 + low.toNat)).length) := by
  have hhigh := high.toNat_lt
  have hlow := low.toNat_lt
  have hsize := Nat.le_trans (Utf8.length_encodeRune_le_three
    (show high.toNat * 256 + low.toNat < 0x10000 by omega)) hroom
  rw [loopAt, utf8Loop, if_pos (by simp), readUnit_append]
  simp only [h, hself, Bool.false_eq_true]
  rw [encodeRune_append _ _ _ hsize]
  rw [← loopAt_next front before [high, low] rest out free hsize]
  rfl

end Unit

theorem loopAt_eq (front before rest out free : Bytes) (heven : rest.length % 2 = 0)
    (hroom : 3 * (rest.length / 2) ≤ free.length) :
    loopAt front before rest out free = .ok ((fromUTF16 rest).map (out ++ ·)) := by
  fun_induction fromUTF16 rest generalizing before out free with
  | case1 => simp [loopAt_nil]
  | case2 high low _ hsurrogate high2 low2 rest _ herror =>
    simp only [List.length_cons] at hroom
    rw [loopAt_surrogates _ _ _ _ _ _ _ _ _ hsurrogate rfl (by omega), if_pos herror]
    rfl
  | case3 high low _ hsurrogate high2 low2 rest r herror ih =>
    simp only [List.length_cons] at hroom heven
    have hsize := Utf8.length_encodeRune_le r
    rw [loopAt_surrogates _ _ _ _ _ _ _ _ _ hsurrogate (show _ = r from rfl) (by omega),
      if_neg herror, ih _ _ _ (by omega) (by rw [List.length_drop]; omega)]
    simp [Function.comp_def]
  | case4 high low rest _ hsurrogate hshort =>
    cases rest with
    | nil => simp [loopAt_surrogate_last _ _ _ _ _ _ hsurrogate]
    | cons high2 rest =>
      cases rest with
      | nil => simp at heven
      | cons low2 rest => exact absurd rfl (hshort high2 low2 rest)
  | case5 high low rest _ hsurrogate hself =>
    rw [loopAt_selfRepresenting _ _ _ _ _ _ _ (Bool.eq_false_iff.mpr hsurrogate) hself]
    rfl
  | case6 high low rest r hsurrogate hself ih =>
    simp only [List.length_cons] at hroom heven
    have hhigh := high.toNat_lt
    have hlow := low.toNat_lt
    have hsize := Utf8.length_encodeRune_le_three
      (show high.toNat * 256 + low.toNat < 0x10000 by omega)
    rw [loopAt_unit _ _ _ _ _ _ _ (Bool.eq_false_iff.mpr hsurrogate)
      (Bool.eq_false_iff.mpr hself) (by omega),
      ih _ _ _ (by omega) (by rw [List.length_drop]; omega)]
    simp [Function.comp_def, r]
  | case7 => simp at heven

/-! ## The block -/

theorem decodeInto_eq (front free b64 : Bytes)
    (hroom : free.length = Base64.decodedLen b64.length * 3) :
    decodeInto (front ++ free) ⟨front.length, free.length⟩ b64 = .ok (match b64Enc.decode b64 with
        | none => none
        | some data =>
          if data.length % 2 = 1 then none else fromUTF16 data) := by
  unfold decodeInto decodeBase64
  rw [if_neg (by simp only; omega)]
  cases hdecode : b64Enc.decode b64 with
  | none => rfl
  | some data =>
    have hlength := b64Enc.length_decode hdecode
    have hfits : data.length ≤ free.length := by omega
    simp only [write_append front free hfits]
    split_ifs with hodd
    · rfl
    · rw [subslice_ok (Nat.zero_le _) hfits, subslice_ok hfits (Nat.le_refl _)]
      have hloop := loopAt_eq front [] data [] (free.drop data.length)
        (by omega) (by rw [List.length_drop]; omega)
      simpa [loopAt] using hloop

theorem padding_eq {n : Nat} (hpos : 0 < n) (hlt : n < 4) :
    (ascii "==").take n ++ (List.replicate n 0).drop 2 = (ascii "==" ++ [0]).take n := by
  obtain rfl | rfl | rfl : n = 1 ∨ n = 2 ∨ n = 3 := by omega
  · rfl
  · rfl
  · rfl

theorem copy_symbols (b64 : Bytes) (gap room : Nat) :
    Slice.copy ⟨0, b64.length + gap + room⟩ (List.replicate (b64.length + gap + room) 0) b64 =
      (b64 ++ List.replicate gap 0 ++ List.replicate room 0, b64.length) := by
  have hwhole := copy_append [] (List.replicate (b64.length + gap + room) 0) [] b64
  have hdrop : b64.length + gap + room - b64.length = gap + room := by
    omega
  simpa [List.take_of_length_le, Nat.add_assoc] using hwhole

theorem copy_padding (b64 : Bytes) {gap : Nat} (room : Nat) (hpos : 0 < gap) (hlt : gap < 4) :
    Slice.copy ⟨b64.length, gap⟩
        (b64 ++ List.replicate gap 0 ++ List.replicate room 0) (ascii "==") =
      (b64 ++ (ascii "==" ++ [0]).take gap ++ List.replicate room 0, min gap 2) := by
  have hinner := copy_append b64 (List.replicate gap 0) (List.replicate room 0) (ascii "==")
  rw [List.length_replicate, show (ascii "==").length = 2 from rfl, padding_eq hpos hlt] at hinner
  exact hinner

/-- `decode` stays inside its block and finds the meaning of the segment. -/
theorem decode_eq {b64 : Bytes} (hne : b64 ≠ []) : decode b64 = .ok (meaning b64) := by
  have hlast := List.getLast?_eq_some_getLast hne
  rw [decode, meaning, hlast]
  simp only [Option.some_inj]
  split_ifs with hpadding hmod
  · rfl
  · have hinto := decodeInto_eq []
      (List.replicate (Base64.decodedLen b64.length * 3) 0) b64 (by simp)
    rw [padded, if_pos hmod]
    simpa using hinto
  · rw [padded, if_neg hmod]
    generalize hgap : 4 - b64.length % 4 = gap
    generalize hroom : Base64.decodedLen (b64.length + gap) * 3 = room
    simp only [copy_symbols]
    rw [subslice_ok (by omega) (by simp only; omega), subslice_ok (by omega) (by simp only; omega),
      subslice_ok (by omega) (by simp only; omega)]
    simp only [Nat.zero_add, Nat.add_sub_cancel_left,
      copy_padding b64 room (show 0 < gap by omega) (by omega)]
    generalize hsymbols : b64 ++ (ascii "==" ++ [0]).take gap = symbols
    have hlength : symbols.length = b64.length + gap := by
      have hthree : (ascii "==" ++ [0]).length = 3 := rfl
      rw [← hsymbols, List.length_append, List.length_take, hthree]
      omega
    have hbytes := bytes_append [] symbols (List.replicate room 0)
    have hinto := decodeInto_eq symbols (List.replicate room 0) symbols
      (by rw [hlength, List.length_replicate, hroom])
    rw [List.length_nil, List.nil_append, hlength] at hbytes
    rw [hlength, List.length_replicate] at hinto
    rw [Nat.sub_zero, hbytes]
    exact hinto

end GoImap.Utf7.Segment
