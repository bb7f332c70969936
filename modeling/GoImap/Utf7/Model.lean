import GoImap.Basic
import GoImap.Lib.Base64
import GoImap.Lib.Slices
import GoImap.Lib.Utf16
import GoImap.Lib.Utf8

/-!
# Modified UTF-7

Mailbox names are sent in printable ASCII.  Runs of other bytes are taken as
UTF-8, written in UTF-16 and then in base64 without padding, between an
ampersand and a hyphen.  The packages for UTF-8, UTF-16 and base64 are taken
as they are specified; what they write goes through slices of one block of
memory, as in the program.
-/

namespace GoImap.Utf7

open Slices

def selfRepresenting (r : Nat) : Bool := 0x20 ≤ r ∧ r ≤ 0x7E

theorem selfRepresenting_iff {r : Nat} : selfRepresenting r = true ↔ 0x20 ≤ r ∧ r ≤ 0x7E := by
  simp [selfRepresenting]

def ampersand : UInt8 := 0x26

def hyphen : UInt8 := 0x2D

def b64Enc : Base64.Alphabet where
  symbols := ascii "ABCDEFGHIJKLMNOPQRSTUVWXYZabcdefghijklmnopqrstuvwxyz0123456789+,"
  length := by decide
  nodup := by decide +kernel
  unpadded := by decide +kernel
  noLineEnd := by decide +kernel

/-! ## Encoding -/

namespace Segment

/-- `utf8.DecodeRune` and the check after it. -/
def decodeRune (s : Bytes) : Nat × Nat :=
  let (c, size) := Utf8.decodeRune s
  if c.toNat > 0x10FFFF then (Utf16.runeError, 1) else (c.toNat, size)

def unit (r : Nat) : Bytes := [UInt8.ofNat (r / 256), UInt8.ofNat r]

/-- What the loop of `encode` appends for a code point. -/
def units (r : Nat) : Bytes :=
  let (r1, r2) := Utf16.encodeRune r
  if r1 ≠ Utf16.runeError then unit r1 ++ unit r2 else unit r

theorem decodeRune_eq (s : Bytes) :
    decodeRune s = ((Utf8.decodeRune s).1.toNat, (Utf8.decodeRune s).2) := by
  have hvalid := Utf8.toNat_valid (Utf8.decodeRune s).1
  simp only [decodeRune]
  rw [if_neg (by omega)]

def utf16Loop (s : Bytes) : Bytes :=
  if s = [] then []
  else units (decodeRune s).1 ++ utf16Loop (s.drop (decodeRune s).2)
termination_by s.length
decreasing_by
  rename_i h
  have hpos := Utf8.decodeRune_size_pos h
  have hlength := List.length_pos_iff.mpr h
  simp only [List.length_drop, decodeRune_eq]
  omega

/-- `encode`: a run of bytes as one segment, with its shifts. -/
def encode (s : Bytes) : Bytes :=
  let b := utf16Loop s
  let n := Base64.encodedLen b.length + 2
  let b64 := 0 :: (b64Enc.encode b ++ [0])
  let n := n - (2 - (b.length + 2) % 3)
  ((b64.take n).set 0 ampersand).set (n - 1) hyphen

end Segment

def shifted (ch : UInt8) : Bool := !selfRepresenting ch.toNat

def encode : Bytes → Bytes
  | [] => []
  | ch :: rest =>
    if selfRepresenting ch.toNat then
      if ch = ampersand then ch :: hyphen :: encode rest
      else ch :: encode rest
    else
      Segment.encode (ch :: rest.takeWhile shifted) ++ encode (rest.dropWhile shifted)
termination_by src => src.length
decreasing_by
  all_goals
    have hle := (List.dropWhile_sublist shifted (l := rest)).length_le
    simp only [List.length_cons]
    omega

/-! ## Decoding -/

namespace Segment

/-- `b64Enc.Decode(dst, src)`: the memory and the number of bytes written, or
nothing for bad data.  The room the package asks for must be there. -/
def decodeBase64 (memory : Memory) (dst : Slice) (src : Bytes) :
    Except Panic (Option (Memory × Nat)) :=
  if dst.length < Base64.decodedLen src.length then .error .indexOutOfRange
  else
    match b64Enc.decode src with
    | none => .ok none
    | some data =>
      match dst.write memory data with
      | .error panic => .error panic
      | .ok memory => .ok (some (memory, data.length))

def readUnit (memory : Memory) (b : Slice) (i : Nat) : Except Panic Nat :=
  match b.read memory i, b.read memory (i + 1) with
  | .ok high, .ok low => .ok (high.toNat * 256 + low.toNat)
  | .error panic, _ => .error panic
  | _, .error panic => .error panic

/-- `utf8.EncodeRune(s[j:], r)`. -/
def encodeRune (memory : Memory) (s : Slice) (j r : Nat) : Except Panic (Memory × Nat) :=
  match s.subslice j s.length with
  | .error panic => .error panic
  | .ok rest =>
    match rest.write memory (Utf8.encodeRune r) with
    | .error panic => .error panic
    | .ok memory => .ok (memory, (Utf8.encodeRune r).length)

/-- The loop of `decode`; nothing is returned for a nil slice. -/
def utf8Loop (memory : Memory) (b s : Slice) (i j : Nat) : Except Panic (Option Bytes) :=
  if i < b.length then
    match readUnit memory b i with
    | .error panic => .error panic
    | .ok r =>
      if Utf16.isSurrogate r then
        if i + 2 = b.length then .ok none
        else
          match readUnit memory b (i + 2) with
          | .error panic => .error panic
          | .ok r2 =>
            let r := Utf16.decodeRune r r2
            if r = Utf16.runeError then .ok none
            else
              match encodeRune memory s j r with
              | .error panic => .error panic
              | .ok (memory, size) =>
                utf8Loop memory b s (i + 4) (j + size)
      else if selfRepresenting r then .ok none
      else
        match encodeRune memory s j r with
        | .error panic => .error panic
        | .ok (memory, size) => utf8Loop memory b s (i + 2) (j + size)
  else
    match s.subslice 0 j with
    | .error panic => .error panic
    | .ok s => .ok (some (s.bytes memory))
termination_by b.length - i

def decodeInto (memory : Memory) (b : Slice) (b64 : Bytes) : Except Panic (Option Bytes) :=
  match decodeBase64 memory b b64 with
  | .error panic => .error panic
  | .ok none => .ok none
  | .ok (some (memory, n)) =>
    if n % 2 = 1 then .ok none
    else
      match b.subslice 0 n, b.subslice n b.length with
      | .ok b, .ok s => utf8Loop memory b s 0 0
      | .error panic, _ => .error panic
      | _, .error panic => .error panic

/-- `decode`: what is between the shifts.  The symbols are padded inside the
block if they have to be. -/
def decode (b64 : Bytes) : Except Panic (Option Bytes) :=
  match b64.getLast? with
  | none => .error .indexOutOfRange
  | some last =>
    if last = Base64.padding then .ok none
    else if b64.length % 4 = 0 then
      let size := Base64.decodedLen b64.length * 3
      decodeInto (List.replicate size 0)
        { offset := 0, length := size } b64
    else
      let n := b64.length + (4 - b64.length % 4)
      let size := n + Base64.decodedLen n * 3
      let b : Slice :=
        { offset := 0, length := size }
      let (memory, copied) := b.copy (List.replicate size 0) b64
      match b.subslice copied n, b.subslice 0 n, b.subslice n size with
      | .ok gap, .ok padded, .ok b =>
        let (memory, _) := gap.copy memory (ascii "==")
        decodeInto memory b (padded.bytes memory)
      | .error panic, _, _ => .error panic
      | _, .error panic, _ => .error panic
      | _, _, .error panic => .error panic

end Segment

def invalidUTF8 : String := "invalid UTF-8"

def errInvalidUTF7 : String := "utf7: invalid UTF-7"

/-- The loop of `Decode`: what is written so far, and whether the next segment
would not follow another one directly. -/
def decodeLoop (sb : Bytes) (isAscii : Bool) : Bytes → Except Panic (Except String Bytes)
  | [] => .ok (.ok sb)
  | ch :: rest =>
    if ch < 0x20 ∨ (ch > 0x7E ∧ ch < 0x80) then .ok (.error errInvalidUTF7)
    else if ch ≠ ampersand then decodeLoop (sb ++ [ch]) true rest
    else
      let b64 := rest.takeWhile (· ≠ hyphen)
      if b64.any Base64.isLineEnd then .ok (.error errInvalidUTF7)
      else
        match hend : rest.dropWhile (· ≠ hyphen) with
        | [] => .ok (.error errInvalidUTF7)
        | _ :: after =>
          if b64 = [] then decodeLoop (sb ++ [ampersand]) true after
          else if !isAscii then .ok (.error errInvalidUTF7)
          else
            match Segment.decode b64 with
            | .error panic => .error panic
            | .ok result =>
              let b := result.getD []
              if b = [] then .ok (.error errInvalidUTF7)
              else decodeLoop (sb ++ b) false after
termination_by src => src.length
decreasing_by
  all_goals first
    | simp; done
    | have hle := (List.dropWhile_sublist (· ≠ hyphen) (l := rest)).length_le
      rw [hend] at hle
      simp only [List.length_cons] at hle ⊢
      omega

def decode (src : Bytes) : Except Panic (Except String Bytes) :=
  if !Utf8.valid src then .ok (.error invalidUTF8)
  else decodeLoop [] true src

end GoImap.Utf7
