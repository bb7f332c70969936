import Mathlib.Data.List.Nodup
import Mathlib.Tactic.Common

/-!
# Base64

Three bytes are written as four symbols of an alphabet; a rest of one or two
bytes is filled up with padding.  The decoder passes over line ends, takes
padding at the end only, and does not look at the bits the last symbol has too
many.
-/

namespace Base64

def padding : UInt8 := 61

def isLineEnd (byte : UInt8) : Bool := byte == 13 || byte == 10

structure Alphabet where
  symbols : List UInt8
  length : symbols.length = 64
  nodup : symbols.Nodup
  unpadded : padding ∉ symbols
  noLineEnd : ∀ byte ∈ symbols, isLineEnd byte = false

def encodedLen (n : Nat) : Nat := (n + 2) / 3 * 4

def decodedLen (n : Nat) : Nat := n / 4 * 3

namespace Alphabet

variable (alphabet : Alphabet)

theorem mod_lt_length (value : Nat) : value % 64 < alphabet.symbols.length := by
  rw [alphabet.length]
  exact Nat.mod_lt _ (by decide)

def symbol (value : Nat) : UInt8 := alphabet.symbols.get ⟨value % 64, alphabet.mod_lt_length value⟩

def value? (byte : UInt8) : Option Nat :=
  if byte ∈ alphabet.symbols then some (alphabet.symbols.idxOf byte) else none

theorem symbol_mem (value : Nat) : alphabet.symbol value ∈ alphabet.symbols := List.get_mem _ _

theorem symbol_ne_padding (value : Nat) : alphabet.symbol value ≠ padding := by
  intro h
  exact alphabet.unpadded (h ▸ alphabet.symbol_mem value)

@[simp] theorem value?_symbol (value : Nat) :
    alphabet.value? (alphabet.symbol value) = some (value % 64) := by
  rw [value?, if_pos (alphabet.symbol_mem value), symbol, List.get_eq_getElem,
    alphabet.nodup.idxOf_getElem]

def quantum (bits : Nat) : List UInt8 :=
  [alphabet.symbol (bits / 0x40000), alphabet.symbol (bits / 0x1000),
    alphabet.symbol (bits / 0x40), alphabet.symbol bits]

def encode : List UInt8 → List UInt8
  | [] => []
  | [a] =>
    (alphabet.quantum (a.toNat * 0x10000)).take 2 ++ [padding, padding]
  | [a, b] =>
    (alphabet.quantum (a.toNat * 0x10000 + b.toNat * 0x100)).take 3 ++ [padding]
  | a :: b :: c :: rest =>
    alphabet.quantum (a.toNat * 0x10000 + b.toNat * 0x100 + c.toNat) ++ encode rest

def bytes (bits : Nat) : List UInt8 :=
  [UInt8.ofNat (bits / 0x10000), UInt8.ofNat (bits / 0x100), UInt8.ofNat bits]

def decodeQuanta : List UInt8 → Option (List UInt8)
  | [] => some []
  | a :: b :: c :: d :: rest =>
    match alphabet.value? a, alphabet.value? b with
    | some first, some second =>
      let bits := first * 0x40000 + second * 0x1000
      if c = padding then
        if d = padding ∧ rest = [] then some ((bytes bits).take 1)
        else none
      else
        match alphabet.value? c with
        | none => none
        | some third =>
          let bits := bits + third * 0x40
          if d = padding then
            if rest = [] then some ((bytes bits).take 2) else none
          else
            match alphabet.value? d with
            | none => none
            | some fourth =>
              (decodeQuanta rest).map (bytes (bits + fourth) ++ ·)
    | _, _ => none
  | _ => none

def decode (src : List UInt8) : Option (List UInt8) :=
  alphabet.decodeQuanta (src.filter (!isLineEnd ·))

/-! ## The text of some bytes -/

@[simp] theorem length_quantum (bits : Nat) : (alphabet.quantum bits).length = 4 := rfl

theorem mem_of_mem_quantum {bits : Nat} {byte : UInt8}
    (h : byte ∈ alphabet.quantum bits) : byte ∈ alphabet.symbols := by
  simp only [quantum, List.mem_cons, List.not_mem_nil, or_false] at h
  rcases h with rfl | rfl | rfl | rfl <;> exact alphabet.symbol_mem _

theorem length_encode (data : List UInt8) :
    (alphabet.encode data).length = encodedLen data.length := by
  fun_induction encode alphabet data with
  | case1 => rfl
  | case2 a | case3 a b => simp [encodedLen]
  | case4 a b c rest ih =>
    simp only [List.length_append, length_quantum, ih, encodedLen, List.length_cons]
    omega

theorem encode_eq_append (data : List UInt8) : ∃ body, alphabet.encode data =
        body ++ List.replicate (2 - (data.length + 2) % 3) padding ∧
      ∀ byte ∈ body, byte ∈ alphabet.symbols := by
  fun_induction encode alphabet data with
  | case1 => exact ⟨[], rfl, by simp⟩
  | case2 a =>
    refine ⟨(alphabet.quantum (a.toNat * 0x10000)).take 2, by simp, fun byte h => ?_⟩
    exact alphabet.mem_of_mem_quantum (List.mem_of_mem_take h)
  | case3 a b =>
    refine ⟨(alphabet.quantum (a.toNat * 0x10000 + b.toNat * 0x100)).take 3, by simp,
      fun byte h => ?_⟩
    exact alphabet.mem_of_mem_quantum (List.mem_of_mem_take h)
  | case4 a b c rest ih =>
    obtain ⟨body, hbody, hmem⟩ := ih
    refine ⟨alphabet.quantum (a.toNat * 0x10000 + b.toNat * 0x100 + c.toNat) ++ body, ?_, ?_⟩
    · have hpad : (rest.length + 1 + 1 + 1 + 2) % 3 = (rest.length + 2) % 3 := by omega
      rw [hbody, List.append_assoc]
      simp [hpad]
    · intro byte h
      rcases List.mem_append.mp h with hquantum | hrest
      · exact alphabet.mem_of_mem_quantum hquantum
      · exact hmem byte hrest

/-! ## Reading it back -/

theorem ofNat_eq_of_mod {n : Nat} {byte : UInt8} (h : n % 256 = byte.toNat) :
    UInt8.ofNat n = byte := by
  rw [← UInt8.toNat_inj, UInt8.toNat_ofNat', h]

theorem decodeQuanta_encode (data : List UInt8) :
    alphabet.decodeQuanta (alphabet.encode data) = some data := by
  fun_induction encode alphabet data with
  | case1 => rfl
  | case2 a =>
    have ha := a.toNat_lt
    simp only [quantum, List.take_succ_cons, List.take_zero,
      List.cons_append, List.nil_append, decodeQuanta, value?_symbol, bytes,
      and_self, if_true, Option.some_inj, List.cons.injEq, and_true]
    exact ofNat_eq_of_mod (by omega)
  | case3 a b =>
    have ha := a.toNat_lt
    have hb := b.toNat_lt
    simp only [quantum, List.take_succ_cons, List.take_zero, List.cons_append, List.nil_append,
      decodeQuanta, value?_symbol, bytes, symbol_ne_padding, if_true, if_false, Option.some_inj,
      List.cons.injEq, and_true]
    exact ⟨ofNat_eq_of_mod (by omega), ofNat_eq_of_mod (by omega)⟩
  | case4 a b c rest ih =>
    have ha := a.toNat_lt
    have hb := b.toNat_lt
    have hc := c.toNat_lt
    simp only [quantum, List.cons_append, List.nil_append, decodeQuanta, value?_symbol, bytes,
      symbol_ne_padding, if_false, ih, Option.map_some, Option.some_inj, List.cons.injEq, and_true]
    exact ⟨ofNat_eq_of_mod (by omega), ofNat_eq_of_mod (by omega), ofNat_eq_of_mod (by omega)⟩

theorem filter_lineEnd_encode (data : List UInt8) :
    (alphabet.encode data).filter (!isLineEnd ·) = alphabet.encode data := by
  obtain ⟨body, hbody, hmem⟩ := alphabet.encode_eq_append data
  rw [List.filter_eq_self, hbody]
  intro byte h
  rcases List.mem_append.mp h with hin | hpad
  · rw [alphabet.noLineEnd byte (hmem byte hin)]
    rfl
  · rw [List.eq_of_mem_replicate hpad]
    rfl

theorem decode_encode (data : List UInt8) : alphabet.decode (alphabet.encode data) = some data := by
  rw [decode, filter_lineEnd_encode, decodeQuanta_encode]

theorem length_decodeQuanta {src data : List UInt8} (h : alphabet.decodeQuanta src = some data) :
    data.length ≤ decodedLen src.length := by
  unfold decodedLen
  fun_induction decodeQuanta alphabet src generalizing data
  case case1 => cases h; simp
  case case2 =>
    cases h
    simp only [bytes, List.take_succ_cons, List.take_zero, List.length_cons, List.length_nil]
    omega
  case case5 => cases h; simp [bytes]
  case case8 ih =>
    obtain ⟨tail, htail, rfl⟩ := Option.map_eq_some_iff.mp h
    have hle := ih htail
    simp only [List.length_append, bytes, List.length_cons, List.length_nil]
    omega
  all_goals cases h

theorem length_decode {src data : List UInt8} (h : alphabet.decode src = some data) :
    data.length ≤ decodedLen src.length := by
  have hle := alphabet.length_decodeQuanta h
  have hfilter := List.length_filter_le (!isLineEnd ·) src
  unfold decodedLen at *
  omega

end Alphabet

end Base64
