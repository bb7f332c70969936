import GoImap.Server.SearchReader
import GoImap.Wire.Steps

/-!
# The steps of the search reader

Each step of the reader takes the pieces of text that are meant for it and
leaves what follows.
-/

namespace GoImap.Wire

open Parsing Server Internal StringForm
open Decoder (Passes)

/-! ## The methods of the decoder -/

variable {ε : Type} {wire : Option DecoderError → ε} {options : Options} {byte want : UInt8}
  {dec : Decoder} {n : Nat} {s rest : Bytes} {settings : EncoderOptions}

theorem consumes_special : Consumes options (attempt (·.acceptByte options want) :
      Parser Decoder ε Bool) [.atom [want]] true rest :=
  consumes_of_advance fun _ _ h =>
    attempt_returns (Decoder.acceptByte_hit h.room h.rest_eq)

theorem consumes_noSpecial (h : byte ≠ want) :
    Consumes options (attempt (·.acceptByte options want) :
      Parser Decoder ε Bool) [] false (byte :: rest) :=
  consumes_of_stay fun _ _ hfacing => attempt_returns
    (Decoder.acceptByte_miss want hfacing.room hfacing.rest_eq h)

theorem consumes_sp (h : isLineChar byte = true) :
    Consumes options (attempt (·.sp options) : Parser Decoder ε Bool)
      [.atom [SP]] true (byte :: rest) :=
  consumes_of_advance fun _ _ hfacing =>
    attempt_returns (Decoder.sp_hit h hfacing)

theorem consumes_noSP (hspace : byte ≠ SP) (hparen : byte ≠ openParen) :
    Consumes options (attempt (·.sp options) : Parser Decoder ε Bool) [] false (byte :: rest) :=
  consumes_of_stay fun _ _ hfacing =>
    attempt_returns (Decoder.sp_miss hspace hparen hfacing)

theorem consumes_expectSP (h : isLineChar byte = true) :
    Consumes options (require wire (·.expectSP options)) [.atom [SP]] () (byte :: rest) := by
  refine consumes_of_advance fun dec count hfacing => require_returns ?_
  have hsp : dec.sp options = (true, dec.advance [SP]) := Decoder.sp_hit h hfacing
  rw [Decoder.expectSP, hsp]
  rfl

theorem consumes_number64 (hn : n < 2 ^ 63) (hstop : isDigit byte = false) :
    Consumes options (demand wire (·.expectNumber64 options))
      [.atom (formatUint n)] n (byte :: rest) := by
  refine consumes_of_advance fun dec count hfacing => demand_returns ?_
  have hnumber := Decoder.number64_advance hn hstop hfacing.roomFor hfacing.rest_eq
  simp [Decoder.expectNumber64, hnumber]

theorem consumes_func {valid : UInt8 → Bool} (hne : s ≠ [])
    (hs : ∀ other ∈ s, valid other = true) (hstop : valid byte = false) :
    Consumes options (attempt (·.func options valid) :
      Parser Decoder ε (Option Bytes)) [.atom s] (some s) (byte :: rest) :=
  consumes_of_advance fun _ _ hfacing => attempt_returns
    (Decoder.func_advance hs hne hstop hfacing.roomFor hfacing.rest_eq)

theorem consumes_noFunc {valid : UInt8 → Bool} (h : valid byte = false) :
    Consumes options (attempt (·.func options valid) :
      Parser Decoder ε (Option Bytes)) [] none (byte :: rest) :=
  consumes_of_stay fun _ _ hfacing =>
    attempt_returns (Decoder.func_miss h hfacing.room hfacing.rest_eq)

theorem consumes_expectAtom (hs : isAtom s = true) (hstop : isAtomChar byte = false) :
    Consumes options (demand wire (·.expectAtom options)) [.atom s] s (byte :: rest) := by
  refine consumes_of_advance fun dec count hfacing => demand_returns ?_
  obtain ⟨hne, hall⟩ := isAtom_iff.mp hs
  have hfunc := Decoder.func_advance hall hne hstop hfacing.roomFor hfacing.rest_eq
  simp only [Decoder.expectAtom, hfunc]
  rfl

theorem consumes_of_string {α : Type} {p : Parser Decoder ε α} {a : α}
    (hpasses : Passes settings options s)
    (h : ∀ dec next, dec.string options = (some s, next) → next.rest = rest → p.Returns dec a next)
    :
    Consumes options p [settings.stringForm s] a rest := by
  intro dec count hfacing
  rw [counted_singleton, joined_singleton] at hfacing
  obtain ⟨next, hstring, hnext⟩ := Decoder.string_facing hpasses hfacing
  exact ⟨next, h dec next hstring hnext.1.rest_eq, hnext⟩

theorem expectAString_of_string {next : Decoder} (h : dec.string options = (some s, next)) :
    dec.expectAString options = (some s, next) := by
  rw [Decoder.string] at h
  rw [Decoder.expectAString]
  rcases hquoted : dec.quoted options false with ⟨_ | found, middle⟩
  · rw [hquoted] at h
    simp only at h ⊢
    rw [h]
  · rwa [hquoted] at h

theorem consumes_aString (hpasses : Passes settings options s) :
    Consumes options (demand wire (·.expectAString options)) [settings.stringForm s] s rest :=
  consumes_of_string hpasses fun _ _ h _ =>
    demand_returns (expectAString_of_string h)

end GoImap.Wire

namespace GoImap.Server

open Wire Utf8 Parsing Internal StringForm
open Wire.Decoder (Facing Room isDelimiter)

variable {s : Bytes} {byte : UInt8} {set : NumSet}

/-! ## The text of sets -/

def isSetChar (byte : UInt8) : Bool := isDigit byte || byte ∈ [GoImap.star, comma, colon]

theorem isSetChar_of_mem_rangeText {range : NumRange}
    (h : byte ∈ rangeText range) : isSetChar byte = true := by
  have hdigit : ∀ {n : Nat}, byte ∈ formatUint n → isSetChar byte = true := by
    intro n hmem
    rw [isSetChar, isDigit_of_mem_formatUint hmem]
    rfl
  unfold rangeText at h
  split_ifs at h
  · rw [List.mem_singleton.mp h]
    decide
  · exact hdigit (by simpa using h)
  · simp only [List.mem_append, List.mem_cons, List.not_mem_nil, or_false] at h
    rcases h with hstart | rfl | rfl
    · exact hdigit hstart
    · decide
    · decide
  · simp only [List.mem_append, List.mem_cons] at h
    rcases h with hstart | rfl | hstop
    · exact hdigit hstart
    · decide
    · exact hdigit hstop

theorem isSetChar_of_mem_string (h : byte ∈ set.string) : isSetChar byte = true := by
  obtain ⟨range, -, hmem⟩ := List.mem_flatMap.mp (List.mem_of_mem_drop h)
  rcases List.mem_cons.mp hmem with rfl | hmem
  · decide
  · exact isSetChar_of_mem_rangeText hmem

theorem string_ne_nil (h : set ≠ []) : set.string ≠ [] := by
  obtain ⟨range, rest, rfl⟩ := List.exists_cons_of_ne_nil h
  exact string_cons_ne_nil range rest

theorem isSetChar_facts (h : isSetChar byte = true) :
    (byte = Wire.star ∨ isAtomChar byte = true) ∧ upperByte byte = byte ∧
      byte.toNat < 128 ∧ byte ≠ dollar := by
  have hall : ∀ n < 256, isSetChar (UInt8.ofNat n) = true →
      (UInt8.ofNat n = Wire.star ∨ isAtomChar (UInt8.ofNat n) = true) ∧
        upperByte (UInt8.ofNat n) = UInt8.ofNat n ∧
        (UInt8.ofNat n).toNat < 128 ∧ UInt8.ofNat n ≠ dollar := by
    decide +kernel
  have hbyte := hall byte.toNat byte.toNat_lt
  rw [UInt8.ofNat_toNat] at hbyte
  exact hbyte h

/-! ## The steps of the reader -/

section Pieces

variable {ε : Type} {wire : Option DecoderError → ε} {options : Options} {rest : Bytes}

theorem not_keyChar_of_isDelimiter (h : isDelimiter byte = true) :
    decide (byte = Wire.star ∨ isAtomChar byte = true) = false := by
  rcases Decoder.isDelimiter_iff.mp h with rfl | rfl | rfl <;> decide

theorem not_isAtomChar_of_isDelimiter (h : isDelimiter byte = true) : isAtomChar byte = false := by
  have hnot := not_keyChar_of_isDelimiter h
  simp_all

theorem not_isDigit_of_isDelimiter (h : isDelimiter byte = true) : isDigit byte = false := by
  rcases Decoder.isDelimiter_iff.mp h with rfl | rfl | rfl <;> decide

theorem consumes_keyAtom {key : Bytes} (hne : key ≠ [])
    (hkey : ∀ other ∈ key, other = Wire.star ∨ isAtomChar other = true)
    (hstop : isDelimiter byte = true) :
    Consumes options (maybeReadSearchKeyAtom options) [.atom key] (some key) (byte :: rest) :=
  consumes_func hne (by simpa using hkey) (not_keyChar_of_isDelimiter hstop)

theorem consumes_date {settings : EncoderOptions} {date : Calendar.Date}
    (hpasses : Decoder.Passes settings options (formatDate date))
    (hvalid : date.Valid) (hyear : date.year < 10000) :
    Consumes options (readDate options) [settings.stringForm (formatDate date)] date rest := by
  refine consumes_of_string hpasses fun dec next h _ => ?_
  rw [Parser.Returns, readDate, expectDate, expectAString_of_string h]
  simp [parseDate_formatDate hvalid hyear]

theorem consumes_modSeq {modSeq : ModSeq} (hstop : isDelimiter byte = true) :
    Consumes options (demand wire (·.expectModSeq options))
      [.atom (formatUint modSeq.toNat)] modSeq (byte :: rest) := by
  refine consumes_of_advance fun dec count hfacing => demand_returns ?_
  have hdigits := Decoder.func_advance
    (fun _ => isDigit_of_mem_formatUint) (formatUint_ne_nil modSeq.toNat)
    (not_isDigit_of_isDelimiter hstop)
    hfacing.roomFor hfacing.rest_eq
  simp [Decoder.expectModSeq, Decoder.modSeq, Decoder.numberStr, hdigits,
    parseUint_formatUint modSeq.toNat_lt]

theorem consumes_flag [LowerCase] {flag : Flag} (hflag : IsFlag flag)
    (hstop : isDelimiter byte = true) :
    Consumes options (demand wire (expectFlag options · false)) [.atom flag]
      (canonicalFlag flag) (byte :: rest) := by
  refine consumes_of_advance fun dec count hfacing => demand_returns ?_
  exact expectFlag_advance hflag (not_isAtomChar_of_isDelimiter hstop)
    hfacing.roomFor hfacing.rest_eq

theorem consumes_uidSet (hne : set ≠ []) (hset : set.Canonical) (hstop : isDelimiter byte = true) :
    Consumes options (demand wire (·.expectUIDSet options)) [.atom set.string]
      (.nums set) (byte :: rest) := by
  refine consumes_of_advance fun dec count hfacing => demand_returns ?_
  obtain ⟨first, tail, htext⟩ := List.exists_cons_of_ne_nil (string_ne_nil hne)
  have hfirst : first ≠ dollar := (isSetChar_facts (isSetChar_of_mem_string
      (show first ∈ set.string by simp [htext]))).2.2.2
  have hmiss := Decoder.acceptByte_miss dollar hfacing.room
    (show dec.rest = first :: (tail ++ byte :: rest) by
      rw [hfacing.rest_eq, htext]; rfl) hfirst
  have hchars : ∀ other ∈ set.string, Decoder.isNumSetChar other = true :=
    fun other hother =>
      decide_eq_true (isSetChar_facts (isSetChar_of_mem_string hother)).1
  have hend : Decoder.isNumSetChar byte = false := not_keyChar_of_isDelimiter hstop
  have hfunc := Decoder.func_advance hchars (string_ne_nil hne) hend
    hfacing.stay.roomFor hfacing.stay.rest_eq
  rw [Decoder.advance_advance, List.nil_append] at hfunc
  simp [Decoder.expectUIDSet, hmiss, hfunc, parseSet_string hne hset]

theorem consumes_searchRes :
    Consumes options (demand wire (·.expectUIDSet options)) [.atom [dollar]] .searchRes rest := by
  refine consumes_of_advance fun dec count hfacing => demand_returns ?_
  rw [Decoder.expectUIDSet, Decoder.acceptByte_hit hfacing.room hfacing.rest_eq]

theorem consumes_quoted : Consumes options (attempt (·.quoted options false) :
      Parser Decoder ε (Option Bytes)) [.quoted s] (some s) rest := by
  intro dec count hfacing
  have hbytes : (quoted s).bytes = (quoted s).text := List.append_nil _
  simp only [counted_cons, counted_nil, joined_cons, joined_nil, List.append_nil,
    Nat.add_zero, hbytes] at hfacing
  exact ⟨_, attempt_returns (Decoder.quoted_advance hfacing.roomFor hfacing.rest_eq),
    hfacing.advance, rfl⟩

theorem consumes_closeParen :
    Consumes options (anotherItem options) [.atom [closeParen]] false rest :=
  .next consumes_special (.pure false)

theorem consumes_crlf : Consumes options (require wire fun dec =>
      match dec.acceptCRLF options with
      | (found, dec) => dec.expect found "CRLF")
      [.atom [CR, LF]] () rest := by
  intro dec count h
  have hfacing : Facing options dec ([CR, LF].length + count) ([CR, LF] ++ rest) := h
  have hline := Decoder.acceptCRLF_advance hfacing.roomFor hfacing.rest_eq
  have hnext := hfacing.advance
  refine ⟨{ dec.advance [CR, LF] with crlf := true }, require_returns ?_,
    ⟨⟨hnext.running, hnext.closed, hnext.within⟩, hnext.rest_eq⟩, rfl⟩
  rw [hline]
  rfl

end Pieces

end GoImap.Server
