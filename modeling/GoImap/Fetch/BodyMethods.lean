import GoImap.Fetch.BodyReader
import GoImap.Fetch.SectionEcho

/-!
# The methods body structures are read with

A string is read unless its literal is refused, and a refused literal ends all
reading.  A field that may be NIL is told from a string by its first octet.
-/

namespace GoImap

open Wire Utf8 Parsing StringForm
open Decoder (Passes isDelimiter)
open Server (Starts starts_atom starts_char starts_stringForm starts_number
  writeNString)

namespace Wire

def Op.WritesNString (op : Op) (s : Bytes) : Prop := op = .string s ∨ op = .nil ∧ s = []

theorem writesNString (s : Bytes) : (writeNString s).WritesNString s := by
  rw [writeNString]
  split_ifs with hs
  · exact .inr ⟨rfl, hs⟩
  · exact .inl rfl

variable {op : Op} {ε α : Type} {options : Options} {settings : EncoderOptions}
  {s rest : Bytes} {byte : UInt8} {dec : Decoder}
  {read : Decoder → Option Bytes × Decoder}

section Forms

variable {settings : EncoderOptions}

theorem passes_of_quoted {options : Options} {s : Bytes} (hsides : options.side ≠ settings.side)
    (h : settings.validQuoted s = true) : Passes settings options s :=
  ⟨hsides, .inl h⟩

theorem starts_nil : Starts [.atom (ascii "NIL")] := starts_atom (by decide) (by decide +kernel)

theorem starts_nString {s : Bytes} (h : op.WritesNString s) : Starts [op.form settings] := by
  rcases h with rfl | ⟨rfl, -⟩
  · exact starts_stringForm settings s []
  · exact starts_nil

end Forms

variable {wire : Option DecoderError → ε}

/-! ## Strings -/

section

variable (hsides : options.side ≠ settings.side)

include hsides

theorem string_refused {count : Nat} (hrefused : ¬Passes settings options s)
    (h : Ready options dec ((settings.stringForm s).text.length + count)
      ((settings.stringForm s).bytes ++ rest)) :
    ∃ next, dec.string options = (none, next) ∧ Broken next := by
  have hquoted : settings.validQuoted s = false := by
    by_contra hvalid
    exact hrefused ⟨hsides, .inl (by simpa using hvalid)⟩
  have hside : settings.nonSync s = true → options.side = .server := by
    intro hsync
    have hclient : settings.side = .client := by
      rw [EncoderOptions.nonSync, decide_eq_true_eq] at hsync
      exact hsync.1
    cases hserver : options.side with
    | server => rfl
    | client => exact absurd (hserver.trans hclient.symm) hsides
  rw [EncoderOptions.stringForm, hquoted] at h
  have hmiss := Decoder.quoted_miss h.room h.rest_eq (by decide)
  have hstay := h.stay
  have hrest := hstay.rest_eq
  rw [if_neg (by simp), bytes, List.append_assoc] at hrest
  obtain ⟨next, hliteral, hfailed⟩ := Decoder.bufferLiteral_refused
    (fun haccepts => hrefused ⟨hsides, .inr haccepts⟩) hside
    (hstay.toRoom.mono (Nat.le_add_right _ _)) hrest
  refine ⟨next, by simp [Decoder.string, hmiss, hliteral], hfailed, ?_⟩
  have hkept := @Decoder.bufferLiteral_discarding options (dec.advance [])
  rw [hliteral] at hkept
  exact hkept.trans hstay.reading

theorem decides_of_string {p : Parser Decoder ε α} {a : α}
    (hsome : ∀ dec next, dec.string options = (some s, next) → next.rest = rest →
      p.Returns dec a next)
    (hnone : ∀ dec next, dec.string options = (none, next) → ∃ err next, p dec = (.error err, next))
    :
    Decides options p [settings.stringForm s] (Passes settings options s) a rest := by
  refine ⟨fun hpasses => consumes_of_string hpasses hsome, fun hrefused dec count hready => ?_⟩
  rw [counted_singleton, joined_singleton] at hready
  obtain ⟨next, hstring, -⟩ := string_refused hsides hrefused hready
  exact hnone dec next hstring

theorem decides_probe {β : Type} {f : Option Bytes → Parser Decoder ε β} {second : List StringForm}
    {more : Prop} {b : β} (hsome : Decides options (f (some s)) second more b rest)
    (hnone : Stuck (f none)) :
    Decides options (attempt (·.string options) >>= f)
      (settings.stringForm s :: second) (Passes settings options s ∧ more) b
      rest := by
  have hshape : settings.stringForm s :: second = [settings.stringForm s] ++ second := rfl
  by_cases hpasses : Passes settings options s
  · have hprobe : Consumes options (attempt (·.string options) :
        Parser Decoder ε (Option Bytes)) [settings.stringForm s] (some s)
        (joined second ++ rest) :=
      consumes_of_string hpasses fun _ _ h _ => attempt_returns h
    rw [hshape]
    exact (hprobe.followed hsome).congr (iff_and_self.mpr fun _ => hpasses)
  · refine ⟨fun h => absurd h.1 hpasses, fun _ => ?_⟩
    have hbreaks : Breaks options (attempt (·.string options) :
        Parser Decoder ε (Option Bytes)) [settings.stringForm s] none
        (joined second ++ rest) := by
      intro dec count hready
      rw [counted_singleton, joined_singleton] at hready
      obtain ⟨next, hstring, hbroken⟩ := string_refused hsides hpasses hready
      exact ⟨next, attempt_returns hstring, hbroken⟩
    rw [hshape]
    exact hbreaks.refuses hnone

omit hsides in
theorem consumes_noString (hquote : byte ≠ quote) (hbrace : byte ≠ openBrace) :
    Consumes options (attempt (·.string options) :
      Parser Decoder ε (Option Bytes)) [] none (byte :: rest) := by
  refine consumes_of_stay fun dec count hready => attempt_returns ?_
  rw [Decoder.string, Decoder.quoted_miss hready.room hready.rest_eq hquote]
  simp [Decoder.bufferLiteral_miss hready.stay.room hready.stay.rest_eq hbrace,
    Decoder.advance_advance]

theorem block_expectString : Block options (demand wire (·.expectString options))
      [settings.stringForm s] (Passes settings options s) s where
  starts := starts_stringForm settings s []
  decides := fun byte rest _ => decides_of_string hsides (fun dec next h _ =>
      demand_returns (by simp [Decoder.expectString, h]))
    (fun dec next h => demand_fails (by simp [Decoder.expectString, h]))

end

/-! ## Strings with stray quotes -/

theorem quoted_stray (dec : Decoder) : dec.quoted options true =
      match dec.quoted options false with
      | (none, next) => (none, next)
      | (some s, next) => (some s, next.dropStrayQuote.dropStrayQuote) := by
  unfold Decoder.quoted
  rcases dec.acceptByte options quote with ⟨_ | _, middle⟩
  · rfl
  · simp only
    rcases Decoder.quotedLoop options (middle.rest.length + 1) middle [] with
      ⟨_ | _, last⟩
    · rfl
    · rfl

theorem dropStrayQuote_eq (hrest : dec.rest = byte :: rest) (h : byte ≠ quote) :
    dec.dropStrayQuote = dec := by
  simp [Decoder.dropStrayQuote, hrest, h]

theorem strayQuotes_eq {next : Decoder} (hrest : next.rest = byte :: rest)
    (hquote : byte ≠ quote) (h : dec.string options = (some s, next)) :
    dec.expectStringAllowStrayQuotes options = (some s, next) := by
  rw [Decoder.string] at h
  rw [Decoder.expectStringAllowStrayQuotes, quoted_stray]
  rcases hquoted : dec.quoted options false with ⟨_ | found, middle⟩
  · rw [hquoted] at h
    simp only at h ⊢
    rw [h]
  · rw [hquoted] at h
    cases h
    simp [dropStrayQuote_eq hrest hquote]

theorem strayQuotes_none {next : Decoder} (h : dec.string options = (none, next)) :
    (dec.expectStringAllowStrayQuotes options).1 = none := by
  rw [Decoder.string] at h
  rw [Decoder.expectStringAllowStrayQuotes, quoted_stray]
  rcases hquoted : dec.quoted options false with ⟨_ | found, middle⟩
  · rw [hquoted] at h
    simp only at h ⊢
    rw [h]
  · rw [hquoted] at h
    simp at h

theorem quote_ne_of_ends (h : byte = SP ∨ byte = closeParen) : byte ≠ quote := by
  rcases h with rfl | rfl <;> decide

theorem block_strayQuotes (hsides : options.side ≠ settings.side) :
    Block options (demand wire (·.expectStringAllowStrayQuotes options))
      [settings.stringForm s] (Passes settings options s) s where
  starts := starts_stringForm settings s []
  decides := fun _ _ hbyte => decides_of_string hsides (fun _ _ h hrest =>
      demand_returns (strayQuotes_eq hrest (quote_ne_of_ends hbyte) h))
    (fun _ _ h => demand_fails (strayQuotes_none h))

/-! ## Strings or NIL -/

def orNIL (options : Options) (read : Decoder → Option Bytes × Decoder)
    (dec : Decoder) : Option Bytes × Decoder :=
  match dec.atom options with
  | (some s, dec) =>
    if s = ascii "NIL" then (some [], dec)
    else (none, (dec.expect false "nstring").2)
  | (none, dec) => read dec

theorem isAtomChar_of_ends (h : byte = SP ∨ byte = closeParen) : isAtomChar byte = false := by
  rcases h with rfl | rfl <;> decide

theorem atom_NIL {count : Nat} (hstop : isAtomChar byte = false)
    (h : Decoder.Facing options dec ((ascii "NIL").length + count) (ascii "NIL" ++ byte :: rest)) :
    dec.atom options = (some (ascii "NIL"), dec.advance (ascii "NIL")) :=
  Decoder.func_advance (by decide +kernel) (by decide) hstop h.roomFor h.rest_eq

theorem consumes_orNIL_NIL (hstop : isAtomChar byte = false) :
    Consumes options (demand wire (orNIL options read)) [.atom (ascii "NIL")] [] (byte :: rest) :=
  consumes_of_advance fun dec count hready => demand_returns (by
    rw [orNIL, atom_NIL hstop hready]
    rfl)

theorem decides_orNIL_string {ok : Prop}
    (h : Decides options (demand wire read) [settings.stringForm s] ok s rest) :
    Decides options (demand wire (orNIL options read)) [settings.stringForm s] ok s rest := by
  have hread : ∀ dec count, Decoder.Facing options dec (counted [settings.stringForm s] + count)
      (joined [settings.stringForm s] ++ rest) →
      orNIL options read dec = read (dec.advance []) := by
    intro dec count hready
    obtain ⟨first, tail, hform, hfirst⟩ := Decoder.stringForm_head settings s
    have hrest := hready.rest_eq
    rw [joined_cons, hform] at hrest
    rw [orNIL, Decoder.atom, Decoder.func_miss hfirst hready.room hrest]
  constructor
  · intro hok dec count hready
    obtain ⟨next, hreturns, hnext⟩ := h.consumes hok (dec.advance []) count hready.stay
    refine ⟨next, ?_, hnext⟩
    rw [Parser.Returns, demand] at hreturns ⊢
    rwa [hread dec count hready]
  · intro hnot dec count hready
    obtain ⟨err, next, hfails⟩ := h.refuses hnot (dec.advance []) count hready.stay
    refine ⟨err, next, ?_⟩
    rw [demand] at hfails ⊢
    rwa [hread dec count hready.toFacing]

theorem block_orNIL (hsides : options.side ≠ settings.side) (hop : op.WritesNString s)
    (h : Block options (demand wire read) [settings.stringForm s] (Passes settings options s) s) :
    Block options (demand wire (orNIL options read)) [op.form settings]
      (Passes settings options s) s where
  starts := starts_nString hop
  decides := fun byte rest hbyte => by
    rcases hop with rfl | ⟨rfl, rfl⟩
    · exact decides_orNIL_string (h.decides byte rest hbyte)
    · have hpasses : Passes settings options [] :=
        passes_of_quoted hsides (by simp [EncoderOptions.validQuoted])
      exact (consumes_orNIL_NIL (isAtomChar_of_ends hbyte)).decides.congr
        (iff_of_true trivial hpasses)

theorem block_nString (hsides : options.side ≠ settings.side) (hop : op.WritesNString s) :
    Block options (demand wire (·.expectNString options)) [op.form settings]
      (Passes settings options s) s :=
  block_orNIL hsides hop (block_expectString hsides)

theorem block_nStringStray (hsides : options.side ≠ settings.side) (hop : op.WritesNString s) :
    Block options (demand wire (·.expectNStringAllowStrayQuotes options))
      [op.form settings] (Passes settings options s) s :=
  block_orNIL hsides hop (block_strayQuotes hsides)

theorem refuses_nString_special (hatom : isAtomChar byte = false) (hquote : byte ≠ quote)
    (hbrace : byte ≠ openBrace) {forms : List StringForm} {tail : Bytes}
    (hjoined : joined forms ++ rest = byte :: tail) :
    Refuses options (demand wire (·.expectNString options)) forms rest := by
  intro dec count hready
  rw [hjoined] at hready
  refine demand_fails ?_
  have hmiss := Decoder.func_miss hatom hready.room hready.rest_eq
  have hstay := hready.stay
  rw [Decoder.expectNString, Decoder.atom, hmiss]
  simp [Decoder.expectString, Decoder.string, Decoder.quoted_miss hstay.room hstay.rest_eq hquote,
    Decoder.bufferLiteral_miss hstay.stay.room hstay.stay.rest_eq hbrace]

theorem refuses_nString_atom (hs : isAtom s = true) (hnil : s ≠ ascii "NIL")
    (hstop : isAtomChar byte = false) :
    Refuses options (demand wire (·.expectNString options)) [.atom s] (byte :: rest) := by
  intro dec count hready
  rw [counted_singleton, joined_singleton, text_atom, bytes_atom] at hready
  obtain ⟨hne, hall⟩ := Internal.isAtom_iff.mp hs
  have hfunc := Decoder.func_advance hall hne hstop hready.roomFor hready.rest_eq
  refine demand_fails ?_
  rw [Decoder.expectNString, Decoder.atom, hfunc]
  simp [hnil]

theorem consumes_expectNIL (hstop : isAtomChar byte = false) :
    Consumes options (require wire (·.expectNIL options))
      [.atom (ascii "NIL")] () (byte :: rest) := by
  refine consumes_of_advance fun dec count hready => require_returns ?_
  have hfunc := Decoder.func_advance (by decide +kernel) (by decide) hstop hready.roomFor
    hready.rest_eq
  simp only [Decoder.expectNIL, Decoder.expectAtom, hfunc]
  rfl

/-! ## Numbers -/

theorem isDigit_of_ends (h : byte = SP ∨ byte = closeParen) : isDigit byte = false := by
  rcases h with rfl | rfl <;> decide

theorem formatUint_head (n : Nat) :
    ∃ first tail, formatUint n = first :: tail ∧ isDigit first = true := by
  obtain ⟨first, tail, hform⟩ := List.exists_cons_of_ne_nil (formatUint_ne_nil n)
  have hfirst : first ∈ formatUint n := by
    rw [hform]
    exact List.mem_cons_self
  exact ⟨first, tail, hform, isDigit_of_mem_formatUint hfirst⟩

theorem consumes_octets (size : UInt32) (hbyte : byte = SP ∨ byte = closeParen) :
    Consumes options (demand wire (·.expectBodyFldOctets options))
      [.atom (formatUint size.toNat)] size (byte :: rest) := by
  refine consumes_of_advance fun dec count hready => demand_returns ?_
  obtain ⟨first, tail, hform, hdigit⟩ := formatUint_head size.toNat
  have hrest := hready.rest_eq
  rw [hform] at hrest
  have hmiss := Decoder.acceptByte_miss minus hready.room hrest (by
    rintro rfl
    revert hdigit
    decide)
  have hnumber := number_advance size.toNat_lt (isDigit_of_ends hbyte)
    hready.stay.roomFor hready.stay.rest_eq
  rw [UInt32.ofNat_toNat, Decoder.advance_advance, List.nil_append] at hnumber
  simp [Decoder.expectBodyFldOctets, hmiss, Decoder.expectNumber, hnumber]

theorem consumes_lines [CaseFold] {n : Nat} (hn : n < 2 ^ 63)
    (hbyte : byte = SP ∨ byte = closeParen) :
    Consumes options (demand wire (·.expectBodyFldLines options))
      [.atom (formatUint n)] (Int64.ofNat n) (byte :: rest) := by
  refine consumes_of_advance fun dec count hready => demand_returns ?_
  have hnumber := Decoder.number64_advance hn (isDigit_of_ends hbyte) hready.roomFor hready.rest_eq
  simp [Decoder.expectBodyFldLines, hnumber]

theorem refuses_lines [CaseFold] (hdigit : isDigit byte = false) (hatom : isAtomChar byte = false)
    {forms : List StringForm} {tail : Bytes} (hjoined : joined forms ++ rest = byte :: tail) :
    Refuses options (demand wire (·.expectBodyFldLines options)) forms rest := by
  intro dec count hready
  rw [hjoined] at hready
  refine demand_fails ?_
  have hnone := Decoder.func_miss hdigit hready.room hready.rest_eq
  have hmiss := Decoder.func_miss hatom hready.stay.room hready.stay.rest_eq
  simp [Decoder.expectBodyFldLines, Decoder.number64, Decoder.numberStr, hnone, Decoder.atom, hmiss]

/-! ## Lists or NIL -/

section NLists

variable {item : Parser Decoder ε α} {β : Type} {items : List β}
  {forms : β → List StringForm} {ok : β → Prop} {value : β → α}

theorem consumes_nList_NIL (hstop : isAtomChar byte = false) :
    Consumes options (readNList wire options item) [.atom (ascii "NIL")] [] (byte :: rest) := by
  have hfound : Consumes options (require wire
      (·.expect (ascii "NIL" = ascii "NIL") "NIL")) [] () (byte :: rest) := by
    intro dec count hready
    rw [counted_nil, Nat.zero_add] at hready
    exact ⟨dec, require_returns (by simp [Decoder.expect]), hready, rfl⟩
  refine .next (consumes_func (by decide) (by decide +kernel) hstop) ?_
  exact hfound.map fun _ => []

theorem decides_nList (h : ∀ x ∈ items, Block options item (forms x) (ok x) (value x)) :
    Decides options (readNList wire options item) (listForms (items.map forms))
      (∀ x ∈ items, ok x) (items.map value) rest := by
  exact Consumes.lookahead (consumes_noFunc (by decide)) (decides_expectedList h)

def nListForms (items : List (List StringForm)) : List StringForm :=
  if items = [] then [.atom (ascii "NIL")] else listForms items

theorem starts_nListForms (items : List (List StringForm)) : Starts (nListForms items) := by
  rw [nListForms]
  split_ifs
  · exact starts_nil
  · exact starts_char (by decide) (by decide)

theorem block_nList (h : ∀ x ∈ items, Block options item (forms x) (ok x) (value x)) :
    Block options (readNList wire options item) (nListForms (items.map forms)) (∀ x ∈ items, ok x)
      (items.map value) where
  starts := starts_nListForms _
  decides := fun byte rest hbyte => by
    cases items with
    | nil =>
      exact (consumes_nList_NIL (isAtomChar_of_ends hbyte)).decides.congr (by simp)
    | cons x items => exact decides_nList h

end NLists

/-! ## Where reading has ended -/

theorem stuck_expectSpecial (want : UInt8) : Stuck (require wire (·.expectSpecial options want)) :=
  stuck_require fun dec hdec => by
    simp [Decoder.expectSpecial, hdec.acceptByte, Decoder.expect]

theorem stuck_readNList {item : Parser Decoder ε α} : Stuck (readNList wire options item) := by
  rw [readNList]
  refine stuck_attempt (fun dec hdec => hdec.func isAtomChar) ?_
  intro dec hdec
  have hopen : (attempt (·.acceptByte options openParen) :
      Parser Decoder ε Bool).Returns dec false dec :=
    attempt_returns (hdec.acceptByte openParen)
  have hlist : (readList wire options item).Returns dec none dec := by
    rw [readList]
    exact hopen.bind rfl
  obtain ⟨err, next, hfails⟩ : ∃ err next,
      require wire (·.expect false "(") dec = (.error err, next) :=
    require_fails rfl
  exact ⟨err, next, (Parser.bind_of_returns hlist).trans (Parser.bind_of_fails hfails)⟩

end Wire

end GoImap
