import GoImap.Server.Responses
import GoImap.Server.SearchText
import GoImap.Wire.Pieces
import GoImap.Wire.Steps

/-!
# The methods FETCH is read with

Both sides read the items of FETCH with the same methods of the decoder.  Each
method consumes the piece it is meant for; a method that reads up to another
kind of octet depends on the one behind the piece.
-/

namespace GoImap.Wire

open Parsing Server Internal StringForm
open Decoder (Facing Passes isDelimiter)

namespace Decoder

variable (options : Options)

def expectSpecial (dec : Decoder) (want : UInt8) : Bool × Decoder :=
  match dec.acceptByte options want with
  | (found, dec) =>
    dec.expect found ("'" ++ String.singleton (Char.ofNat want.toNat) ++ "'")

def number (dec : Decoder) : Option UInt32 × Decoder :=
  match dec.numberStr options with
  | (none, dec) => (none, dec)
  | (some digits, dec) => ((parseUint digits 32).map UInt32.ofNat, dec)

def expectNumber (dec : Decoder) : Option UInt32 × Decoder :=
  match dec.number options with
  | (none, dec) => (none, (dec.expect false "number").2)
  | result => result

end Decoder

section Lists

variable {ε α : Type} (wire : Option DecoderError → ε) (options : Options)

def moreItems : Parser Decoder ε Bool := do
  if ← attempt (·.acceptByte options closeParen) then pure false
  else
    require wire (·.expectSP options)
    pure true

def readList (item : Parser Decoder ε α) :
    Parser Decoder ε (Option (List α)) := do
  if ← attempt (·.acceptByte options openParen) then
    if ← attempt (·.acceptByte options closeParen) then pure (some [])
    else
      let items ← fun dec =>
        Parser.separated item (moreItems wire options)
          (fun dec => (.error (wire dec.err), dec)) (dec.rest.length + 1) dec
      pure (some items)
  else pure none

def readExpectedList (item : Parser Decoder ε α) :
    Parser Decoder ε (List α) := do
  match ← readList wire options item with
  | some items => pure items
  | none =>
    require wire (·.expect false "(")
    pure []

end Lists

/-! ## Single octets and numbers -/

variable {forms : List StringForm}

section Elements

variable {ε : Type} {wire : Option DecoderError → ε} {options : Options}
  {byte want : UInt8} {rest : Bytes}

theorem consumes_expectSpecial :
    Consumes options (require wire (·.expectSpecial options want)) [.atom [want]] () rest := by
  refine consumes_of_advance fun dec count h => require_returns ?_
  rw [Decoder.expectSpecial, Decoder.acceptByte_hit h.room h.rest_eq]
  rfl

theorem refuses_expectSpecial {tail : Bytes} (hjoined : joined forms ++ rest = byte :: tail)
    (h : byte ≠ want) :
    Refuses options (require wire (·.expectSpecial options want)) forms rest := by
  intro dec count hready
  refine require_fails ?_
  rw [hjoined] at hready
  rw [Decoder.expectSpecial, Decoder.acceptByte_miss want hready.room hready.rest_eq h]
  rfl

variable {dec : Decoder} {n : Nat}

theorem number_advance (hn : n < 2 ^ 32) (hstop : isDigit byte = false)
    (h : Decoder.Room options dec (formatUint n).length)
    (hrest : dec.rest = formatUint n ++ byte :: rest) :
    dec.number options = (some (UInt32.ofNat n), dec.advance (formatUint n)) := by
  rw [Decoder.number, Decoder.numberStr, Decoder.func_advance
    (fun _ => isDigit_of_mem_formatUint) (formatUint_ne_nil n) hstop h hrest]
  simp [parseUint_formatUint hn]

theorem consumes_number (hn : n < 2 ^ 32) (hstop : isDigit byte = false) :
    Consumes options (attempt (·.number options) :
      Parser Decoder ε (Option UInt32)) [.atom (formatUint n)]
      (some (UInt32.ofNat n)) (byte :: rest) :=
  consumes_of_advance fun _ _ hready =>
    attempt_returns (number_advance hn hstop hready.roomFor hready.rest_eq)

theorem consumes_noNumber (h : isDigit byte = false) :
    Consumes options (attempt (·.number options) :
      Parser Decoder ε (Option UInt32)) [] none (byte :: rest) := by
  refine consumes_of_stay fun dec count hready => attempt_returns ?_
  rw [Decoder.number, Decoder.numberStr, Decoder.func_miss h hready.room hready.rest_eq]

/-! ## Atoms and strings -/

variable {s : Bytes}

variable {settings : EncoderOptions}

theorem consumes_aStringForm (hpasses : isAtom s = true ∨ Passes settings options s)
    (hstop : isDelimiter byte = true) :
    Consumes options (demand wire (·.expectAString options))
      [settings.aStringForm s] s (byte :: rest) := by
  rw [EncoderOptions.aStringForm]
  split_ifs with hatom
  · exact consumes_of_advance fun dec count hready =>
      demand_returns (Decoder.expectAString_atom_advance hatom hready.roomFor hstop hready.rest_eq)
  · exact consumes_aString (hpasses.resolve_left hatom)

end Elements

/-! ## Lists -/

structure Element {ε α : Type} (options : Options) (item : Parser Decoder ε α)
    (forms : List StringForm) (a : α) : Prop where
  starts : Starts forms
  consumes : ∀ byte rest, byte = SP ∨ byte = closeParen →
    Consumes options item forms a (byte :: rest)

structure Block {ε α : Type} (options : Options) (item : Parser Decoder ε α)
    (forms : List StringForm) (ok : Prop) (a : α) : Prop where
  starts : Starts forms
  decides : ∀ byte rest, byte = SP ∨ byte = closeParen →
    Decides options item forms ok a (byte :: rest)

theorem Element.block {ε α : Type} {options : Options}
    {item : Parser Decoder ε α} {a : α} (h : Element options item forms a) :
    Block options item forms True a :=
  ⟨h.starts, fun byte rest hbyte => (h.consumes byte rest hbyte).decides⟩

def listForms (items : List (List StringForm)) : List StringForm :=
  .atom [openParen] :: (spaced items ++ [.atom [closeParen]])

theorem map_listOps (settings : EncoderOptions) (items : List (List Op)) :
    (listOps items).map (Op.form settings) =
      listForms (items.map (List.map (Op.form settings))) := by
  simp [listOps, listForms, spaced, Server.special, Server.space, map_intercalate, Op.form]

section Lists

variable {ε α : Type} {wire : Option DecoderError → ε} {options : Options}
  {item : Parser Decoder ε α} {rest : Bytes}

theorem consumes_listEnd : Consumes options (moreItems wire options) [.atom [closeParen]] false
      rest :=
  .next consumes_special (.pure false)

theorem consumes_listGoesOn (h : Starts forms) :
    Consumes options (moreItems wire options) [.atom [SP]] true (joined forms ++ rest) := by
  obtain ⟨first, tail, hjoined, hfirst, -⟩ := h
  rw [hjoined]
  exact .peek (consumes_noSpecial (by decide)) ((consumes_expectSP hfirst).map fun _ => true)

variable {β : Type} {items : List β} {forms : β → List StringForm} {ok : β → Prop} {value : β → α}

section

variable (h : ∀ x ∈ items, Block options item (forms x) (ok x) (value x))

include h

theorem blocks_start : ∀ piece ∈ items.map forms, Starts piece := by
  intro piece hpiece
  obtain ⟨x, hx, rfl⟩ := List.mem_map.mp hpiece
  exact (h x hx).starts

theorem decides_items {stuck : Parser Decoder ε (List α)}
    (hne : items ≠ []) {fuel : Nat} (hfuel : items.length ≤ fuel) :
    Decides options (Parser.separated item (moreItems wire options) stuck fuel)
      (spaced (items.map forms) ++ [.atom [closeParen]])
      (∀ x ∈ items, ok x) (items.map value) rest := by
  induction items generalizing fuel with
  | nil => exact absurd rfl hne
  | cons x items ih =>
    obtain ⟨hx, hmore⟩ := List.forall_mem_cons.mp h
    obtain ⟨fuel, rfl⟩ := Nat.exists_eq_add_of_lt hfuel
    rw [Parser.separated]
    cases items with
    | nil =>
      rw [show spaced ([x].map forms) ++ [.atom [closeParen]] =
        forms x ++ ([.atom [closeParen]] ++ []) by simp [spaced]]
      refine Decides.congr ?_ List.forall_mem_singleton.symm
      refine (hx.decides closeParen rest (.inr rfl)).followed ?_
      exact consumes_listEnd.bind (.pure [value x])
    | cons second items =>
      have hstarts : Starts (spaced ((second :: items).map forms) ++ [.atom [closeParen]]) := by
        obtain ⟨first, tail, hjoined, hfirst⟩ := spaced_starts (blocks_start hmore) (by simp)
        exact ⟨first, _, by rw [joined_append, hjoined]; rfl, hfirst⟩
      have hloop := ih hmore (by simp) (show (second :: items).length ≤
        (second :: items).length + fuel by omega)
      refine Decides.congr ?_ List.forall_mem_cons.symm
      rw [List.map_cons, spaced, List.map_cons,
        List.intercalate_cons_cons, List.append_assoc, List.append_assoc]
      refine (hx.decides SP _ (.inl rfl)).bind ?_
      refine (consumes_listGoesOn hstarts).followed ?_
      exact hloop.map _

theorem decides_list : Decides options (readList wire options item) (listForms (items.map forms))
      (∀ x ∈ items, ok x) (some (items.map value)) rest := by
  by_cases hne : items = []
  · subst hne
    refine Decides.congr ?_ (iff_of_true trivial (List.forall_mem_nil _))
    show Decides options _ ([.atom [openParen]] ++ ([.atom [closeParen]] ++ [])) True (some []) rest
    exact consumes_special.followed (consumes_special.followed (Consumes.pure _).decides)
  obtain ⟨first, tail, hjoined, -, hfirst⟩ := spaced_starts (blocks_start h) (by simpa using hne)
  have hopen : Consumes options (attempt (·.acceptByte options closeParen) :
      Parser Decoder ε Bool) [] false
      (joined (spaced (items.map forms) ++ [.atom [closeParen]]) ++ rest) := by
    rw [joined_append, hjoined]
    exact consumes_noSpecial hfirst
  have hfuel : ∀ dec count, Facing options dec count
      (joined (spaced (items.map forms) ++ [.atom [closeParen]]) ++
        rest) → items.length ≤ dec.rest.length + 1 := by
    intro dec count hready
    have hlength := length_le_spaced (blocks_start h)
    rw [List.length_map] at hlength
    rw [hready.rest_eq, joined_append, List.length_append, List.length_append]
    omega
  have hitems : Decides options (fun dec =>
      Parser.separated item (moreItems wire options)
        (fun dec => (.error (wire dec.err), dec)) (dec.rest.length + 1) dec)
      (spaced (items.map forms) ++ [.atom [closeParen]])
      (∀ x ∈ items, ok x) (items.map value) rest :=
    ⟨fun hok dec count hready =>
      (decides_items h hne (hfuel dec _ hready)).consumes hok dec count hready,
    fun hnot dec count hready =>
      (decides_items h hne (hfuel dec _ hready.toFacing)).refuses hnot dec count hready⟩
  exact .after consumes_special (hopen.lookahead (hitems.map some))

theorem decides_expectedList : Decides options (readExpectedList wire options item)
      (listForms (items.map forms)) (∀ x ∈ items, ok x) (items.map value)
      rest := by
  rw [readExpectedList, ← List.append_nil (listForms _)]
  exact (decides_list h).followed (.pure (items.map value))

end

theorem consumes_expectedList (h : ∀ x ∈ items, Element options item (forms x) (value x)) :
    Consumes options (readExpectedList wire options item)
      (listForms (items.map forms)) (items.map value) rest :=
  (decides_expectedList fun x hx => (h x hx).block).consumes fun _ _ => trivial

end Lists

end GoImap.Wire
