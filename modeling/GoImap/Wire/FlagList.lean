import GoImap.Fetch.Methods

/-!
# Lists of flags on the wire

The writer of a flag and the reader of a list of flags agree on all flags but
one: a single backslash is written, and is no flag for the reader.
-/

namespace GoImap.Wire

open Parsing Server Internal Utf8

section Model

variable [LowerCase] {ε : Type} (wire : Option DecoderError → ε) (options : Options)

def expectListedFlag : Parser Decoder ε Flag := do
  let _ ← attempt (·.sp options)
  demand wire (expectFlag options · true)

def expectFlagList : Parser Decoder ε (List Flag) :=
  readExpectedList wire options (expectListedFlag wire options)

def spelledFlag (flag : Flag) : Flag :=
  if flag = flagWildcard then flag else canonicalFlag flag

end Model

/-! ## One flag -/

variable {ε : Type} {wire : Option DecoderError → ε} {options : Options}
  {flag : Flag} {byte : UInt8} {rest : Bytes}

theorem isFlag_of_isValidFlag (h : isValidFlag flag = true)
    (hne : flag ≠ [backslash]) : IsFlag flag := by
  cases flag with
  | nil => simp [isValidFlag] at h
  | cons first tail =>
    obtain ⟨rfl | hfirst, htail⟩ := (isValidFlag_cons first tail).mp h
    · exact ⟨tail, isAtom_iff.mpr ⟨by simpa using hne, htail⟩, .inr rfl⟩
    · exact ⟨_, isAtom_iff.mpr ⟨by simp, by simpa using ⟨hfirst, htail⟩⟩, .inl rfl⟩

theorem flag_head (h : flag = flagWildcard ∨ isValidFlag flag = true) :
    ∃ first tail, flag = first :: tail ∧ (first = backslash ∨ isAtomChar first = true) := by
  rcases h with rfl | h
  · exact ⟨backslash, _, rfl, .inl rfl⟩
  · cases flag with
    | nil => simp [isValidFlag] at h
    | cons first tail =>
      exact ⟨first, tail, rfl, ((isValidFlag_cons first tail).mp h).1⟩

section Reader

variable [LowerCase]

theorem demand_expectFlag :
    demand wire (expectFlag options · true) = (do
      if ← attempt (·.acceptByte options backslash) then
        if ← attempt (·.acceptByte options star) then pure flagWildcard
        else demand wire (expectFlagName options · true true)
      else demand wire (expectFlagName options · true false)) := by
  funext dec
  simp only [demand, expectFlag, bind, attempt]
  rcases dec.acceptByte options backslash with ⟨_ | _, next⟩
  · rfl
  · simp only [↓reduceIte]
    rcases next.acceptByte options star with ⟨_ | _, last⟩ <;> rfl

theorem consumes_listedFlag (hvalid : flag = flagWildcard ∨ isValidFlag flag = true)
    (hne : flag ≠ [backslash]) (hstop : nameChar true byte = false) :
    Consumes options (demand wire (expectFlag options · true)) [.atom flag]
      (spelledFlag flag) (byte :: rest) := by
  by_cases hwildcard : flag = flagWildcard
  · rw [hwildcard, spelledFlag, if_pos rfl, demand_expectFlag]
    show Consumes options _ ([.atom [backslash]] ++ ([.atom [star]] ++ []))
      flagWildcard (byte :: rest)
    exact Consumes.bind consumes_special (Consumes.bind consumes_special (.pure flagWildcard))
  · rw [spelledFlag, if_neg hwildcard]
    have hflag := isFlag_of_isValidFlag (hvalid.resolve_left hwildcard) hne
    exact consumes_of_advance fun dec count h => demand_returns
      (expectFlag_advance hflag hstop h.roomFor h.rest_eq)

theorem refuses_backslash (hstar : byte ≠ star) (hstop : nameChar true byte = false) :
    Refuses options (demand wire (expectFlag options · true))
      [.atom [backslash]] (byte :: rest) := by
  have hname : Refuses options
      (demand wire (expectFlagName options · true true)) [] (byte :: rest) := by
    intro dec count h
    refine demand_fails ?_
    rw [expectFlagName, ← nameChar, Decoder.func_miss hstop h.room h.rest_eq]
  rw [demand_expectFlag]
  show Refuses options _ ([.atom [backslash]] ++ ([] ++ [])) (byte :: rest)
  refine Refuses.bind consumes_special ?_
  exact Refuses.bind (consumes_noSpecial hstar) hname

theorem block_listedFlag (hvalid : flag = flagWildcard ∨ isValidFlag flag = true) :
    Block options (expectListedFlag wire options) [.atom flag]
      (flag ≠ [backslash]) (spelledFlag flag) := by
  obtain ⟨first, tail, hflag, hfirst⟩ := flag_head hvalid
  have hplain : isLineChar first = true ∧ first ≠ closeParen ∧ first ≠ SP ∧
      first ≠ openParen := by
    have hbad : ∀ byte ∈ [CR, LF, closeParen, SP, openParen],
        ¬(byte = backslash ∨ isAtomChar byte = true) := by decide +kernel
    grind [isLineChar]
  refine ⟨⟨first, tail, by simp [hflag], hplain.1, hplain.2.1⟩, fun byte rest hbyte => ?_⟩
  have hstop : nameChar true byte = false := by
    rcases hbyte with rfl | rfl <;> decide
  have hnone : Consumes options (attempt (·.sp options) : Parser Decoder ε Bool)
      [] false (StringForm.joined [.atom flag] ++ byte :: rest) := by
    rw [hflag]
    exact consumes_noSP hplain.2.2.1 hplain.2.2.2
  refine hnone.lookahead ⟨fun hne => consumes_listedFlag hvalid hne hstop, fun heq => ?_⟩
  rw [not_not.mp heq]
  exact refuses_backslash (by rcases hbyte with rfl | rfl <;> decide) hstop

/--
What is written for a list of flags, if the encoder reports no error, is read
back exactly if none of them is a single backslash: the same flags in the same
order, those of the standards in their usual spelling.
-/
theorem flagList_survives_iff (settings : EncoderOptions) (flags : List Flag)
    (hwritten : (newEncoder.run settings (flagList flags)).1.err = none)
    (dec : Decoder) (count : Nat)
    (hready : Ready options dec
      ((newEncoder.run settings (flagList flags)).1.written.length + count)
      ((newEncoder.run settings (flagList flags)).1.written ++ rest)) :
    (∃ next, (expectFlagList wire options).Returns dec (flags.map spelledFlag)
        next ∧ Ready options next count rest) ↔ [backslash] ∉ flags := by
  have hsends := Encoder.sends_of_run []
    ((forall_mem_flagList (fun _ => rfl) flags).mpr fun _ _ => rfl)
    (Encoder.run_deferring _
      ((forall_mem_flagList (fun _ => rfl) flags).mpr fun _ _ => rfl)) hwritten
  have hvalid := (forall_mem_flagList (Op.sends_text settings) flags).mp hsends
  have hforms : (flagList flags).map (Op.form settings) = listForms (flags.map ([.atom ·])) := by
    simp [flagList, map_listOps, Op.form, Function.comp_def]
  have hcounted : StringForm.counted (listForms (flags.map ([.atom ·]))) =
      (StringForm.joined (listForms (flags.map ([.atom ·])))).length := by
    rw [← hforms]
    exact StringForm.counted_of_no_payload (List.forall_mem_map.mpr
      ((forall_mem_flagList (fun _ => rfl) flags).mpr fun _ _ => rfl))
  have hdecides := @decides_expectedList ε _ wire options
    (expectListedFlag wire options) rest _ flags ([.atom ·]) (· ≠ [backslash])
    spelledFlag fun flag hflag => block_listedFlag (hvalid flag hflag)
  rw [show newEncoder = ⟨[], none, false⟩ from rfl,
    Encoder.run_sends [] hsends, hforms, List.nil_append, ← hcounted] at hready
  constructor
  · rintro ⟨next, hreturns, -⟩ hmem
    obtain ⟨err, last, hfails⟩ := hdecides.refuses (fun hall => hall _ hmem rfl) dec count hready
    rw [Parser.Returns, expectFlagList, hfails] at hreturns
    cases hreturns
  · intro hnone
    exact (hdecides.consumes fun flag hflag heq => hnone (heq ▸ hflag)).ready count hready

end Reader

theorem flagList_survives_seen : ∃ next, (@expectFlagList unicode _ id plainServer).Returns
        (newDecoder (ascii "(\\seen $x)")) [ascii "\\Seen", ascii "$x"] next ∧
      Ready plainServer next 0 [] := by
  have hspelled : [ascii "\\seen", ascii "$x"].map (@spelledFlag unicode) =
      [ascii "\\Seen", ascii "$x"] := by decide +kernel
  rw [← hspelled]
  exact (@flagList_survives_iff _ id plainServer [] unicode
    (encoderOptions false) [ascii "\\seen", ascii "$x"] rfl
    (newDecoder (ascii "(\\seen $x)")) 0
    ⟨⟨⟨rfl, rfl, fun h => absurd h (by decide)⟩, rfl⟩, rfl⟩).mpr (by decide)

/-- A backslash alone is written without an error and not read. -/
theorem backslash_refused : newEncoder.run (encoderOptions false) (flagList [[backslash]]) =
        (⟨ascii "(\\)", none, false⟩, .done) ∧
      (@expectFlagList unicode _ id plainServer (newDecoder (ascii "(\\)"))).1 =
          .error (some (.expect "expected flag")) :=
  ⟨rfl, by decide +kernel⟩

end GoImap.Wire
