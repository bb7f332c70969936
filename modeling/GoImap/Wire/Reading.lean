import GoImap.Wire.Decoder

/-!
# What a method reads

All methods but those on literals only read text: they move octets from the
stream to the log, and leave the state of literals alone.  `Reads` says so
once, with the bookkeeping that goes along, and composes.
-/

namespace GoImap.Wire

def textEvents (bytes : Bytes) : List Event := bytes.map (Event.octet · .text)

/-- From `dec` to `next` the bytes were read as text. -/
structure Reads (options : Options) (dec : Decoder) (bytes : Bytes) (next : Decoder) : Prop where
  rest_eq : dec.rest = bytes ++ next.rest
  log_eq : next.log = dec.log ++ textEvents bytes
  literal_eq : next.literal = dec.literal
  pending_eq : next.pendingLiteral = dec.pendingLiteral
  discarding_eq : next.discarding = dec.discarding
  desynced_eq : next.desynced = dec.desynced
  err_first : dec.err.isSome → next.err = dec.err
  starved_of : dec.starved = true → next.starved = true
  starved_rest : next.starved = true → dec.starved = true ∨ next.rest = []
  crlf_eq : next.crlf = true → bytes = [] ∧ dec.crlf = true
  count_eq : next.readBytes = dec.readBytes + bytes.length
  within : bytes ≠ [] → 0 < options.maxSize → next.readBytes ≤ options.maxSize + 3
  blocked : dec.literal.isSome → bytes = []
  kept : dec.literal.isSome → dec.crlf = true → next.err.isSome ∨ next.crlf = true
  stopped : dec.err.isSome → dec.discarding = false → bytes = [] ∧ next.crlf = dec.crlf

namespace Reads

variable {options : Options} {dec middle next : Decoder} {first second : Bytes}

theorem refl (dec : Decoder) : Reads options dec [] dec where
  rest_eq := rfl
  log_eq := by simp [textEvents]
  literal_eq := rfl
  pending_eq := rfl
  discarding_eq := rfl
  desynced_eq := rfl
  err_first := fun _ => rfl
  starved_of := id
  starved_rest := .inl
  crlf_eq := fun h => ⟨rfl, h⟩
  count_eq := by simp
  within := fun h => absurd rfl h
  blocked := fun _ => rfl
  kept := fun _ => .inr
  stopped := fun _ _ => ⟨rfl, rfl⟩

theorem trans (h : Reads options dec first middle) (h' : Reads options middle second next) :
    Reads options dec (first ++ second) next where
  rest_eq := by rw [h.rest_eq, h'.rest_eq, List.append_assoc]
  log_eq := by rw [h'.log_eq, h.log_eq]; simp [textEvents]
  literal_eq := h'.literal_eq.trans h.literal_eq
  pending_eq := h'.pending_eq.trans h.pending_eq
  discarding_eq := h'.discarding_eq.trans h.discarding_eq
  desynced_eq := h'.desynced_eq.trans h.desynced_eq
  err_first := by
    intro herr
    have hmiddle := h.err_first herr
    rw [h'.err_first (by rw [hmiddle]; exact herr), hmiddle]
  starved_of := fun hstarved => h'.starved_of (h.starved_of hstarved)
  starved_rest := by
    intro hstarved
    rcases h'.starved_rest hstarved with hmiddle | hnext
    · rcases h.starved_rest hmiddle with hdec | hempty
      · exact .inl hdec
      · have hrest := h'.rest_eq
        rw [hempty, eq_comm, List.append_eq_nil_iff] at hrest
        exact .inr hrest.2
    · exact .inr hnext
  crlf_eq := by
    intro hcrlf
    obtain ⟨hsecond, hmiddle⟩ := h'.crlf_eq hcrlf
    obtain ⟨hfirst, hdec⟩ := h.crlf_eq hmiddle
    simp [hfirst, hsecond, hdec]
  count_eq := by
    rw [h'.count_eq, h.count_eq, List.length_append]
    omega
  within := by
    intro hsome hlimit
    by_cases hsecond : second = []
    · subst hsecond
      rw [List.append_nil] at hsome
      have hcount := h'.count_eq
      have hmiddle := h.within hsome hlimit
      simp only [List.length_nil] at hcount
      omega
    · exact h'.within hsecond hlimit
  blocked := by
    intro hliteral
    rw [h.blocked hliteral, h'.blocked (by rw [h.literal_eq]; exact hliteral)]
    rfl
  kept := by
    intro hliteral hcrlf
    rcases h.kept hliteral hcrlf with herr | hmiddle
    · rw [h'.err_first herr]
      exact .inl herr
    · exact h'.kept (by rw [h.literal_eq]; exact hliteral) hmiddle
  stopped := by
    intro herr hdiscarding
    obtain ⟨hfirst, hcrlf⟩ := h.stopped herr hdiscarding
    have hmiddle := h.err_first herr
    obtain ⟨hsecond, hcrlf'⟩ := h'.stopped (by rw [hmiddle]; exact herr)
      (by rw [h.discarding_eq]; exact hdiscarding)
    simp [hfirst, hsecond, hcrlf', hcrlf]

theorem count_le (hlimit : 0 < options.maxSize) (h : Reads options dec first next)
    (hle : dec.readBytes ≤ options.maxSize + 3) :
    next.readBytes ≤ options.maxSize + 3 := by
  by_cases hsome : first = []
  · have hcount := h.count_eq
    rw [hsome] at hcount
    simp only [List.length_nil] at hcount
    omega
  · exact h.within hsome hlimit

theorem starved_rest_of (h : Reads options dec first next)
    (hrest : dec.starved = true → dec.rest = [])
    (hstarved : next.starved = true) : next.rest = [] := by
  rcases h.starved_rest hstarved with hbefore | hempty
  · have hsplit := h.rest_eq
    rw [hrest hbefore, eq_comm, List.append_eq_nil_iff] at hsplit
    exact hsplit.2
  · exact hempty

end Reads

namespace Decoder

variable {options : Options} {dec next : Decoder}

theorem returnErr_eq (dec : Decoder) (err : DecoderError) :
    dec.returnErr err = { dec with err := some (dec.err.getD err) } := by
  unfold returnErr
  cases dec
  split <;> simp_all

theorem returnErr_desynced (dec : Decoder) (err : DecoderError) :
    { dec with desynced := true }.returnErr err = { dec.returnErr err with desynced := true } := by
  rw [returnErr_eq, returnErr_eq]

theorem returnErr_reads (dec : Decoder) (err : DecoderError) :
    Reads options dec [] (dec.returnErr err) := by
  rw [returnErr_eq]
  exact { Reads.refl dec with
      err_first := by
        intro hsome
        obtain ⟨first, hfirst⟩ := Option.isSome_iff_exists.mp hsome
        simp [hfirst]
      kept := fun _ _ => .inl rfl }

/-- The decoder may read: no error stops it, and no literal is open. -/
structure Ready (dec : Decoder) : Prop where
  running : dec.err = none ∨ dec.discarding = true
  closed : dec.literal = none

theorem not_stopped (h : dec.err = none ∨ dec.discarding = true)
    (herr : dec.err.isSome) : dec.discarding ≠ false := by
  rcases h with hrunning | hrunning
  · simp [hrunning] at herr
  · simp [hrunning]

theorem clear_reads (h : dec.Ready) : Reads options dec [] { dec with crlf := false } :=
  { Reads.refl dec with
    crlf_eq := fun h => by cases h
    kept := fun hopen => by simp [h.closed] at hopen
    stopped := fun herr hdiscarding =>
      absurd hdiscarding (not_stopped h.running herr) }

theorem literalOpen_reads (hrunning : dec.err = none ∨ dec.discarding = true) :
    Reads options dec [] ({ dec with crlf := false }.returnErr .literalOpen) := by
  rw [returnErr_eq]
  exact { Reads.refl dec with
      err_first := by
        intro hsome
        obtain ⟨first, hfirst⟩ := Option.isSome_iff_exists.mp hsome
        simp [hfirst]
      crlf_eq := fun h => by cases h
      kept := fun _ _ => .inl rfl
      stopped := fun herr hdiscarding =>
        absurd hdiscarding (not_stopped hrunning herr) }

theorem starve_reads (h : dec.rest = []) : Reads options dec [] dec.starve := by
  have hreads := @returnErr_reads options dec .unexpectedEOF
  unfold starve
  exact { hreads with
      starved_of := fun _ => rfl
      starved_rest := fun _ => by
        rw [returnErr_eq]
        exact .inr h }

structure JustRead (options : Options) (dec : Decoder) : Prop extends dec.Ready where
  cleared : dec.crlf = false
  count_le : 0 < options.maxSize → dec.readBytes ≤ options.maxSize + 1

theorem running_of_not_stopped (h : ¬(dec.err.isSome ∧ dec.discarding = false)) :
    dec.err = none ∨ dec.discarding = true := by
  cases herr : dec.err with
  | none => exact .inl rfl
  | some err => simpa [herr] using h

theorem readByte_none (h : dec.readByte options = (none, next)) : Reads options dec [] next := by
  unfold readByte fetchByte at h
  split_ifs at h with hstopped hlimit hopen
  · cases h
    exact .refl dec
  · cases h
    exact returnErr_reads dec _
  · cases h
    exact literalOpen_reads (running_of_not_stopped hstopped)
  · have hclosed : dec.literal = none := by simpa using hopen
    have hclear : Reads options dec [] { dec with crlf := false } :=
      clear_reads ⟨running_of_not_stopped hstopped, hclosed⟩
    split at h
    · next hrest =>
        cases h
        exact hclear.trans (starve_reads hrest)
    · cases h

theorem readByte_some {byte : UInt8} (h : dec.readByte options = (some byte, next)) :
    dec.Ready ∧ Reads options dec [byte] next ∧ next.JustRead options ∧
      next.mustUnreadByte byte = { dec with crlf := false } := by
  unfold readByte fetchByte at h
  split_ifs at h with hstopped hlimit hliteral
  · cases h
  · cases h
  · cases h
  · have hrunning := running_of_not_stopped hstopped
    have hclosed : dec.literal = none := by simpa using hliteral
    cases hrest : dec.rest with
    | nil => simp [hrest] at h
    | cons head rest =>
      simp only [hrest, Prod.mk.injEq, Option.some.injEq] at h
      obtain ⟨rfl, rfl⟩ := h
      have hcount : 0 < options.maxSize → dec.readBytes + 1 ≤ options.maxSize + 1 := by
        omega
      refine ⟨⟨hrunning, hclosed⟩, ?_, ⟨⟨hrunning, hclosed⟩, rfl, hcount⟩, ?_⟩
      · exact { (Reads.refl dec : Reads options dec [] dec) with
            rest_eq := hrest
            log_eq := rfl
            starved_rest := .inl
            crlf_eq := fun h => by cases h
            count_eq := rfl
            within := by
              simp only
              omega
            blocked := fun hsome => by simp [hclosed] at hsome
            kept := fun hsome => by simp [hclosed] at hsome
            stopped := fun herr hdiscarding =>
              absurd ⟨herr, hdiscarding⟩ hstopped }
      · simp [mustUnreadByte]

theorem acceptByte_reads (dec : Decoder) (want : UInt8) :
    Reads options dec (if (dec.acceptByte options want).1 then [want] else [])
      (dec.acceptByte options want).2 := by
  unfold acceptByte
  cases hread : dec.readByte options with
  | mk result next =>
    cases result with
    | none => exact readByte_none hread
    | some got =>
      obtain ⟨hready, hreads, -, hunread⟩ := readByte_some hread
      by_cases hsame : got = want
      · subst hsame
        simpa using hreads
      · simp only [hsame, if_false, Bool.false_eq_true, hunread]
        exact clear_reads hready

theorem peekByte_reads (dec : Decoder) : Reads options dec [] (dec.peekByte options).2 := by
  unfold peekByte
  cases hread : dec.readByte options with
  | mk result next =>
    cases result with
    | none => exact readByte_none hread
    | some got =>
      obtain ⟨hready, -, -, hunread⟩ := readByte_some hread
      simp only [hunread]
      exact clear_reads hready

theorem nextByteIs_reads (dec : Decoder) (want : UInt8) :
    Reads options dec [] (dec.nextByteIs options want).2 := by
  unfold nextByteIs acceptByte
  cases hread : dec.readByte options with
  | mk result next =>
    cases result with
    | none => exact readByte_none hread
    | some got =>
      obtain ⟨hready, -, -, hunread⟩ := readByte_some hread
      by_cases hsame : got = want
      · subst hsame
        simp only [if_true, hunread]
        exact clear_reads hready
      · simp only [hsame, if_false, hunread]
        exact clear_reads hready

theorem sp_snd (dec : Decoder) : (dec.sp options).2 =
      ((dec.acceptByte options SP).2.peekByte options).2 := by
  unfold sp
  cases hspace : dec.acceptByte options SP with
  | mk found next =>
    cases hnext : next.peekByte options with
    | mk result last => cases found <;> cases result <;> simp [hnext]

theorem sp_reads (dec : Decoder) :
    ∃ bytes, Reads options dec bytes (dec.sp options).2 ∧ LF ∉ bytes := by
  rw [sp_snd]
  refine ⟨_, (acceptByte_reads dec SP).trans (peekByte_reads _), ?_⟩
  split_ifs <;> decide

/-! ## Loops -/

theorem readLoop_reads (valid : UInt8 → Bool) (fuel : Nat) (dec : Decoder) (read : Bytes) :
    ∃ bytes, Reads options dec bytes (readLoop options valid fuel dec read).2 ∧
      (∀ byte ∈ bytes, valid byte = true) ∧
      ∀ result, (readLoop options valid fuel dec read).1 = some result →
        result = read ++ bytes := by
  induction fuel generalizing dec read with
  | zero => exact ⟨[], .refl dec, by simp, by simp [readLoop]⟩
  | succ fuel ih =>
    rw [readLoop]
    cases hread : dec.readByte options with
    | mk result next =>
      cases result with
      | none => exact ⟨[], readByte_none hread, by simp, by simp⟩
      | some byte =>
        obtain ⟨hready, hreads, -, hunread⟩ := readByte_some hread
        simp only
        split_ifs with hvalid
        · obtain ⟨bytes, hrest, hall, hresult⟩ := ih next (read ++ [byte])
          refine ⟨_, hreads.trans hrest, ?_, ?_⟩
          · exact List.forall_mem_cons.mpr ⟨hvalid, hall⟩
          · intro result hsome
            simpa using hresult result hsome
        · rw [hunread]
          exact ⟨[], clear_reads hready, by simp, by simp⟩

theorem func_snd (dec : Decoder) (valid : UInt8 → Bool) :
    (dec.func options valid).2 = (dec.readWhile options valid).2 := by
  unfold func
  cases hread : dec.readWhile options valid with
  | mk result next =>
    cases result with
    | none => rfl
    | some bytes => cases bytes <;> rfl

theorem func_reads (dec : Decoder) (valid : UInt8 → Bool) :
    ∃ bytes, Reads options dec bytes (dec.func options valid).2 ∧
      (∀ byte ∈ bytes, valid byte = true) ∧
      ∀ result, (dec.func options valid).1 = some result → result = bytes ∧ result ≠ [] := by
  rw [func_snd]
  obtain ⟨bytes, hreads, hall, hresult⟩ :=
    @readLoop_reads options valid (dec.rest.length + 1) dec []
  refine ⟨bytes, hreads, hall, ?_⟩
  unfold func
  cases hread : dec.readWhile options valid with
  | mk result next =>
    rw [readWhile] at hread
    rw [hread] at hresult
    cases result with
    | none => simp
    | some read =>
      cases read with
      | nil => simp
      | cons byte rest =>
        rintro result ⟨⟩
        exact ⟨hresult _ rfl, by simp⟩

theorem quotedLoop_reads (fuel : Nat) (dec : Decoder) (read : Bytes) (hdec : dec.JustRead options) :
    ∃ bytes, Reads options dec bytes (quotedLoop options fuel dec read).2 ∧
      ((quotedLoop options fuel dec read).1.isSome →
        (quotedLoop options fuel dec read).2.JustRead options) := by
  induction fuel generalizing dec read with
  | zero => exact ⟨[], .refl dec, fun _ => hdec⟩
  | succ fuel ih =>
    rw [quotedLoop]
    cases hread : dec.readByte options with
    | mk result next =>
      cases result with
      | none => exact ⟨[], readByte_none hread, by simp⟩
      | some byte =>
        obtain ⟨-, hreads, hnext, -⟩ := readByte_some hread
        simp only
        split_ifs
        · exact ⟨_, hreads, fun _ => hnext⟩
        · cases hescape : next.readByte options with
          | mk result last =>
            cases result with
            | none =>
              exact ⟨_, hreads.trans (readByte_none hescape), by simp⟩
            | some escaped =>
              obtain ⟨-, hreads', hlast, -⟩ := readByte_some hescape
              obtain ⟨bytes, hrest, hend⟩ := ih last (read ++ [escaped]) hlast
              exact ⟨_, (hreads.trans hreads').trans hrest, hend⟩
        · obtain ⟨bytes, hrest, hend⟩ := ih next (read ++ [byte]) hnext
          exact ⟨_, hreads.trans hrest, hend⟩

theorem dropStrayQuote_reads (hready : dec.Ready) (hcrlf : dec.crlf = false)
    (hcount : 0 < options.maxSize → dec.readBytes ≤ options.maxSize + 2) :
    ∃ bytes, Reads options dec bytes dec.dropStrayQuote ∧
      dec.dropStrayQuote.Ready ∧ dec.dropStrayQuote.crlf = false ∧
      dec.dropStrayQuote.readBytes ≤ dec.readBytes + 1 := by
  unfold dropStrayQuote
  cases hrest : dec.rest with
  | nil =>
    simp only
    exact ⟨[], .refl dec, hready, hcrlf, by omega⟩
  | cons byte rest =>
    simp only
    split_ifs with hquote
    · refine ⟨[byte], ?_, ⟨hready.running, hready.closed⟩, hcrlf, Int.le_refl _⟩
      exact { (Reads.refl dec : Reads options dec [] dec) with
          rest_eq := hrest
          log_eq := rfl
          starved_rest := .inl
          crlf_eq := fun h => by simp [hcrlf] at h
          count_eq := rfl
          within := by
            simp only
            omega
          blocked := fun h => by simp [hready.closed] at h
          stopped := fun herr hdiscarding =>
            absurd hdiscarding (not_stopped hready.running herr) }
    · exact ⟨[], .refl dec, hready, hcrlf, by omega⟩

theorem quoted_reads (dec : Decoder) (allowStrayQuotes : Bool) :
    ∃ bytes, Reads options dec bytes (dec.quoted options allowStrayQuotes).2 := by
  unfold quoted acceptByte
  cases hread : dec.readByte options with
  | mk result next =>
    cases result with
    | none => exact ⟨[], readByte_none hread⟩
    | some got =>
      obtain ⟨hready, hreads, hnext, hunread⟩ := readByte_some hread
      by_cases hquote : got = quote
      · simp only [hquote, if_true]
        obtain ⟨bytes, hloop, hend⟩ := quotedLoop_reads (next.rest.length + 1) next [] hnext
        cases hresult : quotedLoop options (next.rest.length + 1) next [] with
        | mk result last =>
          rw [hresult] at hloop hend
          cases result with
          | none => exact ⟨_, hreads.trans hloop⟩
          | some read =>
            simp only
            split_ifs
            · have hlast : last.JustRead options := hend rfl
              obtain ⟨first, hfirst, hready', hclear, hcount⟩ :=
                @dropStrayQuote_reads options last hlast.toReady hlast.cleared fun hsize => by
                    have := hlast.count_le hsize
                    omega
              obtain ⟨second, hsecond, -⟩ :=
                @dropStrayQuote_reads options last.dropStrayQuote hready' hclear fun hsize => by
                    have := hlast.count_le hsize
                    omega
              exact ⟨_, ((hreads.trans hloop).trans hfirst).trans hsecond⟩
            · exact ⟨_, hreads.trans hloop⟩
      · simp only [hquote, if_false, hunread]
        exact ⟨[], clear_reads hready⟩

/-! ## Line ends -/

def lineLeads : List Bytes := [[], [SP], [CR], [SP, CR]]

inductive LineEnd (options : Options) (dec : Decoder) : Bool × Decoder → Prop
  | missing {lead : Bytes} {next : Decoder} (hlead : lead ∈ lineLeads)
      (hreads : Reads options dec lead next) :
      LineEnd options dec (false, next)
  | found {lead : Bytes} {next : Decoder} (hlead : lead ∈ lineLeads)
      (hreads : Reads options dec (lead ++ [LF]) next) :
      LineEnd options dec (true, { next with crlf := true })

theorem acceptCRLF_lineEnd (dec : Decoder) : LineEnd options dec (dec.acceptCRLF options) := by
  have hspace := @acceptByte_reads options dec SP
  have hreturn := @acceptByte_reads options (dec.acceptByte options SP).2 CR
  have hline := @acceptByte_reads options ((dec.acceptByte options SP).2.acceptByte options CR).2 LF
  have hlead : (if (dec.acceptByte options SP).1 then [SP] else []) ++
      (if ((dec.acceptByte options SP).2.acceptByte options CR).1 then [CR]
        else []) ∈ lineLeads := by
    split_ifs <;> simp [lineLeads]
  unfold acceptCRLF
  simp only
  cases hend : ((dec.acceptByte options SP).2.acceptByte options CR).2.acceptByte options LF with
  | mk found next =>
    rw [hend] at hline
    have hall := (hspace.trans hreturn).trans hline
    cases found with
    | false => exact .missing hlead (by simpa using hall)
    | true => exact .found hlead (by simpa using hall)

/-! ## Announcements -/

def announced (digits : Bytes) (nonSync : Bool) : Bytes :=
  openBrace :: digits ++ (if nonSync then [plus] else []) ++ [closeBrace]

inductive LiteralStart (options : Options) (dec : Decoder) : Option LiteralReader × Decoder → Prop
  | failed {bytes : Bytes} {next : Decoder} (hline : LF ∉ bytes)
      (hreads : Reads options dec bytes next) :
      LiteralStart options dec (none, next)
  | hostile {bytes : Bytes} {next : Decoder} (hline : LF ∉ bytes)
      (hreads : Reads options dec bytes next) :
      LiteralStart options dec (none, { next with desynced := true })
  | opened {digits lead : Bytes} {nonSync : Bool} {next : Decoder}
      (hdigits : digits ≠ [] ∧ ∀ digit ∈ digits, isDigit digit = true)
      (hlead : lead ∈ lineLeads)
      (hreads : Reads options dec (announced digits nonSync ++ (lead ++ [LF])) next) :
      LiteralStart options dec ({ next with crlf := true }.openLiteral options
        (decimal digits) nonSync)

theorem LF_not_mem_lead {lead : Bytes} (h : lead ∈ lineLeads) : LF ∉ lead := by
  unfold lineLeads at h
  revert lead
  decide

theorem number64_reads (dec : Decoder) :
    ∃ digits, Reads options dec digits (dec.number64 options).2 ∧
      (∀ digit ∈ digits, isDigit digit = true) ∧
      ∀ size, (dec.number64 options).1 = some size → digits ≠ [] ∧ size = decimal digits := by
  obtain ⟨digits, hreads, hall, hresult⟩ := @func_reads options dec isDigit
  unfold number64 numberStr
  cases hread : dec.func options isDigit with
  | mk result next =>
    rw [hread] at hreads hresult
    refine ⟨digits, ?_, hall, ?_⟩
    · cases result <;> exact hreads
    · cases result with
      | none => simp
      | some read =>
        obtain ⟨rfl, hsome⟩ := hresult read rfl
        intro size hsize
        simp only [parseUint] at hsize
        split_ifs at hsize
        cases hsize
        exact ⟨hsome, rfl⟩

theorem LF_not_mem_digits {digits : Bytes}
    (h : ∀ digit ∈ digits, isDigit digit = true) : LF ∉ digits :=
  fun hmem => absurd (h LF hmem) (by decide)

theorem LF_not_mem_opening {digits : Bytes} (nonSync : Bool)
    (h : ∀ digit ∈ digits, isDigit digit = true) :
    LF ∉ openBrace :: digits ++ (if nonSync then [plus] else []) := by
  have hdigits := LF_not_mem_digits h
  cases nonSync <;> simpa [LF, openBrace, plus] using hdigits

theorem acceptSign_reads (dec : Decoder) : Reads options dec
      (if (if options.side = .server then dec.acceptByte options plus
        else (false, dec)).1 then [plus] else [])
      (if options.side = .server then dec.acceptByte options plus
        else (false, dec)).2 := by
  split_ifs with hserver hplus
  · simpa [hplus] using @acceptByte_reads options dec plus
  · simpa [hplus] using @acceptByte_reads options dec plus
  · simp at *
  · exact .refl dec

theorem closeLiteral_start {digits : Bytes} {nonSync : Bool} {afterSign : Decoder}
    (hdigits : digits ≠ [] ∧ ∀ digit ∈ digits, isDigit digit = true)
    (hreads : Reads options dec (openBrace :: digits ++ (if nonSync then [plus] else [])) afterSign)
    :
    LiteralStart options dec (match afterSign.acceptByte options closeBrace with
        | (false, dec) => (none, (dec.expect false "'\x7d'").2)
        | (true, dec) =>
          match dec.acceptCRLF options with
          | (false, dec) => (none, (dec.expect false "CRLF").2)
          | (true, dec) =>
            dec.openLiteral options (decimal digits) nonSync) := by
  have hline := LF_not_mem_opening nonSync hdigits.2
  have hclose := hreads.trans (acceptByte_reads afterSign closeBrace)
  cases hbrace : afterSign.acceptByte options closeBrace with
  | mk found afterBrace =>
    rw [hbrace] at hclose
    cases found with
    | false =>
      exact .failed (by simpa using hline) (hclose.trans (returnErr_reads _ _))
    | true =>
      have hlineEnd := @acceptCRLF_lineEnd options afterBrace
      simp only
      generalize afterBrace.acceptCRLF options = outcome at hlineEnd ⊢
      cases hlineEnd with
      | missing hlead hreadsLead =>
        refine .failed ?_ ((hclose.trans hreadsLead).trans (returnErr_reads _ _))
        simp only [List.append_nil, List.mem_append, not_or]
        exact ⟨⟨by simpa [and_assoc] using hline, by decide⟩, LF_not_mem_lead hlead⟩
      | found hlead hreadsLead =>
        exact .opened hdigits hlead (by simpa [announced] using hclose.trans hreadsLead)

theorem literalReader_start (dec : Decoder) :
    LiteralStart options dec (dec.literalReader options) := by
  have hbrace := @acceptByte_reads options dec openBrace
  unfold literalReader
  cases hopen : dec.acceptByte options openBrace with
  | mk found afterBrace =>
    rw [hopen] at hbrace
    cases found with
    | false => exact .failed (by simp) hbrace
    | true =>
      obtain ⟨digits, hnumber, hall, hsize⟩ := @number64_reads options afterBrace
      have hbraceNumber := hbrace.trans hnumber
      have hdigitsLine := LF_not_mem_digits hall
      simp only
      cases hread : afterBrace.number64 options with
      | mk result afterNumber =>
        rw [hread] at hbraceNumber hsize
        cases result with
        | none =>
          exact .failed (by simpa [LF, openBrace] using hdigitsLine)
            (hbraceNumber.trans (returnErr_reads _ _))
        | some size =>
          obtain ⟨hsome, rfl⟩ := hsize size rfl
          have hsign := hbraceNumber.trans (@acceptSign_reads options afterNumber)
          simp only
          generalize (if options.side = .server then
            afterNumber.acceptByte options plus
            else (false, afterNumber)) = sign at hsign ⊢
          obtain ⟨nonSync, afterSign⟩ := sign
          split_ifs with hhuge hsync
          · rw [returnErr_desynced]
            exact .hostile (by simpa using LF_not_mem_opening nonSync hall)
              (hsign.trans (returnErr_reads _ _))
          · exact .failed (by simpa using LF_not_mem_opening nonSync hall)
              (hsign.trans (returnErr_reads _ _))
          · exact closeLiteral_start ⟨hsome, hall⟩ (by simpa using hsign)

end Decoder

end GoImap.Wire
