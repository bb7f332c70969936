import GoImap.Wire.Reading
import Mathlib.Data.List.TakeWhile

/-!
# Skipping the rest of a line

`discardLine` reads on after an error.  Its reads can only fail at the end of
the stream or at the size limit, so what it takes is known exactly.
-/

namespace GoImap.Wire

def Options.allows (options : Options) (count : Int) : Prop :=
  options.maxSize = 0 ∨ count ≤ options.maxSize

theorem Options.allows_mono {options : Options} {count less : Int}
    (h : options.allows count) (hle : less ≤ count) :
    options.allows less :=
  h.imp id (Int.le_trans hle)

/-- The rest of the current line without its LF, if a line end follows the
first run of ordinary characters. -/
def restOfLine (rest : Bytes) : Option Bytes :=
  match rest.dropWhile isLineChar with
  | [] => none
  | byte :: after =>
    if byte = LF then some (rest.takeWhile isLineChar)
    else if after.head? = some LF then
      some (rest.takeWhile isLineChar ++ [CR])
    else none

def lineStretch (rest : Bytes) : Nat := (rest.takeWhile isLineChar).length +
    if (rest.dropWhile isLineChar).head? = some CR then 1 else 0

instance (options : Options) (count : Int) : Decidable (options.allows count) :=
  inferInstanceAs (Decidable (_ ∨ _))

namespace Decoder

variable {options : Options} {dec next : Decoder}

structure Skipping (dec : Decoder) : Prop where
  discarding : dec.discarding = true
  closed : dec.literal = none

theorem Skipping.of_reads {bytes : Bytes} (h : dec.Skipping)
    (hreads : Reads options dec bytes next) : next.Skipping where
  discarding := hreads.discarding_eq.trans h.discarding
  closed := hreads.literal_eq.trans h.closed

/-- The limit has been hit, and is recorded unless an error came before. -/
structure Cut (options : Options) (dec next : Decoder) : Prop where
  limited : ¬options.allows next.readBytes
  recorded : next.err = some (dec.err.getD .maxSizeExceeded)

theorem Cut.of_err_eq {start : Decoder} (h : Cut options dec next)
    (herr : dec.err = start.err) : Cut options start next where
  limited := h.limited
  recorded := herr ▸ h.recorded

theorem Cut.not_allows (h : Cut options dec next) (hreads : Reads options dec [] next) :
    ¬options.allows dec.readBytes := by
  have hcount : next.readBytes = dec.readBytes := by
    simpa using hreads.count_eq
  exact hcount ▸ h.limited

inductive ByteRead (options : Options) (dec : Decoder) : Option UInt8 × Decoder → Prop
  | starved {next : Decoder} (hrest : dec.rest = [])
      (hreads : Reads options dec [] next) (hstarved : next.starved = true) :
      ByteRead options dec (none, next)
  | cut {next : Decoder} (hreads : Reads options dec [] next)
      (hcut : Cut options dec next) : ByteRead options dec (none, next)
  | got {byte : UInt8} {next : Decoder} (hrest : dec.rest = byte :: next.rest)
      (hallowed : options.allows dec.readBytes)
      (hreads : Reads options dec [byte] next) (herr : next.err = dec.err)
      (hunread : next.mustUnreadByte byte = { dec with crlf := false }) :
      ByteRead options dec (some byte, next)

theorem not_allows_iff (count : Int) :
    ¬options.allows count ↔ 0 < options.maxSize ∧ count > options.maxSize := by
  unfold Options.allows
  omega

theorem readByte_outcome (h : dec.Skipping) : ByteRead options dec (dec.readByte options) := by
  cases hread : dec.readByte options with
  | mk result next =>
    cases result with
    | none =>
      have hreads := readByte_none hread
      rw [readByte, if_neg (by simp [h.discarding])] at hread
      split_ifs at hread with hlimit
      · cases hread
        rw [returnErr_eq] at hreads ⊢
        exact .cut hreads ⟨(not_allows_iff _).mpr hlimit, rfl⟩
      · rw [fetchByte, if_neg (by simp [h.closed])] at hread
        cases hrest : dec.rest with
        | nil =>
          simp only [hrest] at hread
          cases hread
          exact .starved hrest hreads rfl
        | cons byte rest => simp [hrest] at hread
    | some byte =>
      obtain ⟨-, hreads, -, hunread⟩ := readByte_some hread
      refine .got hreads.rest_eq ?_ hreads ?_ hunread
      · by_contra hlimit
        rw [not_allows_iff] at hlimit
        simp [readByte, h.discarding, hlimit] at hread
      · have herr := congrArg (fun dec : Decoder => dec.err) hunread
        exact herr

inductive ByteAccept (options : Options) (dec : Decoder) (want : UInt8) : Bool × Decoder → Prop
  | starved {next : Decoder} (hrest : dec.rest = [])
      (hreads : Reads options dec [] next) (hstarved : next.starved = true) :
      ByteAccept options dec want (false, next)
  | cut {next : Decoder} (hreads : Reads options dec [] next)
      (hcut : Cut options dec next) : ByteAccept options dec want (false, next)
  | other {byte : UInt8} {rest : Bytes} (hrest : dec.rest = byte :: rest)
      (hbyte : byte ≠ want) (hallowed : options.allows dec.readBytes) :
      ByteAccept options dec want (false, { dec with crlf := false })
  | taken {next : Decoder} (hrest : dec.rest = want :: next.rest)
      (hallowed : options.allows dec.readBytes)
      (hreads : Reads options dec [want] next) (herr : next.err = dec.err) :
      ByteAccept options dec want (true, next)

theorem acceptByte_outcome (h : dec.Skipping) (want : UInt8) :
    ByteAccept options dec want (dec.acceptByte options want) := by
  have hread := @readByte_outcome options dec h
  unfold acceptByte
  generalize dec.readByte options = outcome at hread ⊢
  cases hread with
  | starved hrest hreads hstarved => exact .starved hrest hreads hstarved
  | cut hreads hcut => exact .cut hreads hcut
  | got hrest hallowed hreads herr hunread =>
    simp only
    split_ifs with hsame
    · subst hsame
      exact .taken hrest hallowed hreads herr
    · rw [hunread]
      exact .other hrest hsame hallowed

inductive LoopRead (options : Options) (valid : UInt8 → Bool) (dec : Decoder)
    (read : Bytes) : Option Bytes × Decoder → Prop
  | starved {bytes : Bytes} {next : Decoder}
      (hreads : Reads options dec bytes next) (hstarved : next.starved = true)
      (hrest : next.rest = []) :
      LoopRead options valid dec read (none, next)
  | cut {bytes : Bytes} {next : Decoder} (hbytes : ∀ byte ∈ bytes, valid byte = true)
      (hreads : Reads options dec bytes next) (hcut : Cut options dec next) :
      LoopRead options valid dec read (none, next)
  | ended {next : Decoder} (hreads : Reads options dec (dec.rest.takeWhile valid) next)
      (hrest : next.rest = dec.rest.dropWhile valid) (hsome : next.rest ≠ [])
      (hallowed : options.allows next.readBytes) (herr : next.err = dec.err) :
      LoopRead options valid dec read (some (read ++ dec.rest.takeWhile valid), next)

theorem readLoop_outcome (valid : UInt8 → Bool) (fuel : Nat)
    (h : dec.Skipping) (hfuel : dec.rest.length < fuel) (read : Bytes) :
    LoopRead options valid dec read (readLoop options valid fuel dec read) := by
  induction fuel generalizing dec read with
  | zero => omega
  | succ fuel ih =>
    have hread := @readByte_outcome options dec h
    rw [readLoop]
    generalize dec.readByte options = outcome at hread ⊢
    cases hread with
    | starved hrest hreads hstarved =>
      refine .starved hreads hstarved ?_
      simpa [hrest, eq_comm] using hreads.rest_eq
    | cut hreads hcut => exact .cut (by simp) hreads hcut
    | @got byte next hrest hallowed hreads herr hunread =>
      simp only
      split_ifs with hvalid
      · have hloop := @ih next (h.of_reads hreads)
          (by simp only [hrest, List.length_cons] at hfuel; omega)
          (read ++ [byte])
        generalize readLoop options valid fuel next (read ++ [byte]) = outcome at hloop ⊢
        cases hloop with
        | starved hreads' hstarved hempty =>
          exact .starved (hreads.trans hreads') hstarved hempty
        | cut hbytes hreads' hcut =>
          refine .cut ?_ (hreads.trans hreads') (hcut.of_err_eq herr)
          exact List.forall_mem_cons.mpr ⟨hvalid, hbytes⟩
        | ended hreads' hrest' hsome hallowed' herr' =>
          have htake : dec.rest.takeWhile valid = [byte] ++ next.rest.takeWhile valid := by
            rw [hrest, List.takeWhile_cons_of_pos hvalid]
            rfl
          rw [List.append_assoc, ← htake]
          refine .ended (htake ▸ hreads.trans hreads') ?_ hsome hallowed' (herr'.trans herr)
          rw [hrest', hrest, List.dropWhile_cons_of_pos hvalid]
      · rw [hunread]
        have htake : dec.rest.takeWhile valid = [] := by
          rw [hrest, List.takeWhile_cons_of_neg hvalid]
        have hended := @LoopRead.ended options valid dec read { dec with crlf := false }
          (htake ▸ clear_reads ⟨.inr h.discarding, h.closed⟩)
          (by rw [hrest, List.dropWhile_cons_of_neg hvalid])
          (by rw [hrest]; simp) hallowed rfl
        simpa [htake] using hended

/-! ## Lines -/

theorem acceptByte_limited (h : dec.Skipping)
    (hlimit : ¬options.allows dec.readBytes) (want : UInt8) :
    dec.acceptByte options want = (false, dec.returnErr .maxSizeExceeded) := by
  rw [not_allows_iff] at hlimit
  simp [acceptByte, readByte, h.discarding, hlimit]

theorem acceptCRLF_limited (h : dec.Skipping) (hlimit : ¬options.allows dec.readBytes) :
    dec.acceptCRLF options = (false, dec.returnErr .maxSizeExceeded) := by
  have hnext : (dec.returnErr .maxSizeExceeded).Skipping :=
    h.of_reads (@returnErr_reads options dec .maxSizeExceeded)
  have hcount : (dec.returnErr .maxSizeExceeded).readBytes = dec.readBytes := by
    rw [returnErr_eq]
  have hagain := @acceptByte_limited options _ hnext (hcount ▸ hlimit)
  have hsame : (dec.returnErr .maxSizeExceeded).returnErr .maxSizeExceeded =
      dec.returnErr .maxSizeExceeded := by
    simp [returnErr_eq]
  unfold acceptCRLF
  simp [acceptByte_limited h hlimit, hagain, hsame]

theorem acceptCRLF_starved (hstarved : dec.starved = true) :
    (dec.acceptCRLF options).2.starved = true := by
  have hline := @acceptCRLF_lineEnd options dec
  generalize dec.acceptCRLF options = outcome at hline ⊢
  cases hline with
  | missing _ hreads | found _ hreads => exact hreads.starved_of hstarved

theorem acceptCRLF_empty (h : dec.rest = []) :
    ∃ bytes, Reads options dec bytes (dec.acceptCRLF options).2 := by
  have hline := @acceptCRLF_lineEnd options dec
  generalize dec.acceptCRLF options = outcome at hline ⊢
  cases hline with
  | missing _ hreads => exact ⟨_, hreads⟩
  | found _ hreads =>
    have hrest := hreads.rest_eq
    simp [h] at hrest

/-- Whether the text of a line ends in an announcement `discardLine` knows. -/
def marksDesynced (options : Options) (text : Bytes) : Bool :=
  options.side = .server ∧ endsWithNonSyncLiteral text

inductive LineSkip (options : Options) (dec : Decoder) : Bool → Decoder → Prop
  | starved {mark : Bool} {bytes : Bytes} {next : Decoder}
      (hreads : Reads options dec bytes next) (hstarved : next.starved = true) :
      LineSkip options dec mark next
  | cut {bytes : Bytes} {next : Decoder} (hline : LF ∉ bytes)
      (hreads : Reads options dec bytes next) (hcut : Cut options dec next)
      (hlimit : ¬options.allows (dec.readBytes + lineStretch dec.rest)) :
      LineSkip options dec (decide (options.allows
            (dec.readBytes + (dec.rest.takeWhile isLineChar).length)) &&
          marksDesynced options (dec.rest.takeWhile isLineChar)) next
  | broken {bytes : Bytes} {next : Decoder} (hline : LF ∉ bytes)
      (hreads : Reads options dec bytes next) (hsome : bytes ≠ [])
      (hrest : restOfLine dec.rest = none)
      (hallowed : options.allows (dec.readBytes + lineStretch dec.rest))
      (herr : next.err = dec.err) :
      LineSkip options dec (marksDesynced options (dec.rest.takeWhile isLineChar)) next
  | closed {line : Bytes} {next : Decoder} (hline : restOfLine dec.rest = some line)
      (hallowed : options.allows (dec.readBytes + lineStretch dec.rest))
      (hreads : Reads options dec (line ++ [LF]) next)
      (herr : next.err = dec.err) :
      LineSkip options dec (marksDesynced options (dec.rest.takeWhile isLineChar))
        { next with crlf := true }

theorem not_isLineChar {byte : UInt8} (h : isLineChar byte = false) : byte = CR ∨ byte = LF := by
  simpa [isLineChar, Classical.or_iff_not_imp_left] using h

theorem LF_not_mem_takeWhile (rest : Bytes) : LF ∉ rest.takeWhile isLineChar := by
  intro hmem
  exact absurd (List.mem_takeWhile_imp hmem) (by decide)

theorem restOfLine_eq {rest line : Bytes} (h : restOfLine rest = some line) :
    LF ∉ line ∧ line ++ [LF] <+: rest := by
  have hline := LF_not_mem_takeWhile rest
  have hsplit := List.takeWhile_append_dropWhile (p := isLineChar) (l := rest)
  unfold restOfLine at h
  cases hdrop : rest.dropWhile isLineChar with
  | nil => simp [hdrop] at h
  | cons byte after =>
    simp only [hdrop] at h
    rw [hdrop] at hsplit
    split_ifs at h with hLF hCR
    · cases h
      subst hLF
      exact ⟨hline, after, by simpa using hsplit⟩
    · cases h
      obtain ⟨tail, rfl⟩ := List.head?_eq_some_iff.mp hCR
      have hbyte : byte = CR := by
        have hhead := @List.head_dropWhile_not _ isLineChar rest (by rw [hdrop]; simp)
        exact (not_isLineChar (by simpa [hdrop] using hhead)).resolve_right hLF
      subst hbyte
      refine ⟨?_, tail, by simpa using hsplit⟩
      rw [List.mem_append, not_or]
      exact ⟨hline, by decide⟩

theorem length_restOfLine {rest line : Bytes}
    (h : restOfLine rest = some line) : line.length = lineStretch rest := by
  unfold restOfLine at h
  unfold lineStretch
  cases hdrop : rest.dropWhile isLineChar with
  | nil => simp [hdrop] at h
  | cons byte after =>
    simp only [hdrop] at h
    have hhead := @List.head_dropWhile_not _ isLineChar rest (by rw [hdrop]; simp)
    have hend := not_isLineChar (by simpa [hdrop] using hhead)
    split_ifs at h with hLF
    · cases h
      simp [hLF, LF, CR]
    · cases h
      simp [hend.resolve_right hLF]

theorem acceptByte_other {want byte : UInt8} {rest : Bytes} (h : dec.Skipping)
    (hallowed : options.allows dec.readBytes) (hrest : dec.rest = byte :: rest)
    (hbyte : byte ≠ want) :
    dec.acceptByte options want = (false, { dec with crlf := false }) := by
  have haccept := @acceptByte_outcome options dec h want
  generalize dec.acceptByte options want = outcome at haccept ⊢
  cases haccept with
  | starved hempty => simp [hempty] at hrest
  | cut hreads hcut => exact absurd hallowed (hcut.not_allows hreads)
  | other => rfl
  | taken hwant =>
    rw [hrest, List.cons.injEq] at hwant
    exact absurd hwant.1 hbyte

theorem acceptByte_same {want : UInt8} {rest : Bytes} (h : dec.Skipping)
    (hallowed : options.allows dec.readBytes) (hrest : dec.rest = want :: rest) :
    ∃ next, dec.acceptByte options want = (true, next) ∧ next.rest = rest ∧
      Reads options dec [want] next ∧ next.err = dec.err := by
  have haccept := @acceptByte_outcome options dec h want
  generalize dec.acceptByte options want = outcome at haccept ⊢
  cases haccept with
  | starved hempty => simp [hempty] at hrest
  | cut hreads hcut => exact absurd hallowed (hcut.not_allows hreads)
  | other hother hne =>
    rw [hrest, List.cons.injEq] at hother
    exact absurd hother.1.symm hne
  | @taken next hwant _ hreads herr =>
    rw [hrest, List.cons.injEq] at hwant
    exact ⟨next, rfl, hwant.2.symm, hreads, herr⟩

theorem acceptLF_skip {start : Decoder} (h : dec.Skipping)
    (hreads : Reads options start (start.rest.takeWhile isLineChar ++ [CR]) dec)
    (hrest : start.rest.dropWhile isLineChar = CR :: dec.rest)
    (hallowed : options.allows (start.readBytes + (start.rest.takeWhile isLineChar).length))
    (herr : dec.err = start.err) :
    LineSkip options start (marksDesynced options (start.rest.takeWhile isLineChar))
      (match dec.acceptByte options LF with
        | (false, dec) => (false, dec)
        | (true, dec) => (true, { dec with crlf := true })).2 := by
  have hline : LF ∉ start.rest.takeWhile isLineChar ++ [CR] := by
    rw [List.mem_append, not_or]
    exact ⟨LF_not_mem_takeWhile _, by decide⟩
  have hcount : dec.readBytes = start.readBytes + lineStretch start.rest := by
    rw [hreads.count_eq, lineStretch, hrest, List.length_append]
    rfl
  have haccept := @acceptByte_outcome options dec h LF
  generalize dec.acceptByte options LF = outcome at haccept ⊢
  cases haccept with
  | starved _ hreads' hstarved =>
    exact .starved (hreads.trans hreads') hstarved
  | cut hreads' hcut =>
    have hlimit := hcut.not_allows hreads'
    rw [hcount] at hlimit
    have hskip := LineSkip.cut (by simpa using hline) (hreads.trans hreads')
      (hcut.of_err_eq herr) hlimit
    simpa [hallowed] using hskip
  | other hother hne hallowed' =>
    rw [hcount] at hallowed'
    refine .broken (by simpa using hline)
      (hreads.trans (clear_reads ⟨.inr h.discarding, h.closed⟩)) (by simp) ?_
      hallowed' herr
    rw [restOfLine, hrest, hother]
    simpa [CR, LF] using hne
  | taken hnext hallowed' hreads' herr' =>
    rw [hcount] at hallowed'
    refine .closed ?_ hallowed' (hreads.trans hreads') (herr'.trans herr)
    rw [restOfLine, hrest, hnext]
    rfl

theorem acceptCRLF_skip {start : Decoder} (h : dec.Skipping)
    (hreads : Reads options start (start.rest.takeWhile isLineChar) dec)
    (hrest : dec.rest = start.rest.dropWhile isLineChar) (hsome : dec.rest ≠ [])
    (hallowed : options.allows dec.readBytes) (herr : dec.err = start.err) :
    LineSkip options start (marksDesynced options (start.rest.takeWhile isLineChar))
      (dec.acceptCRLF options).2 := by
  obtain ⟨byte, after, hbyte⟩ := List.exists_cons_of_ne_nil hsome
  have hend : byte = CR ∨ byte = LF := by
    apply not_isLineChar
    have hhead := @List.head_dropWhile_not _ isLineChar start.rest (by rw [← hrest]; exact hsome)
    simpa [← hrest, hbyte] using hhead
  have hclear : Reads options dec [] { dec with crlf := false } :=
    clear_reads ⟨.inr h.discarding, h.closed⟩
  have hskip : { dec with crlf := false }.Skipping := h.of_reads hclear
  have hspace := @acceptByte_other options dec SP byte after h hallowed hbyte
    (by rcases hend with rfl | rfl <;> decide)
  have htext := hreads.trans hclear
  rw [List.append_nil] at htext
  unfold acceptCRLF
  simp only [hspace]
  rcases hend with rfl | rfl
  · obtain ⟨middle, hreturn, hmiddle, hreads', herr'⟩ :=
      @acceptByte_same options _ CR after hskip hallowed hbyte
    simp only [hreturn]
    exact acceptLF_skip (hskip.of_reads hreads') (htext.trans hreads')
      (by rw [← hrest, hbyte, hmiddle]) (hreads.count_eq ▸ hallowed)
      (herr'.trans herr)
  · have hreturn := @acceptByte_other options { dec with crlf := false } CR LF
      after hskip hallowed hbyte (by decide)
    obtain ⟨last, hline, -, hreads', herr'⟩ :=
      @acceptByte_same options _ LF after hskip hallowed hbyte
    simp only [hreturn, hline]
    refine .closed ?_ ?_ (htext.trans hreads') (herr'.trans herr)
    · rw [restOfLine, ← hrest, hbyte]
      rfl
    · rw [hreads.count_eq] at hallowed
      rw [lineStretch, ← hrest, hbyte]
      simpa [LF, CR] using hallowed

theorem text_snd (dec : Decoder) : (dec.text options).2 = (dec.readWhile options isLineChar).2 :=
  func_snd dec isLineChar

theorem text_getD (dec : Decoder) : (dec.text options).1.getD [] =
      (dec.readWhile options isLineChar).1.getD [] := by
  unfold text func
  cases hread : dec.readWhile options isLineChar with
  | mk result next =>
    cases result with
    | none => rfl
    | some bytes => cases bytes <;> rfl

theorem acceptCRLF_cut {bytes : Bytes} {start : Decoder} (h : start.Skipping)
    (hbytes : ∀ byte ∈ bytes, isLineChar byte = true)
    (hreads : Reads options start bytes dec) (hcut : Cut options start dec) :
    LineSkip options start false (dec.acceptCRLF options).2 := by
  have hsame : dec.returnErr .maxSizeExceeded = dec := by
    simp [returnErr, hcut.recorded]
  have hlength : bytes.length ≤ (start.rest.takeWhile isLineChar).length := by
    rw [hreads.rest_eq, List.takeWhile_append_of_pos hbytes, List.length_append]
    omega
  have hcount := hreads.count_eq
  have htext : ¬options.allows (start.readBytes + (start.rest.takeWhile isLineChar).length) :=
    fun hallowed => hcut.limited (Options.allows_mono hallowed (by omega))
  have hlimit : ¬options.allows (start.readBytes + lineStretch start.rest) :=
    fun hallowed => htext (Options.allows_mono hallowed (by
      unfold lineStretch
      omega))
  rw [acceptCRLF_limited (h.of_reads hreads) hcut.limited, hsame]
  have hskip := LineSkip.cut (fun hmem => absurd (hbytes LF hmem) (by decide)) hreads hcut hlimit
  simpa [htext] using hskip

theorem discardText_skip (h : dec.Skipping) :
    ∃ mark next, LineSkip options dec mark next ∧ dec.discardText options =
        if mark then { next with desynced := true } else next := by
  have hloop := @readLoop_outcome options dec isLineChar (dec.rest.length + 1)
    h (Nat.lt_succ_self _) []
  have hfirst := @text_getD options dec
  have hsecond := @text_snd options dec
  unfold readWhile at hfirst hsecond
  generalize readLoop options isLineChar (dec.rest.length + 1) dec [] =
    outcome at hloop hfirst hsecond
  refine ⟨marksDesynced options ((dec.text options).1.getD []),
    ((dec.text options).2.acceptCRLF options).2, ?_, ?_⟩
  · rw [hfirst, hsecond]
    cases hloop with
    | starved hreads hstarved hempty =>
      obtain ⟨_, hend⟩ := acceptCRLF_empty hempty
      exact .starved (hreads.trans hend) (acceptCRLF_starved hstarved)
    | cut hbytes hreads hcut =>
      rw [show marksDesynced options ((none, _).1.getD []) = false by
        simp [marksDesynced, endsWithNonSyncLiteral]]
      exact acceptCRLF_cut h hbytes hreads hcut
    | ended hreads hrest hsome hallowed herr =>
      exact acceptCRLF_skip (h.of_reads hreads) hreads hrest hsome hallowed herr
  · simp [discardText, marksDesynced]

/-- Where `discardLine` starts to read: behind the abandoned literal. -/
def afterPending (dec : Decoder) : Decoder :=
  { dec.skipPending dec.pendingLiteral with
    discarding := true
    crlf := false }

inductive Discarded (options : Options) (dec : Decoder) : Decoder → Prop
  | short {next : Decoder} (hlength : dec.rest.length < dec.pendingLiteral)
      (hstarved : next.starved = true) : Discarded options dec next
  | gaveUp {next : Decoder} (hpending : maxDiscardLiteralSize < dec.pendingLiteral)
      (hdesynced : next.desynced = true) : Discarded options dec next
  | stayed {next : Decoder} (hpending : dec.pendingLiteral = 0)
      (hidle : dec.literal.isSome ∨ dec.crlf = true)
      (hreads : Reads options { dec with discarding := true } [] next)
      (hsame : dec.crlf = true → next = { dec with discarding := true }) :
      Discarded options dec { next with discarding := false }
  | line {mark : Bool} {next : Decoder} (hpending : dec.pendingLiteral ≤ maxDiscardLiteralSize)
      (hlength : dec.pendingLiteral ≤ dec.rest.length)
      (hclosed : dec.literal = none)
      (hread : 0 < dec.pendingLiteral ∨ dec.crlf = false)
      (hskip : LineSkip options dec.afterPending mark next) :
      Discarded options dec { next with desynced := next.desynced || mark, discarding := false }

theorem acceptCRLF_open (h : dec.literal.isSome) :
    Reads options dec [] (dec.acceptCRLF options).2 := by
  have hline := @acceptCRLF_lineEnd options dec
  generalize dec.acceptCRLF options = outcome at hline ⊢
  cases hline with
  | missing _ hreads => exact hreads.blocked h ▸ hreads
  | found _ hreads => simpa using hreads.blocked h

theorem discardText_open (h : dec.literal.isSome) :
    Reads options dec [] (dec.discardText options) := by
  obtain ⟨bytes, hreads, -, hresult⟩ := @func_reads options dec isLineChar
  have hbytes := hreads.blocked h
  subst hbytes
  have hnone : (dec.text options).1 = none := by
    cases hcases : (dec.text options).1 with
    | none => rfl
    | some result =>
      obtain ⟨hempty, hsome⟩ := hresult result hcases
      exact absurd hempty hsome
  have hend := @acceptCRLF_open options (dec.text options).2
    (by rw [text, hreads.literal_eq]; exact h)
  have hmark : endsWithNonSyncLiteral ((dec.text options).1.getD []) = false := by
    rw [hnone]
    decide
  simp only [discardText, hmark, Bool.false_eq_true, and_false, if_false]
  exact hreads.trans hend

theorem discardText_afterPending (hpending : dec.pendingLiteral ≤ maxDiscardLiteralSize)
    (hlength : dec.pendingLiteral ≤ dec.rest.length) (hclosed : dec.literal = none)
    (hread : 0 < dec.pendingLiteral ∨ dec.crlf = false) :
    Discarded options dec { dec.afterPending.discardText options with discarding := false } := by
  obtain ⟨mark, next, hskip, heq⟩ := @discardText_skip options dec.afterPending ⟨rfl, hclosed⟩
  have hline := Discarded.line hpending hlength hclosed hread hskip
  rw [heq]
  cases mark with
  | true | false => simpa using hline

theorem afterPending_of_zero (hpending : dec.pendingLiteral = 0) (hcrlf : dec.crlf = false) :
    dec.afterPending = { dec with discarding := true } := by
  simp [afterPending, skipPending, hpending, hcrlf]

theorem discardLine_outcome (h : dec.literal.isSome → dec.pendingLiteral = 0) :
    Discarded options dec (dec.discardLine options) := by
  unfold discardLine
  simp only
  split_ifs with hnone hhuge hshort
  · by_cases hidle : dec.literal.isSome ∨ dec.crlf = true
    · refine .stayed hnone hidle ?_ fun hcrlf => by simp [discardRest, hcrlf]
      unfold discardRest
      split_ifs with hcrlf
      · exact .refl _
      · exact discardText_open (hidle.resolve_right hcrlf)
    · rw [not_or, Bool.not_eq_true, Bool.not_eq_true] at hidle
      have hstart := afterPending_of_zero hnone hidle.2
      have hline := @discardText_afterPending options dec
        (by rw [hnone]; exact Nat.zero_le _) (by omega)
        (Option.isSome_eq_false_iff.mp hidle.1 |> Option.isNone_iff_eq_none.mp)
        (.inr hidle.2)
      rw [hstart] at hline
      rw [discardRest, if_neg (by simp [hidle.2])]
      exact hline
  · exact .gaveUp hhuge rfl
  · exact .short hshort rfl
  · have hclosed : dec.literal = none := by
      by_contra hopen
      exact hnone (h (Option.isSome_iff_ne_none.mpr hopen))
    exact discardText_afterPending (by omega) (by omega) hclosed (by omega)

theorem discardText_starved (h : dec.starved = true) :
    (dec.discardText options).starved = true := by
  obtain ⟨bytes, hreads, -⟩ := @func_reads options dec isLineChar
  have hend := @acceptCRLF_starved options (dec.text options).2 (hreads.starved_of h)
  unfold discardText
  simp only
  split_ifs <;> exact hend

theorem discardRest_starved (h : dec.starved = true) :
    (dec.discardRest options).starved = true := by
  unfold discardRest
  split_ifs
  · exact h
  · exact discardText_starved h

theorem discardLine_starved (h : dec.starved = true) :
    (dec.discardLine options).starved = true := by
  unfold discardLine
  simp only
  split_ifs
  · exact @discardRest_starved options { dec with discarding := true } h
  · exact h
  · rfl
  · refine @discardRest_starved options _ ?_
    exact h

end Decoder

end GoImap.Wire
