import GoImap.Wire.Payloads

/-!
# Finding the next command

After a handler has returned, `discardLine` has to bring the reader to the end
of the command, wherever the handler stopped, or to give up.  `Framed` relates
the decoder's bookkeeping to the place within the command, for a handler that
reads nothing behind it.
-/

namespace GoImap.Wire

open Decoder

structure Framed (dec : Decoder) : Prop where
  follows : Follows dec
  ended_eq : (scan dec.log).ended = 0 ∨ (scan dec.log).AtEnd
  open_asked : ∀ lit, dec.literal = some lit → lit.nonSync ∨ lit.asked → (scan dec.log).ended = 0
  open_unasked : ∀ lit, dec.literal = some lit → ¬(lit.nonSync ∨ lit.asked) →
    (scan dec.log).ended = 1 ∧ ∃ size, (scan dec.log).place = .announced size
  closed_done : dec.literal = none → (scan dec.log).ended = 1 →
    dec.crlf = true ∧ dec.pendingLiteral = 0

/-- Part of the command is left to read, or nothing would be read. -/
def Decoder.mayRead (dec : Decoder) : Prop :=
  (scan dec.log).ended = 0 ∨ dec.err.isSome ∨ dec.literal.isSome

variable {lead digits : Bytes} {nonSync : Bool} {final dec : Decoder} {options : Options}

namespace Framed

variable {options : Options} {dec next : Decoder}

theorem newDecoder (stream : Bytes) : Framed (newDecoder stream) where
  follows := .newDecoder stream
  ended_eq := .inl rfl
  open_asked := fun _ h => by cases h
  open_unasked := fun _ h => by cases h
  closed_done := fun _ h => by cases h

theorem of_within (hfollows : Follows dec) (hended : (scan dec.log).ended = 0)
    (hliteral : dec.literal = none) : Framed dec where
  follows := hfollows
  ended_eq := .inl hended
  open_asked := fun _ h => by simp [hliteral] at h
  open_unasked := fun _ h => by simp [hliteral] at h
  closed_done := fun _ h => by simp [hended] at h

theorem of_done (hfollows : Follows dec) (hend : (scan dec.log).AtEnd)
    (hliteral : dec.literal = none) (hcrlf : dec.crlf = true)
    (hpending : dec.pendingLiteral = 0) : Framed dec where
  follows := hfollows
  ended_eq := .inr hend
  open_asked := fun _ h => by simp [hliteral] at h
  open_unasked := fun _ h => by simp [hliteral] at h
  closed_done := fun _ _ => ⟨hcrlf, hpending⟩

theorem congr (h : Framed dec) (hfollows : Follows next) (hlog : next.log = dec.log)
    (hliteral : next.literal = dec.literal) (hpending : next.pendingLiteral = dec.pendingLiteral)
    (hcrlf : dec.literal = none → (scan dec.log).ended = 1 → dec.crlf = true → next.crlf = true)
    : Framed next where
  follows := hfollows
  ended_eq := by rw [hlog]; exact h.ended_eq
  open_asked := by rw [hlog, hliteral]; exact h.open_asked
  open_unasked := by rw [hlog, hliteral]; exact h.open_unasked
  closed_done := by
    rw [hlog, hliteral, hpending]
    intro hclosed hended
    obtain ⟨hdone, hzero⟩ := h.closed_done hclosed hended
    exact ⟨hcrlf hclosed hended hdone, hzero⟩

theorem ended_of_reads {bytes : Bytes} (h : Framed dec) (hmay : dec.mayRead)
    (hreads : Reads options dec bytes next) (hsome : bytes ≠ []) :
    (scan dec.log).ended = 0 := by
  rcases hmay with hended | herr | hopen
  · exact hended
  · exact absurd (hreads.stopped herr h.follows.discarding_eq).1 hsome
  · exact absurd (hreads.blocked hopen) hsome

theorem text {bytes : Bytes} (h : Framed dec) (hmay : dec.mayRead)
    (hreads : Reads options dec bytes next) (hline : LF ∉ bytes) :
    Framed next := by
  have hfollows := h.follows.reads hreads (closes_of_no_LF _ hline)
  by_cases hsome : bytes = []
  · subst hsome
    refine h.congr hfollows (by simpa [textEvents] using hreads.log_eq)
      hreads.literal_eq hreads.pending_eq ?_
    intro hclosed hended hcrlf
    rcases hmay with hzero | herr | hopen
    · simp [hended] at hzero
    · rw [(hreads.stopped herr h.follows.discarding_eq).2]
      exact hcrlf
    · simp [hclosed] at hopen
  · have hended := h.ended_of_reads hmay hreads hsome
    obtain ⟨hliteral, hpending⟩ := h.follows.outside_of_reads hreads hsome
    refine of_within hfollows ?_ (hreads.literal_eq.trans hliteral)
    rw [hreads.log_eq, scan_textEvents, Scan.text_line
      (h.follows.outside hliteral hpending) hline hsome]
    exact hended

theorem lineEnd (h : Framed dec) (hmay : dec.mayRead) (hlead : lead ∈ lineLeads)
    (hreads : Reads options dec (lead ++ [LF]) next)
    (hcloses : closes announcesNonSync (scan dec.log).place.lineText (lead ++ [LF]) = false)
    : Framed { next with crlf := true } := by
  have hended := h.ended_of_reads hmay hreads (by simp)
  obtain ⟨hliteral, hpending⟩ := h.follows.outside_of_reads hreads (by simp)
  have hplain := closes_mono (fun _ => announcesNonSync_of_owesPayload) hcloses
  have hfollows : Follows { next with crlf := true } :=
    (h.follows.reads hreads hplain).congr rfl rfl rfl rfl id fun _ _ => .inr rfl
  refine of_done hfollows ?_ (hreads.literal_eq.trans hliteral) rfl
    (hreads.pending_eq.trans hpending)
  rw [closes_line _ (LF_not_mem_lead hlead)] at hcloses
  have hscan : scan next.log = (scan dec.log).closeLine
      ((scan dec.log).place.lineText ++ lead) := by
    rw [hreads.log_eq, scan_textEvents, Scan.text_closeLine
      (h.follows.outside hliteral hpending) (LF_not_mem_lead hlead)]
  change (scan next.log).AtEnd
  rw [hscan]
  exact (Scan.closeLine_atEnd hended).mpr hcloses

/-! ### Literals -/

variable (h : Framed dec)

include h

section Announced

variable (hmay : dec.mayRead) (hread : ReadsAnnouncement options dec digits nonSync lead next)
  (hspace : SP ∉ lead)

include hmay hread hspace

theorem scan_announcement :
    (nonSync = true → (scan next.log).ended = 0) ∧ (nonSync = false → (scan next.log).ended = 1 ∧
        (scan next.log).place = .announced (decimal digits)) := by
  have hended := h.ended_of_reads hmay hread.reads (by simp)
  obtain ⟨-, -, hscan⟩ := h.follows.scan_announcement hread
  rw [hscan, if_neg hspace]
  cases nonSync with
  | true => exact ⟨fun _ => hended, (nomatch ·)⟩
  | false =>
    refine ⟨(nomatch ·), fun _ => ⟨?_, rfl⟩⟩
    simp [hended]

theorem held : Framed (next.opened (decimal digits) nonSync) := by
  obtain ⟨hnonSync, hsync⟩ := h.scan_announcement hmay hread hspace
  have hfollows := h.follows.held hread
  cases nonSync with
  | true =>
    refine ⟨hfollows, .inl (hnonSync rfl), fun _ _ _ => hnonSync rfl, ?_,
      fun hnone => by cases hnone⟩
    rintro lit ⟨⟩ hasked
    simp [freshReader] at hasked
  | false =>
    obtain ⟨hended, hplace⟩ := hsync rfl
    refine ⟨hfollows, .inr ⟨hended, ?_⟩, ?_, fun _ _ _ => ⟨hended, _, hplace⟩,
      fun hnone => by cases hnone⟩
    · change (scan next.log).place.afterLine = true
      rw [hplace]
      rfl
    · rintro lit ⟨⟩ hasked
      simp [freshReader] at hasked

theorem refused (err : DecoderError) :
    Framed (next.refuse (decimal digits) nonSync err) := by
  obtain ⟨hnonSync, hsync⟩ := h.scan_announcement hmay hread hspace
  obtain ⟨-, hpending, -⟩ := h.follows.scan_announcement hread
  have hfollows := h.follows.refused hread err
  rw [refuse_eq] at hfollows ⊢
  cases nonSync with
  | true => exact of_within hfollows (hnonSync rfl) rfl
  | false =>
    obtain ⟨hended, hplace⟩ := hsync rfl
    refine of_done hfollows ⟨hended, ?_⟩ rfl rfl hpending
    change (scan next.log).place.afterLine = true
    rw [hplace]
    rfl

end Announced

theorem askLiteral : Framed dec.askLiteral := by
  have hfollows := h.follows.askLiteral
  cases hliteral : dec.literal with
  | none =>
    rw [askLiteral_none hliteral]
    exact h
  | some lit =>
    by_cases hasked : lit.nonSync ∨ lit.asked
    · have hsame : dec.askLiteral = dec := by
        simp [Decoder.askLiteral, hliteral, hasked]
      rw [hsame]
      exact h
    · obtain ⟨hended, size, hplace⟩ := h.open_unasked lit hliteral hasked
      have heq : dec.askLiteral = { dec with
            literal := some { lit with asked := true }
            log := dec.log ++ [.accepted] } := by
        simp [Decoder.askLiteral, hliteral, if_neg hasked]
      have hzero : (scan dec.askLiteral.log).ended = 0 := by
        rw [heq, scan_accepted, Scan.accept, hplace]
        simp [hended]
      have hopen : dec.askLiteral.literal = some { lit with asked := true } := by
        rw [heq]
      refine ⟨hfollows, .inl hzero, fun _ _ _ => hzero, ?_, ?_⟩
      · intro other hother hunasked
        rw [hopen, Option.some.injEq] at hother
        exact absurd (.inr (hother ▸ rfl)) hunasked
      · intro hnone
        simp [hopen] at hnone

theorem takeData {lit : LiteralReader} {count : Nat}
    (hliteral : dec.literal = some lit) (hasked : lit.nonSync ∨ lit.asked)
    (hleft : count ≤ lit.left) (hrest : count ≤ dec.rest.length) :
    Framed (dec.takeData lit count) := by
  have hended : (scan (dec.takeData lit count).log).ended = 0 := by
    rw [show (dec.takeData lit count).log = dec.log ++ (dec.rest.take count).map
      (Event.octet · .data) from rfl, scan_dataEvents _ _ (by decide),
      Scan.data_ended]
    exact h.open_asked lit hliteral hasked
  refine ⟨h.follows.takeData hliteral hleft hrest, .inl hended,
    fun _ _ _ => hended, ?_, fun hnone => by cases hnone⟩
  rintro _ ⟨⟩ hunasked
  exact absurd hasked hunasked

theorem release {lit : LiteralReader}
    (hliteral : dec.literal = some lit) (hasked : lit.nonSync ∨ lit.asked)
    (hleft : lit.left = 0) : Framed { dec with literal := none } :=
  of_within (h.follows.release hliteral hleft) (h.open_asked lit hliteral hasked) rfl

omit h in
theorem keptByLiterals : KeptByLiterals Framed where
  ask h := h.askLiteral
  take h := h.takeData
  release h := h.release

end Framed

/-- The call reads only what belongs to the command: nothing behind its end,
line ends and announcements with the calls that are for them, and no space
between an announcement and its line end. -/
def InCommand (dec : Decoder) (call : Call) (next : Decoder) : Prop :=
  (call.readsText = true ∨ call.opens = true → dec.mayRead) ∧
    (call.plain = true → LF ∉ dec.taken next) ∧
    (call.readsText = true → closes announcesNonSync (scan dec.log).place.lineText
        (dec.taken next) = false) ∧
    (call.opens = true → LF ∈ dec.taken next → SP ∉ (dec.taken next).takeWhile (· ≠ LF))

def StaysInCommand (options : Options) (dec : Decoder) (call : Call) : Prop :=
  InCommand dec call (dec.step options call)

instance (dec : Decoder) : Decidable dec.mayRead := inferInstanceAs (Decidable (_ ∨ _ ∨ _))

instance (options : Options) (dec : Decoder) (call : Call) :
    Decidable (StaysInCommand options dec call) :=
  inferInstanceAs (Decidable ((_ → _) ∧ (_ → _) ∧ (_ → _) ∧ (_ → _)))

theorem no_space_of_inCommand {next : Decoder} {call : Call} {count : Nat}
    (h : InCommand dec call final) (hcall : call.opens = true)
    (hread : ReadsAnnouncement options dec digits nonSync lead next)
    (hrest : final.rest = next.rest.drop count) : SP ∉ lead := by
  have htaken := taken_announcement hread hrest
  have hline := Follows.LF_not_mem_announced nonSync hread.digits_all hread.lead_mem
  have hall : ∀ byte ∈ announced digits nonSync ++ lead, decide (byte ≠ LF) = true := by
    intro byte hmem
    rw [decide_eq_true_iff]
    rintro rfl
    exact hline hmem
  have hspace := h.2.2.2 hcall (by rw [htaken]; simp)
  rw [htaken, ← List.append_assoc, List.takeWhile_append_of_pos hall] at hspace
  simp only [List.mem_append, not_or] at hspace
  exact hspace.1.2

theorem Framed.effect {next : Decoder} {call : Call} (h : Framed dec)
    (heffect : Effect options dec call next) (hin : InCommand dec call next) :
    next.starved = true ∨ Framed next := by
  cases heffect with
  | fails message =>
    have hreads := @returnErr_reads options dec (.expect message)
    have hfollows := h.follows.reads hreads rfl
    rw [returnErr_eq] at hfollows ⊢
    exact .inr (h.congr hfollows rfl rfl rfl fun _ _ hcrlf => hcrlf)
  | count =>
    exact .inr (h.congr (h.follows.congr rfl rfl rfl rfl id fun _ => .inr)
      rfl rfl rfl fun _ _ hcrlf => hcrlf)
  | text hcall hreads =>
    have hline := hin.2.1 hcall
    rw [taken_eq hreads] at hline
    exact .inr (h.text (hin.1 (.inl (by simp [Call.readsText, hcall]))) hreads hline)
  | noLine hlead hreads =>
    exact .inr (h.text (hin.1 (.inl rfl)) hreads (LF_not_mem_lead hlead))
  | @lineEnd lead next hlead hreads =>
    have hcloses := hin.2.2.1 rfl
    have htaken : dec.taken { next with crlf := true } = lead ++ [LF] :=
      (taken_eq hreads : dec.taken next = lead ++ [LF])
    rw [htaken] at hcloses
    exact .inr (h.lineEnd (hin.1 (.inl rfl)) hlead hreads hcloses)
  | failed hcall hline hreads =>
    exact .inr (h.text (hin.1 (.inr hcall)) hreads hline)
  | hostile hcall hline hreads =>
    have hnext := h.text (hin.1 (.inr hcall)) hreads hline
    exact .inr (hnext.congr (hnext.follows.congr rfl rfl rfl rfl id fun _ => .inr)
      rfl rfl rfl fun _ _ hcrlf => hcrlf)
  | @refused _ digits _ nonSync next hcall hread err =>
    have hrest : (next.refuse (decimal digits) nonSync err).rest = next.rest.drop 0 := by
      rw [refuse_eq]
      rfl
    have hspace := no_space_of_inCommand hin hcall hread hrest
    exact .inr (h.refused (hin.1 (.inr hcall)) hread hspace err)
  | @held digits _ nonSync next hread =>
    have hrest : (next.opened (decimal digits) nonSync).rest = next.rest.drop 0 := rfl
    have hspace := no_space_of_inCommand hin rfl hread hrest
    exact .inr (h.held (hin.1 (.inr rfl)) hread hspace)
  | @copied digits _ nonSync next hread =>
    obtain ⟨count, hrest⟩ := copyLiteral_rest (next.opened (decimal digits) nonSync).askLiteral
      (freshReader (decimal digits) nonSync)
    rw [askLiteral_rest] at hrest
    have hspace := no_space_of_inCommand hin rfl hread hrest
    exact keptByLiterals.copyLiteral (h.held (hin.1 (.inr rfl)) hread hspace)
  | ask => exact .inr h.askLiteral
  | read count => exact keptByLiterals.readLiteral h count

theorem run_framed {stream : Bytes} {calls : List Call}
    (hcalls : Transition.Meets (Decoder.step options) (StaysInCommand options)
      (newDecoder stream) calls) :
    ((newDecoder stream).run options calls).starved = true ∨
      Framed ((newDecoder stream).run options calls) := by
  refine Transition.foldl_of_meets (fun dec => dec.starved = true ∨ Framed dec)
    ?_ (.inr (Framed.newDecoder stream)) hcalls
  rintro dec call (hstarved | hframed) hguard
  · exact .inl (effect_starved (step_effect dec call) hstarved)
  · exact hframed.effect (step_effect dec call) hguard

/-! ## Discarding -/

/-- The reader stands at the first octet behind the command, or the connection
is to end. -/
def Resynchronized (dec : Decoder) : Prop := dec.desynced = true ∨ (scan dec.log).AtEnd

instance (dec : Decoder) : Decidable (Resynchronized dec) := inferInstanceAs (Decidable (_ ∨ _))

/--
The handler stopped where `discardLine` can find the end: at the end itself, or
within a line it goes on to read, the rest of which ends in an announcement it
knows or in a line end that closes none.
-/
def StopsCleanly (dec : Decoder) : Prop :=
  dec.desynced = true ∨ maxDiscardLiteralSize < dec.pendingLiteral ∨ (scan dec.log).ended = 1 ∨
    (dec.readsLine ∧ (endsWithNonSyncLiteral (dec.lineRest.takeWhile isLineChar) = true ∨
        ∃ line, restOfLine dec.lineRest = some line ∧
          announcesNonSync (dec.lineText ++ line) = false))

theorem Framed.atEnd_iff (h : Framed dec) : (scan dec.log).AtEnd ↔ (scan dec.log).ended = 1 := by
  refine ⟨fun hend => hend.1, fun hended => ?_⟩
  rcases h.ended_eq with hzero | hend
  · simp [hended] at hzero
  · exact hend

theorem Framed.ended_of_readsLine (h : Framed dec) (hline : dec.readsLine) :
    (scan dec.log).ended = 0 := by
  rcases h.ended_eq with hzero | hend
  · exact hzero
  · obtain ⟨hcrlf, hpending⟩ := h.closed_done hline.1 hend.1
    rcases hline.2 with hpos | hopen
    · omega
    · simp [hcrlf] at hopen

/-- What is left to say where `discardLine` reads the rest of a line: whether
it finds the end there. -/
theorem resynchronized_iff_of_line (hline : dec.readsLine)
    (hpending : dec.pendingLiteral ≤ maxDiscardLiteralSize) (hended : (scan dec.log).ended = 0)
    (hdesynced : final.desynced = true ↔ dec.desynced = true ∨
      endsWithNonSyncLiteral (dec.lineRest.takeWhile isLineChar) = true)
    (hend : (scan final.log).AtEnd ↔ ∃ line, restOfLine dec.lineRest = some line ∧
        announcesNonSync (dec.lineText ++ line) = false) :
    Resynchronized final ↔ StopsCleanly dec := by
  have hhuge : ¬maxDiscardLiteralSize < dec.pendingLiteral := by omega
  have hone : ¬(scan dec.log).ended = 1 := by omega
  simp only [Resynchronized, StopsCleanly, hdesynced, hend, hline, hhuge, hone, false_or, true_and]
  exact or_assoc

theorem discardLine_resynchronized (hserver : options.side = .server) (hlimit : options.maxSize = 0)
    (h : Framed dec) (hdiscarded : Discarded options dec final) (hfinal : final.starved = false) :
    Resynchronized final ↔ StopsCleanly dec := by
  cases hdiscarded with
  | short _ hstarved => simp [hstarved] at hfinal
  | gaveUp hpending hdesynced =>
    exact ⟨fun _ => .inr (.inl hpending), fun _ => .inl hdesynced⟩
  | @stayed next hpending hidle hreads _ =>
    have hlog : next.log = dec.log := by
      simpa [textEvents] using hreads.log_eq
    have hline := not_readsLine hpending hidle
    have hdesynced : next.desynced = dec.desynced := hreads.desynced_eq
    simp only [Resynchronized, StopsCleanly, hlog, hdesynced, hpending, hline, h.atEnd_iff]
    simp
  | @line mark next hpending hlength hclosed hread hskip =>
    obtain ⟨hplace, htext, -, hsame⟩ := h.follows.afterPending_outside hclosed hlength
    have hended := h.ended_of_readsLine ⟨hclosed, hread⟩
    have hstart := hsame.trans hended
    cases hskip with
    | starved _ hstarved => simp [hstarved] at hfinal
    | cut _ _ hcut _ => exact absurd (.inl hlimit) hcut.limited
    | broken hbytes hreads hsome hrest _ _ =>
      have hopen : ¬(scan next.log).AtEnd := by
        rw [hreads.log_eq, scan_textEvents, Scan.text_line hplace hbytes hsome]
        rintro ⟨hone, -⟩
        simp [hstart] at hone
      have hnone : restOfLine dec.lineRest = none := hrest
      refine resynchronized_iff_of_line ⟨hclosed, hread⟩ hpending hended
        (desynced_marked_iff hserver hreads.desynced_eq) ?_
      simpa [hnone] using hopen
    | @closed line last hline hallowed hreads _ =>
      have hsome : restOfLine dec.lineRest = some line := hline
      refine resynchronized_iff_of_line ⟨hclosed, hread⟩ hpending hended
        (desynced_marked_iff hserver hreads.desynced_eq) ?_
      simp only [hsome, Option.some.injEq, exists_eq_left']
      rw [hreads.log_eq, scan_textEvents, Scan.text_closeLine hplace (restOfLine_eq hline).1, htext]
      exact Scan.closeLine_atEnd hstart

/--
For a handler that stays in the command, `discardLine` finds the end of the
command or gives up exactly if the handler stops cleanly.
-/
theorem resynchronized_iff_stopsCleanly (options : Options) (stream : Bytes) (calls : List Call)
    (hserver : options.side = .server) (hlimit : options.maxSize = 0)
    (hcalls : Transition.Meets (Decoder.step options) (StaysInCommand options)
      (newDecoder stream) calls)
    (hstarved : (((newDecoder stream).run options calls).discardLine options).starved = false) :
    Resynchronized (((newDecoder stream).run options calls).discardLine options) ↔
      StopsCleanly ((newDecoder stream).run options calls) := by
  rcases run_framed hcalls with hrun | hframed
  · simp [discardLine_starved hrun] at hstarved
  · exact discardLine_resynchronized hserver hlimit hframed
      (discardLine_outcome hframed.follows.open_pending) hstarved

/-- How `SORT` reads its criteria and its charset, which it refuses if it does
not know it. -/
def readCharset : List Call :=
  [.func isAtomChar, .sp, .func isAtomChar, .sp, .special openParen,
    .func isAtomChar, .special closeParen, .sp, .quoted false, .literal]

def literalCharset : Bytes := ascii "A1 SORT (DATE) \x7b2+\x7d\r\nXX ALL\r\nA2 NOOP\r\n"

theorem resynchronized_iff_stopsCleanly_wholeSort : Transition.Meets (Decoder.step plainServer)
        (StaysInCommand plainServer) (newDecoder literalCharset)
        (readCharset ++ [.sp, .func isAtomChar]) ∧
      (((newDecoder literalCharset).run plainServer
        (readCharset ++ [.sp, .func isAtomChar])).discardLine plainServer).starved = false ∧
      (Resynchronized (((newDecoder literalCharset).run plainServer
          (readCharset ++ [.sp, .func isAtomChar])).discardLine plainServer) ↔
        StopsCleanly ((newDecoder literalCharset).run plainServer
          (readCharset ++ [.sp, .func isAtomChar]))) :=
  ⟨by decide, by decide, resynchronized_iff_stopsCleanly _ _ _ rfl rfl (by decide) (by decide)⟩

/-- The line end of the announcement is taken for that of the command, and the
rest of the command is read as the next one. -/
theorem charset_literal_not_resynchronized :
    let final := ((newDecoder literalCharset).run plainServer
      readCharset).discardLine plainServer
    final.starved = false ∧ ¬Resynchronized final ∧ final.rest = ascii " ALL\r\nA2 NOOP\r\n" := by
  decide

end GoImap.Wire
