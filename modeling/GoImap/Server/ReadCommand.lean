import GoImap.Wire.Counting

/-!
# Reading commands

One round of the loop that serves a connection: wait for input, skip empty
lines, read the tag and the name of the command, run its handler, and skip what
the handler has left of the command.

A handler is known by the calls of the decoder it makes, by whether a shutdown
cuts it short, and by whether its response ends the connection.  The log of the
decoder starts at the tag.
-/

namespace GoImap.Server

open Wire

def maxCommandSize : Nat := 50 * 1024

/-- A synchronizing literal is answered with a continuation request, which the
connection is assumed to take. -/
def acceptLiteral (literalPlus : Bool) (size : Nat) (nonSync : Bool) : Option DecoderError :=
  if nonSync ∧ size > 4096 ∧ !literalPlus then
    some (.refused "Non-synchronizing literals are limited to 4096 bytes")
  else none

def checkBufferedLiteral (literalPlus : Bool) (size : Nat) (nonSync : Bool) : Option DecoderError :=
  if size > 4096 then
    some (.refused "Literals are limited to 4096 bytes for this command")
  else acceptLiteral literalPlus size nonSync

def connOptions (literalPlus : Bool) : Options where
  side := .server
  checkLiteralFunc := fun _ => none
  checkBufferedLiteralFunc := some (checkBufferedLiteral literalPlus)
  maxSize := maxCommandSize

inductive CommandError where
  | inCommand (err : Option DecoderError)
  | shutdown
  | desynchronized
  | exceededMaxSize
  | finished
  deriving DecidableEq, Repr

structure Handler where
  calls : List Call
  shutdown : Bool
  finished : Bool

section Model

variable (options : Options) (toUpper : Bytes → Bytes)

/-- Whether the stream has ended.  Every round but the last consumes the line
end, so the stream's length is enough. -/
def skipEmptyLines : Nat → Decoder → Bool × Decoder
  | 0, dec => (true, dec)
  | fuel + 1, dec =>
    match dec.eof with
    | (true, dec) => (true, dec)
    | (false, dec) =>
      match dec.acceptCRLF options with
      | (true, dec) => skipEmptyLines fuel dec
      | (false, dec) => (false, dec)

theorem skipEmptyLines_succ (fuel : Nat) (dec : Decoder) : skipEmptyLines options (fuel + 1) dec =
      match dec.eof with
      | (true, dec) => (true, dec)
      | (false, dec) =>
        match dec.acceptCRLF options with
        | (true, dec) => skipEmptyLines options fuel dec
        | (false, dec) => (false, dec) := by
  rfl

def tagStart (stream : Bytes) : Bool × Decoder :=
  match (newDecoder stream).eof with
  | (true, dec) => (true, dec)
  | (false, dec) =>
    match skipEmptyLines options (dec.rest.length + 1) dec with
    | (ended, dec) => (ended, { dec with log := [] })

def readSubName (dec : Decoder) : Option Bytes × Decoder :=
  match dec.expectSP options with
  | (false, dec) => (none, dec)
  | (true, dec) =>
    match dec.expectAtom options with
    | (none, dec) => (none, dec)
    | (some subName, dec) => (some (ascii "UID " ++ toUpper subName), dec)

/-- The tag, and the name of the command, which is returned. -/
def readName (dec : Decoder) : Option Bytes × Decoder :=
  match dec.expectAtom options with
  | (none, dec) => (none, dec)
  | (some _, dec) =>
    match dec.expectSP options with
    | (false, dec) => (none, dec)
    | (true, dec) =>
      match dec.expectAtom options with
      | (none, dec) => (none, dec)
      | (some name, dec) =>
        if toUpper name = ascii "UID" then
          readSubName options toUpper dec
        else (some (toUpper name), dec)

def handleCommand (dec : Decoder) (handler : Handler) : Option CommandError × Decoder :=
  let dec := dec.run options handler.calls
  if handler.shutdown then (some .shutdown, dec)
  else
    let dec := dec.discardLine options
    if dec.desynced then (some .desynchronized, dec)
    else if handler.finished then (some .finished, dec)
    else (none, dec)

def readTagged (handlers : Bytes → Handler) (dec : Decoder) : Option CommandError × Decoder :=
  match readName options toUpper dec with
  | (none, dec) => (some (.inCommand dec.err), dec)
  | (some name, dec) => handleCommand options dec (handlers name)

def checkSize (result : Option CommandError × Decoder) : Option CommandError × Decoder :=
  if result.2.err = some .maxSizeExceeded then
    (some .exceededMaxSize, result.2)
  else result

def readCommand (handlers : Bytes → Handler) (stream : Bytes) : Option CommandError × Decoder :=
  match tagStart options stream with
  | (true, dec) => checkSize (none, dec)
  | (false, dec) => checkSize (readTagged options toUpper handlers dec)

end Model

/-! ## Up to the handler -/

variable {options : Options} {toUpper : Bytes → Bytes} {dec next : Decoder}

theorem expect_reads (dec : Decoder) (ok : Bool) (name : String) :
    Reads options dec [] (dec.expect ok name).2 := by
  unfold Decoder.expect
  split_ifs
  · exact .refl dec
  · exact Decoder.returnErr_reads dec _

def ReadsInLine (options : Options) (dec next : Decoder) : Prop :=
  ∃ bytes, Reads options dec bytes next ∧ LF ∉ bytes

theorem ReadsInLine.trans {last : Decoder}
    (h : ReadsInLine options dec next) (h' : ReadsInLine options next last) :
    ReadsInLine options dec last := by
  obtain ⟨first, hfirst, hline⟩ := h
  obtain ⟨second, hsecond, hline'⟩ := h'
  refine ⟨_, hfirst.trans hsecond, ?_⟩
  rw [List.mem_append, not_or]
  exact ⟨hline, hline'⟩

theorem expectAtom_reads (dec : Decoder) : ReadsInLine options dec (dec.expectAtom options).2 := by
  obtain ⟨bytes, hreads, hall, -⟩ := @Decoder.func_reads options dec isAtomChar
  have hline : LF ∉ bytes := fun hmem => absurd (hall LF hmem) (by decide)
  exact ⟨_, hreads.trans (expect_reads _ _ _), by simpa using hline⟩

theorem expectSP_reads (dec : Decoder) : ReadsInLine options dec (dec.expectSP options).2 := by
  obtain ⟨bytes, hreads, hline⟩ := @Decoder.sp_reads options dec
  exact ⟨_, hreads.trans (expect_reads _ _ _), by simpa using hline⟩

theorem readSubName_reads (dec : Decoder) :
    ReadsInLine options dec (readSubName options toUpper dec).2 := by
  have hspace := @expectSP_reads options dec
  unfold readSubName
  cases hsp : dec.expectSP options with
  | mk found next =>
    rw [hsp] at hspace
    cases found with
    | false => exact hspace
    | true =>
      have hatom := hspace.trans (expectAtom_reads next)
      simp only
      cases hname : next.expectAtom options with
      | mk name last =>
        rw [hname] at hatom
        cases name <;> exact hatom

theorem readName_reads (dec : Decoder) :
    ReadsInLine options dec (readName options toUpper dec).2 := by
  have htag := @expectAtom_reads options dec
  unfold readName
  cases hfirst : dec.expectAtom options with
  | mk tag afterTag =>
    rw [hfirst] at htag
    cases tag with
    | none => exact htag
    | some tag =>
      have hspace := htag.trans (expectSP_reads afterTag)
      simp only
      cases hsp : afterTag.expectSP options with
      | mk found afterSpace =>
        rw [hsp] at hspace
        cases found with
        | false => exact hspace
        | true =>
          have hatom := hspace.trans (expectAtom_reads afterSpace)
          simp only
          cases hname : afterSpace.expectAtom options with
          | mk name afterName =>
            rw [hname] at hatom
            cases name with
            | none => exact hatom
            | some name =>
              simp only
              split_ifs
              · exact hatom.trans (readSubName_reads afterName)
              · exact hatom

structure Idle (options : Options) (least : Int) (dec : Decoder) : Prop where
  literal_eq : dec.literal = none
  pending_eq : dec.pendingLiteral = 0
  discarding_eq : dec.discarding = false
  count_ge : least ≤ dec.readBytes
  count_le : dec.readBytes ≤ options.maxSize + 3
  starved_rest : dec.starved = true → dec.rest = []

namespace Idle

variable {least : Int}

theorem newDecoder (stream : Bytes) : Idle options 0 (newDecoder stream) where
  literal_eq := rfl
  pending_eq := rfl
  discarding_eq := rfl
  count_ge := Int.le_refl 0
  count_le := by
    change (0 : Int) ≤ options.maxSize + 3
    omega
  starved_rest := fun h => by cases h

theorem mono {less : Int} (h : Idle options least dec) (hle : less ≤ least) :
    Idle options less dec :=
  { h with count_ge := Int.le_trans hle h.count_ge }

theorem eof (h : Idle options least dec) (heof : dec.eof = (false, next)) :
    Idle options (least - 1) next := by
  have hge := h.count_ge
  have hle := h.count_le
  unfold Decoder.eof at heof
  split at heof
  · cases heof
  · cases heof
    refine ⟨h.literal_eq, h.pending_eq, h.discarding_eq, ?_, ?_,
      h.starved_rest⟩ <;> simp only <;> omega

theorem reads {bytes : Bytes} (hlimit : 0 < options.maxSize)
    (h : Idle options least dec) (hreads : Reads options dec bytes next) :
    Idle options (least + bytes.length) next where
  literal_eq := hreads.literal_eq.trans h.literal_eq
  pending_eq := hreads.pending_eq.trans h.pending_eq
  discarding_eq := hreads.discarding_eq.trans h.discarding_eq
  count_ge := by
    have hge := h.count_ge
    rw [hreads.count_eq]
    omega
  count_le := hreads.count_le hlimit h.count_le
  starved_rest := hreads.starved_rest_of h.starved_rest

theorem skipEmptyLines (hlimit : 0 < options.maxSize) (fuel : Nat) (h : Idle options (-1) dec)
    (hskip : skipEmptyLines options fuel dec = (false, next)) :
    Idle options (-2) next := by
  induction fuel generalizing dec with
  | zero => cases hskip
  | succ fuel ih =>
    rw [skipEmptyLines_succ] at hskip
    cases heof : dec.eof with
    | mk ended middle =>
      cases ended with
      | true => simp [heof] at hskip
      | false =>
        have hmiddle := h.eof heof
        have hline := @Decoder.acceptCRLF_lineEnd options middle
        simp only [heof] at hskip
        generalize middle.acceptCRLF options = outcome at hline hskip
        cases hline with
        | missing _ hreads =>
          cases hskip
          exact (hmiddle.reads hlimit hreads).mono (by omega)
        | @found lead last _ hreads =>
          have hlast : Idle options (-1) { last with crlf := true } := by
            have hcount := (hmiddle.reads hlimit hreads).mono
              (show (-1 : Int) ≤ -1 - 1 + (lead ++ [LF]).length by
                rw [List.length_append, List.length_singleton]
                omega)
            exact { hcount with }
          exact ih hlast hskip

theorem tagStart {stream : Bytes} (hlimit : 0 < options.maxSize)
    (htag : tagStart options stream = (false, dec)) :
    Idle options (-2) dec ∧ dec.log = [] := by
  unfold Server.tagStart at htag
  cases heof : (Wire.newDecoder stream).eof with
  | mk ended first =>
    cases ended with
    | true => simp [heof] at htag
    | false =>
      have hfirst := (@Idle.newDecoder options stream).eof heof
      simp only [heof] at htag
      cases hskip : Server.skipEmptyLines options (first.rest.length + 1)
          first with
      | mk ended last =>
        rw [hskip] at htag
        cases htag
        have hlast := Idle.skipEmptyLines hlimit _ hfirst hskip
        exact ⟨{ hlast with }, rfl⟩

theorem follows (h : Idle options (-2) dec) (hlog : dec.log = []) :
    Follows dec ∧ Counted options dec := by
  have hge := h.count_ge
  constructor
  · exact .of_outside h.discarding_eq (by rw [hlog]; rfl) (by rw [hlog]; rfl)
      h.literal_eq h.pending_eq (by rw [hlog]; rfl)
  · refine ⟨?_, h.count_le, h.starved_rest⟩
    rw [hlog]
    change (0 : Int) ≤ dec.readBytes + 2
    omega

end Idle

/-! ## Oversized commands -/

/-- The call neither reads an announcement as text nor changes the count. -/
def KeepsCount (options : Options) (dec : Decoder) (call : Call) : Prop :=
  TakesPayloads options dec call ∧ call.counts = false

instance (options : Options) (dec : Decoder) (call : Call) :
    Decidable (KeepsCount options dec call) :=
  inferInstanceAs (Decidable (_ ∧ _))

theorem run_counted (hlimit : 0 < options.maxSize) {start : Decoder}
    {calls : List Call} (hstart : Follows start ∧ Counted options start)
    (hcalls : Transition.Meets (Decoder.step options) (KeepsCount options) start calls) :
    ((start.run options calls).starved = true ∨ Follows (start.run options calls)) ∧
      Counted options (start.run options calls) := by
  refine Transition.foldl_of_meets
    (fun dec => (dec.starved = true ∨ Follows dec) ∧ Counted options dec)
    ?_ ⟨.inr hstart.1, hstart.2⟩ hcalls
  rintro dec call ⟨hfollows, hcounted⟩ hguard
  exact ⟨step_follows options dec call hfollows hguard.1,
    hcounted.effect hlimit (Decoder.step_effect dec call) hguard.2⟩

theorem handleCommand_error_iff {handler : Handler} (hshutdown : handler.shutdown = false)
    (hfinished : handler.finished = false) :
    (checkSize (handleCommand options dec handler)).1.isSome ↔ EndsConnection
        ((dec.run options handler.calls).discardLine options) := by
  simp only [handleCommand, hshutdown, hfinished, checkSize, EndsConnection]
  cases hdesynced : ((dec.run options handler.calls).discardLine options).desynced with
  | true =>
    simp only [Bool.false_eq_true, true_or, iff_true]
    split_ifs <;> rfl
  | false =>
    simp only [Bool.false_eq_true, if_false, false_or]
    split_ifs with hlimit
    · exact iff_of_true rfl hlimit
    · exact iff_of_false Bool.false_ne_true hlimit

theorem checkSize_isSome {result : Option CommandError × Decoder}
    (h : result.1.isSome) : (checkSize result).1.isSome := by
  unfold checkSize
  split_ifs
  · rfl
  · exact h

theorem readCommand_unnamed {handlers : Bytes → Handler} {stream : Bytes} {first start : Decoder}
    (htag : tagStart options stream = (false, first))
    (hname : readName options toUpper first = (none, start)) :
    (readCommand options toUpper handlers stream).1.isSome := by
  rw [readCommand, htag]
  refine checkSize_isSome ?_
  rw [readTagged, hname]
  rfl

/--
A command that is longer than the limit allows ends the connection exactly if
the handler does so, or stops where the limit is noticed.
-/
theorem oversized_command_error_iff (options : Options) (toUpper : Bytes → Bytes)
    (handlers : Bytes → Handler) (stream : Bytes) (first start : Decoder) (name : Bytes)
    (hserver : options.side = .server) (hlimit : 0 < options.maxSize)
    (htag : tagStart options stream = (false, first))
    (hname : readName options toUpper first = (some name, start))
    (hcalls : Transition.Meets (Decoder.step options) (KeepsCount options)
      start (handlers name).calls)
    (hover : options.maxSize + 16 < commandOctets (start.run options (handlers name).calls)) :
    (readCommand options toUpper handlers stream).1.isSome ↔
      (handlers name).shutdown = true ∨ (handlers name).finished = true ∨
        NoticesLimit options (start.run options (handlers name).calls) := by
  obtain ⟨hidle, hlog⟩ := Idle.tagStart hlimit htag
  obtain ⟨hfollows, hcounted⟩ := hidle.follows hlog
  obtain ⟨bytes, hreads, hline⟩ := @readName_reads options toUpper first
  rw [hname] at hreads
  have hstart := And.intro (hfollows.reads hreads (closes_of_no_LF _ hline))
    (hcounted.reads hlimit hreads)
  obtain ⟨hrun, hcount⟩ := run_counted hlimit hstart hcalls
  have hstopped := hrun.resolve_left (by simp [hcount.not_starved hover])
  have hread : readCommand options toUpper handlers stream =
      checkSize (handleCommand options start (handlers name)) := by
    simp [readCommand, htag, readTagged, hname]
  rw [hread]
  cases hshutdown : (handlers name).shutdown with
  | true =>
    refine iff_of_true (checkSize_isSome ?_) (.inl rfl)
    simp [handleCommand, hshutdown]
  | false =>
    cases hfinished : (handlers name).finished with
    | true =>
      refine iff_of_true (checkSize_isSome ?_) (.inr (.inl rfl))
      simp only [handleCommand, hshutdown, hfinished]
      cases ((start.run options (handlers name).calls).discardLine options).desynced <;> rfl
    | false =>
      rw [handleCommand_error_iff hshutdown hfinished,
        discardLine_endsConnection hserver hlimit hstopped hcount hover
          (Decoder.discardLine_outcome hstopped.open_pending)]
      simp

def shortOptions : Options := { plainServer with maxSize := 20 }

def longNoop : Bytes := ascii "A1 NOOP " ++ List.replicate 40 120 ++ ascii "\r\nA2 NOOP\r\n"

def returningHandler (calls : List Call) (_ : Bytes) : Handler where
  calls := calls
  shutdown := false
  finished := false

def longNoopStart : Decoder := (readName shortOptions id (tagStart shortOptions longNoop).2).2

theorem oversized_command_error_iff_unknown : shortOptions.maxSize + 16 <
        commandOctets (longNoopStart.run shortOptions []) ∧
      ((readCommand shortOptions id (returningHandler []) longNoop).1.isSome ↔
        (returningHandler [] (ascii "NOOP")).shutdown = true ∨
          (returningHandler [] (ascii "NOOP")).finished = true ∨
          NoticesLimit shortOptions (longNoopStart.run shortOptions
            (returningHandler [] (ascii "NOOP")).calls)) :=
  ⟨by decide +kernel, oversized_command_error_iff shortOptions id (returningHandler []) longNoop
      (tagStart shortOptions longNoop).2 longNoopStart (ascii "NOOP") rfl
      (by decide) (by decide +kernel) (by decide +kernel) trivial
      (by decide +kernel)⟩

/-- The argument a `NOOP` does not have is a syntax error; it hides the limit,
and the rest of the line is the next command. -/
theorem oversized_noop_read_as_command :
    let handler := [Call.crlf, .fail "expected CRLF"]
    let result := readCommand shortOptions id (returningHandler handler) longNoop
    shortOptions.maxSize + 16 < commandOctets (longNoopStart.run shortOptions handler) ∧
      result.1 = none ∧
      result.2.rest = List.replicate 25 120 ++ ascii "\r\nA2 NOOP\r\n" := by
  decide +kernel

end GoImap.Server
