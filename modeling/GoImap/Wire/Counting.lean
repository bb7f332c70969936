import GoImap.Wire.Payloads

/-!
# The size limit

The decoder counts the octets it reads as text and stops at a limit.  The
count lags behind the text of a command by what the server peeks before it,
and passes the limit by a few octets.  So a command whose text is longer than
the limit by more than that is not read to its end.
-/

namespace GoImap.Wire

open Decoder

/-! ## The text of a command -/

def textOctets (log : List Event) : Nat := log.countP fun event =>
    match event with
    | .octet _ .text => true
    | _ => false

@[simp] theorem textOctets_append (log events : List Event) :
    textOctets (log ++ events) = textOctets log + textOctets events :=
  List.countP_append

@[simp] theorem textOctets_octets (bytes : Bytes) (role : Role) :
    textOctets (bytes.map (Event.octet · role)) =
      if role = .text then bytes.length else 0 := by
  cases role <;> simp [textOctets]

@[simp] theorem textOctets_textEvents (bytes : Bytes) :
    textOctets (textEvents bytes) = bytes.length := by
  simp [textEvents]

namespace Scan

def remaining : Scan → Bytes → Nat
  | _, [] => 0
  | scan, byte :: rest =>
    if scan.ended ≠ 0 then 0
    else (if scan.place.inPayload then 0 else 1) + remaining (scan.textOctet byte) rest

variable {scan : Scan}

theorem remaining_ended (h : scan.ended ≠ 0) (bytes : Bytes) : scan.remaining bytes = 0 := by
  cases bytes with
  | nil => rfl
  | cons byte rest => rw [remaining, if_pos h]

theorem remaining_le (scan : Scan) (bytes : Bytes) : scan.remaining bytes ≤ bytes.length := by
  induction bytes generalizing scan with
  | nil => exact Nat.le_refl 0
  | cons byte rest ih =>
    have hrest := ih (scan.textOctet byte)
    rw [remaining, List.length_cons]
    split_ifs <;> omega

theorem remaining_payload (bytes : Bytes) {left : Nat} {nonSync : Bool}
    (hplace : scan.place = .enter left nonSync) :
    ∃ after : Scan, after.ended = scan.ended ∧ (left ≤ bytes.length → after.place = .line []) ∧
      scan.remaining bytes = after.remaining (bytes.drop left) := by
  induction left generalizing scan bytes with
  | zero => exact ⟨scan, rfl, fun _ => hplace, rfl⟩
  | succ left ih =>
    cases bytes with
    | nil => exact ⟨scan, rfl, fun h => by simp at h, by simp⟩
    | cons byte rest =>
      have hpayload : scan.place = .payload (left + 1) nonSync := hplace
      by_cases hended : scan.ended = 0
      · have hnext : (scan.textOctet byte).place = .enter left nonSync ∧
            (scan.textOctet byte).ended = scan.ended := by
          simp [textOctet, hpayload]
        obtain ⟨after, hafter, hline, heq⟩ := ih rest hnext.1
        refine ⟨after, hafter.trans hnext.2, ?_, ?_⟩
        · intro hle
          simp only [List.length_cons] at hle
          exact hline (by omega)
        · rw [remaining, if_neg (by simp [hended]), hpayload]
          simpa [Place.inPayload] using heq
      · refine ⟨{ scan with place := .line [] }, rfl, fun _ => rfl, ?_⟩
        rw [remaining_ended hended]
        exact (@remaining_ended { scan with place := .line [] } hended _).symm

theorem remaining_line {line : Bytes} (rest : Bytes) (hended : scan.ended = 0)
    (hplace : scan.place.inPayload = false) (hline : LF ∉ line) :
    scan.remaining (line ++ LF :: rest) = line.length + 1 +
        (scan.closeLine (scan.place.lineText ++ line)).remaining rest := by
  induction line generalizing scan with
  | nil =>
    rw [List.nil_append, remaining, if_neg (by simp [hended]), hplace, textOctet_LF hplace]
    simp
  | cons byte line ih =>
    rw [List.mem_cons, not_or] at hline
    have hrest := @ih { scan with place := .line (scan.place.lineText ++ [byte]) } hended rfl
      hline.2
    rw [List.cons_append, remaining, if_neg (by simp [hended]), hplace,
      textOctet_char hplace (Ne.symm hline.1), hrest, closeLine_place]
    simp only [Place.lineText, List.append_assoc, List.singleton_append,
      List.length_cons, Bool.false_eq_true, if_false]
    omega

end Scan

/-- The octets of a command outside of its payloads: those read as text, and
those of the stream up to its end. -/
def commandOctets (dec : Decoder) : Nat := textOctets dec.log + (scan dec.log).remaining dec.rest

/-! ## The count -/

structure Counted (options : Options) (dec : Decoder) : Prop where
  text_le : (textOctets dec.log : Int) ≤ dec.readBytes + 2
  count_le : dec.readBytes ≤ options.maxSize + 3
  starved_rest : dec.starved = true → dec.rest = []

namespace Counted

variable {options : Options} {dec next : Decoder}

variable (h : Counted options dec)

include h

theorem congr (htext : textOctets next.log = textOctets dec.log)
    (hcount : next.readBytes = dec.readBytes) (hstarved : next.starved = true → next.rest = []) :
    Counted options next where
  text_le := by rw [htext, hcount]; exact h.text_le
  count_le := by rw [hcount]; exact h.count_le
  starved_rest := hstarved

theorem reads {bytes : Bytes}
    (hlimit : 0 < options.maxSize) (hreads : Reads options dec bytes next) :
    Counted options next where
  text_le := by
    have htext := h.text_le
    rw [hreads.log_eq, textOctets_append, textOctets_textEvents, hreads.count_eq]
    omega
  count_le := hreads.count_le hlimit h.count_le
  starved_rest := hreads.starved_rest_of h.starved_rest

theorem askLiteral : Counted options dec.askLiteral := by
  refine h.congr ?_ ?_ ?_
  · unfold Decoder.askLiteral
    split
    · rfl
    · split_ifs
      · rfl
      · rw [textOctets_append]
        rfl
  · unfold Decoder.askLiteral
    split
    · rfl
    · split_ifs <;> rfl
  · rw [askLiteral_starved, askLiteral_rest]
    exact h.starved_rest

theorem takeData (lit : LiteralReader)
    (count : Nat) : Counted options (dec.takeData lit count) := by
  refine h.congr ?_ rfl ?_
  · rw [Decoder.takeData, textOctets_append, textOctets_octets]
    rfl
  · intro hstarved
    rw [Decoder.takeData, h.starved_rest hstarved]
    exact List.drop_nil

theorem starve (hempty : dec.rest = []) : Counted options dec.starve := by
  have hreads : Reads options dec [] dec.starve := starve_reads hempty
  refine h.congr ?_ ?_ fun _ => ?_
  · rw [hreads.log_eq, textOctets_append]
    rfl
  · simpa using hreads.count_eq
  · have hrest := hreads.rest_eq
    rw [hempty] at hrest
    exact hrest.symm

theorem cancel (lit : LiteralReader) : Counted options (dec.cancel lit) :=
  h.congr rfl rfl h.starved_rest

theorem copyLiteral (lit : LiteralReader) : Counted options (dec.copyLiteral lit).2 := by
  unfold Decoder.copyLiteral
  split_ifs
  · refine ((h.takeData lit dec.rest.length).cancel _).starve ?_
    exact List.drop_length
  · exact (h.takeData lit lit.left).congr rfl rfl (h.takeData lit lit.left).starved_rest

theorem readLiteral (count : Nat) : Counted options (dec.readLiteral count) := by
  have hasked := h.askLiteral
  unfold Decoder.readLiteral
  cases hliteral : dec.askLiteral.literal with
  | none =>
    simp only [hliteral]
    exact hasked
  | some lit =>
    simp only [hliteral]
    split_ifs with hleft hempty
    · exact hasked.cancel lit
    · exact (hasked.cancel lit).starve (List.isEmpty_iff.mp hempty)
    · exact hasked.takeData lit _

theorem effect {call : Call} (hlimit : 0 < options.maxSize) (heffect : Effect options dec call next)
    (hcall : call.counts = false) : Counted options next := by
  cases heffect with
  | fails => exact h.reads hlimit (returnErr_reads dec _)
  | count hcounts => simp [hcounts] at hcall
  | text _ hreads | noLine _ hreads => exact h.reads hlimit hreads
  | lineEnd _ hreads =>
    have hnext := h.reads hlimit hreads
    exact hnext.congr rfl rfl hnext.starved_rest
  | failed _ _ hreads => exact h.reads hlimit hreads
  | hostile _ _ hreads =>
    have hnext := h.reads hlimit hreads
    exact hnext.congr rfl rfl hnext.starved_rest
  | refused _ hread err =>
    have hnext := h.reads hlimit hread.reads
    rw [refuse_eq]
    exact hnext.congr rfl rfl hnext.starved_rest
  | held hread =>
    have hnext := h.reads hlimit hread.reads
    exact hnext.congr rfl rfl hnext.starved_rest
  | @copied digits _ nonSync next hread =>
    have hnext := h.reads hlimit hread.reads
    have hopened : Counted options (next.opened (decimal digits) nonSync) :=
      hnext.congr rfl rfl hnext.starved_rest
    exact hopened.askLiteral.copyLiteral _
  | ask => exact h.askLiteral
  | read count => exact h.readLiteral count

end Counted

variable {options : Options} {dec : Decoder}

theorem Counted.not_starved (h : Counted options dec)
    (hover : options.maxSize + 16 < commandOctets dec) :
    dec.starved = false := by
  cases hstarved : dec.starved with
  | false => rfl
  | true =>
    have htext := h.text_le
    have hcount := h.count_le
    rw [commandOctets, h.starved_rest hstarved] at hover
    simp only [Scan.remaining] at hover
    omega

/-! ## Discarding -/

def EndsConnection (dec : Decoder) : Prop := dec.desynced = true ∨ dec.err = some .maxSizeExceeded

/--
The handler stopped where the limit is noticed: it has been hit already, or it
will be hit within a line that is read with no error recorded before, or the
line ends in an announcement `discardLine` knows.  A line that ends the command
counts as one in which the limit is hit.
-/
def NoticesLimit (options : Options) (dec : Decoder) : Prop :=
  EndsConnection dec ∨ maxDiscardLiteralSize < dec.pendingLiteral ∨
    (dec.readsLine ∧ ((options.allows (dec.readBytes + (dec.lineRest.takeWhile isLineChar).length) ∧
          endsWithNonSyncLiteral (dec.lineRest.takeWhile isLineChar) = true) ∨
        (dec.err = none ∧ (¬options.allows (dec.readBytes + lineStretch dec.lineRest) ∨
            ∃ line, restOfLine dec.lineRest = some line ∧
              announcesNonSync (dec.lineText ++ line) = false))))

theorem Follows.remaining_eq (h : Follows dec) (hclosed : dec.literal = none)
    (hended : (scan dec.log).ended = 0) :
    ∃ start : Scan, start.ended = 0 ∧ (dec.pendingLiteral ≤ dec.rest.length →
        start.place.inPayload = false ∧ start.place.lineText = dec.lineText) ∧
      (scan dec.log).remaining dec.rest = start.remaining dec.lineRest := by
  by_cases hpending : 0 < dec.pendingLiteral
  · have hplace := (h.pending_place hpending).resolve_right (by omega)
    obtain ⟨after, hafter, hline, heq⟩ := Scan.remaining_payload dec.rest hplace
    refine ⟨after, hafter.trans hended, fun hlength => ?_, heq⟩
    rw [hline hlength, Decoder.lineText, if_pos hpending]
    exact ⟨rfl, rfl⟩
  · have hzero := Nat.eq_zero_of_not_pos hpending
    refine ⟨scan dec.log, hended, fun _ => ⟨h.outside hclosed hzero, ?_⟩, ?_⟩
    · rw [Decoder.lineText, if_neg hpending]
    · rw [Decoder.lineRest, hzero]
      rfl

theorem Follows.remaining_le (h : Follows dec) (hclosed : dec.literal = none) :
    (scan dec.log).remaining dec.rest ≤ dec.lineRest.length := by
  by_cases hended : (scan dec.log).ended = 0
  · obtain ⟨start, -, -, heq⟩ := h.remaining_eq hclosed hended
    rw [heq]
    exact Scan.remaining_le start _
  · rw [Scan.remaining_ended hended]
    exact Nat.zero_le _

theorem commandOctets_le_of_line {line : Bytes} (h : Follows dec) (hcounted : Counted options dec)
    (hclosed : dec.literal = none) (hlength : dec.pendingLiteral ≤ dec.rest.length)
    (hline : restOfLine dec.lineRest = some line)
    (hplain : announcesNonSync (dec.lineText ++ line) = false)
    (hallowed : dec.readBytes + line.length ≤ options.maxSize) :
    commandOctets dec ≤ options.maxSize + 3 := by
  have htext := hcounted.text_le
  by_cases hended : (scan dec.log).ended = 0
  · obtain ⟨start, hstart, hplace, heq⟩ := h.remaining_eq hclosed hended
    obtain ⟨houtside, hsame⟩ := hplace hlength
    obtain ⟨hLF, after, hrest⟩ := restOfLine_eq hline
    have hlast : (start.closeLine (dec.lineText ++ line)).ended ≠ 0 := by
      rw [((Scan.closeLine_atEnd hstart).mpr hplain).1]
      exact Nat.one_ne_zero
    have hcount : start.remaining dec.lineRest = line.length + 1 := by
      rw [← hrest, List.append_assoc, List.singleton_append,
        Scan.remaining_line after hstart houtside hLF, hsame, Scan.remaining_ended hlast]
    rw [commandOctets, heq, hcount]
    omega
  · rw [commandOctets, Scan.remaining_ended hended]
    omega

theorem lineRest_not_all_read {next : Decoder} {bytes : Bytes} (hlimit : 0 < options.maxSize)
    (h : Follows dec) (hcounted : Counted options dec) (hclosed : dec.literal = none)
    (hover : options.maxSize + 16 < commandOctets dec)
    (hreads : Reads options dec.afterPending bytes next) :
    next.starved = false := by
  cases hstarved : next.starved with
  | false => rfl
  | true =>
    have htext := hcounted.text_le
    have hremaining := h.remaining_le hclosed
    have hempty : next.rest = [] := by
      refine hreads.starved_rest_of (fun hbefore => ?_) hstarved
      rw [show dec.afterPending.starved = dec.starved from rfl,
        hcounted.not_starved hover] at hbefore
      cases hbefore
    have hbytes : dec.lineRest = bytes := by
      have hrest : dec.lineRest = bytes ++ next.rest := hreads.rest_eq
      rw [hrest, hempty, List.append_nil]
    have hcount : next.readBytes = dec.readBytes + bytes.length := hreads.count_eq
    have hle := hreads.count_le hlimit hcounted.count_le
    rw [commandOctets] at hover
    rw [hbytes] at hremaining
    omega

section Line

variable {next : Decoder}

theorem noticesLimit_iff_of_hit (hline : dec.readsLine)
    (hsmall : dec.pendingLiteral ≤ maxDiscardLiteralSize)
    (hhit : ¬options.allows (dec.readBytes + lineStretch dec.lineRest)) :
    NoticesLimit options dec ↔ EndsConnection dec ∨ dec.err = none ∨
        (options.allows (dec.readBytes + (dec.lineRest.takeWhile isLineChar).length) ∧
          endsWithNonSyncLiteral (dec.lineRest.takeWhile isLineChar) = true) := by
  constructor
  · rintro (hends | hhuge | ⟨-, hmark | ⟨herr, -⟩⟩)
    · exact .inl hends
    · omega
    · exact .inr (.inr hmark)
    · exact .inr (.inl herr)
  · rintro (hends | herr | hmark)
    · exact .inl hends
    · exact .inr (.inr ⟨hline, .inr ⟨herr, .inl hhit⟩⟩)
    · exact .inr (.inr ⟨hline, .inl hmark⟩)

theorem noticesLimit_iff_of_read (hline : dec.readsLine)
    (hsmall : dec.pendingLiteral ≤ maxDiscardLiteralSize)
    (hallowed : options.allows (dec.readBytes + lineStretch dec.lineRest))
    (hopen : ∀ line, restOfLine dec.lineRest = some line →
      announcesNonSync (dec.lineText ++ line) = true) :
    NoticesLimit options dec ↔ EndsConnection dec ∨
        endsWithNonSyncLiteral (dec.lineRest.takeWhile isLineChar) = true := by
  have htext : options.allows (dec.readBytes + (dec.lineRest.takeWhile isLineChar).length) := by
    refine Options.allows_mono hallowed ?_
    unfold lineStretch
    omega
  constructor
  · rintro (hends | hhuge | ⟨-, ⟨-, hmark⟩ | ⟨-, hhit | ⟨line, hrest, hplain⟩⟩⟩)
    · exact .inl hends
    · omega
    · exact .inr hmark
    · exact absurd hallowed hhit
    · simp [hopen line hrest] at hplain
  · rintro (hends | hmark)
    · exact .inl hends
    · exact .inr (.inr ⟨hline, .inl ⟨htext, hmark⟩⟩)

theorem endsConnection_of_read (hserver : options.side = .server)
    (hdesynced : next.desynced = dec.desynced) (herr : next.err = dec.err) (crlf : Bool) :
    EndsConnection { next with
          crlf := crlf
          desynced := next.desynced || marksDesynced options
            (dec.afterPending.rest.takeWhile isLineChar)
          discarding := false } ↔
      EndsConnection dec ∨ endsWithNonSyncLiteral (dec.lineRest.takeWhile isLineChar) = true := by
  have hmarked := desynced_marked_iff hserver hdesynced
  simp only [EndsConnection, hmarked, herr]
  exact or_right_comm

theorem endsConnection_of_cut (hserver : options.side = .server)
    (hdesynced : next.desynced = dec.desynced)
    (herr : next.err = some (dec.err.getD .maxSizeExceeded)) (reached : Prop) [Decidable reached] :
    EndsConnection { next with
          desynced := next.desynced || (decide reached && marksDesynced options
              (dec.afterPending.rest.takeWhile isLineChar))
          discarding := false } ↔
      EndsConnection dec ∨ dec.err = none ∨ (reached ∧ endsWithNonSyncLiteral
          (dec.lineRest.takeWhile isLineChar) = true) := by
  have hrest : dec.afterPending.rest = dec.lineRest := rfl
  simp only [EndsConnection, hdesynced, herr, marksDesynced, hserver, hrest]
  cases dec.err with
  | none => simp
  | some err => simp [or_right_comm]

end Line

theorem discardLine_endsConnection {final : Decoder} (hserver : options.side = .server)
    (hlimit : 0 < options.maxSize) (h : Follows dec) (hcounted : Counted options dec)
    (hover : options.maxSize + 16 < commandOctets dec) (hdiscarded : Discarded options dec final) :
    EndsConnection final ↔ NoticesLimit options dec := by
  cases hdiscarded with
  | short hlength _ =>
    have hclosed : dec.literal = none := by
      by_contra hopen
      have hzero := h.open_pending (Option.isSome_iff_ne_none.mpr hopen)
      omega
    have htext := hcounted.text_le
    have hcount := hcounted.count_le
    have hremaining := h.remaining_le hclosed
    rw [lineRest, List.drop_of_length_le hlength.le, List.length_nil] at hremaining
    rw [commandOctets] at hover
    omega
  | gaveUp hpending hdesynced =>
    exact ⟨fun _ => .inr (.inl hpending), fun _ => .inl hdesynced⟩
  | @stayed next hpending hidle hreads hsame =>
    have hline := not_readsLine hpending hidle
    have herr : next.err = dec.err := by
      cases hbefore : dec.err with
      | some err =>
        rw [hreads.err_first (by simp [hbefore])]
        exact hbefore
      | none =>
        have hcrlf : dec.crlf = true := by
          rcases hidle with hopen | hcrlf
          · simpa [hbefore] using h.open_crlf hopen
          · exact hcrlf
        rw [hsame hcrlf]
        exact hbefore
    have hdesynced := hreads.desynced_eq
    simp [EndsConnection, NoticesLimit, hline, hpending, herr, hdesynced]
  | @line mark next hpending hlength hclosed hread hskip =>
    have hline : dec.readsLine := ⟨hclosed, hread⟩
    cases hskip with
    | starved hreads hstarved =>
      rw [lineRest_not_all_read hlimit h hcounted hclosed hover hreads] at hstarved
      cases hstarved
    | cut _ hreads hcut hhit =>
      rw [noticesLimit_iff_of_hit hline hpending hhit]
      exact endsConnection_of_cut hserver hreads.desynced_eq hcut.recorded _
    | broken _ hreads _ hrest hallowed herr =>
      rw [noticesLimit_iff_of_read hline hpending hallowed fun line hsome => by
          rw [show restOfLine dec.lineRest = none from hrest] at hsome
          cases hsome]
      exact endsConnection_of_read hserver hreads.desynced_eq herr _
    | @closed line last hend hallowed hreads herr =>
      rw [noticesLimit_iff_of_read hline hpending hallowed ?_]
      · exact endsConnection_of_read hserver hreads.desynced_eq herr _
      · intro other hother
        by_contra hplain
        have hle := commandOctets_le_of_line h hcounted hclosed hlength
          hother (by simpa using hplain) (by
            rw [length_restOfLine hother]
            exact hallowed.resolve_left (Nat.ne_of_gt hlimit))
        omega

end GoImap.Wire
