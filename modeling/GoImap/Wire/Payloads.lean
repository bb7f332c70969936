import GoImap.Lib.Transition
import GoImap.Wire.Discard
import GoImap.Wire.Effect
import GoImap.Wire.Framing

/-!
# The payloads of non-synchronizing literals

The octets of a non-synchronizing literal are on their way as soon as it is
announced.  Whatever a handler does, they must be taken as data or be skipped,
or the connection must end: read as text they would be commands.

The decoder follows the literals of a command in `literal` and
`pendingLiteral`.  `Follows` says that these fields agree with the scan of what
was read.
-/

namespace GoImap.Wire

open Decoder

structure Follows (dec : Decoder) : Prop where
  discarding_eq : dec.discarding = false
  misread_eq : (scan dec.log).misread = false
  skipped_eq : skippedOctets dec.log = 0
  open_pending : dec.literal.isSome → dec.pendingLiteral = 0
  open_crlf : dec.literal.isSome → dec.err.isSome ∨ dec.crlf = true
  pending_err : 0 < dec.pendingLiteral → dec.err.isSome
  pending_place : 0 < dec.pendingLiteral → (scan dec.log).place = .enter dec.pendingLiteral true ∨
      0 < (scan dec.log).ended
  announced_eq : ∀ lit size, dec.literal = some lit →
    (scan dec.log).place = .announced size → lit = freshReader size false
  payload_eq : (scan dec.log).place.inPayload = true → (∃ lit, dec.literal = some lit ∧
      (scan dec.log).place = .enter lit.left lit.nonSync) ∨
    (dec.literal = none ∧ (scan dec.log).place = .enter dec.pendingLiteral true)

variable {bytes : Bytes} {final dec next : Decoder} {options : Options}

namespace Follows

variable {options : Options} {dec next : Decoder} {digits lead : Bytes} {nonSync : Bool}

theorem newDecoder (stream : Bytes) : Follows (newDecoder stream) where
  discarding_eq := rfl
  misread_eq := rfl
  skipped_eq := rfl
  open_pending := fun h => by cases h
  open_crlf := fun h => by cases h
  pending_err := fun h => by cases h
  pending_place := fun h => by cases h
  announced_eq := fun _ _ h => by cases h
  payload_eq := fun h => by cases h

theorem congr (h : Follows dec) (hdiscarding : next.discarding = dec.discarding)
    (hlog : next.log = dec.log) (hliteral : next.literal = dec.literal)
    (hpending : next.pendingLiteral = dec.pendingLiteral) (herr : dec.err.isSome → next.err.isSome)
    (hcrlf : dec.literal.isSome → dec.crlf = true → next.err.isSome ∨ next.crlf = true)
    : Follows next where
  discarding_eq := hdiscarding.trans h.discarding_eq
  misread_eq := by rw [hlog]; exact h.misread_eq
  skipped_eq := by rw [hlog]; exact h.skipped_eq
  open_pending := by rw [hliteral, hpending]; exact h.open_pending
  open_crlf := by
    rw [hliteral]
    intro hopen
    rcases h.open_crlf hopen with hsome | hmarked
    · exact .inl (herr hsome)
    · exact hcrlf hopen hmarked
  pending_err := by rw [hpending]; exact fun hpos => herr (h.pending_err hpos)
  pending_place := by rw [hpending, hlog]; exact h.pending_place
  announced_eq := by rw [hliteral, hlog]; exact h.announced_eq
  payload_eq := by rw [hlog, hliteral, hpending]; exact h.payload_eq

theorem outside (h : Follows dec) (hliteral : dec.literal = none)
    (hpending : dec.pendingLiteral = 0) :
    (scan dec.log).place.inPayload = false := by
  cases hplace : (scan dec.log).place.inPayload with
  | false => rfl
  | true =>
    rcases h.payload_eq hplace with ⟨lit, hlit, -⟩ | ⟨-, henter⟩
    · simp [hliteral] at hlit
    · rw [henter, hpending] at hplace
      cases hplace

theorem outside_of_reads (h : Follows dec)
    (hreads : Reads options dec bytes next) (hsome : bytes ≠ []) :
    dec.literal = none ∧ dec.pendingLiteral = 0 := by
  constructor
  · by_contra hopen
    exact hsome (hreads.blocked (Option.isSome_iff_ne_none.mpr hopen))
  · by_contra hpending
    have herr := h.pending_err (Nat.pos_of_ne_zero hpending)
    exact hsome (hreads.stopped herr h.discarding_eq).1

theorem err_isSome (hreads : Reads options dec bytes next)
    (h : dec.err.isSome) : next.err.isSome := by
  rw [hreads.err_first h]
  exact h

theorem of_outside (hdiscarding : dec.discarding = false)
    (hmisread : (scan dec.log).misread = false) (hskipped : skippedOctets dec.log = 0)
    (hliteral : dec.literal = none) (hpending : dec.pendingLiteral = 0)
    (hplace : (scan dec.log).place.inPayload = false) : Follows dec where
  discarding_eq := hdiscarding
  misread_eq := hmisread
  skipped_eq := hskipped
  open_pending := fun _ => hpending
  open_crlf := fun h => by simp [hliteral] at h
  pending_err := fun h => by omega
  pending_place := fun h => by omega
  announced_eq := fun lit _ h => by simp [hliteral] at h
  payload_eq := fun h => by simp [hplace] at h

theorem of_open {lit : LiteralReader} (hdiscarding : dec.discarding = false)
    (hmisread : (scan dec.log).misread = false) (hskipped : skippedOctets dec.log = 0)
    (hliteral : dec.literal = some lit) (hpending : dec.pendingLiteral = 0)
    (hcrlf : dec.err.isSome ∨ dec.crlf = true)
    (hplace : (scan dec.log).place = .enter lit.left lit.nonSync ∨
      (scan dec.log).place.inPayload = false ∧
        ∀ size, (scan dec.log).place = .announced size → lit = freshReader size false) :
    Follows dec where
  discarding_eq := hdiscarding
  misread_eq := hmisread
  skipped_eq := hskipped
  open_pending := fun _ => hpending
  open_crlf := fun _ => hcrlf
  pending_err := fun h => by omega
  pending_place := fun h => by omega
  announced_eq := by
    intro other size hother hannounced
    obtain rfl := Option.some.inj (hliteral.symm.trans hother)
    rcases hplace with henter | ⟨-, hfresh⟩
    · have hafter := congrArg Place.afterLine hannounced
      rw [henter, Place.afterLine_enter] at hafter
      cases hafter
    · exact hfresh size hannounced
  payload_eq := by
    intro hin
    rcases hplace with henter | ⟨hout, -⟩
    · exact .inl ⟨lit, hliteral, henter⟩
    · simp [hout] at hin

theorem place_of_open (h : Follows dec) {lit : LiteralReader} (hliteral : dec.literal = some lit) :
    (scan dec.log).place = .enter lit.left lit.nonSync ∨
      (scan dec.log).place.inPayload = false := by
  cases hplace : (scan dec.log).place.inPayload with
  | false => exact .inr rfl
  | true =>
    rcases h.payload_eq hplace with ⟨_, hsome, henter⟩ | ⟨hnone, -⟩
    · obtain rfl := Option.some.inj (hliteral.symm.trans hsome)
      exact .inl henter
    · simp [hliteral] at hnone

theorem reads (h : Follows dec) (hreads : Reads options dec bytes next)
    (hcloses : closes owesPayload (scan dec.log).place.lineText bytes = false) :
    Follows next := by
  by_cases hsome : bytes = []
  · subst hsome
    exact h.congr hreads.discarding_eq (by simpa [textEvents] using hreads.log_eq)
      hreads.literal_eq hreads.pending_eq (err_isSome hreads) hreads.kept
  · obtain ⟨hliteral, hpending⟩ := h.outside_of_reads hreads hsome
    have hscan : scan next.log = (scan dec.log).text bytes := by
      rw [hreads.log_eq, scan_textEvents]
    obtain ⟨hplace, hmisread⟩ := Scan.text_outside (h.outside hliteral hpending) hcloses
    exact of_outside (hreads.discarding_eq.trans h.discarding_eq)
      (by rw [hscan, hmisread]; exact h.misread_eq)
      (by rw [hreads.log_eq]; simpa using h.skipped_eq)
      (hreads.literal_eq.trans hliteral) (hreads.pending_eq.trans hpending)
      (by rw [hscan]; exact hplace)

/-! ### Announcements -/

theorem LF_not_mem_announced (nonSync : Bool) (hdigits : ∀ digit ∈ digits, isDigit digit = true)
    (hlead : lead ∈ lineLeads) : LF ∉ announced digits nonSync ++ lead := by
  rw [announced, List.mem_append, List.mem_append, not_or, not_or]
  exact ⟨⟨LF_not_mem_opening nonSync hdigits, by decide⟩, LF_not_mem_lead hlead⟩

section Announced

variable (h : Follows dec) (hread : ReadsAnnouncement options dec digits nonSync lead next)

include h hread

theorem scan_announcement :
    next.literal = none ∧ next.pendingLiteral = 0 ∧ scan next.log =
        if SP ∈ lead then
          { scan dec.log with
            ended := (scan dec.log).ended + 1
            place := .start }
        else if nonSync then
          { scan dec.log with place := .enter (decimal digits) true }
        else
          { scan dec.log with
            ended := (scan dec.log).ended + 1
            place := .announced (decimal digits) } := by
  obtain ⟨hliteral, hpending⟩ := h.outside_of_reads hread.reads (by simp)
  refine ⟨hread.reads.literal_eq.trans hliteral, hread.reads.pending_eq.trans hpending, ?_⟩
  rw [hread.reads.log_eq, scan_textEvents, ← List.append_assoc,
    Scan.text_closeLine (h.outside hliteral hpending)
      (LF_not_mem_announced nonSync hread.digits_all hread.lead_mem)]
  exact Scan.closeLine_announced _ _ nonSync ⟨hread.digits_some, hread.digits_all⟩ hread.lead_mem

theorem announcement_place :
    (scan next.log).misread = false ∧ ((scan next.log).place = .start ∧ 0 < (scan next.log).ended ∨
        (nonSync = true ∧ (scan next.log).place = .enter (decimal digits) true) ∨
        (nonSync = false ∧ (scan next.log).place = .announced (decimal digits))) := by
  obtain ⟨-, -, hscan⟩ := h.scan_announcement hread
  rw [hscan]
  split_ifs with hspace hsync
  · exact ⟨h.misread_eq, .inl ⟨rfl, Nat.succ_pos _⟩⟩
  · exact ⟨h.misread_eq, .inr (.inl ⟨hsync, rfl⟩)⟩
  · exact ⟨h.misread_eq, .inr (.inr ⟨by simpa using hsync, rfl⟩)⟩

theorem held :
    Follows (next.opened (decimal digits) nonSync) := by
  obtain ⟨-, hpending, -⟩ := h.scan_announcement hread
  obtain ⟨hmisread, hplaces⟩ := h.announcement_place hread
  have hskipped : skippedOctets next.log = 0 := by
    rw [hread.reads.log_eq]
    simpa using h.skipped_eq
  refine of_open (hread.reads.discarding_eq.trans h.discarding_eq) hmisread hskipped rfl
    hpending (.inr rfl) ?_
  change (scan next.log).place = _ ∨ (scan next.log).place.inPayload = _ ∧
    ∀ _, (scan next.log).place = _ → _
  rcases hplaces with ⟨hstart, -⟩ | ⟨rfl, henter⟩ | ⟨rfl, hannounced⟩
  · simp [hstart, Place.inPayload]
  · exact .inl henter
  · right
    rw [hannounced]
    exact ⟨rfl, fun size hsize => by rw [Place.announced.inj hsize]⟩

theorem refused (err : DecoderError) :
    Follows (next.refuse (decimal digits) nonSync err) := by
  obtain ⟨-, hpending, -⟩ := h.scan_announcement hread
  obtain ⟨hmisread, hplaces⟩ := h.announcement_place hread
  rw [refuse_eq]
  have hskipped : skippedOctets next.log = 0 := by
    rw [hread.reads.log_eq]
    simpa using h.skipped_eq
  refine ⟨hread.reads.discarding_eq.trans h.discarding_eq, hmisread, hskipped,
    (by simp), (by simp), fun _ => rfl, ?_, (fun _ _ hlit => by cases hlit), ?_⟩
  · intro hpos
    rcases hplaces with ⟨hstart, hended⟩ | ⟨rfl, henter⟩ | ⟨rfl, hannounced⟩
    · exact .inr hended
    · exact .inl (by simpa [hpending] using henter)
    · simp [hpending] at hpos
  intro hplace
  rcases hplaces with ⟨hstart, hended⟩ | ⟨rfl, henter⟩ | ⟨rfl, hannounced⟩
  · simp only [hstart] at hplace
    cases hplace
  · refine .inr ⟨rfl, ?_⟩
    simpa [hpending] using henter
  · simp only [hannounced] at hplace
    cases hplace

end Announced

/-! ### Open literals -/

variable (h : Follows dec)

include h

theorem askLiteral : Follows dec.askLiteral := by
  unfold Decoder.askLiteral
  cases hliteral : dec.literal with
  | none => exact h
  | some lit =>
    simp only
    split_ifs with hasked
    · exact h
    · have hsome : dec.literal.isSome := by simp [hliteral]
      have hskipped : skippedOctets (dec.log ++ [.accepted]) = 0 := by
        rw [skippedOctets_append, h.skipped_eq]
        rfl
      by_cases hplace : ∃ size, (scan dec.log).place = .announced size
      · obtain ⟨size, hsize⟩ := hplace
        have haccept : scan (dec.log ++ [.accepted]) = { scan dec.log with
              ended := (scan dec.log).ended - 1
              place := .enter size false } := by
          rw [scan_accepted, Scan.accept, hsize]
        refine of_open h.discarding_eq ?_ hskipped rfl (h.open_pending hsome)
          (h.open_crlf hsome) (.inl ?_)
        · simpa [haccept] using h.misread_eq
        · rw [haccept, h.announced_eq lit size hliteral hsize]
          rfl
      · have haccept : scan (dec.log ++ [.accepted]) = scan dec.log := by
          rw [scan_accepted, Scan.accept]
          cases hcases : (scan dec.log).place with
          | announced size => exact absurd ⟨size, hcases⟩ hplace
          | _ => rfl
        refine of_open h.discarding_eq ?_ hskipped rfl (h.open_pending hsome) (h.open_crlf hsome) ?_
        · simpa [haccept] using h.misread_eq
        · simp only [haccept]
          exact (h.place_of_open hliteral).imp_right fun hout =>
            ⟨hout, fun size hsize => absurd ⟨size, hsize⟩ hplace⟩

theorem takeData {lit : LiteralReader} {count : Nat} (hliteral : dec.literal = some lit)
    (hleft : count ≤ lit.left) (hrest : count ≤ dec.rest.length) :
    Follows (dec.takeData lit count) := by
  have hopen : dec.literal.isSome := by simp [hliteral]
  have hscan : scan (dec.takeData lit count).log = (scan dec.log).data (dec.rest.take count) :=
    scan_dataEvents dec.log _ (by decide)
  have hskipped : skippedOctets (dec.takeData lit count).log = 0 := by
    rw [Decoder.takeData, skippedOctets_append, h.skipped_eq, skippedOctets_octets]
    rfl
  have hlength := List.length_take_of_le hrest
  by_cases hzero : count = 0
  · subst hzero
    have hsame : dec.takeData lit 0 = dec := by
      simp [Decoder.takeData, ← hliteral]
    rw [hsame]
    exact h
  have hsome : dec.rest.take count ≠ [] := by
    rw [← List.length_pos_iff, hlength]
    omega
  refine of_open h.discarding_eq ?_ hskipped rfl (h.open_pending hopen) (h.open_crlf hopen) ?_
  all_goals
    rw [hscan]
    rcases h.place_of_open hliteral with henter | hplace
  · rw [Scan.data_enter _ henter (by omega)]
    exact h.misread_eq
  · rw [Scan.data_outside hplace hsome]
    exact h.misread_eq
  · rw [Scan.data_enter _ henter (by omega), hlength]
    exact .inl rfl
  · rw [Scan.data_outside hplace hsome]
    exact .inr ⟨rfl, fun _ hsize => by cases hsize⟩

theorem release {lit : LiteralReader} (hliteral : dec.literal = some lit) (hleft : lit.left = 0) :
    Follows { dec with literal := none } := by
  have hopen := h.open_pending (by simp [hliteral])
  refine of_outside h.discarding_eq h.misread_eq h.skipped_eq rfl hopen ?_
  rcases h.place_of_open hliteral with henter | hplace
  · rw [henter, hleft]
    rfl
  · exact hplace

omit h in
theorem keptByLiterals : KeptByLiterals Follows where
  ask h := h.askLiteral
  take h hliteral _ hleft hrest := h.takeData hliteral hleft hrest
  release h hliteral _ hleft := h.release hliteral hleft

end Follows

/-- The call reads no announcement as text, unless the literal is empty. -/
def TakesPayloads (options : Options) (dec : Decoder) (call : Call) : Prop :=
  call.readsText = true → closes owesPayload (scan dec.log).place.lineText
      (dec.taken (dec.step options call)) = false

instance (options : Options) (dec : Decoder) (call : Call) :
    Decidable (TakesPayloads options dec call) :=
  inferInstanceAs (Decidable (_ → _))

theorem keptByLiterals_starved : KeptByLiterals fun dec => dec.starved = true where
  ask h := (askLiteral_starved _).trans h
  take h _ _ _ _ := h
  release h _ _ _ := h

theorem effect_starved {call : Call} (heffect : Effect options dec call next)
    (h : dec.starved = true) : next.starved = true := by
  cases heffect with
  | fails => exact (@returnErr_reads options _ _).starved_of h
  | count => exact h
  | text _ hreads | noLine _ hreads | lineEnd _ hreads | failed _ _ hreads
  | hostile _ _ hreads => exact hreads.starved_of h
  | refused _ hread err =>
    rw [refuse_eq]
    exact hread.reads.starved_of h
  | held hread => exact hread.reads.starved_of h
  | copied hread =>
    exact or_self_iff.mp (keptByLiterals_starved.copyLiteral (hread.reads.starved_of h))
  | ask => exact keptByLiterals_starved.ask h
  | read count => exact or_self_iff.mp (keptByLiterals_starved.readLiteral h count)

theorem Follows.effect {call : Call} (h : Follows dec) (heffect : Effect options dec call next)
    (hcloses : call.readsText = true →
      closes owesPayload (scan dec.log).place.lineText (dec.taken next) =
        false) : next.starved = true ∨ Follows next := by
  cases heffect with
  | fails message =>
    exact .inr (h.reads (@returnErr_reads options _ _) rfl)
  | count => exact .inr (h.congr rfl rfl rfl rfl id fun _ => .inr)
  | text hcall hreads =>
    have hfree := hcloses (by simp [Call.readsText, hcall])
    rw [taken_eq hreads] at hfree
    exact .inr (h.reads hreads hfree)
  | noLine hlead hreads =>
    exact .inr (h.reads hreads (closes_of_no_LF _ (LF_not_mem_lead hlead)))
  | @lineEnd lead next hlead hreads =>
    have hfree := hcloses rfl
    have htaken : dec.taken { next with crlf := true } = lead ++ [LF] :=
      (taken_eq hreads : dec.taken next = lead ++ [LF])
    rw [htaken] at hfree
    exact .inr ((h.reads hreads hfree).congr rfl rfl rfl rfl id fun _ _ => .inr rfl)
  | failed hcall hline hreads =>
    exact .inr (h.reads hreads (closes_of_no_LF _ hline))
  | hostile hcall hline hreads =>
    have hnext := h.reads hreads (closes_of_no_LF _ hline)
    exact .inr (hnext.congr rfl rfl rfl rfl id fun _ => .inr)
  | refused hcall hread err => exact .inr (h.refused hread err)
  | held hread => exact .inr (h.held hread)
  | copied hread => exact keptByLiterals.copyLiteral (h.held hread)
  | ask => exact .inr h.askLiteral
  | read count => exact keptByLiterals.readLiteral h count

theorem step_follows (options : Options) (dec : Decoder) (call : Call)
    (h : dec.starved = true ∨ Follows dec) (hguard : TakesPayloads options dec call) :
    (dec.step options call).starved = true ∨ Follows (dec.step options call) := by
  rcases h with hstarved | hfollows
  · exact .inl (effect_starved (step_effect dec call) hstarved)
  · exact hfollows.effect (step_effect dec call) hguard

theorem run_follows {stream : Bytes} {calls : List Call}
    (hcalls : Transition.Meets (Decoder.step options) (TakesPayloads options)
      (newDecoder stream) calls) :
    ((newDecoder stream).run options calls).starved = true ∨
      Follows ((newDecoder stream).run options calls) :=
  Transition.foldl_of_meets (fun dec => dec.starved = true ∨ Follows dec)
    (fun dec call h hguard => step_follows options dec call h hguard)
    (.inr (Follows.newDecoder stream)) hcalls

/-! ## Discarding -/

/-- Everything a non-synchronizing announcement announced was taken as data or
skipped, in bounds, or the connection is to end. -/
def PayloadsTaken (dec : Decoder) : Prop := dec.desynced = true ∨
    ((scan dec.log).misread = false ∧ (scan dec.log).place.owed = 0 ∧
      skippedOctets dec.log ≤ maxDiscardLiteralSize)

instance (dec : Decoder) : Decidable (PayloadsTaken dec) :=
  inferInstanceAs (Decidable (_ ∨ _ ∧ _ ∧ _))

namespace Decoder

def readsLine (dec : Decoder) : Prop :=
  dec.literal = none ∧ (0 < dec.pendingLiteral ∨ dec.crlf = false)

def lineText (dec : Decoder) : Bytes :=
  if 0 < dec.pendingLiteral then [] else (scan dec.log).place.lineText

def lineRest (dec : Decoder) : Bytes := dec.rest.drop dec.pendingLiteral

end Decoder

theorem not_readsLine (hpending : dec.pendingLiteral = 0)
    (hidle : dec.literal.isSome ∨ dec.crlf = true) : ¬dec.readsLine := by
  rintro ⟨hclosed, hread⟩
  simp [hclosed] at hidle
  simp [hpending, hidle] at hread

theorem desynced_marked_iff (hserver : options.side = .server) (h : next.desynced = dec.desynced) :
    (next.desynced || marksDesynced options (dec.afterPending.rest.takeWhile isLineChar)) = true ↔
      dec.desynced = true ∨ endsWithNonSyncLiteral (dec.lineRest.takeWhile isLineChar) = true := by
  rw [h]
  simp [marksDesynced, hserver]
  rfl

/-- No payload is outstanding but that of an abandoned literal, and an
announcement the rest of the line completes is one `discardLine` knows. -/
def SettlesPayloads (options : Options) (dec : Decoder) : Prop :=
  dec.desynced = true ∨ maxDiscardLiteralSize < dec.pendingLiteral ∨
    ((0 < dec.pendingLiteral ∨ (scan dec.log).place.owed = 0) ∧
      (dec.readsLine → ∀ line, restOfLine dec.lineRest = some line →
        options.allows (dec.readBytes + lineStretch dec.lineRest) →
        owesPayload (dec.lineText ++ line) = true →
        endsWithNonSyncLiteral (dec.lineRest.takeWhile isLineChar) = true))

theorem Follows.afterPending (h : Follows dec) (hclosed : dec.literal = none)
    (hlength : dec.pendingLiteral ≤ dec.rest.length) :
    scan dec.afterPending.log =
        if 0 < dec.pendingLiteral then { scan dec.log with place := .line [] }
        else scan dec.log := by
  have hscan : scan dec.afterPending.log = (scan dec.log).data (dec.rest.take dec.pendingLiteral) :=
    scan_dataEvents dec.log _ (by decide)
  have htake := List.length_take_of_le hlength
  rw [hscan]
  split_ifs with hpending
  · cases hplace : (scan dec.log).place.inPayload with
    | true =>
      rcases h.payload_eq hplace with ⟨lit, hlit, -⟩ | ⟨-, henter⟩
      · simp [hclosed] at hlit
      · rw [Scan.data_enter _ henter htake.le, htake, Nat.sub_self]
        rfl
    | false =>
      refine Scan.data_outside hplace ?_
      rw [← List.length_pos_iff, htake]
      exact hpending
  · rw [Nat.eq_zero_of_not_pos hpending]
    rfl

theorem Follows.afterPending_outside (h : Follows dec) (hclosed : dec.literal = none)
    (hlength : dec.pendingLiteral ≤ dec.rest.length) :
    (scan dec.afterPending.log).place.inPayload = false ∧
      (scan dec.afterPending.log).place.lineText = dec.lineText ∧
      (scan dec.afterPending.log).misread = false ∧
      (scan dec.afterPending.log).ended = (scan dec.log).ended := by
  rw [h.afterPending hclosed hlength, lineText]
  split_ifs with hpending
  · exact ⟨rfl, rfl, h.misread_eq, rfl⟩
  · exact ⟨h.outside hclosed (Nat.eq_zero_of_not_pos hpending), rfl, h.misread_eq, rfl⟩

theorem Follows.skipped_afterPending (h : Follows dec)
    (hlength : dec.pendingLiteral ≤ dec.rest.length) :
    skippedOctets dec.afterPending.log = dec.pendingLiteral := by
  rw [Decoder.afterPending, skipPending, skippedOctets_append, h.skipped_eq, skippedOctets_octets,
    if_pos rfl, List.length_take_of_le hlength, Nat.zero_add]

theorem payloadsTaken_of_text {start : Decoder} (hplace : (scan start.log).place.inPayload = false)
    (hmisread : (scan start.log).misread = false)
    (hskipped : skippedOctets start.log ≤ maxDiscardLiteralSize)
    (hreads : Reads options start bytes next) (hbytes : LF ∉ bytes)
    (hlog : dec.log = next.log) : PayloadsTaken dec := by
  obtain ⟨houtside, hsame⟩ := Scan.text_outside hplace (@closes_of_no_LF owesPayload bytes _ hbytes)
  refine .inr ?_
  rw [hlog, hreads.log_eq, scan_textEvents, hsame, hmisread]
  exact ⟨rfl, Place.owed_of_not_inPayload houtside, by simpa using hskipped⟩

/-- What is left to say where `discardLine` reads a line to its end: whether the
line owes a payload that is not known to it. -/
theorem payloadsTaken_iff_of_line {line : Bytes} (hline : dec.readsLine)
    (hpending : dec.pendingLiteral ≤ maxDiscardLiteralSize)
    (hnone : 0 < dec.pendingLiteral ∨ (scan dec.log).place.owed = 0)
    (hrest : restOfLine dec.lineRest = some line)
    (hallowed : options.allows (dec.readBytes + lineStretch dec.lineRest))
    (hdesynced : final.desynced = true ↔ dec.desynced = true ∨
      endsWithNonSyncLiteral (dec.lineRest.takeWhile isLineChar) = true)
    (hmisread : (scan final.log).misread = false)
    (howed : (scan final.log).place.owed = 0 ↔ owesPayload (dec.lineText ++ line) = false)
    (hskipped : skippedOctets final.log ≤ maxDiscardLiteralSize) :
    PayloadsTaken final ↔ SettlesPayloads options dec := by
  have hhuge : ¬maxDiscardLiteralSize < dec.pendingLiteral := by omega
  simp only [PayloadsTaken, SettlesPayloads, hdesynced, hmisread, howed,
    hskipped, hhuge, hnone, hline, hrest, Option.some.injEq, forall_eq',
    hallowed, true_and, and_true, false_or, true_imp_iff]
  cases owesPayload (dec.lineText ++ line) with
  | true | false => simp

theorem discardLine_payloadsTaken (hserver : options.side = .server) (h : Follows dec)
    (hdiscarded : Discarded options dec final) (hfinal : final.starved = false) :
    PayloadsTaken final ↔ SettlesPayloads options dec := by
  cases hdiscarded with
  | short _ hstarved => simp [hstarved] at hfinal
  | gaveUp hpending hdesynced =>
    exact ⟨fun _ => .inr (.inl hpending), fun _ => .inl hdesynced⟩
  | @stayed next hpending hidle hreads _ =>
    have hlog : next.log = dec.log := by
      simpa [textEvents] using hreads.log_eq
    have hline := not_readsLine hpending hidle
    have hdesynced : next.desynced = dec.desynced := hreads.desynced_eq
    simp only [PayloadsTaken, SettlesPayloads, hlog, hdesynced, h.misread_eq,
      h.skipped_eq, hpending, hline]
    simp
  | @line mark next hpending hlength hclosed hread hskip =>
    obtain ⟨hplace, htext, hmisread, -⟩ := h.afterPending_outside hclosed hlength
    have hskipped : skippedOctets dec.afterPending.log ≤ maxDiscardLiteralSize := by
      rw [h.skipped_afterPending hlength]
      exact hpending
    have hnone : 0 < dec.pendingLiteral ∨ (scan dec.log).place.owed = 0 := by
      rcases Nat.eq_zero_or_pos dec.pendingLiteral with hzero | hpos
      · exact .inr (Place.owed_of_not_inPayload (h.outside hclosed hzero))
      · exact .inl hpos
    cases hskip with
    | starved _ hstarved => simp [hstarved] at hfinal
    | cut hbytes hreads _ hlimit =>
      refine iff_of_true (payloadsTaken_of_text hplace hmisread hskipped
        hreads hbytes rfl) (.inr (.inr ⟨hnone, ?_⟩))
      exact fun _ _ _ hallowed => absurd hallowed hlimit
    | broken hbytes hreads _ hrest _ _ =>
      refine iff_of_true (payloadsTaken_of_text hplace hmisread hskipped
        hreads hbytes rfl) (.inr (.inr ⟨hnone, ?_⟩))
      intro _ line hline _ _
      rw [Decoder.lineRest, show dec.rest.drop dec.pendingLiteral =
        dec.afterPending.rest from rfl, hrest] at hline
      cases hline
    | @closed line last hline hallowed hreads _ =>
      have hscan : scan last.log =
          (scan dec.afterPending.log).closeLine (dec.lineText ++ line) := by
        rw [hreads.log_eq, scan_textEvents,
          Scan.text_closeLine hplace (restOfLine_eq hline).1, htext]
      refine payloadsTaken_iff_of_line ⟨hclosed, hread⟩ hpending hnone hline
        hallowed (desynced_marked_iff hserver hreads.desynced_eq) ?_ ?_ ?_
      · rw [hscan, Scan.closeLine_misread]
        exact hmisread
      · rw [hscan, Scan.closeLine_owed, owesPayload,
          decide_eq_false_iff_not, Nat.not_lt, Nat.le_zero]
      · rw [hreads.log_eq]
        simpa using hskipped

/--
In a run that reads no announcement of a payload as text, the payloads are
taken exactly if the handler stops in a state that settles them.
-/
theorem payloads_taken_iff_settled (options : Options) (stream : Bytes)
    (calls : List Call) (hserver : options.side = .server)
    (hcalls : Transition.Meets (Decoder.step options) (TakesPayloads options)
      (newDecoder stream) calls)
    (hstarved : (((newDecoder stream).run options calls).discardLine options).starved = false) :
    PayloadsTaken (((newDecoder stream).run options calls).discardLine options) ↔
      SettlesPayloads options ((newDecoder stream).run options calls) := by
  rcases run_follows hcalls with hrun | hfollows
  · simp [discardLine_starved hrun] at hstarved
  · exact discardLine_payloadsTaken hserver hfollows
      (discardLine_outcome hfollows.open_pending) hstarved

def readUserName : List Call :=
  [.func isAtomChar, .sp, .func isAtomChar, .sp, .quoted false, .literal]

def readLogin : List Call := readUserName ++ [.sp, .quoted false, .literal, .crlf]

def shortUserName : Bytes := ascii "A1 LOGIN \x7b3+\x7d\r\nbob \x7b2+\x7d\r\npw\r\n"

theorem payloads_taken_iff_settled_shortUserName : Transition.Meets (Decoder.step plainServer)
        (TakesPayloads plainServer) (newDecoder shortUserName)
        readLogin ∧
      (((newDecoder shortUserName).run plainServer readLogin).discardLine
        plainServer).starved = false ∧
      (PayloadsTaken (((newDecoder shortUserName).run plainServer
          readLogin).discardLine plainServer) ↔
        SettlesPayloads plainServer ((newDecoder shortUserName).run
          plainServer readLogin)) :=
  ⟨by decide, by decide, payloads_taken_iff_settled _ _ _ rfl (by decide) (by decide)⟩

/-- The size does not fit into 63 bits. -/
def longUserName : Bytes := ascii "A1 LOGIN \x7b9223372036854775808+\x7d\r\nA2 LOGOUT\r\n"

/-- The digits are consumed when the number is found to be too large, and what
is left of the announcement is not recognised. -/
theorem long_announcement_read_as_command :
    let final := ((newDecoder longUserName).run plainServer
      readUserName).discardLine plainServer
    final.starved = false ∧ ¬PayloadsTaken final ∧ final.desynced = false ∧
      final.rest = ascii "A2 LOGOUT\r\n" := by
  decide

end GoImap.Wire
