import GoImap.Wire.Reading

/-!
# What a call does

Every call of a handler either reads text, or works on a literal in one of a
few ways.  `Effect` lists them, so that an invariant is proved per effect and
not per method.
-/

namespace GoImap.Wire

def freshReader (size : Nat) (nonSync : Bool) : LiteralReader where
  nonSync := nonSync
  size := size
  left := size
  asked := false

namespace Call

def opens : Call → Bool
  | .literal => true
  | .literalReader => true
  | _ => false

def counts : Call → Bool
  | .eof => true
  | .resetCount => true
  | _ => false

def plain : Call → Bool
  | .nextByteIs _ => true
  | .special _ => true
  | .sp => true
  | .func _ => true
  | .discardUntilByte _ => true
  | .quoted _ => true
  | _ => false

def readsText (call : Call) : Bool := call.plain ||
    match call with
    | .crlf => true
    | _ => false

end Call

namespace Decoder

variable {options : Options} {dec : Decoder}

def opened (dec : Decoder) (size : Nat) (nonSync : Bool) : Decoder := { dec with
    crlf := true
    literal := some (freshReader size nonSync) }

def refuse (dec : Decoder) (size : Nat) (nonSync : Bool) (err : DecoderError) : Decoder :=
  ((dec.opened size nonSync).cancel (freshReader size nonSync)).returnErr err

structure ReadsAnnouncement (options : Options) (dec : Decoder)
    (digits : Bytes) (nonSync : Bool) (lead : Bytes) (next : Decoder) : Prop
    where
  digits_some : digits ≠ []
  digits_all : ∀ digit ∈ digits, isDigit digit = true
  lead_mem : lead ∈ lineLeads
  reads : Reads options dec (announced digits nonSync ++ (lead ++ [LF])) next

inductive Effect (options : Options) (dec : Decoder) : Call → Decoder → Prop
  | fails (message : String) : Effect options dec (.fail message) (dec.returnErr (.expect message))
  | count {call : Call} (hcall : call.counts = true) (count : Int) :
      Effect options dec call { dec with readBytes := count }
  | text {call : Call} {bytes : Bytes} {next : Decoder}
      (hcall : call.plain = true) (hreads : Reads options dec bytes next) :
      Effect options dec call next
  | noLine {lead : Bytes} {next : Decoder} (hlead : lead ∈ lineLeads)
      (hreads : Reads options dec lead next) : Effect options dec .crlf next
  | lineEnd {lead : Bytes} {next : Decoder} (hlead : lead ∈ lineLeads)
      (hreads : Reads options dec (lead ++ [LF]) next) :
      Effect options dec .crlf { next with crlf := true }
  | failed {call : Call} {bytes : Bytes} {next : Decoder}
      (hcall : call.opens = true) (hline : LF ∉ bytes)
      (hreads : Reads options dec bytes next) : Effect options dec call next
  | hostile {call : Call} {bytes : Bytes} {next : Decoder}
      (hcall : call.opens = true) (hline : LF ∉ bytes)
      (hreads : Reads options dec bytes next) :
      Effect options dec call { next with desynced := true }
  | refused {call : Call} {digits lead : Bytes} {nonSync : Bool}
      {next : Decoder} (hcall : call.opens = true)
      (h : ReadsAnnouncement options dec digits nonSync lead next)
      (err : DecoderError) :
      Effect options dec call (next.refuse (decimal digits) nonSync err)
  | held {digits lead : Bytes} {nonSync : Bool} {next : Decoder}
      (h : ReadsAnnouncement options dec digits nonSync lead next) :
      Effect options dec .literalReader (next.opened (decimal digits) nonSync)
  | copied {digits lead : Bytes} {nonSync : Bool} {next : Decoder}
      (h : ReadsAnnouncement options dec digits nonSync lead next) :
      Effect options dec .literal ((next.opened (decimal digits) nonSync).askLiteral.copyLiteral
          (freshReader (decimal digits) nonSync)).2
  | ask : Effect options dec .askLiteral dec.askLiteral
  | read (count : Nat) : Effect options dec (.readLiteral count) (dec.readLiteral count)

theorem openLiteral_marked (dec : Decoder) (size : Nat) (nonSync : Bool) :
    { dec with crlf := true }.openLiteral options size nonSync =
      match options.checkLiteralFunc size with
      | some err => (none, dec.refuse size nonSync err)
      | none => (some (freshReader size nonSync), dec.opened size nonSync) :=
  rfl

theorem literalReader_effect (dec : Decoder) :
    Effect options dec .literalReader (dec.literalReader options).2 := by
  have hstart := @literalReader_start options dec
  generalize dec.literalReader options = outcome at hstart ⊢
  cases hstart with
  | failed hline hreads => exact .failed rfl hline hreads
  | hostile hline hreads => exact .hostile rfl hline hreads
  | opened hdigits hlead hreads =>
    have h := ReadsAnnouncement.mk hdigits.1 hdigits.2 hlead hreads
    rw [openLiteral_marked]
    split
    · exact .refused rfl h _
    · exact .held h

theorem bufferLiteral_effect (dec : Decoder) :
    Effect options dec .literal (dec.bufferLiteral options).2 := by
  have hstart := @literalReader_start options dec
  unfold bufferLiteral
  generalize dec.literalReader options = outcome at hstart ⊢
  cases hstart with
  | failed hline hreads => exact .failed rfl hline hreads
  | hostile hline hreads => exact .hostile rfl hline hreads
  | opened hdigits hlead hreads =>
    have h := ReadsAnnouncement.mk hdigits.1 hdigits.2 hlead hreads
    rw [openLiteral_marked]
    cases options.checkLiteralFunc (decimal _) with
    | some err => exact .refused rfl h err
    | none =>
      simp only
      split
      · exact .refused rfl h _
      · exact .copied h

theorem acceptCRLF_effect (dec : Decoder) :
    Effect options dec .crlf (dec.acceptCRLF options).2 := by
  have hline := @acceptCRLF_lineEnd options dec
  generalize dec.acceptCRLF options = outcome at hline ⊢
  cases hline with
  | missing hlead hreads => exact .noLine hlead hreads
  | found hlead hreads => exact .lineEnd hlead hreads

theorem eof_effect (dec : Decoder) : Effect options dec .eof dec.eof.2 := by
  unfold eof
  split
  · exact .count rfl dec.readBytes
  · exact .count rfl _

theorem step_effect (dec : Decoder) (call : Call) :
    Effect options dec call (dec.step options call) := by
  cases call with
  | fail message => exact .fails message
  | eof => exact eof_effect dec
  | resetCount => exact .count rfl 0
  | nextByteIs want => exact .text rfl (nextByteIs_reads dec want)
  | special want => exact .text rfl (acceptByte_reads dec want)
  | sp =>
    obtain ⟨bytes, hreads, -⟩ := @sp_reads options dec
    exact .text rfl hreads
  | crlf => exact acceptCRLF_effect dec
  | func valid =>
    obtain ⟨bytes, hreads, -⟩ := @func_reads options dec valid
    exact .text rfl hreads
  | discardUntilByte untilCh =>
    obtain ⟨bytes, hreads, -⟩ := @readLoop_reads options (· ≠ untilCh) (dec.rest.length + 1) dec []
    exact .text rfl hreads
  | quoted allowStrayQuotes =>
    obtain ⟨bytes, hreads⟩ := @quoted_reads options dec allowStrayQuotes
    exact .text rfl hreads
  | literal => exact bufferLiteral_effect dec
  | literalReader => exact literalReader_effect dec
  | askLiteral => exact .ask
  | readLiteral count => exact .read count

/-! ## Literals -/

theorem refuse_eq (dec : Decoder) (size : Nat) (nonSync : Bool) (err : DecoderError) :
    dec.refuse size nonSync err = { dec with
        crlf := true
        literal := none
        pendingLiteral :=
          if nonSync then dec.pendingLiteral + size else dec.pendingLiteral
        err := some (dec.err.getD err) } := by
  rw [refuse, returnErr_eq]
  rfl

@[simp] theorem askLiteral_rest (dec : Decoder) : dec.askLiteral.rest = dec.rest := by
  unfold askLiteral
  split
  · rfl
  · split_ifs <;> rfl

@[simp] theorem askLiteral_starved (dec : Decoder) : dec.askLiteral.starved = dec.starved := by
  unfold askLiteral
  split
  · rfl
  · split_ifs <;> rfl

theorem askLiteral_literal {lit : LiteralReader} (h : dec.literal = some lit) :
    dec.askLiteral.literal = some (if lit.nonSync ∨ lit.asked then lit
        else { lit with asked := true }) := by
  simp only [askLiteral, h]
  split_ifs
  · exact h
  · rfl

theorem askLiteral_none (h : dec.literal = none) : dec.askLiteral = dec := by
  simp [askLiteral, h]

theorem cancel_zero {lit : LiteralReader} (h : lit.left = 0) :
    dec.cancel lit = { dec with literal := none } := by
  simp [cancel, h]

theorem askLiteral_asked {lit : LiteralReader}
    (h : dec.askLiteral.literal = some lit) : lit.nonSync ∨ lit.asked := by
  cases hliteral : dec.literal with
  | none => simp [askLiteral_none hliteral, hliteral] at h
  | some before =>
    rw [askLiteral_literal hliteral, Option.some.injEq] at h
    split_ifs at h with hasked
    · exact h ▸ hasked
    · exact .inr (h ▸ rfl)

/-- What stays true however an open literal is read. -/
structure KeptByLiterals (P : Decoder → Prop) : Prop where
  ask {dec : Decoder} (h : P dec) : P dec.askLiteral
  take {dec : Decoder} {lit : LiteralReader} {count : Nat} (h : P dec)
    (hliteral : dec.literal = some lit) (hasked : lit.nonSync ∨ lit.asked)
    (hleft : count ≤ lit.left) (hrest : count ≤ dec.rest.length) : P (dec.takeData lit count)
  release {dec : Decoder} {lit : LiteralReader} (h : P dec) (hliteral : dec.literal = some lit)
    (hasked : lit.nonSync ∨ lit.asked) (hleft : lit.left = 0) : P { dec with literal := none }

namespace KeptByLiterals

variable {P : Decoder → Prop} (hkept : KeptByLiterals P)

include hkept

theorem readLiteral (h : P dec) (count : Nat) :
    (dec.readLiteral count).starved = true ∨ P (dec.readLiteral count) := by
  have hask := hkept.ask h
  unfold Decoder.readLiteral
  cases hlit : dec.askLiteral.literal with
  | none =>
    simp only [hlit]
    exact .inr hask
  | some lit =>
    have hasked := askLiteral_asked hlit
    simp only [hlit]
    split_ifs with hleft
    · rw [cancel_zero hleft]
      exact .inr (hkept.release hask hlit hasked hleft)
    · exact .inl rfl
    · exact .inr (hkept.take hask hlit hasked (by omega) (by omega))

theorem copyLiteral {size : Nat} {nonSync : Bool} (h : P (dec.opened size nonSync)) :
    ((dec.opened size nonSync).askLiteral.copyLiteral (freshReader size nonSync)).2.starved = true ∨
      P ((dec.opened size nonSync).askLiteral.copyLiteral (freshReader size nonSync)).2 := by
  have hask := hkept.ask h
  obtain ⟨lit, hlit, hleft⟩ : ∃ lit, (dec.opened size nonSync).askLiteral.literal = some lit ∧
      lit.left = size := by
    rw [askLiteral_literal rfl]
    refine ⟨_, rfl, ?_⟩
    split_ifs <;> rfl
  have hasked := askLiteral_asked hlit
  unfold Decoder.copyLiteral
  split_ifs with hshort
  · exact .inl rfl
  · have htaken := hkept.take hask hlit hasked (Nat.le_refl _)
      (by rw [hleft]; exact Nat.not_lt.mp hshort)
    have hreleased := hkept.release htaken rfl hasked (Nat.sub_self _)
    exact .inr (by simpa [takeData, hleft, freshReader] using hreleased)

end KeptByLiterals

/-! ## Taken octets -/

def taken (dec next : Decoder) : Bytes := dec.rest.take (dec.rest.length - next.rest.length)

theorem taken_eq {bytes : Bytes} {next : Decoder}
    (hreads : Reads options dec bytes next) : dec.taken next = bytes := by
  rw [taken, hreads.rest_eq]
  simp

theorem copyLiteral_rest (dec : Decoder) (lit : LiteralReader) :
    ∃ count, (dec.copyLiteral lit).2.rest = dec.rest.drop count := by
  unfold copyLiteral
  split_ifs
  · refine ⟨dec.rest.length, ?_⟩
    simp [starve, returnErr_eq, cancel, takeData]
  · exact ⟨lit.left, rfl⟩

theorem taken_announcement {digits lead : Bytes} {nonSync : Bool} {next final : Decoder}
    {count : Nat} (h : ReadsAnnouncement options dec digits nonSync lead next)
    (hrest : final.rest = next.rest.drop count) :
    dec.taken final = announced digits nonSync ++ (lead ++ LF :: next.rest.take count) := by
  have hcount : dec.rest.length - final.rest.length =
      (announced digits nonSync ++ (lead ++ [LF])).length + min count next.rest.length := by
    rw [hrest, h.reads.rest_eq, List.length_append, List.length_drop]
    omega
  rw [taken, hcount, h.reads.rest_eq, List.take_length_add_append, ← List.take_eq_take_min]
  simp

end Decoder

end GoImap.Wire
