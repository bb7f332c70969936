import GoImap.Decimal
import GoImap.Wire.Reading

/-!
# The encoder

The encoder appends to what it has written; an error is recorded once and
stops all writing but that to a literal.  A string is written as an atom, in
quotes or as a literal.  A client announces a literal with a plus sign, unless
it has to wait for a continuation request first.

That the connection takes what is written is assumed.  What a continuation
request comes to is part of the settings, since a string asks for one at most.
-/

namespace GoImap.Wire

/-- `newContinuationRequest` is none if there is no request, and otherwise what
waiting for it returns. -/
structure EncoderOptions where
  side : ConnSide
  quotedUTF8 : Bool
  literalMinus : Bool
  literalPlus : Bool
  newContinuationRequest : Option (Except String Unit)

structure Encoder where
  written : Bytes := []
  err : Option String := none
  literal : Bool := false

/-- `errorWriter`, or `literalWriter` with the octets still to be written. -/
inductive LiteralWriter where
  | failed (err : String)
  | writing (left : Nat)

def isAtom (s : Bytes) : Bool := s ≠ [] ∧ s.all isAtomChar

namespace EncoderOptions

variable (options : EncoderOptions)

def validQuoted (s : Bytes) : Bool := s.length ≤ 4096 ∧
    s.all fun ch => ch ∉ [0, CR, LF] ∧ (options.quotedUTF8 ∨ ch ≤ 127)

def needsSync (s : Bytes) : Bool :=
  options.side = .client ∧ (!options.literalMinus ∨ s.length > 4096) ∧ !options.literalPlus

end EncoderOptions

namespace Encoder

def setErr (enc : Encoder) (err : String) : Encoder :=
  match enc.err with
  | none => { enc with err := some err }
  | some _ => enc

def writeString (enc : Encoder) (s : Bytes) : Encoder :=
  if enc.err.isSome then enc
  else if enc.literal then
    { enc with err := some "imapwire: cannot encode while a literal is open" }
  else { enc with written := enc.written ++ s }

def atom (enc : Encoder) (s : Bytes) : Encoder := enc.writeString s

def sp (enc : Encoder) : Encoder := enc.writeString [SP]

def special (enc : Encoder) (ch : UInt8) : Encoder := enc.writeString [ch]

def number (enc : Encoder) (v : UInt32) : Encoder := enc.writeString (formatUint v.toNat)

def escape (s : Bytes) : Bytes := s.flatMap fun ch =>
    if ch = quote ∨ ch = backslash then [backslash, ch] else [ch]

def quoted (enc : Encoder) (s : Bytes) : Encoder := enc.writeString (quote :: escape s ++ [quote])

def number64 (enc : Encoder) (value : Nat) : Encoder := enc.writeString (formatUint value)

variable (options : EncoderOptions)

/-- `Literal`.  The panic for a server that waits is left out: no server asks
for a continuation. -/
def openLiteral (enc : Encoder) (size : Nat)
    (sync : Option (Except String Unit)) : Encoder × LiteralWriter :=
  let enc := (enc.writeString [openBrace]).number64 size
  let enc :=
    if sync.isNone ∧ options.side = .client then enc.writeString [plus]
    else enc
  let enc := (enc.writeString [closeBrace]).writeString [CR, LF]
  match sync, enc.err with
  | some _, some err => (enc, .failed err)
  | some (.error err), none => (enc.setErr err, .failed err)
  | _, _ => ({ enc with literal := true }, .writing size)

/-- `Write` and `Close` of a literal: the octets go to the connection, whether
an error is recorded or not. -/
def writeLiteral (enc : Encoder) (s : Bytes) : LiteralWriter → Encoder
  | .failed err => enc.setErr err
  | .writing left =>
    if left < s.length then
      { enc with literal := false }.setErr "wrote too many bytes in literal"
    else
      let enc := { enc with written := enc.written ++ s, literal := false }
      if left = s.length then enc
      else enc.setErr ("wrote too few bytes in literal (" ++
        toString (left - s.length) ++ " remaining)")

def stringLiteral (enc : Encoder) (s : Bytes) : Encoder :=
  if options.needsSync s then
    match options.newContinuationRequest with
    | none => enc.setErr "imapwire: cannot send synchronizing literal"
    | some wait =>
      let (enc, writer) := enc.openLiteral options s.length (some wait)
      enc.writeLiteral s writer
  else
    let (enc, writer) := enc.openLiteral options s.length none
    enc.writeLiteral s writer

def string (enc : Encoder) (s : Bytes) : Encoder :=
  if !options.validQuoted s then enc.stringLiteral options s
  else enc.quoted s

def aString (enc : Encoder) (s : Bytes) : Encoder :=
  if isAtom s then enc.atom s else enc.string options s

end Encoder

def newEncoder : Encoder := {}

/-! ## What is written -/

/-- The form a string takes: what is written as text, line end included, and
the payload of a literal. -/
structure StringForm where
  text : Bytes
  payload : Bytes

namespace StringForm

def bytes (form : StringForm) : Bytes := form.text ++ form.payload

def atom (s : Bytes) : StringForm := ⟨s, []⟩

def quoted (s : Bytes) : StringForm := ⟨quote :: Encoder.escape s ++ [quote], []⟩

def literal (s : Bytes) (nonSync : Bool) : StringForm :=
  ⟨Decoder.announced (formatUint s.length) nonSync ++ [CR, LF], s⟩

end StringForm

variable {s : Bytes} {byte : UInt8}

namespace EncoderOptions

variable (options : EncoderOptions)

def nonSync (s : Bytes) : Bool := options.side = .client ∧ options.needsSync s = false

def stringForm (s : Bytes) : StringForm :=
  if options.validQuoted s then .quoted s
  else .literal s (options.nonSync s)

def aStringForm (s : Bytes) : StringForm :=
  if isAtom s then .atom s else options.stringForm s

/-- The literal may be sent: by a server, by a client without waiting, or
since the continuation is granted. -/
def MaySend (s : Bytes) : Prop :=
  options.side = .server ∨ options.literalPlus = true ∨
    (options.literalMinus = true ∧ s.length ≤ 4096) ∨
    options.newContinuationRequest = some (.ok ())

instance (s : Bytes) : Decidable (options.MaySend s) :=
  inferInstanceAs (Decidable (_ ∨ _ ∨ (_ ∧ _) ∨ _))

theorem needsSync_of_maySend (h : options.MaySend s) (hsync : options.needsSync s = true) :
    options.newContinuationRequest = some (.ok ()) := by
  rw [needsSync, decide_eq_true_eq] at hsync
  rcases h with hserver | hplus | ⟨hminus, hlength⟩ | hgranted
  · rw [hserver] at hsync
    cases hsync.1
  · simp [hplus] at hsync
  · simp [hminus] at hsync
    omega
  · exact hgranted

end EncoderOptions

namespace Encoder

variable {options : EncoderOptions}

@[simp] theorem writeString_ready (before s : Bytes) :
    writeString ⟨before, none, false⟩ s = ⟨before ++ s, none, false⟩ :=
  rfl

theorem openLiteral_ready (before : Bytes) (size : Nat) (sync : Option (Except String Unit)) :
    openLiteral options ⟨before, none, false⟩ size sync =
      match sync with
      | some (.error err) =>
        (⟨before ++ (Decoder.announced (formatUint size) false ++
          [CR, LF]), some err, false⟩, .failed err)
      | some (.ok ()) =>
        (⟨before ++ (Decoder.announced (formatUint size) false ++
          [CR, LF]), none, true⟩, .writing size)
      | none =>
        (⟨before ++ (Decoder.announced (formatUint size)
          (options.side = .client) ++ [CR, LF]), none, true⟩,
          .writing size) := by
  cases sync with
  | none =>
    by_cases hclient : options.side = .client
    · simp [openLiteral, number64, Decoder.announced, hclient]
    · simp [openLiteral, number64, Decoder.announced, hclient]
  | some wait =>
    cases wait with
    | error err => simp [openLiteral, number64, Decoder.announced, setErr]
    | ok granted => simp [openLiteral, number64, Decoder.announced]

theorem stringLiteral_ready (before : Bytes) (h : options.MaySend s) :
    stringLiteral options ⟨before, none, false⟩ s =
      ⟨before ++ (StringForm.literal s (options.nonSync s)).bytes, none, false⟩ := by
  rw [stringLiteral]
  cases hsync : options.needsSync s with
  | true =>
    rw [options.needsSync_of_maySend h hsync]
    simp [openLiteral_ready, writeLiteral, EncoderOptions.nonSync, hsync,
      StringForm.literal, StringForm.bytes]
  | false =>
    simp [openLiteral_ready, writeLiteral, EncoderOptions.nonSync, hsync,
      StringForm.literal, StringForm.bytes]

theorem stringLiteral_written (before s : Bytes) :
    ∃ out, (out = [] ∨ ∃ nonSync payload, (payload = s ∨ payload = []) ∧
        out = Decoder.announced (formatUint s.length) nonSync ++ [CR, LF] ++ payload) ∧
      (stringLiteral options ⟨before, none, false⟩ s).written = before ++ out := by
  rw [stringLiteral]
  cases options.needsSync s with
  | false =>
    refine ⟨_, .inr ⟨options.side = .client, s, .inl rfl, rfl⟩, ?_⟩
    simp [openLiteral_ready, writeLiteral]
  | true =>
    cases options.newContinuationRequest with
    | none => exact ⟨[], .inl rfl, by simp [setErr]⟩
    | some wait =>
      cases wait with
      | error err =>
        refine ⟨_, .inr ⟨false, [], .inr rfl, rfl⟩, ?_⟩
        simp [openLiteral_ready, writeLiteral, setErr]
      | ok granted =>
        refine ⟨_, .inr ⟨false, s, .inl rfl, rfl⟩, ?_⟩
        simp [openLiteral_ready, writeLiteral]

theorem string_ready (before : Bytes) (h : options.validQuoted s = true ∨ options.MaySend s) :
    string options ⟨before, none, false⟩ s =
      ⟨before ++ (options.stringForm s).bytes, none, false⟩ := by
  rw [string, EncoderOptions.stringForm]
  cases hquoted : options.validQuoted s with
  | true => simp [quoted, StringForm.quoted, StringForm.bytes]
  | false =>
    have hsend : options.MaySend s := by simpa [hquoted] using h
    simp [stringLiteral_ready before hsend]

theorem aString_ready (before : Bytes)
    (h : isAtom s = true ∨ options.validQuoted s = true ∨ options.MaySend s) :
    aString options ⟨before, none, false⟩ s =
      ⟨before ++ (options.aStringForm s).bytes, none, false⟩ := by
  rw [aString, EncoderOptions.aStringForm]
  cases hatom : isAtom s with
  | true => simp [atom, StringForm.atom, StringForm.bytes]
  | false =>
    have hstring : options.validQuoted s = true ∨ options.MaySend s := by
      simpa [hatom] using h
    simp [string_ready before hstring]

end Encoder

/-! ## Framing -/

def isPlain (byte : UInt8) : Bool := byte ∉ [0, CR, LF]

/-- In the output for a string the other octets are only in the line end of an
announcement and in the payload, which is missing if the literal is refused. -/
inductive StringFramed (s : Bytes) : Bytes → Prop where
  | text {bytes : Bytes} (hplain : ∀ byte ∈ bytes, isPlain byte = true) : StringFramed s bytes
  | literal {line payload : Bytes} (nonSync : Bool)
      (hline : line = Decoder.announced (formatUint s.length) nonSync)
      (hplain : ∀ byte ∈ line, isPlain byte = true)
      (hpayload : payload = s ∨ payload = []) :
      StringFramed s (line ++ [CR, LF] ++ payload)

theorem isPlain_of {valid : UInt8 → Bool}
    (hnone : [0, CR, LF].any valid = false) (h : valid byte = true) :
    isPlain byte = true := by
  rw [isPlain, decide_eq_true_eq]
  intro hmem
  exact List.any_eq_false.mp hnone byte hmem h

theorem isPlain_of_isDigit (h : isDigit byte = true) : isPlain byte = true :=
  isPlain_of (by decide) h

theorem isPlain_of_isAtomChar (h : isAtomChar byte = true) : isPlain byte = true :=
  isPlain_of (by decide) h

section

variable {P : UInt8 → Prop}

theorem forall_mem_announced (hopen : P openBrace) (hdigit : ∀ byte, isDigit byte = true → P byte)
    (hplus : P plus) (hclose : P closeBrace) (size : Nat) (nonSync : Bool) :
    ∀ byte ∈ Decoder.announced (formatUint size) nonSync, P byte := by
  intro byte hbyte
  simp only [Decoder.announced, List.cons_append, List.mem_cons,
    List.mem_append, List.not_mem_nil, or_false] at hbyte
  rcases hbyte with rfl | (hmem | hsign) | rfl
  · exact hopen
  · exact hdigit byte (isDigit_of_mem_formatUint hmem)
  · cases nonSync with
    | true =>
      rw [List.mem_singleton.mp hsign]
      exact hplus
    | false => cases hsign
  · exact hclose

theorem forall_mem_quoted (hquote : P quote) (hbackslash : P backslash) (h : ∀ byte ∈ s, P byte) :
    ∀ byte ∈ quote :: Encoder.escape s ++ [quote], P byte := by
  intro byte hbyte
  simp only [Encoder.escape, List.cons_append, List.mem_cons, List.mem_append,
    List.mem_flatMap, List.not_mem_nil, or_false] at hbyte
  rcases hbyte with rfl | ⟨ch, hch, hbyte⟩ | rfl
  · exact hquote
  · split_ifs at hbyte
    · simp only [List.mem_cons, List.not_mem_nil, or_false] at hbyte
      rcases hbyte with rfl | rfl
      · exact hbackslash
      · exact h byte hch
    · rw [List.mem_singleton.mp hbyte]
      exact h ch hch
  · exact hquote

end

theorem isPlain_announced (size : Nat) (nonSync : Bool) :
    ∀ byte ∈ Decoder.announced (formatUint size) nonSync, isPlain byte = true :=
  forall_mem_announced (by decide) (fun _ h => isPlain_of_isDigit h)
    (by decide) (by decide) size nonSync

theorem isPlain_quoted {options : EncoderOptions} (h : options.validQuoted s = true) :
    ∀ byte ∈ quote :: Encoder.escape s ++ [quote], isPlain byte = true := by
  rw [EncoderOptions.validQuoted, decide_eq_true_eq, List.all_eq_true] at h
  refine forall_mem_quoted (by decide) (by decide) fun byte hbyte => ?_
  exact decide_eq_true (of_decide_eq_true (h.2 byte hbyte)).1

namespace StringFramed

variable (options : EncoderOptions) (s : Bytes)

theorem stringLiteral : StringFramed s (newEncoder.stringLiteral options s).written := by
  obtain ⟨out, hout, hwritten⟩ := @Encoder.stringLiteral_written options [] s
  rw [newEncoder, hwritten, List.nil_append]
  rcases hout with rfl | ⟨nonSync, payload, hpayload, rfl⟩
  · exact .text (by simp)
  · exact .literal nonSync rfl (isPlain_announced _ _) hpayload

theorem string : StringFramed s (newEncoder.string options s).written := by
  rw [Encoder.string]
  cases hquoted : options.validQuoted s with
  | true => exact .text (isPlain_quoted hquoted)
  | false => exact stringLiteral options s

theorem aString : StringFramed s (newEncoder.aString options s).written := by
  rw [Encoder.aString]
  split_ifs with hatom
  · rw [isAtom, decide_eq_true_eq, List.all_eq_true] at hatom
    exact .text fun byte hbyte => isPlain_of_isAtomChar (hatom.2 byte hbyte)
  · exact string options s

end StringFramed

end GoImap.Wire
