import GoImap.Decimal
import GoImap.Wire.Reading

/-!
# Reading what is there

Where the octets a method looks for are in front of the decoder, no error is
recorded, no literal is open and the limit is not reached, the method reads
exactly them.  An octet that is looked at and put back leaves no trace but the
mark of a line end cleared.
-/

namespace GoImap.Wire.Decoder

def advance (dec : Decoder) (bytes : Bytes) : Decoder := { dec with
    rest := dec.rest.drop bytes.length
    log := dec.log ++ textEvents bytes
    crlf := false
    readBytes := dec.readBytes + bytes.length }

theorem advance_advance (dec : Decoder) (first second : Bytes) :
    (dec.advance first).advance second = dec.advance (first ++ second) := by
  simp [advance, textEvents, Int.add_assoc]

variable {bytes : Bytes}

theorem advance_rest {dec : Decoder} {rest : Bytes}
    (h : dec.rest = bytes ++ rest) : (dec.advance bytes).rest = rest := by
  simp [advance, h]

structure Room (options : Options) (dec : Decoder) (count : Nat) : Prop where
  running : dec.err = none
  closed : dec.literal = none
  within : 0 < options.maxSize → dec.readBytes + count ≤ options.maxSize

section

variable {options : Options} {dec : Decoder} {byte : UInt8} {rest s : Bytes}
  {count size : Nat} {valid : UInt8 → Bool} {nonSync : Bool}

theorem Room.mono {less : Nat} (h : Room options dec count)
    (hle : less ≤ count) : Room options dec less where
  running := h.running
  closed := h.closed
  within := fun hlimit => by
    have hwithin := h.within hlimit
    omega

theorem Room.advance (h : Room options dec (bytes.length + count)) :
    Room options (dec.advance bytes) count where
  running := h.running
  closed := h.closed
  within := fun hlimit => by
    have hwithin := h.within hlimit
    simp only [Decoder.advance]
    omega

theorem readByte_advance (h : Room options dec 0) (hrest : dec.rest = byte :: rest) :
    dec.readByte options = (some byte, dec.advance [byte]) := by
  have hwithin := h.within
  rw [readByte, if_neg (by simp [h.running]), if_neg (by omega), fetchByte,
    if_neg (by simp [h.closed])]
  simp [hrest, advance, textEvents]

theorem unread_advance (hrest : dec.rest = byte :: rest) :
    (dec.advance [byte]).mustUnreadByte byte = dec.advance [] := by
  simp [mustUnreadByte, advance, textEvents, hrest]

theorem acceptByte_hit (h : Room options dec 0) (hrest : dec.rest = byte :: rest) :
    dec.acceptByte options byte = (true, dec.advance [byte]) := by
  rw [acceptByte, readByte_advance h hrest]
  simp

theorem acceptByte_miss (want : UInt8) (h : Room options dec 0)
    (hrest : dec.rest = byte :: rest) (hne : byte ≠ want) :
    dec.acceptByte options want = (false, dec.advance []) := by
  rw [acceptByte, readByte_advance h hrest]
  simp [hne, unread_advance hrest]

/-! ## Loops -/

theorem readLoop_advance (hvalid : ∀ other ∈ bytes, valid other = true) (hstop : valid byte = false)
    (read : Bytes) {fuel : Nat} (hfuel : bytes.length < fuel) (h : Room options dec bytes.length)
    (hrest : dec.rest = bytes ++ byte :: rest) :
    readLoop options valid fuel dec read = (some (read ++ bytes), dec.advance bytes) := by
  induction bytes generalizing dec fuel read with
  | nil =>
    obtain ⟨fuel, rfl⟩ := Nat.exists_eq_add_of_lt hfuel
    rw [readLoop, readByte_advance h hrest]
    simp [hstop, unread_advance hrest]
  | cons first bytes ih =>
    obtain ⟨fuel, rfl⟩ := Nat.exists_eq_add_of_lt hfuel
    rw [List.cons_append] at hrest
    rw [readLoop, readByte_advance (h.mono (Nat.zero_le _)) hrest]
    simp only [hvalid first (by simp), if_true]
    rw [ih (fun other hother => hvalid other (List.mem_cons_of_mem _ hother)) _ (by simp; omega)
      (Room.advance (h.mono (by simp; omega)))
      (advance_rest (show dec.rest = [first] ++ _ from hrest)),
      advance_advance]
    simp

theorem func_advance (hvalid : ∀ other ∈ bytes, valid other = true) (hne : bytes ≠ [])
    (hstop : valid byte = false) (h : Room options dec bytes.length)
    (hrest : dec.rest = bytes ++ byte :: rest) :
    dec.func options valid = (some bytes, dec.advance bytes) := by
  have hfuel : bytes.length < dec.rest.length + 1 := by
    rw [hrest, List.length_append]
    omega
  have hloop := readLoop_advance hvalid hstop [] hfuel h hrest
  rw [List.nil_append] at hloop
  rw [func, readWhile, hloop]
  cases bytes with
  | nil => exact absurd rfl hne
  | cons first bytes => rfl

theorem func_miss (hstop : valid byte = false) (h : Room options dec 0)
    (hrest : dec.rest = byte :: rest) :
    dec.func options valid = (none, dec.advance []) := by
  have hvalid : ∀ other ∈ ([] : Bytes), valid other = true := by simp
  have hloop := readLoop_advance hvalid hstop [] (Nat.succ_pos dec.rest.length) h hrest
  rw [func, readWhile, hloop]
  rfl

/-! ## Line ends and numbers -/

theorem acceptCRLF_advance (h : Room options dec 2) (hrest : dec.rest = CR :: LF :: rest) :
    dec.acceptCRLF options = (true, { dec.advance [CR, LF] with crlf := true }) := by
  have hspace := acceptByte_miss SP (h.mono (by omega)) hrest (by decide)
  have hreturn := acceptByte_hit (Room.advance (show Room options dec ([] : Bytes).length from
      h.mono (by simp)))
    (advance_rest (show dec.rest = [] ++ CR :: LF :: rest from hrest))
  have hfeed := acceptByte_hit
    (Room.advance (show Room options dec [CR].length from h.mono (by simp)))
    (advance_rest (show dec.rest = [CR] ++ LF :: rest from hrest))
  rw [advance_advance] at hreturn hfeed
  unfold acceptCRLF
  rw [hspace]
  simp only [hreturn, List.nil_append, hfeed]
  rfl

theorem number64_advance {value : Nat} (hvalue : value < 2 ^ 63) (hstop : isDigit byte = false)
    (h : Room options dec (formatUint value).length)
    (hrest : dec.rest = formatUint value ++ byte :: rest) :
    dec.number64 options = (some value, dec.advance (formatUint value)) := by
  rw [number64, numberStr, func_advance (fun _ => isDigit_of_mem_formatUint)
    (formatUint_ne_nil value) hstop h hrest]
  simp [parseUint_formatUint hvalue]

/-! ## Announcements -/

def sign (nonSync : Bool) : Bytes :=
  if nonSync then [plus] else []

theorem sign_advance (hside : nonSync = true → options.side = .server)
    (h : Room options dec ((sign nonSync).length + count))
    (hrest : dec.rest = sign nonSync ++ closeBrace :: rest) :
    ∃ next, (if options.side = .server then dec.acceptByte options plus
        else (false, dec)) = (nonSync, next) ∧
      next.rest = closeBrace :: rest ∧ Room options next count ∧
      ∀ bytes, next.advance bytes = dec.advance (sign nonSync ++ bytes) := by
  cases nonSync with
  | true =>
    rw [if_pos (hside rfl), acceptByte_hit (h.mono (Nat.zero_le _)) hrest]
    exact ⟨_, rfl, advance_rest (show dec.rest = [plus] ++ _ from hrest),
      Room.advance h, advance_advance dec [plus]⟩
  | false =>
    by_cases hserver : options.side = .server
    · rw [if_pos hserver, acceptByte_miss plus (h.mono (Nat.zero_le _)) hrest (by decide)]
      exact ⟨_, rfl, advance_rest hrest, Room.advance h, advance_advance dec []⟩
    · rw [if_neg hserver]
      exact ⟨_, rfl, hrest, h.mono (by simp), fun _ => rfl⟩

theorem literalReader_announced (hsize : size ≤ maxLiteralSize)
    (hside : nonSync = true → options.side = .server)
    (h : Room options dec (announced (formatUint size) nonSync ++ [CR, LF]).length)
    (hrest : dec.rest = announced (formatUint size) nonSync ++ [CR, LF] ++ rest) :
    dec.literalReader options = openLiteral options
        { dec.advance (announced (formatUint size) nonSync ++ [CR, LF]) with
          crlf := true } size nonSync := by
  have hshape : announced (formatUint size) nonSync ++ [CR, LF] =
      [openBrace] ++ (formatUint size ++ (sign nonSync ++ ([closeBrace] ++ [CR, LF]))) := by
    simp [announced, sign]
  have hbound : size < 2 ^ 63 := Nat.lt_of_le_of_lt hsize (by decide)
  rw [hshape] at h hrest ⊢
  simp only [List.append_assoc] at hrest
  rw [List.length_append] at h
  have hopen := acceptByte_hit (h.mono (Nat.zero_le _)) hrest
  have hroom := Room.advance h
  have hrest' := advance_rest hrest
  rw [List.length_append] at hroom
  have hnumber : (dec.advance [openBrace]).number64 options =
      (some size, (dec.advance [openBrace]).advance (formatUint size)) := by
    cases nonSync with
    | true =>
      exact number64_advance hbound (by decide) (hroom.mono (Nat.le_add_right _ _)) hrest'
    | false =>
      exact number64_advance hbound (by decide) (hroom.mono (Nat.le_add_right _ _)) hrest'
  obtain ⟨next, hsign, hnext, hroom', hadvance⟩ := sign_advance hside
      (by rw [← List.length_append]; exact Room.advance hroom)
      (advance_rest hrest')
  have hclose := acceptByte_hit (hroom'.mono (Nat.zero_le _)) hnext
  have hlineRest : (next.advance [closeBrace]).rest = CR :: LF :: rest := advance_rest hnext
  have hlineRoom : Room options (next.advance [closeBrace]) 2 := Room.advance hroom'
  have hline := acceptCRLF_advance hlineRoom hlineRest
  rw [literalReader, hopen]
  simp only [hnumber]
  rw [hsign]
  simp only
  rw [if_neg (Nat.not_lt.mpr hsize), hclose]
  simp only
  rw [hline]
  simp [advance_advance, hadvance]

theorem literalReader_advance (hsize : size ≤ maxLiteralSize)
    (hcheck : options.checkLiteralFunc size = none)
    (hside : nonSync = true → options.side = .server)
    (h : Room options dec (announced (formatUint size) nonSync ++ [CR, LF]).length)
    (hrest : dec.rest = announced (formatUint size) nonSync ++ [CR, LF] ++ rest) :
    dec.literalReader options = (some ⟨nonSync, size, size, false⟩,
        { dec.advance (announced (formatUint size) nonSync ++ [CR, LF]) with
          crlf := true
          literal := some ⟨nonSync, size, size, false⟩ }) := by
  rw [literalReader_announced hsize hside h hrest]
  simp [openLiteral, hcheck]

theorem askLiteral_keeps (dec : Decoder) :
    dec.askLiteral.rest = dec.rest ∧ dec.askLiteral.err = dec.err ∧
      dec.askLiteral.readBytes = dec.readBytes := by
  unfold askLiteral
  cases dec.literal with
  | none => exact ⟨rfl, rfl, rfl⟩
  | some lit =>
    simp only
    split_ifs
    · exact ⟨rfl, rfl, rfl⟩
    · exact ⟨rfl, rfl, rfl⟩

theorem copyLiteral_all {lit : LiteralReader} (hleft : lit.left = s.length)
    (hrest : dec.rest = s ++ rest) (herr : dec.err = none) :
    ∃ next, dec.copyLiteral lit = (some s, next) ∧ next.rest = rest ∧
      next.err = none ∧ next.literal = none ∧
      next.readBytes = dec.readBytes := by
  rw [copyLiteral, if_neg (by simp [hleft, hrest]), hleft, hrest, List.take_left]
  exact ⟨_, rfl, by simp [takeData, hrest], herr, rfl, rfl⟩

structure Accepts (options : Options) (size : Nat) (nonSync : Bool) : Prop where
  bounded : size ≤ maxLiteralSize
  checked : options.checkLiteralFunc size = none
  buffered : checkBuffered options ⟨nonSync, size, size, false⟩ = none

theorem bufferLiteral_advance (haccepts : Accepts options s.length nonSync)
    (hside : nonSync = true → options.side = .server)
    (h : Room options dec (announced (formatUint s.length) nonSync ++ [CR, LF]).length)
    (hrest : dec.rest = announced (formatUint s.length) nonSync ++ [CR, LF] ++ (s ++ rest)) :
    ∃ next, dec.bufferLiteral options = (some s, next) ∧ next.rest = rest ∧
      next.err = none ∧ next.literal = none ∧
      next.readBytes = dec.readBytes +
        (announced (formatUint s.length) nonSync ++ [CR, LF]).length := by
  have hreader := literalReader_advance haccepts.bounded haccepts.checked hside h hrest
  rw [bufferLiteral, hreader]
  simp only [haccepts.buffered]
  obtain ⟨hkept, herr, hcount⟩ := askLiteral_keeps
    { dec.advance (announced (formatUint s.length) nonSync ++ [CR, LF]) with
      crlf := true
      literal := some ⟨nonSync, s.length, s.length, false⟩ }
  have hleft : (⟨nonSync, s.length, s.length, false⟩ : LiteralReader).left = s.length := rfl
  obtain ⟨next, hcopy, hnext, hrunning, hclosed, hread⟩ :=
    copyLiteral_all hleft (hkept.trans (advance_rest hrest)) (herr.trans h.running)
  exact ⟨next, hcopy, hnext, hrunning, hclosed, hread.trans hcount⟩

/-! ## Refused literals -/

theorem returnErr_isSome (dec : Decoder) (err : DecoderError) :
    (dec.returnErr err).err.isSome = true := by
  unfold returnErr
  cases herr : dec.err with
  | none => rfl
  | some _ => simp [herr]

theorem literalReader_hostile (hsize : maxLiteralSize < size)
    (h : Room options dec (announced (formatUint size) nonSync).length)
    (hrest : dec.rest = announced (formatUint size) nonSync ++ rest) :
    ∃ next, dec.literalReader options = (none, next) ∧ next.err.isSome = true := by
  have hshape : announced (formatUint size) nonSync =
      [openBrace] ++ (formatUint size ++ (sign nonSync ++ [closeBrace])) := by
    simp [announced, sign]
  rw [hshape] at h hrest
  simp only [List.append_assoc] at hrest
  rw [List.length_append, List.length_append] at h
  have hopen := acceptByte_hit (h.mono (Nat.zero_le _)) hrest
  have hroom : Room options (dec.advance [openBrace]) (formatUint size).length :=
    (Room.advance h).mono (Nat.le_add_right _ _)
  obtain ⟨byte, tail, htail, hstop⟩ : ∃ byte tail,
      sign nonSync ++ ([closeBrace] ++ rest) = byte :: tail ∧ isDigit byte = false := by
    cases nonSync with
    | true => exact ⟨plus, _, rfl, by decide⟩
    | false => exact ⟨closeBrace, _, rfl, by decide⟩
  have hdigits := advance_rest hrest
  rw [htail] at hdigits
  have hfunc := func_advance (fun _ => isDigit_of_mem_formatUint)
    (formatUint_ne_nil size) hstop hroom hdigits
  rw [literalReader, hopen]
  simp only [number64, numberStr, hfunc]
  cases hparse : parseUint (formatUint size) 63 with
  | none => exact ⟨_, rfl, returnErr_isSome _ _⟩
  | some n =>
    have hn : n = size := by
      rw [parseUint_eq_some] at hparse
      rw [← hparse.2.2.1, decimal_formatUint]
    simp only [hn, if_pos hsize]
    exact ⟨_, rfl, returnErr_isSome _ _⟩

theorem bufferLiteral_refused (hrefused : ¬Accepts options s.length nonSync)
    (hside : nonSync = true → options.side = .server)
    (h : Room options dec (announced (formatUint s.length) nonSync ++ [CR, LF]).length)
    (hrest : dec.rest = announced (formatUint s.length) nonSync ++ [CR, LF] ++ rest) :
    ∃ next, dec.bufferLiteral options = (none, next) ∧ next.err.isSome = true := by
  by_cases hsize : s.length ≤ maxLiteralSize
  · have hreader := literalReader_announced hsize hside h hrest
    rw [bufferLiteral, hreader, openLiteral]
    cases hcheck : options.checkLiteralFunc s.length with
    | some err => exact ⟨_, rfl, returnErr_isSome _ _⟩
    | none =>
      cases hbuffered : checkBuffered options ⟨nonSync, s.length, s.length, false⟩ with
      | none => exact absurd ⟨hsize, hcheck, hbuffered⟩ hrefused
      | some err =>
        simp only [hbuffered]
        exact ⟨_, rfl, returnErr_isSome _ _⟩
  · rw [List.append_assoc] at hrest
    rw [List.length_append] at h
    obtain ⟨next, hreader, herr⟩ := literalReader_hostile
      (Nat.not_le.mp hsize) (h.mono (Nat.le_add_right _ _)) hrest
    exact ⟨next, by rw [bufferLiteral, hreader], herr⟩

end

end GoImap.Wire.Decoder
