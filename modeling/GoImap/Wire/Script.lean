import GoImap.NumSet.Text
import GoImap.Wire.Flags
import GoImap.Wire.Mailbox

/-!
# Lines as scripts

A response is written by calls of the encoder, and then ended.  The calls
return nothing, and an error stays with the encoder until the end of the line,
where it is returned; so what is in front of it has been written.  A writer may
also return on its own in the middle of a line.
-/

namespace GoImap.Wire

/-- `Atom`, `SP`, `Special`, `Number`, `ModSeq`, `NIL` and `Text` write a text
as it is.  A literal is written in chunks, and closed if its writer does so;
`giveUp` returns an error without ending the line, `panics` does not return. -/
inductive Op where
  | text (s : Bytes)
  | quoted (s : Bytes)
  | string (s : Bytes)
  | mailbox (name : Bytes)
  | number64 (v : Int)
  | flag (flag : Flag)
  | mailboxAttr (attr : Bytes)
  | numSet (s : Bytes)
  | literal (size : Int) (chunks : List Bytes) (closed : Bool)
  | giveUp (err : String)
  | panics

inductive Outcome where
  | done
  | failed (err : String)
  | panicked
  deriving DecidableEq, Repr

namespace Encoder

def numSet (enc : Encoder) (s : Bytes) : Encoder :=
  if s = [] then enc.setErr "imapwire: cannot encode empty sequence set"
  else enc.writeString s

/-- `Write` of a literal with the number of octets left, for each chunk. -/
def writeChunks (enc : Encoder) (left : Nat) : List Bytes → Encoder
  | [] => enc
  | b :: rest =>
    if left < b.length then writeChunks enc left rest
    else
      writeChunks { enc with written := enc.written ++ b } (left - b.length) rest

variable (options : EncoderOptions)

/-- What `Close` returns is not recorded. -/
def literalItem (enc : Encoder) (size : Nat) (chunks : List Bytes) (closed : Bool) : Encoder :=
  match enc.openLiteral options size none with
  | (enc, .failed _) => enc
  | (enc, .writing left) =>
    let enc := enc.writeChunks left chunks
    if closed then { enc with literal := false } else enc

/-- A number or a literal with a negative size is a panic. -/
def apply (enc : Encoder) : Op → Encoder × Outcome
  | .text s => (enc.writeString s, .done)
  | .quoted s => (enc.quoted s, .done)
  | .string s => (enc.string options s, .done)
  | .mailbox name => (enc.mailbox options name, .done)
  | .number64 v =>
    if v < 0 then (enc, .panicked) else (enc.number64 v.toNat, .done)
  | .flag flag => (enc.flag flag, .done)
  | .mailboxAttr attr => (enc.mailboxAttr attr, .done)
  | .numSet s => (enc.numSet s, .done)
  | .literal size chunks closed =>
    if size < 0 then (enc.writeString [openBrace], .panicked)
    else (enc.literalItem options size.toNat chunks closed, .done)
  | .giveUp err => (enc, .failed err)
  | .panics => (enc, .panicked)

def run (enc : Encoder) : List Op → Encoder × Outcome
  | [] => (enc, .done)
  | op :: rest =>
    match enc.apply options op with
    | (enc, .done) => run enc rest
    | result => result

def crlf (enc : Encoder) : Encoder × Outcome :=
  let enc := enc.writeString [CR, LF]
  match enc.err with
  | none => (enc, .done)
  | some err => (enc, .failed err)

def writeLine (enc : Encoder) (ops : List Op) : Encoder × Outcome :=
  match enc.run options ops with
  | (enc, .done) => enc.crlf
  | result => result

end Encoder

theorem forall_mem_intercalate {α : Type} {P : α → Prop} {separator : List α}
    (hseparator : ∀ a ∈ separator, P a) (items : List (List α)) :
    (∀ a ∈ separator.intercalate items, P a) ↔ ∀ item ∈ items, ∀ a ∈ item, P a := by
  induction items with
  | nil => simp
  | cons first rest ih =>
    cases rest with
    | nil => simp
    | cons second rest =>
      rw [List.intercalate_cons_cons, List.forall_mem_append, List.forall_mem_append, ih,
        and_iff_left hseparator, List.forall_mem_cons]
      simp

/-! ## What stops a line -/

namespace Op

def Valid : Op → Prop
  | .number64 v => 0 ≤ v
  | .flag f => f = flagWildcard ∨ isValidFlag f = true
  | .mailboxAttr attr =>
    attr.head? = some backslash ∧ isValidFlag attr = true
  | .numSet s => s ≠ []
  | .literal size _ closed => 0 ≤ size ∧ closed = true
  | .giveUp _ | .panics => False
  | _ => True

instance : (op : Op) → Decidable op.Valid
  | .number64 v => inferInstanceAs (Decidable (0 ≤ v))
  | .flag f =>
    inferInstanceAs (Decidable (f = flagWildcard ∨ isValidFlag f = true))
  | .mailboxAttr attr =>
    inferInstanceAs (Decidable (attr.head? = some backslash ∧ isValidFlag attr = true))
  | .numSet s => inferInstanceAs (Decidable (s ≠ []))
  | .literal size _ closed =>
    inferInstanceAs (Decidable (0 ≤ size ∧ closed = true))
  | .giveUp _ | .panics => inferInstanceAs (Decidable False)
  | .text _ | .quoted _ | .string _ | .mailbox _ =>
    inferInstanceAs (Decidable True)

/-- The call does not return early or panic; its error comes with the end of
the line. -/
def deferring : Op → Bool
  | .number64 _ | .literal _ _ _ | .giveUp _ | .panics => false
  | _ => true

def missing (left : Nat) : List Bytes → Nat
  | [] => left
  | b :: rest =>
    if left < b.length then missing left rest
    else missing (left - b.length) rest

def filled : Op → Bool
  | literal size chunks _ => missing size.toNat chunks = 0
  | _ => true

def Sound (op : Op) : Prop := op.Valid ∧ op.filled = true

@[simp] theorem sound_text (s : Bytes) : (text s).Sound := ⟨trivial, rfl⟩

@[simp] theorem sound_quoted (s : Bytes) : (quoted s).Sound := ⟨trivial, rfl⟩

@[simp] theorem sound_string (s : Bytes) : (string s).Sound := ⟨trivial, rfl⟩

@[simp] theorem sound_mailbox (name : Bytes) : (mailbox name).Sound :=
  ⟨trivial, rfl⟩

@[simp] theorem sound_number64 (v : Int) : (number64 v).Sound ↔ 0 ≤ v :=
  and_iff_left rfl

@[simp] theorem sound_numSet (s : Bytes) : (numSet s).Sound ↔ s ≠ [] :=
  and_iff_left rfl

@[simp] theorem sound_literal (size : Int) (chunks : List Bytes) (closed : Bool) :
    (literal size chunks closed).Sound ↔
      0 ≤ size ∧ closed = true ∧ missing size.toNat chunks = 0 := by
  rw [Sound, filled, decide_eq_true_iff, Valid, and_assoc]

theorem sound_flag (f : Flag) : (flag f).Sound ↔ f = flagWildcard ∨ isValidFlag f = true :=
  and_iff_left rfl

theorem sound_mailboxAttr (attr : Bytes) : (mailboxAttr attr).Sound ↔
      attr.head? = some backslash ∧ isValidFlag attr = true :=
  and_iff_left rfl

theorem not_sound_giveUp (err : String) : ¬(giveUp err).Sound := fun h => h.1

end Op

namespace Encoder

variable {options : EncoderOptions} {op : Op} {ops : List Op}

def Blocked (enc : Encoder) : Prop := enc.err.isSome = true ∨ enc.literal = true

theorem writeChunks_ready (before : Bytes) (left : Nat) (chunks : List Bytes) :
    ∃ out, writeChunks ⟨before, none, true⟩ left chunks = ⟨before ++ out, none, true⟩ := by
  induction chunks generalizing before left with
  | nil => exact ⟨[], by simp [writeChunks]⟩
  | cons b rest ih =>
    rw [writeChunks]
    split_ifs with hleft
    · exact ih before left
    · obtain ⟨out, hout⟩ := ih (before ++ b) (left - b.length)
      exact ⟨b ++ out, by simpa using hout⟩

theorem literalItem_ready (before : Bytes) (size : Nat) (chunks : List Bytes) (closed : Bool) :
    ∃ out, literalItem options ⟨before, none, false⟩ size chunks closed =
      ⟨before ++ out, none, !closed⟩ := by
  rw [literalItem, openLiteral_ready]
  obtain ⟨out, hout⟩ := writeChunks_ready (before ++
    (Decoder.announced (formatUint size) (options.side = .client) ++ [CR, LF])) size chunks
  simp only [hout]
  cases closed with
  | false | true => exact ⟨_, by simp; rfl⟩

theorem mailbox_ready (hserver : options.side = .server) (before name : Bytes) :
    ∃ out, mailbox options ⟨before, none, false⟩ name = ⟨before ++ out, none, false⟩ := by
  rw [mailbox]
  split_ifs
  · exact ⟨_, rfl⟩
  · exact ⟨_, string_ready before (.inr (.inl hserver))⟩

theorem apply_valid (hserver : options.side = .server) (before : Bytes) (h : op.Valid) :
    ∃ out, apply options ⟨before, none, false⟩ op = (⟨before ++ out, none, false⟩, .done) := by
  cases op with
  | text s => exact ⟨s, rfl⟩
  | quoted s => exact ⟨_, rfl⟩
  | string s =>
    exact ⟨_, by rw [apply, string_ready before (.inr (.inl hserver))]⟩
  | mailbox name =>
    obtain ⟨out, hout⟩ := mailbox_ready hserver before name
    exact ⟨out, by rw [apply, hout]⟩
  | number64 v =>
    have hpos : ¬v < 0 := Int.not_lt.mpr h
    exact ⟨_, by rw [apply, if_neg hpos]; rfl⟩
  | flag flag =>
    have hvalid : ¬(flag ≠ flagWildcard ∧ !isValidFlag flag) := by
      rcases h with h | h
      · simp [h]
      · simp [h]
    exact ⟨flag, by rw [apply, Encoder.flag, if_neg hvalid]; rfl⟩
  | mailboxAttr attr =>
    have hvalid : ¬(attr.head? ≠ some backslash ∨ !isValidFlag attr) := by
      simp [h.1, h.2]
    exact ⟨attr, by rw [apply, Encoder.mailboxAttr, if_neg hvalid]; rfl⟩
  | numSet s => exact ⟨s, by rw [apply, Encoder.numSet, if_neg h]; rfl⟩
  | literal size chunks closed =>
    have hpos : ¬size < 0 := Int.not_lt.mpr h.1
    obtain ⟨out, hout⟩ := @literalItem_ready options before size.toNat chunks closed
    exact ⟨out, by rw [apply, if_neg hpos, hout, h.2]; rfl⟩
  | giveUp err | panics => cases h

theorem setErr_isSome (enc : Encoder) (err : String) : (enc.setErr err).err.isSome = true := by
  cases herr : enc.err with
  | none | some first => simp [setErr, herr]

theorem apply_invalid (before : Bytes) (h : ¬op.Valid) :
    (apply options ⟨before, none, false⟩ op).2 ≠ .done ∨
      (apply options ⟨before, none, false⟩ op).1.Blocked := by
  cases op with
  | number64 v =>
    have hneg : v < 0 := Int.not_le.mp h
    left
    rw [apply, if_pos hneg]
    simp
  | flag flag =>
    have hbad : flag ≠ flagWildcard ∧ !isValidFlag flag := by
      simpa [Op.Valid] using h
    right
    rw [apply, Encoder.flag, if_pos hbad]
    exact .inl (setErr_isSome _ _)
  | mailboxAttr attr =>
    have hbad : attr.head? ≠ some backslash ∨ !isValidFlag attr := by
      rcases not_and_or.mp h with hhead | hflag
      · exact .inl hhead
      · exact .inr (by simpa using hflag)
    right
    rw [apply, Encoder.mailboxAttr, if_pos hbad]
    exact .inl (setErr_isSome _ _)
  | numSet s =>
    have hempty : s = [] := by simpa [Op.Valid] using h
    right
    rw [apply, Encoder.numSet, if_pos hempty]
    exact .inl (setErr_isSome _ _)
  | literal size chunks closed =>
    by_cases hneg : size < 0
    · left
      rw [apply, if_pos hneg]
      simp
    · right
      have hopen : closed = false := by
        rcases not_and_or.mp h with hsize | hclosed
        · exact absurd (Int.not_lt.mp hneg) hsize
        · simpa using hclosed
      obtain ⟨out, hout⟩ := @literalItem_ready options before size.toNat chunks closed
      rw [apply, if_neg hneg, hout, hopen]
      exact .inr rfl
  | giveUp err | panics => exact .inl (by simp [apply])
  | _ => exact absurd trivial h

/-! ## Nothing is taken back -/

/-- More is written, and an error stays. -/
structure Extends (enc next : Encoder) : Prop where
  grows : enc.written <+: next.written
  keeps : enc.err.isSome = true → next.err.isSome = true

/-- The same, and a blocked encoder has an error then. -/
structure Writes (enc next : Encoder) : Prop where
  grows : enc.written <+: next.written
  stops : enc.Blocked → next.err.isSome = true

/-- The same, and a blocked encoder stays blocked. -/
structure Advances (enc next : Encoder) : Prop where
  grows : enc.written <+: next.written
  blocked : enc.Blocked → next.Blocked

section Growth

variable {enc next last : Encoder}

theorem Writes.extends (h : Writes enc next) : Extends enc next :=
  ⟨h.grows, fun herr => h.stops (.inl herr)⟩

theorem Writes.trans (h : Writes enc next) (h' : Extends next last) : Writes enc last :=
  ⟨h.grows.trans h'.grows, fun hblocked => h'.keeps (h.stops hblocked)⟩

theorem Writes.advances (h : Writes enc next) : Advances enc next :=
  ⟨h.grows, fun hblocked => .inl (h.stops hblocked)⟩

theorem Extends.trans (h : Extends enc next) (h' : Extends next last) : Extends enc last :=
  ⟨h.grows.trans h'.grows, h'.keeps ∘ h.keeps⟩

theorem Advances.refl (enc : Encoder) : Advances enc enc := ⟨List.prefix_rfl, id⟩

theorem Advances.trans (h : Advances enc next) (h' : Advances next last) : Advances enc last :=
  ⟨h.grows.trans h'.grows, h'.blocked ∘ h.blocked⟩

theorem writeString_writes (enc : Encoder) (s : Bytes) : Writes enc (enc.writeString s) := by
  rw [writeString]
  split_ifs with herr hliteral
  · exact ⟨List.prefix_rfl, fun _ => herr⟩
  · exact ⟨List.prefix_rfl, fun _ => rfl⟩
  · refine ⟨List.prefix_append _ _, ?_⟩
    rintro (h | h)
    · exact absurd h herr
    · exact absurd h hliteral

theorem setErr_writes (enc : Encoder) (err : String) : Writes enc (enc.setErr err) := by
  refine ⟨?_, fun _ => setErr_isSome enc err⟩
  rw [setErr]
  split <;> exact List.prefix_rfl

theorem openLiteral_writes (enc : Encoder) (size : Nat) (sync : Option (Except String Unit)) :
    Writes enc (enc.openLiteral options size sync).1 := by
  have hsize : Writes enc ((enc.writeString [openBrace]).number64 size) :=
    (writeString_writes _ _).trans (writeString_writes _ _).extends
  have hplus : Writes enc (if sync.isNone ∧ options.side = .client then
      ((enc.writeString [openBrace]).number64 size).writeString [plus]
      else (enc.writeString [openBrace]).number64 size) := by
    split_ifs
    · exact hsize.trans (writeString_writes _ _).extends
    · exact hsize
  have hend := (hplus.trans (writeString_writes _ [closeBrace]).extends).trans
    (writeString_writes _ [CR, LF]).extends
  simp only [openLiteral]
  split
  · exact hend
  · exact hend.trans (setErr_writes _ _).extends
  · exact ⟨hend.grows, hend.stops⟩

theorem writeLiteral_extends (enc : Encoder) (s : Bytes)
    (writer : LiteralWriter) : Extends enc (enc.writeLiteral s writer) := by
  cases writer with
  | failed err => exact (setErr_writes _ _).extends
  | writing left =>
    have hclosed : Extends enc { enc with literal := false } := ⟨List.prefix_rfl, id⟩
    have hdata : Extends enc { enc with written := enc.written ++ s, literal := false } :=
      ⟨List.prefix_append _ _, id⟩
    rw [writeLiteral]
    split_ifs
    · exact hclosed.trans (setErr_writes _ _).extends
    · exact hdata
    · exact hdata.trans (setErr_writes _ _).extends

theorem string_writes (enc : Encoder) (s : Bytes) : Writes enc (enc.string options s) := by
  have hopen : ∀ sync, Writes enc (enc.openLiteral options s.length sync).1 :=
    openLiteral_writes enc s.length
  rw [string]
  split_ifs
  · rw [stringLiteral]
    split_ifs
    · split
      · exact setErr_writes _ _
      · exact (hopen _).trans (writeLiteral_extends _ _ _)
    · exact (hopen none).trans (writeLiteral_extends _ _ _)
  · exact writeString_writes _ _

theorem writeChunks_extends (enc : Encoder) (left : Nat)
    (chunks : List Bytes) : Extends enc (enc.writeChunks left chunks) := by
  induction chunks generalizing enc left with
  | nil => exact ⟨List.prefix_rfl, id⟩
  | cons b rest ih =>
    have hchunk : Extends enc { enc with written := enc.written ++ b } :=
      ⟨List.prefix_append _ _, id⟩
    rw [writeChunks]
    split_ifs
    · exact ih enc left
    · exact hchunk.trans (ih _ _)

theorem literalItem_writes (enc : Encoder) (size : Nat) (chunks : List Bytes) (closed : Bool) :
    Writes enc (enc.literalItem options size chunks closed) := by
  have hopen : Writes enc (enc.openLiteral options size none).1 := openLiteral_writes enc size none
  rw [literalItem]
  cases hwriter : enc.openLiteral options size none with
  | mk next writer =>
    rw [hwriter] at hopen
    cases writer with
    | failed err => exact hopen
    | writing left =>
      have hchunks := hopen.trans (writeChunks_extends next left chunks)
      simp only
      split_ifs
      · exact ⟨hchunks.grows, hchunks.stops⟩
      · exact hchunks

theorem apply_writes (enc : Encoder) (op : Op) :
    (enc.apply options op).1 = enc ∨ Writes enc (enc.apply options op).1 := by
  cases op with
  | text s | quoted s => exact .inr (writeString_writes _ _)
  | string s => exact .inr (string_writes _ _)
  | mailbox name =>
    rw [apply, mailbox]
    split_ifs
    · exact .inr (writeString_writes _ _)
    · exact .inr (string_writes _ _)
  | number64 v =>
    rw [apply]
    split_ifs
    · exact .inl rfl
    · exact .inr (writeString_writes _ _)
  | flag s | mailboxAttr s | numSet s =>
    simp only [apply, Encoder.flag, Encoder.mailboxAttr, Encoder.numSet]
    split_ifs
    · exact .inr (setErr_writes _ _)
    · exact .inr (writeString_writes _ _)
  | literal size chunks closed =>
    rw [apply]
    split_ifs
    · exact .inr (writeString_writes _ _)
    · exact .inr (literalItem_writes _ _ _ _)
  | giveUp err | panics => exact .inl rfl

theorem apply_advances (enc : Encoder) (op : Op) : Advances enc (enc.apply options op).1 := by
  rcases @apply_writes options enc op with h | h
  · rw [h]
    exact .refl enc
  · exact h.advances

theorem run_advances (enc : Encoder) (ops : List Op) : Advances enc (enc.run options ops).1 := by
  induction ops generalizing enc with
  | nil => exact .refl enc
  | cons op rest ih =>
    have happly : Advances enc (enc.apply options op).1 := apply_advances enc op
    rw [run]
    split
    · next next hnext =>
        rw [hnext] at happly
        exact happly.trans (ih next)
    · exact happly

theorem run_keeps (enc : Encoder) (ops : List Op) (h : enc.err.isSome = true) :
    (enc.run options ops).1.err.isSome = true := by
  induction ops generalizing enc with
  | nil => exact h
  | cons op rest ih =>
    have happly : (enc.apply options op).1.err.isSome = true := by
      rcases @apply_writes options enc op with heq | hwrites
      · rwa [heq]
      · exact hwrites.stops (.inl h)
    rw [run]
    split
    · next next hnext => exact ih next (by rwa [hnext] at happly)
    · exact happly

theorem crlf_writes (enc : Encoder) : Writes enc enc.crlf.1 := by
  rw [crlf]
  split <;> exact writeString_writes _ _

theorem Blocked.crlf (h : enc.Blocked) : enc.crlf.2 ≠ .done := by
  have herr := (writeString_writes enc [CR, LF]).stops h
  rw [Encoder.crlf]
  split
  · next hnone => simp [hnone] at herr
  · simp

theorem writeLine_advances (enc : Encoder) (ops : List Op) :
    Advances enc (enc.writeLine options ops).1 := by
  have hrun : Advances enc (enc.run options ops).1 := run_advances enc ops
  rw [writeLine]
  split
  · next next hnext =>
      rw [hnext] at hrun
      exact hrun.trans (crlf_writes next).advances
  · exact hrun

theorem Blocked.writeLine (h : enc.Blocked) (ops : List Op) :
    (enc.writeLine options ops).2 ≠ .done := by
  have hrun : (enc.run options ops).1.Blocked := (run_advances enc ops).blocked h
  rw [Encoder.writeLine]
  split
  · next next hnext =>
      rw [hnext] at hrun
      exact hrun.crlf
  · next hresult =>
      exact fun hdone => hresult _ (Prod.ext rfl hdone)

end Growth

/-! ## One line -/

section

variable (hserver : options.side = .server)

include hserver

theorem run_valid (before : Bytes) (h : ∀ op ∈ ops, op.Valid) :
    ∃ out, run options ⟨before, none, false⟩ ops = (⟨before ++ out, none, false⟩, .done) := by
  induction ops generalizing before with
  | nil => exact ⟨[], by simp [run]⟩
  | cons op rest ih =>
    obtain ⟨hop, hrest⟩ := List.forall_mem_cons.mp h
    obtain ⟨out, hout⟩ := apply_valid hserver before hop
    obtain ⟨more, hmore⟩ := ih (before ++ out) hrest
    exact ⟨out ++ more, by rw [run, hout]; simpa using hmore⟩

theorem writeLine_valid (before : Bytes) (h : ∀ op ∈ ops, op.Valid) :
    ∃ out, writeLine options ⟨before, none, false⟩ ops =
      (⟨before ++ (out ++ [CR, LF]), none, false⟩, .done) := by
  obtain ⟨out, hout⟩ := run_valid hserver before h
  exact ⟨out, by rw [writeLine, hout]; simp [crlf]⟩

theorem run_invalid (before : Bytes) (h : ¬∀ op ∈ ops, op.Valid) :
    (run options ⟨before, none, false⟩ ops).2 ≠ .done ∨
      (run options ⟨before, none, false⟩ ops).1.Blocked := by
  induction ops generalizing before with
  | nil => exact absurd (List.forall_mem_nil _) h
  | cons op rest ih =>
    by_cases hop : op.Valid
    · have hrest : ¬∀ op ∈ rest, op.Valid := fun hrest =>
        h (List.forall_mem_cons.mpr ⟨hop, hrest⟩)
      obtain ⟨out, hout⟩ := apply_valid hserver before hop
      rw [run, hout]
      exact ih (before ++ out) hrest
    · have hblocked := @apply_invalid options op before hop
      rw [run]
      split
      · next next hnext =>
          rw [hnext] at hblocked
          rcases hblocked with hdone | hblocked
          · exact absurd rfl hdone
          · exact .inr ((run_advances _ rest).blocked hblocked)
      · next hresult =>
          exact .inl fun hdone => hresult _ (Prod.ext rfl hdone)

theorem writeLine_invalid (before : Bytes) (h : ¬∀ op ∈ ops, op.Valid) :
    (writeLine options ⟨before, none, false⟩ ops).2 ≠ .done := by
  have hrun := run_invalid hserver before h
  rw [writeLine]
  split
  · next next hnext =>
      rw [hnext] at hrun
      rcases hrun with hdone | hblocked
      · exact absurd rfl hdone
      · exact hblocked.crlf
  · next hresult =>
      exact fun hdone => hresult _ (Prod.ext rfl hdone)

end

/-! ## Lines that only fail at their end -/

theorem apply_deferring (enc : Encoder) (h : op.deferring = true) :
    (enc.apply options op).2 = .done := by
  cases op with
  | number64 v | literal size chunks closed | giveUp err | panics => cases h
  | _ => rfl

theorem run_deferring (enc : Encoder) (h : ∀ op ∈ ops, op.deferring = true) :
    (enc.run options ops).2 = .done := by
  induction ops generalizing enc with
  | nil => rfl
  | cons op rest ih =>
    obtain ⟨hop, hrest⟩ := List.forall_mem_cons.mp h
    have hdone : (enc.apply options op).2 = .done := apply_deferring enc hop
    rw [run]
    split
    · exact ih _ hrest
    · exact hdone

theorem writeLine_blocks (hserver : options.side = .server) (before : Bytes)
    (hdefer : ∀ op ∈ ops, op.deferring = true) (h : ¬∀ op ∈ ops, op.Valid) :
    (writeLine options ⟨before, none, false⟩ ops).1.Blocked := by
  have hdone : (run options ⟨before, none, false⟩ ops).2 = .done := run_deferring _ hdefer
  rw [writeLine]
  split
  · next next hnext =>
      have hrun := run_invalid hserver before h
      rw [hnext] at hrun
      rcases hrun with hfails | hblocked
      · exact absurd rfl hfails
      · exact (crlf_writes next).advances.blocked hblocked
  · next hresult => exact (hresult _ (Prod.ext rfl hdone)).elim

end Encoder

end GoImap.Wire
