import GoImap.Server.Handlers
import GoImap.Server.Responses

/-!
# The answer to SELECT

The response to SELECT is written with one encoder, line by line, and the error
of most lines is not looked at.  It comes back with the last line, which is the
tagged one; by then the state has been changed.
-/

namespace GoImap.Server

open Wire

structure SelectModifiedData where
  seqNum : SeqNum
  uid : UID
  flags : List Flag
  modSeq : ModSeq

structure SelectData where
  flags : List Flag := []
  permanentFlags : List Flag := []
  readOnly : Bool := false
  numMessages : UInt32 := 0
  firstUnseenSeqNum : SeqNum := 0
  numRecent : UInt32 := 0
  uidNext : UID := 0
  uidValidity : UInt32 := 0
  list : Option ListData := none
  highestModSeq : ModSeq := 0
  vanished : UIDSet := .nums []
  modified : List SelectModifiedData := []

inductive StatusType where
  | ok
  | no
  | bad
  | preAuth
  | bye
  deriving DecidableEq, Repr

/-- The errors `readCommand` tells apart: an `imap.Error`, one of the decoder,
and any other. -/
inductive HandlerError where
  | imap (type : StatusType)
  | decoder
  | other
  deriving DecidableEq, Repr

structure Selection where
  state : ConnState
  selectedReadOnly : Bool
  selectedPrivateStore : Bool
  deriving DecidableEq, Repr

/-- A SELECT or EXAMINE, with what happens on the way: the arguments are read or
refused, the rest of the command can be skipped or not, and the session
answers. -/
structure SelectCall where
  tag : Bytes
  readOnly : Bool
  quotedUTF8 : Bool
  isRev2 : Bool
  condStore : Bool
  arguments : Except HandlerError Unit := .ok ()
  desynchronized : Bool := false
  unselect : Except HandlerError Unit := .ok ()
  select : Except HandlerError SelectData
  poll : Except HandlerError Unit := .ok ()

/-! ## The lines of the response -/

def writeExists (numMessages : UInt32) : List Op :=
  [atom "*", space, number numMessages, space, atom "EXISTS"]

def writeObsoleteRecent (n : UInt32) : List Op := [atom "*", space, number n, space, atom "RECENT"]

def okCode (code : List Op) (text : String) : List Op :=
  [atom "*", space, atom "OK", space, special 91] ++ code ++ [special 93, space, atom text]

def writeObsoleteUnseen (n : UInt32) : List Op :=
  okCode [atom "UNSEEN", space, number n] "First unseen message"

def writeUIDValidity (uidValidity : UInt32) : List Op :=
  okCode [atom "UIDVALIDITY", space, number uidValidity] "UIDs valid"

def writeUIDNext (uidNext : UID) : List Op :=
  okCode [atom "UIDNEXT", space, number uidNext] "Predicted next UID"

def writePermanentFlags (flags : List Flag) : List Op :=
  okCode ([atom "PERMANENTFLAGS", space] ++ flagList flags) "Permanent flags"

def writeHighestModSeq (highestModSeq : ModSeq) : List Op :=
  okCode [atom "HIGHESTMODSEQ", space, modSeqOp highestModSeq] "Highest modification sequence"

def writeNoModSeq : List Op :=
  okCode [atom "NOMODSEQ"] "Mailbox does not support modification sequences"

def writeVanishedEarlier (uids : NumSet) : List Op :=
  [atom "*", space, atom "VANISHED", space, special openParen,
    atom "EARLIER", special closeParen, space, .numSet uids.string]

def writeQResyncFetch (mod : SelectModifiedData) : List Op :=
  [atom "*", space, number mod.seqNum, space, atom "FETCH", space,
    special openParen, atom "UID", space, number mod.uid, space,
    atom "FLAGS", space] ++ flagList mod.flags ++
  [space, atom "MODSEQ", space, special openParen, modSeqOp mod.modSeq,
    special closeParen, special closeParen]

def resyncLines (data : SelectData) : List (List Op) :=
  (match data.vanished with
    | .nums (range :: rest) => [writeVanishedEarlier (range :: rest)]
    | _ => []) ++
  data.modified.map writeQResyncFetch

def obsoleteLines (data : SelectData) : List (List Op) :=
  writeObsoleteRecent data.numRecent ::
    if data.firstUnseenSeqNum = 0 then []
    else [writeObsoleteUnseen data.firstUnseenSeqNum]

def mailboxLines (isRev2 : Bool) (data : SelectData) : List (List Op) :=
  [writeExists data.numMessages] ++
  (if isRev2 then [] else obsoleteLines data) ++
  [writeUIDValidity data.uidValidity, writeUIDNext data.uidNext,
    writeFlags data.flags, writePermanentFlags data.permanentFlags]

def listLines (data : SelectData) : List (List Op) :=
  match data.list with
  | some list => [writeListData list none false]
  | none => []

def modSeqLines (condStore : Bool) (data : SelectData) : List (List Op) :=
  if condStore then
    [if data.highestModSeq > 0 then writeHighestModSeq data.highestModSeq
      else writeNoModSeq]
  else []

def completedLine (call : SelectCall) (data : SelectData) : List Op :=
  writeStatusResp call.tag
    { type := ascii "OK"
      code :=
        if call.readOnly || data.readOnly then ascii "READ-ONLY"
        else ascii "READ-WRITE"
      text :=
        if call.readOnly then ascii "EXAMINE completed"
        else ascii "SELECT completed" }

def closedLine : List Op :=
  writeStatusResp []
    { type := ascii "OK", code := ascii "CLOSED", text := ascii "Previous mailbox is now closed" }

def writeChecked (options : EncoderOptions) (enc : Encoder) : List (List Op) → Encoder × Outcome
  | [] => (enc, .done)
  | line :: rest =>
    match enc.writeLine options line with
    | (enc, .done) => writeChecked options enc rest
    | result => result

def writeUnchecked (options : EncoderOptions) (enc : Encoder) (lines : List (List Op)) : Encoder :=
  lines.foldl (fun enc line => (enc.writeLine options line).1) enc

/-! ## The handler -/

structure SelectResult where
  conn : Selection
  closed : Bool
  err : Option HandlerError

def selected (call : SelectCall) (data : SelectData) : Selection where
  state := .selected
  selectedReadOnly := call.readOnly || data.readOnly
  selectedPrivateStore := !call.readOnly && data.readOnly && !data.permanentFlags.isEmpty

/-- The state is changed between the last line that is looked at and the
tagged one. -/
def finishSelect (conn : Selection) (closed : Bool) (call : SelectCall)
    (data : SelectData) (enc : Encoder) : SelectResult :=
  let options := encoderOptions call.quotedUTF8
  match writeChecked options enc (listLines data) with
  | (enc, .done) =>
    let enc := writeUnchecked options enc (modSeqLines call.condStore data)
    match enc.writeLine options (completedLine call data) with
    | (_, .done) => ⟨selected call data, closed, none⟩
    | _ => ⟨selected call data, closed, some .other⟩
  | _ => ⟨conn, closed, some .other⟩

def writeSelect (conn : Selection) (closed : Bool) (call : SelectCall)
    (data : SelectData) : SelectResult :=
  let options := encoderOptions call.quotedUTF8
  match writeChecked options newEncoder (resyncLines data) with
  | (enc, .done) =>
    finishSelect conn closed call data (writeUnchecked options enc (mailboxLines call.isRev2 data))
  | _ => ⟨conn, closed, some .other⟩

def openMailbox (conn : Selection) (closed : Bool) (call : SelectCall) : SelectResult :=
  match call.select with
  | .error err => ⟨conn, closed, some err⟩
  | .ok data => writeSelect conn closed call data

def unselected : Selection where
  state := .authenticated
  selectedReadOnly := false
  selectedPrivateStore := false

def handleSelect (conn : Selection) (call : SelectCall) : SelectResult :=
  match call.arguments with
  | .error err => ⟨conn, false, some err⟩
  | .ok () =>
    match conn.state with
    | .selected =>
      match call.unselect with
      | .error err => ⟨conn, false, some err⟩
      | .ok () =>
        match newEncoder.writeLine (encoderOptions call.quotedUTF8) closedLine with
        | (_, .done) => openMailbox unselected true call
        | _ => ⟨unselected, false, some .other⟩
    | .authenticated => openMailbox conn false call
    | _ => ⟨conn, false, some (.imap .bad)⟩

/-- The tagged answer, by the handler itself or by `readCommand`; there is none
if the connection ends instead. -/
def tagged (call : SelectCall) (err : Option HandlerError) : Option StatusType :=
  match err with
  | none => some .ok
  | some err =>
    if call.desynchronized then none
    else
      match err with
      | .imap .bye => none
      | .imap .ok =>
        match call.poll with
        | .ok () => some .ok
        | .error _ => none
      | .imap type => some type
      | .decoder => some .bad
      | .other => some .no

/-! ## Lines on one encoder -/

section Lines

variable {options : EncoderOptions} (hserver : options.side = .server) {lines : List (List Op)}

include hserver

theorem writeChecked_valid (before : Bytes) (h : ∀ line ∈ lines, ∀ op ∈ line, op.Valid) :
    ∃ out, writeChecked options ⟨before, none, false⟩ lines =
      (⟨before ++ out, none, false⟩, .done) := by
  induction lines generalizing before with
  | nil => exact ⟨[], by simp [writeChecked]⟩
  | cons line rest ih =>
    obtain ⟨hline, hrest⟩ := List.forall_mem_cons.mp h
    obtain ⟨out, hout⟩ := Encoder.writeLine_valid hserver before hline
    obtain ⟨more, hmore⟩ := ih (before ++ (out ++ [CR, LF])) hrest
    refine ⟨out ++ [CR, LF] ++ more, ?_⟩
    rw [writeChecked, hout]
    simpa using hmore

theorem writeChecked_invalid (before : Bytes) (h : ¬∀ line ∈ lines, ∀ op ∈ line, op.Valid) :
    (writeChecked options ⟨before, none, false⟩ lines).2 ≠ .done := by
  induction lines generalizing before with
  | nil => exact absurd (List.forall_mem_nil _) h
  | cons line rest ih =>
    rw [writeChecked]
    by_cases hline : ∀ op ∈ line, op.Valid
    · have hrest := fun hrest =>
        h (List.forall_mem_cons.mpr ⟨hline, hrest⟩)
      obtain ⟨out, hout⟩ := Encoder.writeLine_valid hserver before hline
      rw [hout]
      exact ih _ hrest
    · have hfails := Encoder.writeLine_invalid hserver before hline
      split
      · next next hnext =>
          rw [hnext] at hfails
          exact absurd rfl hfails
      · exact hfails

theorem writeUnchecked_valid (before : Bytes) (h : ∀ line ∈ lines, ∀ op ∈ line, op.Valid) :
    ∃ out, writeUnchecked options ⟨before, none, false⟩ lines = ⟨before ++ out, none, false⟩ := by
  induction lines generalizing before with
  | nil => exact ⟨[], by simp [writeUnchecked]⟩
  | cons line rest ih =>
    obtain ⟨hline, hrest⟩ := List.forall_mem_cons.mp h
    obtain ⟨out, hout⟩ := Encoder.writeLine_valid hserver before hline
    obtain ⟨more, hmore⟩ := ih (before ++ (out ++ [CR, LF])) hrest
    refine ⟨out ++ [CR, LF] ++ more, ?_⟩
    rw [writeUnchecked, List.foldl_cons, hout]
    simpa [writeUnchecked] using hmore

omit hserver in
theorem writeUnchecked_blocked {enc : Encoder} (h : enc.Blocked)
    (lines : List (List Op)) : (writeUnchecked options enc lines).Blocked := by
  induction lines generalizing enc with
  | nil => exact h
  | cons line rest ih =>
    exact ih ((Encoder.writeLine_advances enc line).blocked h)

theorem writeUnchecked_invalid (before : Bytes)
    (hdefer : ∀ line ∈ lines, ∀ op ∈ line, op.deferring = true)
    (h : ¬∀ line ∈ lines, ∀ op ∈ line, op.Valid) :
    (writeUnchecked options ⟨before, none, false⟩ lines).Blocked := by
  induction lines generalizing before with
  | nil => exact absurd (List.forall_mem_nil _) h
  | cons line rest ih =>
    obtain ⟨hdeferLine, hdeferRest⟩ := List.forall_mem_cons.mp hdefer
    by_cases hline : ∀ op ∈ line, op.Valid
    · have hrest := fun hrest =>
        h (List.forall_mem_cons.mpr ⟨hline, hrest⟩)
      obtain ⟨out, hout⟩ := Encoder.writeLine_valid hserver before hline
      have hblocked := ih (before ++ (out ++ [CR, LF])) hdeferRest hrest
      rw [writeUnchecked] at hblocked ⊢
      rwa [List.foldl_cons, hout]
    · exact writeUnchecked_blocked (Encoder.writeLine_blocks hserver before hdeferLine hline) rest

end Lines

/-! ## What the lines need -/

section Calls

variable {P : Op → Prop} (htext : ∀ s, P (.text s))

include htext

theorem forall_mem_okCode (code : List Op) (text : String) :
    (∀ op ∈ okCode code text, P op) ↔ ∀ op ∈ code, P op := by
  simp only [okCode, List.forall_mem_append, List.forall_mem_cons, atom, space, special, htext,
    true_and, List.not_mem_nil, IsEmpty.forall_iff, implies_true, and_true]

theorem forall_mem_texts (texts : List Bytes) : ∀ op ∈ texts.map Op.text, P op := by
  rw [List.forall_mem_map]
  exact fun s _ => htext s

theorem forall_mem_obsoleteLines (data : SelectData) :
    ∀ line ∈ obsoleteLines data, ∀ op ∈ line, P op := by
  have hunseen : ∀ op ∈ writeObsoleteUnseen data.firstUnseenSeqNum, P op :=
    (forall_mem_okCode htext _ _).mpr (forall_mem_texts htext [ascii "UNSEEN", [SP],
        formatUint data.firstUnseenSeqNum.toNat])
  rw [obsoleteLines, List.forall_mem_cons]
  refine ⟨forall_mem_texts htext [ascii "*", [SP],
    formatUint data.numRecent.toNat, [SP], ascii "RECENT"], ?_⟩
  split_ifs
  · exact List.forall_mem_nil _
  · exact List.forall_mem_singleton.mpr hunseen

theorem forall_mem_mailboxLines (isRev2 : Bool) (data : SelectData) :
    (∀ line ∈ mailboxLines isRev2 data, ∀ op ∈ line, P op) ↔ (∀ flag ∈ data.flags, P (.flag flag)) ∧
        ∀ flag ∈ data.permanentFlags, P (.flag flag) := by
  have hexists := forall_mem_texts htext [ascii "*", [SP],
      formatUint data.numMessages.toNat, [SP], ascii "EXISTS"]
  have hobsolete : ∀ line ∈ if isRev2 then [] else obsoleteLines data, ∀ op ∈ line, P op := by
    split_ifs
    · exact List.forall_mem_nil _
    · exact forall_mem_obsoleteLines htext data
  have hvalidity : ∀ op ∈ writeUIDValidity data.uidValidity, P op :=
    (forall_mem_okCode htext _ _).mpr (forall_mem_texts htext [ascii "UIDVALIDITY", [SP],
        formatUint data.uidValidity.toNat])
  have hnext : ∀ op ∈ writeUIDNext data.uidNext, P op :=
    (forall_mem_okCode htext _ _).mpr (forall_mem_texts htext [ascii "UIDNEXT", [SP],
        formatUint data.uidNext.toNat])
  have hflags : (∀ op ∈ writeFlags data.flags, P op) ↔ ∀ flag ∈ data.flags, P (.flag flag) := by
    rw [writeFlags, List.forall_mem_append, forall_mem_flagList htext]
    exact and_iff_right (forall_mem_texts htext [ascii "*", [SP], ascii "FLAGS", [SP]])
  have hpermanent : (∀ op ∈ writePermanentFlags data.permanentFlags, P op) ↔
      ∀ flag ∈ data.permanentFlags, P (.flag flag) := by
    rw [writePermanentFlags, forall_mem_okCode htext, List.forall_mem_append,
      forall_mem_flagList htext]
    exact and_iff_right (forall_mem_texts htext [ascii "PERMANENTFLAGS", [SP]])
  simp only [mailboxLines, List.forall_mem_append, List.forall_mem_cons,
    List.not_mem_nil, IsEmpty.forall_iff, implies_true, and_true]
  rw [hflags, hpermanent]
  exact ⟨fun h => ⟨h.2.2.2.1, h.2.2.2.2⟩,
    fun h => ⟨⟨hexists, hobsolete⟩, hvalidity, hnext, h.1, h.2⟩⟩

theorem forall_mem_writeQResyncFetch (mod : SelectModifiedData) :
    (∀ op ∈ writeQResyncFetch mod, P op) ↔ ∀ flag ∈ mod.flags, P (.flag flag) := by
  simp only [writeQResyncFetch, List.forall_mem_append, forall_mem_flagList htext,
    List.forall_mem_cons, atom, space, special, number, modSeqOp, htext, true_and, and_true,
    List.not_mem_nil, IsEmpty.forall_iff, implies_true]

end Calls

theorem valid_resyncLines (data : SelectData) : (∀ line ∈ resyncLines data, ∀ op ∈ line, op.Valid) ↔
      ∀ mod ∈ data.modified, ∀ flag ∈ mod.flags, writableFlag flag := by
  have hvanished : ∀ line ∈ (match data.vanished with
      | .nums (range :: rest) => [writeVanishedEarlier (range :: rest)]
      | _ => []), ∀ op ∈ line, op.Valid := by
    split
    · next range rest _ =>
        have hset := string_cons_ne_nil range rest
        rw [List.forall_mem_singleton]
        exact List.forall_mem_append.mpr ⟨forall_mem_texts (fun _ => trivial)
          [ascii "*", [SP], ascii "VANISHED", [SP], [openParen],
            ascii "EARLIER", [closeParen], [SP]],
          List.forall_mem_singleton.mpr hset⟩
    · exact List.forall_mem_nil _
  have hmodified : (∀ line ∈ data.modified.map writeQResyncFetch, ∀ op ∈ line, op.Valid) ↔
        ∀ mod ∈ data.modified, ∀ flag ∈ mod.flags, writableFlag flag := by
    rw [List.forall_mem_map]
    exact forall₂_congr fun mod _ =>
      forall_mem_writeQResyncFetch (fun _ => trivial) mod
  unfold resyncLines
  rw [List.forall_mem_append, hmodified]
  exact and_iff_right hvanished

theorem valid_modSeqLines (condStore : Bool) (data : SelectData) :
    ∀ line ∈ modSeqLines condStore data, ∀ op ∈ line, op.Valid := by
  have hhighest : ∀ op ∈ writeHighestModSeq data.highestModSeq, op.Valid :=
    (forall_mem_okCode (fun _ => trivial) _ _).mpr
      (forall_mem_texts (fun _ => trivial) [ascii "HIGHESTMODSEQ", [SP],
        formatUint data.highestModSeq.toNat])
  have hnone : ∀ op ∈ writeNoModSeq, op.Valid :=
    (forall_mem_okCode (fun _ => trivial) _ _).mpr
      (forall_mem_texts (fun _ => trivial) [ascii "NOMODSEQ"])
  rw [modSeqLines]
  split_ifs
  · exact List.forall_mem_singleton.mpr hhighest
  · exact List.forall_mem_singleton.mpr hnone
  · exact List.forall_mem_nil _

theorem valid_statusResp (tag : Bytes) (resp : StatusResponse) :
    ∀ op ∈ writeStatusResp tag resp, op.Valid :=
  fun op hop =>
    ((sound_ops_iff (.statusResp tag resp)).mpr trivial op hop).1

/-! ## When the state is changed in vain -/

def SelectData.FlagsWritable (data : SelectData) : Prop :=
  (∀ flag ∈ data.flags, writableFlag flag) ∧ ∀ flag ∈ data.permanentFlags, writableFlag flag

/-- An error is noticed before the state is changed, or there is none. -/
def SelectData.NoticedInTime (data : SelectData) : Prop :=
  (¬∀ mod ∈ data.modified, ∀ flag ∈ mod.flags, writableFlag flag) ∨
    data.list.isSome = true ∨ data.FlagsWritable

section Cases

variable (conn : Selection) (closed : Bool) (call : SelectCall) (data : SelectData)

theorem finishSelect_ready (before : Bytes) :
    finishSelect conn closed call data ⟨before, none, false⟩ = ⟨conn, closed, some .other⟩ ∨
      finishSelect conn closed call data ⟨before, none, false⟩ =
        ⟨selected call data, closed, none⟩ := by
  have hserver : (encoderOptions call.quotedUTF8).side = .server := rfl
  rw [finishSelect]
  by_cases hlist : ∀ line ∈ listLines data, ∀ op ∈ line, op.Valid
  · right
    obtain ⟨out, hout⟩ := writeChecked_valid hserver before hlist
    obtain ⟨more, hmore⟩ := writeUnchecked_valid hserver (before ++ out)
      (valid_modSeqLines call.condStore data)
    have hcompleted : ∀ op ∈ completedLine call data, op.Valid := valid_statusResp _ _
    obtain ⟨last, hlast⟩ := Encoder.writeLine_valid hserver (before ++ out ++ more) hcompleted
    simp only [hout, hmore, hlast]
  · left
    have hfails := writeChecked_invalid hserver before hlist
    split
    · next enc hdone =>
        rw [hdone] at hfails
        exact absurd rfl hfails
    · rfl

theorem finishSelect_blocked {enc : Encoder} (h : enc.Blocked) :
    finishSelect conn closed call data enc =
      if data.list.isSome then ⟨conn, closed, some .other⟩
      else ⟨selected call data, closed, some .other⟩ := by
  rw [finishSelect, listLines]
  cases data.list with
  | some list =>
    have hfails : (enc.writeLine (encoderOptions call.quotedUTF8)
        (writeListData list none false)).2 ≠ .done :=
      h.writeLine _
    rw [writeChecked]
    split
    · next next hdone =>
        split at hdone
        · next hline =>
            rw [hline] at hfails
            exact absurd rfl hfails
        · exact absurd (congrArg Prod.snd hdone) hfails
    · rfl
  | none =>
    have hblocked : (writeUnchecked (encoderOptions call.quotedUTF8) enc
        (modSeqLines call.condStore data)).Blocked :=
      writeUnchecked_blocked h _
    have hfails : ((writeUnchecked (encoderOptions call.quotedUTF8) enc
        (modSeqLines call.condStore data)).writeLine
        (encoderOptions call.quotedUTF8) (completedLine call data)).2 ≠ .done :=
      hblocked.writeLine _
    simp only [writeChecked]
    split
    · next hdone =>
        rw [hdone] at hfails
        exact absurd rfl hfails
    · rfl

theorem writeSelect_cases :
    (data.NoticedInTime → writeSelect conn closed call data = ⟨conn, closed, some .other⟩ ∨
        writeSelect conn closed call data = ⟨selected call data, closed, none⟩) ∧
    (¬data.NoticedInTime → writeSelect conn closed call data =
        ⟨selected call data, closed, some .other⟩) := by
  have hserver : (encoderOptions call.quotedUTF8).side = .server := rfl
  have hmailbox := @forall_mem_mailboxLines Op.Valid (fun _ => trivial) call.isRev2 data
  have hdefer := (@forall_mem_mailboxLines (fun op => op.deferring = true)
    (fun _ => rfl) call.isRev2 data).mpr ⟨fun _ _ => rfl, fun _ _ => rfl⟩
  by_cases hresync : ∀ mod ∈ data.modified, ∀ flag ∈ mod.flags, writableFlag flag
  · obtain ⟨out, hout⟩ := writeChecked_valid hserver [] ((valid_resyncLines data).mpr hresync)
    have hselect : writeSelect conn closed call data = finishSelect conn closed call data
          (writeUnchecked (encoderOptions call.quotedUTF8)
            ⟨[] ++ out, none, false⟩ (mailboxLines call.isRev2 data)) := by
      rw [writeSelect, show newEncoder = ⟨[], none, false⟩ from rfl, hout]
    rw [hselect]
    by_cases hflags : data.FlagsWritable
    · obtain ⟨more, hmore⟩ := writeUnchecked_valid hserver ([] ++ out) (hmailbox.mpr hflags)
      rw [hmore]
      exact ⟨fun _ => finishSelect_ready conn closed call data _,
        fun h => absurd (.inr (.inr hflags)) h⟩
    · have hblocked := writeUnchecked_invalid hserver ([] ++ out) hdefer
        (fun h => hflags (hmailbox.mp h))
      rw [finishSelect_blocked conn closed call data hblocked]
      cases hlist : data.list.isSome with
      | true => exact ⟨fun _ => .inl rfl, fun h => absurd (.inr (.inl hlist)) h⟩
      | false =>
        refine ⟨?_, fun _ => rfl⟩
        rintro (h | h | h)
        · exact absurd hresync h
        · rw [hlist] at h
          cases h
        · exact absurd h hflags
  · have hfails := writeChecked_invalid hserver [] (fun h =>
      hresync ((valid_resyncLines data).mp h))
    refine ⟨fun _ => .inl ?_, fun h => absurd (.inl hresync) h⟩
    rw [writeSelect]
    split
    · next enc hdone =>
        rw [show newEncoder = ⟨[], none, false⟩ from rfl] at hdone
        rw [hdone] at hfails
        exact absurd rfl hfails
    · rfl

end Cases

/-! ## Refused commands -/

def Refused (answer : Option StatusType) : Prop := answer = some .no ∨ answer = some .bad

instance (answer : Option StatusType) : Decidable (Refused answer) :=
  inferInstanceAs (Decidable (_ ∨ _))

/-- Nothing has changed, or the mailbox was announced closed and none is
selected. -/
def LeavesNothing (conn : Selection) (result : SelectResult) : Prop :=
  (result.conn = conn ∧ result.closed = false) ∨ (result.closed = true ∧ result.conn = unselected)

instance (conn : Selection) (result : SelectResult) : Decidable (LeavesNothing conn result) :=
  inferInstanceAs (Decidable ((_ ∧ _) ∨ (_ ∧ _)))

structure SelectCall.Reaches (call : SelectCall) (conn : Selection) : Prop where
  arguments : call.arguments = .ok ()
  state : conn.state = .authenticated ∨ conn.state = .selected ∧ call.unselect = .ok ()
  skipped : call.desynchronized = false

variable {conn : Selection} {call : SelectCall}

theorem handleSelect_selected (harguments : call.arguments = .ok ())
    (hstate : conn.state = .selected) (hunselect : call.unselect = .ok ()) :
    handleSelect conn call = openMailbox unselected true call := by
  have hserver : (encoderOptions call.quotedUTF8).side = .server := rfl
  have hclosed : ∀ op ∈ closedLine, op.Valid := valid_statusResp _ _
  obtain ⟨out, hout⟩ := Encoder.writeLine_valid hserver [] hclosed
  simp [handleSelect, harguments, hstate, hunselect, show newEncoder = ⟨[], none, false⟩ from rfl,
    hout]

theorem handleSelect_authenticated (harguments : call.arguments = .ok ())
    (hstate : conn.state = .authenticated) :
    handleSelect conn call = openMailbox conn false call := by
  simp [handleSelect, harguments, hstate]

def SelectCall.Opens (call : SelectCall) (conn : Selection) (found : Selection × Bool) : Prop :=
  handleSelect conn call = openMailbox found.1 found.2 call ∧
    (found = (conn, false) ∨ found = (unselected, true)) ∧
    (found.1.state ≠ .selected)

theorem opens_of_reaches (h : call.Reaches conn) : ∃ found, call.Opens conn found := by
  rcases h.state with hstate | ⟨hstate, hunselect⟩
  · refine ⟨(conn, false), handleSelect_authenticated h.arguments hstate, .inl rfl, ?_⟩
    rw [hstate]
    decide
  · exact ⟨(unselected, true),
      handleSelect_selected h.arguments hstate hunselect, .inr rfl, by decide⟩

/-- A connection that cannot be brought back in step has no tagged answer but
that of the handler. -/
theorem not_refused_of_desynchronized (h : call.desynchronized = true)
    (err : Option HandlerError) : ¬Refused (tagged call err) := by
  cases err with
  | none => simp [tagged, Refused]
  | some err => simp [tagged, h, Refused]

theorem leavesNothing_of_not_reaches (h : ¬call.Reaches conn)
    (hrefused : Refused (tagged call (handleSelect conn call).err)) :
    LeavesNothing conn (handleSelect conn call) := by
  have hskipped : call.desynchronized = false := by
    by_contra hlost
    exact not_refused_of_desynchronized (Bool.not_eq_false _ ▸ hlost) _ hrefused
  cases harguments : call.arguments with
  | error err =>
    simp only [handleSelect, harguments]
    exact .inl ⟨rfl, rfl⟩
  | ok =>
    cases hstate : conn.state with
    | authenticated => exact absurd ⟨harguments, .inl hstate, hskipped⟩ h
    | selected =>
      cases hunselect : call.unselect with
      | error err =>
        simp only [handleSelect, harguments, hstate, hunselect]
        exact .inl ⟨rfl, rfl⟩
      | ok =>
        exact absurd ⟨harguments, .inr ⟨hstate, hunselect⟩, hskipped⟩ h
    | none | notAuthenticated | logout =>
      simp only [handleSelect, harguments, hstate]
      exact .inl ⟨rfl, rfl⟩

/-- A refusal leaves nothing selected, unless the flags of the mailbox cannot be
written and nothing in front of the tagged line shows it. -/
theorem select_refused_iff (conn : Selection) (call : SelectCall) :
    (Refused (tagged call (handleSelect conn call).err) →
        LeavesNothing conn (handleSelect conn call)) ↔
      (call.Reaches conn → ∀ data, call.select = .ok data → data.NoticedInTime) := by
  constructor
  · intro h hreaches data hdata
    obtain ⟨found, hfound, hbefore, hstate⟩ := opens_of_reaches hreaches
    by_contra hlate
    have hresult : handleSelect conn call = ⟨selected call data, found.2, some .other⟩ := by
      rw [hfound, openMailbox, hdata]
      exact (writeSelect_cases found.1 found.2 call data).2 hlate
    rw [hresult] at h
    rcases h (.inl (by simp [tagged, hreaches.skipped])) with hsame | hclosed
    · rcases hbefore with rfl | rfl
      · exact hstate (hsame.1 ▸ rfl)
      · cases hsame.2
    · exact absurd (congrArg Selection.state hclosed.2) (by simp [selected, unselected])
  · intro h hrefused
    by_cases hreaches : call.Reaches conn
    · obtain ⟨found, hfound, hbefore, -⟩ := opens_of_reaches hreaches
      have hleaves : ∀ err, LeavesNothing conn ⟨found.1, found.2, err⟩ := by
        intro err
        rcases hbefore with rfl | rfl
        · exact .inl ⟨rfl, rfl⟩
        · exact .inr ⟨rfl, rfl⟩
      rw [hfound, openMailbox] at hrefused ⊢
      cases hselect : call.select with
      | error err => exact hleaves _
      | ok data =>
        rw [hselect] at hrefused
        rcases (writeSelect_cases found.1 found.2 call data).1
          (h hreaches data hselect) with hresult | hresult
        · simp only [hresult]
          exact hleaves _
        · simp [hresult, tagged, Refused] at hrefused
    · exact leavesNothing_of_not_reaches hreaches hrefused

/-- A session that returns a flag with a space. -/
def spacedFlag : SelectCall where
  tag := ascii "a1"
  readOnly := false
  quotedUTF8 := false
  isRev2 := false
  condStore := false
  select := .ok { flags := [ascii "a b"] }

/-- The command is refused, and the mailbox is selected. -/
theorem spacedFlag_selected : Refused (tagged spacedFlag (handleSelect unselected spacedFlag).err) ∧
      (handleSelect unselected spacedFlag).conn.state = .selected ∧
      ¬LeavesNothing unselected (handleSelect unselected spacedFlag) := by
  decide +kernel

end GoImap.Server
