import GoImap.Client.Move
import GoImap.MemServer.Resolve
import GoImap.MemServer.Select

/-!
# Where a FETCH response goes

The client gives a FETCH response to the first pending command that asked for
the message and has not had it yet, and to the handler of unilateral data if
there is none.  While a UID FETCH is pending, a response is kept back until its
UID is known.  Whether a command asked for a message is decided by its own set:
the client knows neither the largest number of the mailbox nor the result saved
for `$`.

The connection is open throughout, and the consumers of earlier messages give
their share of the buffer back when it is waited for.
-/

namespace GoImap.Client

open MemServer

/-! ## Pending commands -/

structure FetchCommand where
  numSet : MessageSet
  recvSeqSet : NumSet
  recvUIDSet : NumSet
  deriving DecidableEq, Repr

def newFetch (numSet : MessageSet) : FetchCommand where
  numSet := numSet
  recvSeqSet := []
  recvUIDSet := []

def ranges : MessageSet → NumSet
  | .seqSet set => set
  | .uidSet set => set
  | .searchRes => []

namespace FetchCommand

def recvSeqNum (cmd : FetchCommand) (seqNum : SeqNum) : Option FetchCommand :=
  if isUIDSet cmd.numSet || !(ranges cmd.numSet).contains seqNum then none
  else if cmd.recvSeqSet.contains seqNum then none
  else some { cmd with recvSeqSet := cmd.recvSeqSet.addNum seqNum }

def recvUID (cmd : FetchCommand) (uid : UID) : Option FetchCommand :=
  if !isUIDSet cmd.numSet || !(ranges cmd.numSet).contains uid then none
  else if cmd.recvUIDSet.contains uid then none
  else some { cmd with recvUIDSet := cmd.recvUIDSet.addNum uid }

def recv (cmd : FetchCommand) (seqNum : SeqNum) (uid : UID) : Option FetchCommand :=
  if isUIDSet cmd.numSet then
    if uid ≠ 0 then cmd.recvUID uid else none
  else if seqNum ≠ 0 then cmd.recvSeqNum seqNum
  else none

end FetchCommand

inductive PendingCmd where
  | fetch (cmd : FetchCommand)
  | select (modified : List SelectModifiedData)
  | other
  deriving DecidableEq, Repr

def PendingCmd.isSelect : PendingCmd → Bool
  | .select _ => true
  | _ => false

def claim (seqNum : SeqNum) (uid : UID) : List PendingCmd → Nat → Option (Nat × List PendingCmd)
  | [], _ => none
  | .fetch cmd :: rest, index =>
    match cmd.recv seqNum uid with
    | some next => some (index, .fetch next :: rest)
    | none =>
      (claim seqNum uid rest (index + 1)).map fun found =>
        (found.1, .fetch cmd :: found.2)
  | cmd :: rest, index =>
    (claim seqNum uid rest (index + 1)).map fun found =>
      (found.1, cmd :: found.2)

/-- A UID command is pending; and a command before the first of them still
expects the number. -/
def scanPending (seqNum : SeqNum) : List PendingCmd → Bool × Bool
  | [] => (false, false)
  | .fetch cmd :: rest =>
    if isUIDSet cmd.numSet then (true, false)
    else
      let found := scanPending seqNum rest
      (found.1, found.2 || (seqNum != 0 && (ranges cmd.numSet).contains seqNum &&
        !cmd.recvSeqSet.contains seqNum))
  | _ :: rest => scanPending seqNum rest

def needsUID (seqNum : SeqNum) (cmds : List PendingCmd) : Bool :=
  (scanPending seqNum cmds).1 && !(scanPending seqNum cmds).2

def addModified (data : SelectModifiedData) : List PendingCmd → List PendingCmd
  | [] => []
  | .select modified :: rest => .select (modified ++ [data]) :: rest
  | cmd :: rest => cmd :: addModified data rest

/-! ## Reading a response -/

/-- The items of a response, with the sizes of their literals.  A body is NIL
or has a size. -/
inductive FetchItem where
  | uid (uid : UID)
  | flags (flags : List Flag)
  | modSeq (modSeq : ModSeq)
  | metadata (literals : List Nat)
  | body (literal : Option Nat)
  deriving DecidableEq, Repr

structure FetchResponse where
  seqNum : SeqNum
  items : List FetchItem
  deriving DecidableEq, Repr

inductive Recipient where
  | command (index : Nat)
  | select
  | unilateral
  deriving DecidableEq, Repr

inductive FetchError where
  | bufferTooLarge
  | tooManyItems
  deriving DecidableEq, Repr

def maxFetchBufferedItems : Nat := 4096

def itemsCap : Nat := 32

structure Reading where
  cmds : List PendingCmd
  uid : UID
  flags : List Flag
  modSeq : ModSeq
  handled : Option Recipient
  buffered : Nat
  bufferedBytes : Nat
  numAtts : Nat

structure ReadingContext where
  seqNum : SeqNum
  needsUID : Bool
  hasSelect : Bool
  maxFetchBufferSize : Nat

namespace Reading

variable (context : ReadingContext)

def shouldBuffer (state : Reading) : Bool :=
  context.needsUID && state.handled.isNone && state.uid == 0

def shouldBufferMetadata (state : Reading) : Bool :=
  state.shouldBuffer context || (state.handled.isNone && context.hasSelect)

def reserve (state : Reading) (size : Nat) : Except FetchError Reading :=
  if size + state.bufferedBytes > context.maxFetchBufferSize then
    .error .bufferTooLarge
  else .ok { state with bufferedBytes := state.bufferedBytes + size }

def handleMsg (state : Reading) : Reading :=
  if state.handled.isSome then state
  else if context.hasSelect ∧ state.uid ≠ 0 ∧ state.modSeq ≠ 0 then
    { state with
      cmds := addModified
        { seqNum := context.seqNum
          uid := state.uid
          flags := state.flags
          modSeq := state.modSeq } state.cmds
      handled := some .select }
  else
    match claim context.seqNum state.uid state.cmds 0 with
    | some (index, cmds) =>
      { state with cmds := cmds, handled := some (.command index) }
    | none => { state with handled := some .unilateral }

/-- Metadata literals are counted before the decoder keeps them. -/
def reserveMetadata (state : Reading) : List Nat → Except FetchError Reading
  | [] => .ok state
  | size :: rest =>
    if state.shouldBufferMetadata context then
      match state.reserve context size with
      | .error err => .error err
      | .ok next => next.reserveMetadata rest
    else state.reserveMetadata rest

/-- Read the data of one item.  The result tells whether its consumer is to be
waited for, which is so for a body that is not empty. -/
def readData (state : Reading) : FetchItem → Except FetchError (Reading × Bool)
  | .uid uid => .ok ({ state with uid := uid }, false)
  | .flags flags => .ok ({ state with flags := flags }, false)
  | .modSeq modSeq => .ok ({ state with modSeq := modSeq }, false)
  | .metadata literals =>
    (state.reserveMetadata context literals).map fun next => (next, false)
  | .body none => .ok (state, false)
  | .body (some 0) => .ok (state, false)
  | .body (some size) =>
    if state.shouldBuffer context then
      (state.reserve context size).map fun next => (next, true)
    else .ok (state, true)

def readItem (state : Reading) (item : FetchItem) : Except FetchError Reading :=
  match state.readData context item with
  | .error err => .error err
  | .ok (state, waits) =>
    let state := { state with numAtts := state.numAtts + 1 }
    if state.shouldBuffer context || (state.shouldBufferMetadata context && !waits) then
      if state.buffered ≥ maxFetchBufferedItems then .error .tooManyItems
      else .ok { state with buffered := state.buffered + 1 }
    else
      let state :=
        if state.buffered ≠ 0 then
          { state.handleMsg context with buffered := 0 }
        else state
      if state.numAtts > itemsCap ∨ waits then
        .ok (state.handleMsg context)
      else .ok state

def readItems (state : Reading) : List FetchItem → Except FetchError Reading
  | [] => .ok (state.handleMsg context)
  | item :: rest =>
    match state.readItem context item with
    | .error err => .error err
    | .ok next => next.readItems rest

end Reading

def readingContext (maxFetchBufferSize : Nat) (cmds : List PendingCmd)
    (seqNum : SeqNum) : ReadingContext where
  seqNum := seqNum
  needsUID := needsUID seqNum cmds
  hasSelect := cmds.any PendingCmd.isSelect
  maxFetchBufferSize := maxFetchBufferSize

def Reading.start (cmds : List PendingCmd) : Reading where
  cmds := cmds
  uid := 0
  flags := []
  modSeq := 0
  handled := none
  buffered := 0
  bufferedBytes := 0
  numAtts := 0

def handleFetch (maxFetchBufferSize : Nat) (cmds : List PendingCmd) (response : FetchResponse) :
    Except FetchError (List PendingCmd × Recipient) :=
  match (Reading.start cmds).readItems (readingContext maxFetchBufferSize cmds response.seqNum)
      response.items with
  | .error err => .error err
  | .ok state => .ok (state.cmds, state.handled.getD .unilateral)

def receive (maxFetchBufferSize : Nat) :
    List PendingCmd → List FetchResponse → Except FetchError (List PendingCmd)
  | cmds, [] => .ok cmds
  | cmds, response :: rest =>
    match handleFetch maxFetchBufferSize cmds response with
    | .error err => .error err
    | .ok (next, _) => receive maxFetchBufferSize next rest

/-! ## What a response comes to -/

def dispatch (cmds : List PendingCmd) (seqNum : SeqNum) (uid : UID) : List PendingCmd × Recipient :=
  match claim seqNum uid cmds 0 with
  | some (index, next) => (next, .command index)
  | none => (cmds, .unilateral)

def FetchItem.isUID : FetchItem → Bool
  | .uid _ => true
  | _ => false

def FetchItem.size : FetchItem → Nat
  | .metadata literals => literals.sum
  | .body (some size) => size
  | _ => 0

def keptBack (items : List FetchItem) : List FetchItem := items.takeWhile fun item => !item.isUID

/-- A response that can be kept back until its UID is known, if need be, and
that has no UID zero. -/
structure Readable (numSet : MessageSet) (maxFetchBufferSize : Nat)
    (response : FetchResponse) : Prop where
  uids : isUIDSet numSet = true → ∀ uid, .uid uid ∈ response.items → uid ≠ 0
  count : isUIDSet numSet = true → (keptBack response.items).length ≤ maxFetchBufferedItems
  bytes : isUIDSet numSet = true →
    ((keptBack response.items).map FetchItem.size).sum ≤ maxFetchBufferSize

namespace Reading

variable {context : ReadingContext} {cmds : List PendingCmd}
  {known : UID → Prop} {state : Reading} {item : FetchItem}

def Routed (context : ReadingContext) (cmds : List PendingCmd)
    (known : UID → Prop) (state : Reading) : Prop :=
  state.handled = none ∧ state.cmds = cmds ∨ ∃ uid, known uid ∧
      state.handled = some (dispatch cmds context.seqNum uid).2 ∧
      state.cmds = (dispatch cmds context.seqNum uid).1

theorem handleMsg_uid (state : Reading) : (state.handleMsg context).uid = state.uid := by
  unfold handleMsg
  split_ifs
  · rfl
  · rfl
  · split <;> rfl

theorem Routed.handleMsg (h : state.Routed context cmds known)
    (hselect : context.hasSelect = false) (huid : known state.uid) :
    (state.handleMsg context).Routed context cmds known ∧
      (state.handleMsg context).handled ≠ none := by
  unfold Reading.handleMsg
  rcases h with ⟨hnone, hcmds⟩ | ⟨uid, hknown, hhandled, hcmds⟩
  · simp only [hnone, hselect, hcmds, Option.isSome_none, Bool.false_eq_true, if_false, false_and]
    refine ⟨.inr ⟨state.uid, huid, ?_⟩, ?_⟩
    · unfold dispatch
      split <;> exact ⟨rfl, rfl⟩
    · split <;> simp
  · simp only [hhandled, Option.isSome_some, if_true]
    exact ⟨.inr ⟨uid, hknown, hhandled, hcmds⟩, by simp⟩

/-! ### Once the UID is known -/

theorem shouldBufferMetadata_eq (hselect : context.hasSelect = false) (state : Reading) :
    state.shouldBufferMetadata context = state.shouldBuffer context := by
  simp [shouldBufferMetadata, hselect]

theorem reserveMetadata_settled (hbuffer : state.shouldBufferMetadata context = false)
    (literals : List Nat) :
    state.reserveMetadata context literals = .ok state := by
  induction literals with
  | nil => rfl
  | cons size rest ih => simp [reserveMetadata, hbuffer, ih]

structure KeepsRouting (item : FetchItem) (state next : Reading) : Prop where
  cmds : next.cmds = state.cmds
  handled : next.handled = state.handled
  uid : next.uid = state.uid ∨ item = .uid next.uid

theorem readData_settled (hselect : context.hasSelect = false)
    (hbuffer : state.shouldBuffer context = false) (item : FetchItem) :
    ∃ next waits, state.readData context item = .ok (next, waits) ∧
      KeepsRouting item state next := by
  have hmetadata : state.shouldBufferMetadata context = false := by
    rw [shouldBufferMetadata_eq hselect, hbuffer]
  cases item with
  | uid uid => exact ⟨_, _, rfl, rfl, rfl, .inr rfl⟩
  | flags flags | modSeq modSeq => exact ⟨_, _, rfl, rfl, rfl, .inl rfl⟩
  | metadata literals =>
    refine ⟨state, false, ?_, rfl, rfl, .inl rfl⟩
    rw [readData, reserveMetadata_settled hmetadata]
    rfl
  | body literal =>
    match literal with
    | none => exact ⟨_, _, rfl, rfl, rfl, .inl rfl⟩
    | some 0 => exact ⟨_, _, rfl, rfl, rfl, .inl rfl⟩
    | some (size + 1) =>
      exact ⟨state, true, by simp [readData, hbuffer], rfl, rfl, .inl rfl⟩

/-- What an item may say about the UID: it is of the given kind, and not zero
where the UID is waited for. -/
def Tells (context : ReadingContext) (known : UID → Prop) (item : FetchItem) : Prop :=
  ∀ uid, item = .uid uid → known uid ∧ (context.needsUID = true → uid ≠ 0)

structure Settled (context : ReadingContext) (cmds : List PendingCmd)
    (known : UID → Prop) (state : Reading) : Prop where
  passes : state.shouldBuffer context = false
  uid : known state.uid
  routed : state.Routed context cmds known

namespace Settled

variable (h : state.Settled context cmds known)

include h

theorem congr {next : Reading}
    (hcmds : next.cmds = state.cmds) (hhandled : next.handled = state.handled)
    (huid : next.uid = state.uid) : next.Settled context cmds known := by
  obtain ⟨hpasses, hknown, hrouted⟩ := h
  constructor
  · unfold shouldBuffer at hpasses ⊢
    rw [hhandled, huid]
    exact hpasses
  · rw [huid]
    exact hknown
  · unfold Routed at hrouted ⊢
    rw [hhandled, hcmds]
    exact hrouted

theorem handleMsg (hselect : context.hasSelect = false) :
    (state.handleMsg context).Settled context cmds known := by
  obtain ⟨hrouted, hhandled⟩ := h.routed.handleMsg hselect h.uid
  refine ⟨?_, ?_, hrouted⟩
  · simp [shouldBuffer, Option.isNone_eq_false_iff.mpr (Option.isSome_iff_ne_none.mpr hhandled)]
  · rw [handleMsg_uid]
    exact h.uid

theorem readData (hselect : context.hasSelect = false) (hitem : Tells context known item) :
    ∃ next waits, state.readData context item = .ok (next, waits) ∧
      next.Settled context cmds known := by
  obtain ⟨next, waits, hread, hcmds, hhandled, hsame⟩ := readData_settled hselect h.passes item
  refine ⟨next, waits, hread, ?_⟩
  rcases hsame with hsame | hsame
  · exact h.congr hcmds hhandled hsame
  · obtain ⟨hknown, hnonzero⟩ := hitem next.uid hsame
    refine ⟨?_, hknown, ?_⟩
    · unfold shouldBuffer
      cases hneeds : context.needsUID with
      | false => rfl
      | true => simp [hnonzero hneeds]
    · have hrouted := h.routed
      unfold Routed at hrouted ⊢
      rw [hcmds, hhandled]
      exact hrouted

omit h in
theorem readItem (hselect : context.hasSelect = false) {next : Reading}
    {waits : Bool} (hread : state.readData context item = .ok (next, waits))
    (h : next.Settled context cmds known) :
    ∃ final, state.readItem context item = .ok final ∧ final.Settled context cmds known := by
  have hcounted : Settled context cmds known
      { next with numAtts := next.numAtts + 1 } := h.congr rfl rfl rfl
  have hmetadata := shouldBufferMetadata_eq hselect { next with numAtts := next.numAtts + 1 }
  unfold Reading.readItem
  simp only [hread, hmetadata, hcounted.passes, Bool.false_and, Bool.or_self,
    Bool.false_eq_true, if_false]
  by_cases hbuffered : next.buffered ≠ 0
  · have hflushed : Settled context cmds known { Reading.handleMsg context
            { next with numAtts := next.numAtts + 1 } with buffered := 0 } :=
      (hcounted.handleMsg hselect).congr rfl rfl rfl
    split_ifs
    · exact ⟨_, rfl, hflushed.handleMsg hselect⟩
    · exact ⟨_, rfl, hflushed⟩
  · rw [if_neg hbuffered]
    split_ifs
    · exact ⟨_, rfl, hcounted.handleMsg hselect⟩
    · exact ⟨_, rfl, hcounted⟩

theorem readItems (hselect : context.hasSelect = false) {items : List FetchItem}
    (hitems : ∀ item ∈ items, Tells context known item) :
    ∃ final, state.readItems context items = .ok final ∧
      final.Routed context cmds known ∧ final.handled ≠ none := by
  induction items generalizing state with
  | nil => exact ⟨_, rfl, h.routed.handleMsg hselect h.uid⟩
  | cons item rest ih =>
    obtain ⟨read, waits, hread, hsettled⟩ := h.readData hselect (hitems item (by simp))
    obtain ⟨next, hnext, hsettled'⟩ := hsettled.readItem hselect hread
    obtain ⟨final, hfinal, hrouted⟩ := ih hsettled'
      fun other hother => hitems other (List.mem_cons_of_mem _ hother)
    exact ⟨final, by rw [Reading.readItems, hnext]; exact hfinal, hrouted⟩

end Settled

/-! ### While the response is kept back -/

structure Waiting (cmds : List PendingCmd) (state : Reading) : Prop where
  uid : state.uid = 0
  handled : state.handled = none
  cmds : state.cmds = cmds

namespace Waiting

variable (h : state.Waiting cmds)

include h

section

variable (hneeds : context.needsUID = true)

include hneeds

theorem buffers : state.shouldBuffer context = true := by
  simp [shouldBuffer, hneeds, h.handled, h.uid]

theorem reserveMetadata {literals : List Nat}
    (hbytes : state.bufferedBytes + literals.sum ≤ context.maxFetchBufferSize) :
    ∃ next, state.reserveMetadata context literals = .ok next ∧
      next.Waiting cmds ∧ next.buffered = state.buffered ∧
      next.bufferedBytes = state.bufferedBytes + literals.sum := by
  induction literals generalizing state with
  | nil => exact ⟨state, rfl, h, rfl, rfl⟩
  | cons size rest ih =>
    rw [List.sum_cons] at hbytes ⊢
    have hfits : ¬size + state.bufferedBytes > context.maxFetchBufferSize := by omega
    have hnext : Waiting cmds { state with bufferedBytes := state.bufferedBytes + size } :=
      ⟨h.uid, h.handled, h.cmds⟩
    obtain ⟨next, hread, hwaiting, hcount, htotal⟩ := ih hnext (by simp only; omega)
    refine ⟨next, ?_, hwaiting, hcount, by simp only [htotal]; omega⟩
    have hmetadata : state.shouldBufferMetadata context = true := by
      simp [shouldBufferMetadata, h.buffers hneeds]
    rw [Reading.reserveMetadata, if_pos hmetadata, reserve, if_neg hfits]
    exact hread

theorem readData (hitem : item.isUID = false)
    (hbytes : state.bufferedBytes + item.size ≤ context.maxFetchBufferSize) :
    ∃ next waits, state.readData context item = .ok (next, waits) ∧
      next.Waiting cmds ∧ next.buffered = state.buffered ∧
      next.bufferedBytes = state.bufferedBytes + item.size := by
  have hsame : ∀ {flags : List Flag} {modSeq : ModSeq}, Waiting cmds { state with
        flags := flags
        modSeq := modSeq } := ⟨h.uid, h.handled, h.cmds⟩
  cases item with
  | uid uid => cases hitem
  | flags flags | modSeq modSeq => exact ⟨_, _, rfl, hsame, rfl, rfl⟩
  | metadata literals =>
    obtain ⟨next, hread, hnext⟩ := h.reserveMetadata hneeds hbytes
    refine ⟨next, false, ?_, hnext⟩
    rw [Reading.readData, hread]
    rfl
  | body literal =>
    match literal with
    | none => exact ⟨_, _, rfl, h, rfl, rfl⟩
    | some 0 => exact ⟨_, _, rfl, h, rfl, rfl⟩
    | some (size + 1) =>
      have hfits : ¬size + 1 + state.bufferedBytes > context.maxFetchBufferSize := by
        simp only [FetchItem.size] at hbytes
        omega
      refine ⟨{ state with bufferedBytes := state.bufferedBytes + (size + 1) }, true, ?_,
        ⟨h.uid, h.handled, h.cmds⟩, rfl, rfl⟩
      simp only [Reading.readData, h.buffers hneeds, if_true, reserve, if_neg hfits, Except.map]

theorem readItem (hitem : item.isUID = false) (hcount : state.buffered < maxFetchBufferedItems)
    (hbytes : state.bufferedBytes + item.size ≤ context.maxFetchBufferSize) :
    ∃ next, state.readItem context item = .ok next ∧
      next.Waiting cmds ∧ next.buffered = state.buffered + 1 ∧
      next.bufferedBytes = state.bufferedBytes + item.size := by
  obtain ⟨read, waits, hread, hwaiting, hsame, htotal⟩ := h.readData hneeds hitem hbytes
  have hcounted : Waiting cmds { read with numAtts := read.numAtts + 1 } :=
    ⟨hwaiting.uid, hwaiting.handled, hwaiting.cmds⟩
  refine ⟨{ read with numAtts := read.numAtts + 1, buffered := read.buffered + 1 }, ?_,
    ⟨hwaiting.uid, hwaiting.handled, hwaiting.cmds⟩, by simp [hsame], htotal⟩
  rw [← hsame] at hcount
  simp [Reading.readItem, hread, hcounted.buffers hneeds, if_neg (Nat.not_le.mpr hcount)]

end

theorem readUID (hselect : context.hasSelect = false) {uid : UID} (hknown : known uid)
    (hnonzero : uid ≠ 0) :
    ∃ next, state.readItem context (.uid uid) = .ok next ∧ next.Settled context cmds known := by
  refine Settled.readItem hselect rfl ⟨?_, hknown, .inl ?_⟩
  · simp [shouldBuffer, hnonzero]
  · exact ⟨h.handled, h.cmds⟩

theorem readItems (hselect : context.hasSelect = false) (hneeds : context.needsUID = true)
    {items : List FetchItem} (hitems : ∀ item ∈ items, Tells context known item)
    (hend : known 0 ∨ ∃ uid, .uid uid ∈ items)
    (hcount : state.buffered + (keptBack items).length ≤ maxFetchBufferedItems)
    (hbytes : state.bufferedBytes + ((keptBack items).map FetchItem.size).sum ≤
        context.maxFetchBufferSize) :
    ∃ final, state.readItems context items = .ok final ∧
      final.Routed context cmds known ∧ final.handled ≠ none := by
  induction items generalizing state with
  | nil =>
    have hknown : known state.uid := by
      rw [h.uid]
      simpa using hend
    exact ⟨_, rfl, Routed.handleMsg (.inl ⟨h.handled, h.cmds⟩) hselect hknown⟩
  | cons item rest ih =>
    have hrest : ∀ other ∈ rest, Tells context known other :=
      fun other hother => hitems other (List.mem_cons_of_mem _ hother)
    cases hitem : item.isUID with
    | true =>
      obtain ⟨uid, rfl⟩ : ∃ uid, item = .uid uid := by
        cases item <;> simp_all [FetchItem.isUID]
      obtain ⟨hknown, hnonzero⟩ := hitems (.uid uid) (by simp) uid rfl
      obtain ⟨next, hread, hsettled⟩ := h.readUID hselect hknown (hnonzero hneeds)
      obtain ⟨final, hfinal, hrouted⟩ := hsettled.readItems hselect hrest
      exact ⟨final, by rw [Reading.readItems, hread]; exact hfinal, hrouted⟩
    | false =>
      have hkept : keptBack (item :: rest) = item :: keptBack rest := by
        simp [keptBack, hitem]
      rw [hkept] at hcount hbytes
      simp only [List.length_cons, List.map_cons, List.sum_cons] at hcount hbytes
      obtain ⟨next, hread, hnext, hmore, htotal⟩ := h.readItem hneeds hitem (by omega) (by omega)
      have hend' : known 0 ∨ ∃ uid, .uid uid ∈ rest := by
        refine hend.imp id ?_
        rintro ⟨uid, hmem⟩
        rcases List.mem_cons.mp hmem with rfl | hmem
        · cases hitem
        · exact ⟨uid, hmem⟩
      obtain ⟨final, hfinal, hrouted⟩ := ih hnext hrest hend' (by omega) (by omega)
      exact ⟨final, by rw [Reading.readItems, hread]; exact hfinal, hrouted⟩

end Waiting

end Reading

end GoImap.Client
