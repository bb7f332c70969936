import GoImap.MemServer.View

/-!
# COPY and MOVE

A session copies the messages it names into another mailbox, under the lock of
the mailbox it has selected.  MOVE then removes them from there, and reports
each removal with the number its own session gives to it afterwards.
-/

namespace GoImap.MemServer

open Tracker

inductive StatusResponseType where
  | ok
  | no
  | bad
  deriving DecidableEq, Repr

structure ImapError where
  type : StatusResponseType
  code : String := ""
  text : String
  deriving DecidableEq, Repr

abbrev MailboxId := Nat

structure Backend where
  names : Bytes → Option MailboxId
  boxes : MailboxId → Mailbox

def Backend.setBox (backend : Backend) (id : MailboxId) (mbox : Mailbox) : Backend :=
  { backend with boxes := Function.update backend.boxes id mbox }

@[simp] theorem setBox_boxes_self (backend : Backend) (id : MailboxId)
    (mbox : Mailbox) : (backend.setBox id mbox).boxes id = mbox := by
  simp [Backend.setBox]

theorem setBox_boxes_of_ne {backend : Backend} {id other : MailboxId}
    {mbox : Mailbox} (h : other ≠ id) :
    (backend.setBox id mbox).boxes other = backend.boxes other := by
  simp [Backend.setBox, h]

def tryCreateError : ImapError where
  type := .no
  code := "TRYCREATE"
  text := "No such mailbox"

def identicalError : ImapError where
  type := .no
  text := "Source and destination mailboxes are identical"

def Backend.destination (backend : Backend) (selected : MailboxId)
    (destName : Bytes) : Except ImapError MailboxId :=
  match backend.names destName with
  | none => .error tryCreateError
  | some dest => if dest = selected then .error identicalError else .ok dest

theorem destination_ne {backend : Backend} {selected dest : MailboxId} {destName : Bytes}
    (h : backend.destination selected destName = .ok dest) :
    dest ≠ selected := by
  unfold Backend.destination at h
  cases hname : backend.names destName with
  | none => simp [hname] at h
  | some found =>
    simp only [hname] at h
    split_ifs at h with hsame
    cases h
    exact hsame

structure CopyData where
  uidValidity : UInt32
  uidMapping : List (UID × UID)
  deriving DecidableEq, Repr

structure CopyState where
  dest : Mailbox
  mapping : List (UID × UID)
  copied : List Nat

def copyVisit [CaseMapping] (now : Time) (state : CopyState)
    (_seqNum : SeqNum) (msg : Message) : CopyState × Message :=
  let (dest, data) := state.dest.copyMsg msg now
  ({ dest := dest
     mapping := state.mapping ++ [(msg.uid, data.uid)]
     copied := state.copied ++ [msg.address] }, msg)

def copyEach [CaseMapping] (source dest : Mailbox) (view : View)
    (numSet : MessageSet) (now : Time) : CopyState :=
  (forEachLoop (fun _ => sessionOf source.tracker view.session)
    (staticNumSet source view numSet) (copyVisit now) source.l 0
    { dest := dest, mapping := [], copied := [] }).1

def Backend.copy [CaseMapping] (backend : Backend) (selected : MailboxId)
    (view : View) (numSet : MessageSet) (destName : Bytes) (now : Time) :
    Except ImapError (Backend × CopyData) :=
  match backend.destination selected destName with
  | .error err => .error err
  | .ok dest =>
    let state := copyEach (backend.boxes selected) (backend.boxes dest) view
      numSet now
    .ok (backend.setBox dest state.dest,
      { uidValidity := (backend.boxes dest).uidValidity, uidMapping := state.mapping })

structure MoveResult where
  source : Mailbox
  dest : Mailbox
  copyData : CopyData
  expunges : List SeqNum

/-- What `Move` does under the lock of the source mailbox.  The numbers it
writes are translated once all removals are queued. -/
def moveMessages [CaseMapping] (source dest : Mailbox) (view : View)
    (numSet : MessageSet) (now : Time) : MoveResult :=
  let state := copyEach source dest view numSet now
  let (source, seqNums) := source.expungeLocked state.copied
  { source := source
    dest := state.dest
    copyData :=
      { uidValidity := dest.uidValidity, uidMapping := state.mapping }
    expunges := seqNums.map (sessionOf source.tracker view.session).encodeSeqNum }

def Backend.move [CaseMapping] (backend : Backend) (selected : MailboxId)
    (view : View) (numSet : MessageSet) (destName : Bytes) (now : Time) :
    Except ImapError (Backend × CopyData × List SeqNum) :=
  match backend.destination selected destName with
  | .error err => .error err
  | .ok dest =>
    let result := moveMessages (backend.boxes selected) (backend.boxes dest) view numSet now
    .ok ((backend.setBox dest result.dest).setBox selected result.source,
      result.copyData, result.expunges)

/-! ## The messages a set selects -/

def selectedFrom (session : SessionTracker) (numSet : MessageSet) :
    List Message → Nat → List (Nat × Message)
  | [], _ => []
  | msg :: rest, index =>
    if selects session numSet (Mailbox.seqNumAt index) msg then
      (index, msg) :: selectedFrom session numSet rest (index + 1)
    else selectedFrom session numSet rest (index + 1)

def View.selected (mbox : Mailbox) (view : View) (numSet : MessageSet) : List (Nat × Message) :=
  selectedFrom (sessionOf mbox.tracker view.session) (staticNumSet mbox view numSet) mbox.l 0

theorem mem_selectedFrom_iff {session : SessionTracker} {numSet : MessageSet}
    {l : List Message} {start index : Nat} {msg : Message} :
    (index, msg) ∈ selectedFrom session numSet l start ↔ (msg, index) ∈ l.zipIdx start ∧
        selects session numSet (Mailbox.seqNumAt index) msg = true := by
  induction l generalizing start with
  | nil => simp [selectedFrom]
  | cons first rest ih =>
    rw [selectedFrom, List.zipIdx_cons]
    split_ifs with hselects
    · simp only [List.mem_cons, ih, Prod.mk.injEq]
      constructor
      · rintro (⟨rfl, rfl⟩ | ⟨hmem, htest⟩)
        · exact ⟨.inl ⟨rfl, rfl⟩, hselects⟩
        · exact ⟨.inr hmem, htest⟩
      · rintro ⟨⟨rfl, rfl⟩ | hmem, htest⟩
        · exact .inl ⟨rfl, rfl⟩
        · exact .inr ⟨hmem, htest⟩
    · rw [ih, List.mem_cons, Prod.mk.injEq]
      constructor
      · rintro ⟨hmem, htest⟩
        exact ⟨.inr hmem, htest⟩
      · rintro ⟨⟨rfl, rfl⟩ | hmem, htest⟩
        · exact absurd htest hselects
        · exact ⟨hmem, htest⟩

theorem getElem?_of_selected {mbox : Mailbox} {view : View} {numSet : MessageSet}
    {entry : Nat × Message} (h : entry ∈ view.selected mbox numSet) :
    mbox.l[entry.1]? = some entry.2 :=
  List.mk_mem_zipIdx_iff_getElem?.mp (mem_selectedFrom_iff.mp h).1

theorem copyLoop_copied [CaseMapping] (session : SessionTracker) (numSet : MessageSet) (now : Time)
    (l : List Message) (index : Nat) (state : CopyState) :
    (forEachLoop (fun _ => session) numSet (copyVisit now) l index state).1.copied = state.copied ++
        (selectedFrom session numSet l index).map fun entry =>
          entry.2.address := by
  induction l generalizing index state with
  | nil => simp [forEachLoop, selectedFrom]
  | cons msg rest ih =>
    rw [forEachLoop, selectedFrom]
    split_ifs with hselects
    · simp [ih, copyVisit]
    · simp [ih]

theorem copyEach_copied [CaseMapping] (source dest : Mailbox) (view : View)
    (numSet : MessageSet) (now : Time) :
    (copyEach source dest view numSet now).copied =
      (view.selected source numSet).map fun entry => entry.2.address := by
  rw [copyEach, copyLoop_copied]
  rfl

end GoImap.MemServer
