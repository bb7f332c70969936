import GoImap.Basic

/-!
# Mailbox and session trackers

A `MailboxTracker` holds the server's message count and hands every update to
the sessions registered with it.  A `SessionTracker` queues the updates its
client has not been told about, together with the count as of the last queued
update.  The three translation functions reconcile the two by walking the
queue: forwards from the client's numbers to the server's, backwards from the
server's to the client's.

A session is a pointer in the program and a number here.  The mailbox forgets
a session when it is closed; the closed tracker stays behind for goroutines
that still hold it, so the model keeps it and marks it.  The channel that wakes
an idling connection carries no data and is left out.
-/

namespace GoImap.Tracker

structure TrackerUpdateFetch where
  seqNum : SeqNum
  uid : UID
  flags : List Flag
  modSeq : ModSeq
  deriving DecidableEq, Repr

/-- At most one kind of data is set; a zero number or `none` means unset. -/
structure TrackerUpdate where
  expunge : SeqNum := 0
  expungeUID : UID := 0
  numMessages : UInt32 := 0
  prevNumMessages : UInt32 := 0
  mailboxFlags : Option (List Flag) := none
  fetch : Option TrackerUpdateFetch := none
  deriving DecidableEq, Repr

def TrackerUpdate.countAfter (update : TrackerUpdate) (count : UInt32) : UInt32 :=
  if update.expunge ≠ 0 then count - 1
  else if update.numMessages ≠ 0 then update.numMessages
  else count

structure SessionTracker where
  closed : Bool
  numMessages : UInt32
  queue : List TrackerUpdate
  deriving DecidableEq, Repr

abbrev SessionId := Nat

/-- The registered sessions are those of `sessions` that are not closed. -/
structure MailboxTracker where
  numMessages : UInt32
  sessions : SessionId → Option SessionTracker
  nextSession : SessionId

def newMailboxTracker (numMessages : UInt32) : MailboxTracker where
  numMessages := numMessages
  sessions := fun _ => none
  nextSession := 0

/-! ## Session operations -/

namespace SessionTracker

def close (session : SessionTracker) : SessionTracker := { session with closed := true }

/-- The count is recorded even when the update is skipped. -/
def queueUpdate (session : SessionTracker) (update : TrackerUpdate)
    (numMessages : UInt32) (skip : Bool) : SessionTracker :=
  if skip then { session with numMessages := numMessages }
  else
    { session with numMessages := numMessages, queue := session.queue ++ [update] }

/--
The updates one poll takes from the queue, and the session that remains.
Without permission to expunge the poll stops in front of the first expunge.
-/
def dequeue (session : SessionTracker) (allowExpunge : Bool) :
    List TrackerUpdate × SessionTracker :=
  if allowExpunge then (session.queue, { session with queue := [] })
  else
    (session.queue.takeWhile (·.expunge == 0),
      { session with queue := session.queue.dropWhile (·.expunge == 0) })

def decodeWalk : List TrackerUpdate → SeqNum → SeqNum
  | [], seqNum => seqNum
  | update :: rest, seqNum =>
    if update.expunge = 0 then decodeWalk rest seqNum
    else if seqNum = update.expunge then 0
    else if seqNum > update.expunge then decodeWalk rest (seqNum - 1)
    else decodeWalk rest seqNum

def decodeSeqNum (session : SessionTracker) (seqNum : SeqNum) : SeqNum :=
  if seqNum = 0 then 0
  else if session.closed then 0
  else
    let decoded := decodeWalk session.queue seqNum
    if decoded > session.numMessages then 0 else decoded

def encodeWalk : List TrackerUpdate → SeqNum → SeqNum
  | [], seqNum => seqNum
  | update :: rest, seqNum =>
    if update.numMessages ≠ 0 ∧ seqNum > update.prevNumMessages ∧ seqNum ≤ update.numMessages then 0
    else if update.expunge ≠ 0 ∧ seqNum ≥ update.expunge then
      encodeWalk rest (seqNum + 1)
    else encodeWalk rest seqNum

def encodeSeqNum (session : SessionTracker) (seqNum : SeqNum) : SeqNum :=
  if seqNum = 0 then 0
  else if session.closed then 0
  else if seqNum > session.numMessages then 0
  else encodeWalk session.queue.reverse seqNum

def encodeCountWalk : List TrackerUpdate → UInt32 → UInt32
  | [], count => count
  | update :: rest, count =>
    let undone :=
      if update.numMessages ≠ 0 then update.prevNumMessages else count
    encodeCountWalk rest (if update.expunge ≠ 0 then undone + 1 else undone)

def encodeNumMessages (session : SessionTracker) : UInt32 :=
  if session.closed then 0
  else encodeCountWalk session.queue.reverse session.numMessages

end SessionTracker

/-! ## Mailbox operations -/

def expungeRangeError (expunge numMessages : UInt32) : String :=
  "imapserver: expunge sequence number (" ++ toString expunge ++
    ") out of range (" ++ toString numMessages ++ " messages in mailbox)"

def decreaseError (current requested : UInt32) : String :=
  "imapserver: cannot decrease mailbox number of messages from " ++
    toString current ++ " to " ++ toString requested

def invalidExpungeError : String := "imapserver: invalid expunge message sequence number"

namespace TrackerUpdate

def check (update : TrackerUpdate) (numMessages : UInt32) : Except String Unit :=
  if update.expunge ≠ 0 ∧ update.expunge > numMessages then
    .error (expungeRangeError update.expunge numMessages)
  else if update.numMessages ≠ 0 ∧ update.numMessages < numMessages then
    .error (decreaseError numMessages update.numMessages)
  else .ok ()

def stamp (update : TrackerUpdate) (numMessages : UInt32) : TrackerUpdate :=
  if update.numMessages ≠ 0 then
    { update with prevNumMessages := numMessages }
  else update

end TrackerUpdate

namespace MailboxTracker

def queueUpdate (tracker : MailboxTracker) (update : TrackerUpdate)
    (source : Option SessionId) : Except String MailboxTracker :=
  match update.check tracker.numMessages with
  | .error text => .error text
  | .ok () =>
    let numMessages := update.countAfter tracker.numMessages
    .ok { tracker with
      numMessages := numMessages
      sessions := fun id => (tracker.sessions id).map fun session =>
        if session.closed then session
        else
          session.queueUpdate (update.stamp tracker.numMessages) numMessages (source == some id) }

def queueExpunge (tracker : MailboxTracker) (seqNum : SeqNum) (uid : UID) :
    Except String MailboxTracker :=
  if seqNum = 0 then .error invalidExpungeError
  else tracker.queueUpdate { expunge := seqNum, expungeUID := uid } none

def queueNumMessages (tracker : MailboxTracker) (numMessages : UInt32) :
    Except String MailboxTracker :=
  if numMessages = 0 then
    if tracker.numMessages ≠ 0 then
      .error (decreaseError tracker.numMessages 0)
    else .ok tracker
  else tracker.queueUpdate { numMessages := numMessages } none

/-- A nil list is replaced by the empty one before it is queued. -/
def queueMailboxFlags (tracker : MailboxTracker) (flags : Option (List Flag)) :
    Except String MailboxTracker :=
  tracker.queueUpdate { mailboxFlags := some (flags.getD []) } none

def queueMessageFlags (tracker : MailboxTracker) (seqNum : SeqNum) (uid : UID)
    (flags : List Flag) (modSeq : ModSeq) (source : Option SessionId) :
    Except String MailboxTracker :=
  tracker.queueUpdate
    { fetch := some
        { seqNum := seqNum, uid := uid, flags := flags, modSeq := modSeq } } source

def newSession (tracker : MailboxTracker) : SessionId × MailboxTracker :=
  (tracker.nextSession, { tracker with
      sessions := Function.update tracker.sessions tracker.nextSession (some
          { closed := false, numMessages := tracker.numMessages, queue := [] })
      nextSession := tracker.nextSession + 1 })

def modifySession (tracker : MailboxTracker) (id : SessionId)
    (change : SessionTracker → SessionTracker) : MailboxTracker :=
  { tracker with
    sessions := Function.update tracker.sessions id ((tracker.sessions id).map change) }

def closeSession (tracker : MailboxTracker) (id : SessionId) : MailboxTracker :=
  tracker.modifySession id SessionTracker.close

/-- The effect of a poll on the tracker; what it writes is modelled apart. -/
def pollSession (tracker : MailboxTracker) (id : SessionId)
    (allowExpunge : Bool) : MailboxTracker :=
  tracker.modifySession id fun session => (session.dequeue allowExpunge).2

end MailboxTracker

end GoImap.Tracker
