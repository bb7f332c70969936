import GoImap.MemServer.Mailbox

/-!
# Views of a mailbox

A view is one connection's look at a mailbox: a session of its tracker and the
result saved for `$`.  Commands name messages by sequence number, by UID or by
`$`; `forEach` visits the messages named, in the order of the mailbox.
-/

namespace GoImap.MemServer

open Tracker

inductive MessageSet where
  | seqSet (set : NumSet)
  | uidSet (set : NumSet)
  | searchRes
  deriving DecidableEq, Repr

structure View where
  session : SessionId
  searchRes : NumSet
  deriving DecidableEq, Repr

/-- The first view of a mailbox, before any result is saved. -/
def firstView : View where
  session := 0
  searchRes := []

def sessionOf (tracker : MailboxTracker) (id : SessionId) : SessionTracker :=
  (tracker.sessions id).getD
    { closed := true, numMessages := 0, queue := [] }

def staticNumRange (range : NumRange) (max : UInt32) : NumRange :=
  let start := if range.start = 0 then max else range.start
  let stop := if range.stop = 0 then max else range.stop
  if (range.start = 0 ∨ range.stop = 0) ∧ start > stop then ⟨stop, start⟩
  else ⟨start, stop⟩

def staticNumSet (mbox : Mailbox) (view : View) : MessageSet → MessageSet
  | .searchRes => .uidSet view.searchRes
  | .seqSet set =>
    .seqSet (set.map fun range => staticNumRange range
      (sessionOf mbox.tracker view.session).encodeNumMessages)
  | .uidSet set =>
    .uidSet (set.map fun range => staticNumRange range (mbox.uidNext - 1))

def selects (session : SessionTracker) (numSet : MessageSet)
    (seqNum : SeqNum) (msg : Message) : Bool :=
  match numSet with
  | .seqSet set =>
    let client := session.encodeSeqNum seqNum
    client != 0 && set.contains client
  | .uidSet set => set.contains msg.uid
  | .searchRes => false

/--
The loop of `forEachLocked`.  A visit may change the message it is given and
the rest of the state; the set is tested against the state of that moment.
-/
def forEachLoop {σ : Type} (session : σ → SessionTracker)
    (numSet : MessageSet) (visit : σ → SeqNum → Message → σ × Message) :
    List Message → Nat → σ → σ × List Message
  | [], _, state => (state, [])
  | msg :: rest, index, state =>
    let visited :=
      if selects (session state) numSet (Mailbox.seqNumAt index) msg then
        visit state (Mailbox.seqNumAt index) msg
      else (state, msg)
    let tail := forEachLoop session numSet visit rest (index + 1) visited.1
    (tail.1, visited.2 :: tail.2)

/-! ## Flag updates and sequence numbers -/

def UpToDate (tracker : MailboxTracker) (id : SessionId) : Prop :=
  (sessionOf tracker id).closed = false → (sessionOf tracker id).numMessages = tracker.numMessages

theorem queueUpdate_upToDate {tracker next : MailboxTracker}
    {update : TrackerUpdate} {source : Option SessionId}
    (h : tracker.queueUpdate update source = .ok next) (id : SessionId) :
    UpToDate next id := by
  unfold MailboxTracker.queueUpdate at h
  split at h
  · cases h
  · injection h with h
    subst h
    unfold UpToDate sessionOf
    cases hsession : tracker.sessions id with
    | none => simp [hsession]
    | some session =>
      cases hclosed : session.closed with
      | true => simp [hsession, hclosed]
      | false =>
        cases hskip : source == some id with
        | false => simp [hsession, hclosed, hskip, SessionTracker.queueUpdate]
        | true => simp [hsession, hclosed, hskip, SessionTracker.queueUpdate]

inductive Flagged (tracker : MailboxTracker) : MailboxTracker → Prop
  | same : Flagged tracker tracker
  | queued {next : MailboxTracker} {seqNum : SeqNum} {uid : UID} {flags : List Flag}
      {modSeq : ModSeq} {source : Option SessionId}
      (h : tracker.queueMessageFlags seqNum uid flags modSeq source = .ok next) :
      Flagged tracker next

section Flagged

variable {tracker next : MailboxTracker} {id : SessionId} (h : Flagged tracker next)

include h

theorem Flagged.upToDate (hcurrent : UpToDate tracker id) : UpToDate next id := by
  cases h with
  | same => exact hcurrent
  | queued h => exact queueUpdate_upToDate h id

theorem Flagged.encodeSeqNum (hcurrent : UpToDate tracker id) :
    (sessionOf next id).encodeSeqNum = (sessionOf tracker id).encodeSeqNum := by
  cases h with
  | same => rfl
  | @queued _ _ _ _ _ source h =>
    cases h
    unfold UpToDate sessionOf at *
    cases hsession : tracker.sessions id with
    | none => simp [hsession]
    | some session =>
      cases hclosed : session.closed with
      | true => simp [hsession, hclosed]
      | false =>
        have hcount : session.numMessages = tracker.numMessages := by
          simpa [hsession, hclosed] using hcurrent
        funext number
        cases hskip : source == some id with
        | false =>
          simp [hsession, hclosed, hskip, SessionTracker.queueUpdate, SessionTracker.encodeSeqNum,
            SessionTracker.encodeWalk, TrackerUpdate.countAfter, TrackerUpdate.stamp, hcount]
        | true =>
          simp [hsession, hclosed, hskip, SessionTracker.queueUpdate,
            SessionTracker.encodeSeqNum, TrackerUpdate.countAfter, hcount]

end Flagged

theorem selects_congr {first second : SessionTracker}
    (h : first.encodeSeqNum = second.encodeSeqNum) :
    selects first = selects second := by
  unfold selects
  rw [h]

/-! ## FETCH -/

structure FetchItemBodySection where
  peek : Bool
  deriving DecidableEq, Repr

structure FetchOptions where
  bodySection : List FetchItemBodySection
  changedSince : ModSeq
  deriving DecidableEq, Repr

def FetchOptions.markSeen (options : FetchOptions) : Bool :=
  options.bodySection.any fun section_ => !section_.peek

structure FetchState where
  tracker : MailboxTracker
  dropped : List String
  flagsChanged : Bool := false
  failed : Bool := false
  responses : List (SeqNum × UID) := []

def FetchState.start (mbox : Mailbox) : FetchState where
  tracker := mbox.tracker
  dropped := mbox.dropped

def FetchState.load (state : FetchState) (mbox : Mailbox) : FetchState :=
  { state with tracker := mbox.tracker, dropped := mbox.dropped }

def FetchState.store (state : FetchState) (mbox : Mailbox) (l : List Message) : Mailbox :=
  { mbox with tracker := state.tracker, dropped := state.dropped, l := l }

/-- One call of the function `Fetch` passes to `forEach`.  `writeFails` says
which of the responses, counted from zero, cannot be written. -/
def fetchVisit [CaseMapping] (id : SessionId) (options : FetchOptions) (writeFails : Nat → Bool)
    (state : FetchState) (seqNum : SeqNum) (msg : Message) : FetchState × Message :=
  if state.failed then (state, msg)
  else if options.changedSince > 0 ∧ msg.modSeq ≤ options.changedSince then
    (state, msg)
  else
    let marked :=
      if options.markSeen then
        let msg := { msg with flags := msg.flags.insert (canonicalFlag flagSeen) }
        let state := { state with flagsChanged := true }
        match state.tracker.queueMessageFlags seqNum msg.uid msg.flagList 0 none with
        | .ok tracker => ({ state with tracker := tracker }, msg)
        | .error text => ({ state with dropped := state.dropped ++ [text] }, msg)
      else (state, msg)
    let client := (sessionOf marked.1.tracker id).encodeSeqNum seqNum
    ({ marked.1 with
        failed := writeFails marked.1.responses.length
        responses := marked.1.responses ++ [(client, msg.uid)] }, marked.2)

theorem fetchVisit_cases [CaseMapping] {id : SessionId} {options : FetchOptions}
    {writeFails : Nat → Bool} {state next : FetchState} {seqNum : SeqNum} {msg new : Message}
    (h : fetchVisit id options writeFails state seqNum msg = (next, new)) :
    (state.failed = true ∨ options.changedSince > 0 ∧ msg.modSeq ≤ options.changedSince) ∧
        next = state ∧ new = msg ∨
      (state.failed = false ∧ ¬(options.changedSince > 0 ∧ msg.modSeq ≤ options.changedSince)) ∧
        Flagged state.tracker next.tracker ∧ next.dropped = state.dropped ∧
        new = (if options.markSeen then
          { msg with flags := msg.flags.insert (canonicalFlag flagSeen) } else msg) ∧
        next.failed = writeFails state.responses.length ∧ next.responses = state.responses ++
          [((sessionOf next.tracker id).encodeSeqNum seqNum, msg.uid)] := by
  unfold fetchVisit at h
  split_ifs at h with hfailed hpassed hseen
  · cases h
    exact .inl ⟨.inl hfailed, rfl, rfl⟩
  · cases h
    exact .inl ⟨.inr hpassed, rfl, rfl⟩
  · cases h
    exact .inr ⟨⟨by simpa using hfailed, hpassed⟩, .queued rfl, rfl, (if_pos hseen).symm, rfl, rfl⟩
  · cases h
    exact .inr ⟨⟨by simpa using hfailed, hpassed⟩, .same, rfl, (if_neg hseen).symm, rfl, rfl⟩

structure FetchResult where
  responses : List (SeqNum × UID)
  flagsChanged : Bool
  failed : Bool
  deriving DecidableEq, Repr

def View.fetch [CaseMapping] (mbox : Mailbox) (view : View) (numSet : MessageSet)
    (options : FetchOptions) (writeFails : Nat → Bool) : Mailbox × FetchResult :=
  let result := forEachLoop (fun state => sessionOf state.tracker view.session)
    (staticNumSet mbox view numSet)
    (fetchVisit view.session options writeFails) mbox.l 0 (.start mbox)
  (result.1.store mbox result.2,
    { responses := result.1.responses
      flagsChanged := result.1.flagsChanged
      failed := result.1.failed })

/-! ## STORE -/

inductive StoreFlagsOp where
  | set
  | add
  | del
  deriving DecidableEq, Repr

structure StoreFlags where
  op : StoreFlagsOp
  silent : Bool
  flags : List Flag
  deriving DecidableEq, Repr

structure StoreOptions where
  unchangedSince : ModSeq := 0
  unchangedSinceSet : Bool := false
  uidStore : Bool := false
  deriving DecidableEq, Repr

def StoreOptions.conditional (options : StoreOptions) : Bool :=
  options.unchangedSinceSet || options.unchangedSince != 0

namespace Message

def addFlags [CaseMapping] (flags : FlagSet) (added : List Flag) : FlagSet :=
  added.foldl (fun flags flag => flags.insert (canonicalFlag flag)) flags

def storedFlags [CaseMapping] (msg : Message) (store : StoreFlags) : FlagSet :=
  match store.op with
  | .set => addFlags .empty store.flags
  | .add => addFlags msg.flags store.flags
  | .del =>
    store.flags.foldl (fun flags flag => flags.delete (canonicalFlag flag)) msg.flags

def flagsChanged (old new : FlagSet) : Bool :=
  if old.keys.length != new.keys.length then true
  else
    old.keys.any (fun flag => !new.contains flag) || new.keys.any (fun flag => !old.contains flag)

def store [CaseMapping] (msg : Message) (highestModSeq : ModSeq)
    (store : StoreFlags) : Message × ModSeq × Bool :=
  let flags := msg.storedFlags store
  if flagsChanged msg.flags flags then
    ({ msg with flags := flags, modSeq := highestModSeq + 1 }, highestModSeq + 1, true)
  else ({ msg with flags := flags }, highestModSeq, false)

end Message

structure ModifiedMessageData where
  encSeqNum : SeqNum
  uid : UID
  flags : List Flag
  modSeq : ModSeq
  deriving DecidableEq, Repr

structure StoreState where
  tracker : MailboxTracker
  dropped : List String
  highestModSeq : ModSeq
  modified : List ModifiedMessageData := []
  failedUIDs : NumSet := []
  failedSeqs : NumSet := []
  changedAny : Bool := false

def StoreState.start (mbox : Mailbox) : StoreState where
  tracker := mbox.tracker
  dropped := mbox.dropped
  highestModSeq := mbox.highestModSeq

def StoreState.load (state : StoreState) (mbox : Mailbox) : StoreState :=
  { state with
    tracker := mbox.tracker
    dropped := mbox.dropped
    highestModSeq := mbox.highestModSeq }

def StoreState.store (state : StoreState) (mbox : Mailbox) (l : List Message) : Mailbox :=
  { mbox with
    tracker := state.tracker
    dropped := state.dropped
    highestModSeq := state.highestModSeq
    l := l }

/-- MODIFIED is expressed in UIDs for UID STORE, and in sequence numbers
otherwise; `$` does not tell the two apart. -/
def uidSpace (numSet : MessageSet) (options : StoreOptions) : Bool :=
  match numSet with
  | .seqSet _ => false
  | .uidSet _ => true
  | .searchRes => options.uidStore

def storeVisit [CaseMapping] (id : SessionId) (flags : StoreFlags) (options : StoreOptions)
    (inUIDs : Bool) (state : StoreState) (seqNum : SeqNum) (msg : Message) : StoreState × Message :=
  let client := (sessionOf state.tracker id).encodeSeqNum seqNum
  if options.conditional ∧ msg.modSeq > options.unchangedSince then
    if inUIDs then
      ({ state with failedUIDs := state.failedUIDs.addNum msg.uid }, msg)
    else if client ≠ 0 then
      ({ state with failedSeqs := state.failedSeqs.addNum client }, msg)
    else (state, msg)
  else
    let (msg, highestModSeq, changed) := msg.store state.highestModSeq flags
    if changed then
      let queued :=
        match state.tracker.queueMessageFlags seqNum msg.uid msg.flagList msg.modSeq (some id) with
        | .ok tracker => { state with tracker := tracker }
        | .error text => { state with dropped := state.dropped ++ [text] }
      let client := (sessionOf queued.tracker id).encodeSeqNum seqNum
      let reported :=
        if (!flags.silent || options.conditional) && client != 0 then
          [{ encSeqNum := client, uid := msg.uid, flags := msg.flagList, modSeq := msg.modSeq }]
        else []
      ({ queued with
          highestModSeq := highestModSeq
          modified := queued.modified ++ reported
          changedAny := true }, msg)
    else (state, msg)

theorem storeVisit_cases [CaseMapping] {id : SessionId} {flags : StoreFlags}
    {options : StoreOptions} {inUIDs : Bool} {state next : StoreState} {seqNum : SeqNum}
    {msg new : Message} (h : storeVisit id flags options inUIDs state seqNum msg = (next, new)) :
    (options.conditional = true ∧ msg.modSeq > options.unchangedSince) ∧
        next.tracker = state.tracker ∧ next.dropped = state.dropped ∧
        next.highestModSeq = state.highestModSeq ∧ new = msg ∨
      ¬(options.conditional = true ∧ msg.modSeq > options.unchangedSince) ∧
        Flagged state.tracker next.tracker ∧ next.dropped = state.dropped ∧
        next.highestModSeq = (msg.store state.highestModSeq flags).2.1 ∧
        new = (msg.store state.highestModSeq flags).1 ∧
        next.failedUIDs = state.failedUIDs ∧ next.failedSeqs = state.failedSeqs := by
  unfold storeVisit at h
  by_cases hskip : options.conditional = true ∧ msg.modSeq > options.unchangedSince
  · rw [if_pos hskip] at h
    split_ifs at h
    all_goals
      cases h
      exact .inl ⟨hskip, rfl, rfl, rfl, rfl⟩
  · rw [if_neg hskip] at h
    unfold Message.store at h ⊢
    by_cases hchanged : Message.flagsChanged msg.flags (msg.storedFlags flags) = true
    · simp only [hchanged, if_true] at h ⊢
      cases h
      exact .inr ⟨hskip, .queued rfl, rfl, rfl, rfl, rfl, rfl⟩
    · simp only [hchanged] at h ⊢
      cases h
      exact .inr ⟨hskip, .same, rfl, rfl, rfl, rfl, rfl⟩

structure StoreResult where
  modified : List ModifiedMessageData
  failed : NumSet
  changedAny : Bool
  deriving DecidableEq, Repr

def View.store [CaseMapping] (mbox : Mailbox) (view : View)
    (numSet : MessageSet) (flags : StoreFlags) (options : StoreOptions) :
    Mailbox × StoreResult :=
  let inUIDs := uidSpace numSet options
  let result := forEachLoop (fun state => sessionOf state.tracker view.session)
    (staticNumSet mbox view numSet)
    (storeVisit view.session flags options inUIDs) mbox.l 0 (.start mbox)
  (result.1.store mbox result.2,
    { modified := result.1.modified
      failed :=
        if inUIDs then result.1.failedUIDs else result.1.failedSeqs
      changedAny := result.1.changedAny })

/-! ## SEARCH -/

inductive NumKind where
  | seq
  | uid
  deriving DecidableEq, Repr

structure SearchOptions where
  returnMin : Bool := false
  returnMax : Bool := false
  returnAll : Bool := false
  returnCount : Bool := false
  returnSave : Bool := false
  deriving DecidableEq, Repr

def SearchOptions.wholeResult (options : SearchOptions) : Bool :=
  options.returnAll || options.returnCount || !(options.returnMin || options.returnMax)

/-- A match at an end of the answer: its number, UID and modification
sequence, all zero as long as there is none. -/
structure Endpoint where
  num : UInt32 := 0
  uid : UID := 0
  modSeq : ModSeq := 0
  deriving DecidableEq, Repr

structure SearchState where
  seqSet : NumSet := []
  uidSet : NumSet := []
  min : Endpoint := {}
  max : Endpoint := {}
  allModSeq : ModSeq := 0
  count : UInt32 := 0
  deriving DecidableEq, Repr

structure SearchData where
  all : MessageSet
  min : UInt32
  max : UInt32
  count : UInt32
  modSeq : ModSeq
  deriving DecidableEq, Repr

def searchVisit (numKind : NumKind) (state : SearchState) (seqNum : SeqNum)
    (msg : Message) : SearchState :=
  let state := { state with uidSet := state.uidSet.addNum msg.uid }
  if numKind = .seq ∧ seqNum = 0 then state
  else
    let num := if numKind = .seq then seqNum else msg.uid
    let match_ : Endpoint :=
      { num := num, uid := msg.uid, modSeq := msg.modSeq }
    { state with
      seqSet :=
        if numKind = .seq then state.seqSet.addNum seqNum else state.seqSet
      min :=
        if state.min.num = 0 ∨ num < state.min.num then match_ else state.min
      max :=
        if state.max.num = 0 ∨ num > state.max.num then match_ else state.max
      allModSeq := Max.max state.allModSeq msg.modSeq
      count := state.count + 1 }

/-- The loop of `Search`; `found` is the criteria applied to a message and
the number the client knows it by. -/
def searchLoop (session : SessionTracker) (numKind : NumKind) (found : SeqNum → Message → Bool) :
    List Message → Nat → SearchState → SearchState
  | [], _, state => state
  | msg :: rest, index, state =>
    let seqNum := session.encodeSeqNum (Mailbox.seqNumAt index)
    searchLoop session numKind found rest (index + 1)
      (if found seqNum msg then searchVisit numKind state seqNum msg
      else state)

def savedSearch (options : SearchOptions) (state : SearchState) : NumSet :=
  if options.wholeResult then state.uidSet
  else
    let saved : NumSet :=
      if options.returnMin ∧ state.min.uid ≠ 0 then
        NumSet.addNum [] state.min.uid
      else []
    if options.returnMax ∧ state.max.uid ≠ 0 then saved.addNum state.max.uid
    else saved

def View.search (mbox : Mailbox) (view : View) (numKind : NumKind)
    (found : SeqNum → Message → Bool) (options : SearchOptions) :
    View × SearchData :=
  let state := searchLoop (sessionOf mbox.tracker view.session) numKind found mbox.l 0 {}
  let endModSeq := Max.max (if options.returnMin then state.min.modSeq else 0)
    (if options.returnMax then state.max.modSeq else 0)
  ({ view with
      searchRes :=
        if options.returnSave then savedSearch options state
        else view.searchRes },
    { all :=
        if numKind = .seq then .seqSet state.seqSet else .uidSet state.uidSet
      min := state.min.num
      max := state.max.num
      count := state.count
      modSeq := if options.wholeResult then state.allModSeq else endModSeq })

def View.resetSearchRes (view : View) : View := { view with searchRes := [] }

end GoImap.MemServer
