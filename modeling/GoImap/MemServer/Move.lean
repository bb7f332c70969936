import GoImap.MemServer.Agreement
import GoImap.MemServer.Session
import GoImap.Tracker.Poll

/-!
# What a client is told of a MOVE

The removals of a MOVE reach the moving client on two paths: `Move` writes an
EXPUNGE for each of them, and it has also queued them for every session of the
mailbox, the moving one included, so the poll at the end of the command writes
them again.  Counting the responses shows that the client is told right only
when there was nothing to move.
-/

namespace GoImap.MemServer

open Tracker

/-- A client without QRESYNC reads a response; an EXPUNGE must name an entry
of its list.  The result holds the UIDs taken away. -/
def readResponse (client : ClientList) : Response → Option (List UID × ClientList)
  | .expunge seqNum =>
    if seqNum = 0 then none
    else
      (client.held[seqNum.toNat - 1]?).map fun uid =>
        ([uid], { client with held := client.held.eraseIdx (seqNum.toNat - 1) })
  | .vanished _ => none
  | .numMessages count => some ([], client.apply { numMessages := count })
  | .mailboxFlags _ => some ([], client)
  | .messageFlags _ => some ([], client)

def readResponses : List Response → ClientList → Option (List UID × ClientList)
  | [], client => some ([], client)
  | response :: rest, client =>
    (readResponse client response).bind fun first =>
      (readResponses rest first.2).map fun others =>
        (first.1 ++ others.1, others.2)

section

variable [CaseMapping] (source dest : Mailbox) (view : View) (numSet : MessageSet) (now : Time)

/-- What the poll at the end of a command writes to a session without QRESYNC. -/
def polledResponses (mbox : Mailbox) (view : View) : List Response :=
  writeLoop false ((sessionOf mbox.tracker view.session).dequeue true).1 []

def moveResponses : List Response :=
  let result := moveMessages source dest view numSet now
  result.expunges.map Response.expunge ++ polledResponses result.source view

def movedMessages : List (Nat × Message) :=
  removedFrom (copyEach source dest view numSet now).copied source.l 0

/--
The responses carry no zero, take away the moved messages and those whose
removal was pending, each once, and leave the client with the server's list.
-/
def ReportsMoveOnce (client : ClientList) : Prop :=
  .expunge 0 ∉ moveResponses source dest view numSet now ∧ ∃ pending afterPending removed final,
      readResponses (polledResponses source view) client = some (pending, afterPending) ∧
        readResponses (moveResponses source dest view numSet now) client = some (removed, final) ∧
        removed.Perm ((movedMessages source dest view numSet now).map (·.2.uid) ++ pending) ∧
        final.held = uids (moveMessages source dest view numSet now).source.l

def PendingLeads (client : ClientList) : Prop := ∃ pending final,
    readResponses (polledResponses source view) client =
      some (pending, final) ∧ final.held = uids source.l

end

/-! ## Counting responses -/

def isExpunge : Response → Bool
  | .expunge _ => true
  | _ => false

theorem length_readResponse {response : Response} {client next : ClientList} {removed : List UID}
    (h : readResponse client response = some (removed, next)) :
    removed.length = if isExpunge response then 1 else 0 := by
  cases response with
  | expunge seqNum =>
    rw [readResponse] at h
    split_ifs at h
    obtain ⟨uid, -, hpair⟩ := Option.map_eq_some_iff.mp h
    cases hpair
    rfl
  | vanished _ => cases h
  | numMessages _ =>
    cases h
    rfl
  | mailboxFlags _ =>
    cases h
    rfl
  | messageFlags _ =>
    cases h
    rfl

theorem readResponses_counts {responses : List Response} {client final : ClientList}
    {removed : List UID} (h : readResponses responses client = some (removed, final)) :
    removed.length = responses.countP isExpunge ∧ .expunge 0 ∉ responses := by
  induction responses generalizing client removed with
  | nil =>
    cases h
    exact ⟨rfl, List.not_mem_nil⟩
  | cons response rest ih =>
    obtain ⟨⟨first, next⟩, hfirst, hbind⟩ := Option.bind_eq_some_iff.mp h
    obtain ⟨⟨others, last⟩, hothers, hpair⟩ := Option.map_eq_some_iff.mp hbind
    cases hpair
    obtain ⟨hlength, hzero⟩ := ih hothers
    refine ⟨?_, List.not_mem_cons_of_ne_of_not_mem ?_ hzero⟩
    · rw [List.length_append, length_readResponse hfirst, hlength, List.countP_cons, Nat.add_comm]
    · rintro rfl
      simp [readResponse] at hfirst

theorem countP_response (update : TrackerUpdate) : update.response.toList.countP isExpunge =
      if update.expunge != 0 then 1 else 0 := by
  unfold TrackerUpdate.response
  by_cases hexpunge : update.expunge = 0
  · simp only [hexpunge, ne_eq, not_true_eq_false, if_false, bne_self_eq_false, Bool.false_eq_true]
    split_ifs
    · cases update.mailboxFlags with
      | some flags => rfl
      | none => cases update.fetch <;> rfl
    · rfl
  · simp [hexpunge, isExpunge]

theorem countP_writeLoop (updates : List TrackerUpdate) :
    (writeLoop false updates []).countP isExpunge = updates.countP (·.expunge != 0) := by
  induction updates with
  | nil => rfl
  | cons update rest ih =>
    have hcoalesces : update.coalesces false = false := rfl
    rw [writeLoop, hcoalesces, List.countP_cons, ← countP_response]
    simp only [Bool.false_eq_true, if_false, flushVanished_nil, List.nil_append, List.countP_append]
    omega

/-! ## What the moving session is queued -/

theorem reportExpunge_rejects {mbox : Mailbox} {index : Nat} (msg : Message)
    (expungeModSeq : ModSeq)
    (h : Mailbox.seqNumAt index = 0 ∨ mbox.tracker.numMessages < Mailbox.seqNumAt index) :
    (mbox.reportExpunge index msg expungeModSeq).tracker = mbox.tracker := by
  have herror : ∃ text, mbox.tracker.queueExpunge (Mailbox.seqNumAt index) msg.uid =
        .error text := by
    unfold MailboxTracker.queueExpunge
    split_ifs with hzero
    · exact ⟨_, rfl⟩
    · have hlt := h.resolve_left hzero
      simp [MailboxTracker.queueUpdate, TrackerUpdate.check, hzero, hlt]
  obtain ⟨text, htext⟩ := herror
  simp [Mailbox.reportExpunge, Mailbox.track, htext]

theorem reportAll_queued {expungeModSeq : ModSeq} {entries : List (Nat × Message)} {mbox : Mailbox}
    {id : SessionId} {session : SessionTracker} (hsession : mbox.tracker.sessions id = some session)
    (hopen : session.closed = false) (hcount : session.numMessages = mbox.tracker.numMessages) :
    ∃ later added, (reportAll expungeModSeq mbox entries).tracker.sessions id = some later ∧
        later.queue = session.queue ++ added ∧
        (∀ update ∈ added, update.expunge ≠ 0) ∧
        (added = [] → later = session ∧ ∀ entry ∈ entries, Mailbox.seqNumAt entry.1 = 0 ∨
            session.numMessages < Mailbox.seqNumAt entry.1) := by
  induction entries generalizing mbox session with
  | nil => exact ⟨session, [], hsession, by simp, by simp, by simp⟩
  | cons entry rest ih =>
    by_cases hrange : Mailbox.seqNumAt entry.1 = 0 ∨
        mbox.tracker.numMessages < Mailbox.seqNumAt entry.1
    · have htracker := reportExpunge_rejects entry.2 expungeModSeq hrange
      rw [← htracker] at hsession
      have hcount' := hcount
      rw [← htracker] at hcount'
      obtain ⟨later, added, hlater, hqueue, hexpunge, hnone⟩ := ih hsession hopen hcount'
      refine ⟨later, added, hlater, hqueue, hexpunge, ?_⟩
      intro hempty
      obtain ⟨hsame, hrest⟩ := hnone hempty
      refine ⟨hsame, List.forall_mem_cons.mpr ⟨?_, hrest⟩⟩
      rw [hcount]
      exact hrange
    · rw [not_or, UInt32.not_lt] at hrange
      obtain ⟨next, hnext, hless, hsessions⟩ := queueExpunge_accepts entry.2.uid hrange.1 hrange.2
      have htrack : (mbox.reportExpunge entry.1 entry.2 expungeModSeq).tracker = next := by
        simp [Mailbox.reportExpunge, Mailbox.track, hnext]
      have hone := hsessions id
      rw [hsession, Option.map_some, hopen] at hone
      rw [← htrack] at hone
      obtain ⟨later, added, hlater, hqueue, hexpunge, -⟩ := ih hone hopen (by rw [htrack]; rfl)
      refine ⟨later, { expunge := Mailbox.seqNumAt entry.1, expungeUID := entry.2.uid } :: added,
        hlater, ?_, ?_, ?_⟩
      · rw [hqueue]
        simp [SessionTracker.queueUpdate]
      · exact List.forall_mem_cons.mpr ⟨hrange.1, hexpunge⟩
      · intro hempty
        cases hempty

theorem removedFrom_nil (l : List Message) (index : Nat) : removedFrom [] l index = [] := by
  induction l generalizing index with
  | nil => rfl
  | cons msg rest ih => simp [removedFrom, ih]

/-! ## The property and its condition -/

section

variable [CaseMapping] {source dest : Mailbox} {view : View}
  {numSet : MessageSet} {now : Time} {client : ClientList}
  {session : SessionTracker}

theorem movedMessages_eq_nil : movedMessages source dest view numSet now = [] ↔
      view.selected source numSet = [] := by
  rw [movedMessages, copyEach_copied]
  constructor
  · intro hnone
    by_contra hsome
    obtain ⟨entry, hentry⟩ := List.exists_mem_of_ne_nil _ hsome
    have hkept := removedFrom_eq_nil hnone
    have hmem := List.mem_of_getElem? (getElem?_of_selected hentry)
    have hout := List.filter_eq_self.mp hkept entry.2 hmem
    rw [decide_eq_true_eq] at hout
    exact hout (List.mem_map_of_mem hentry)
  · intro hnone
    rw [hnone]
    exact removedFrom_nil _ _

theorem moveMessages_eq : (moveMessages source dest view numSet now).source =
        { reportAll (source.highestModSeq + 1)
            { source with highestModSeq := source.highestModSeq + 1 }
            (movedMessages source dest view numSet now) with
          l := source.l.filter (·.address ∉ (copyEach source dest view numSet now).copied) } ∧
      (moveMessages source dest view numSet now).expunges =
        (movedMessages source dest view numSet now).map fun entry =>
          (sessionOf (reportAll (source.highestModSeq + 1)
            { source with highestModSeq := source.highestModSeq + 1 }
            (movedMessages source dest view numSet now)).tracker
            view.session).encodeSeqNum (Mailbox.seqNumAt entry.1) := by
  constructor
  · simp [moveMessages, expungeLocked_eq, movedMessages]
  · simp only [moveMessages, expungeLocked_eq, movedMessages, List.map_map]
    rfl

theorem moveResponses_of_nothing (h : movedMessages source dest view numSet now = []) :
    moveResponses source dest view numSet now = polledResponses source view ∧
      (moveMessages source dest view numSet now).source.l = source.l := by
  obtain ⟨hsource, hexpunges⟩ := @moveMessages_eq _ source dest view numSet now
  have hkept := removedFrom_eq_nil h
  constructor
  · rw [moveResponses, hsource, hexpunges, h]
    rfl
  · rw [hsource]
    exact hkept

theorem not_reportsMoveOnce (hsession : source.tracker.sessions view.session = some session)
    (hopen : session.closed = false) (hcount : session.numMessages = source.tracker.numMessages)
    (hmoved : movedMessages source dest view numSet now ≠ []) :
    ¬ReportsMoveOnce source dest view numSet now client := by
  rintro ⟨hzero, pending, afterPending, removed, final, hpending, hremoved, hperm, -⟩
  obtain ⟨hsource, hexpunges⟩ := @moveMessages_eq _ source dest view numSet now
  obtain ⟨later, added, hlater, hqueue, hexpunge, hnone⟩ :=
    @reportAll_queued (source.highestModSeq + 1) (movedMessages source dest view numSet now)
      { source with highestModSeq := source.highestModSeq + 1 }
      view.session session hsession hopen hcount
  have hpolled : polledResponses source view = writeLoop false session.queue [] := by
    simp [polledResponses, sessionOf, hsession, SessionTracker.dequeue]
  have hresponses : moveResponses source dest view numSet now =
      ((movedMessages source dest view numSet now).map fun entry =>
        Response.expunge (later.encodeSeqNum (Mailbox.seqNumAt entry.1))) ++
        writeLoop false (session.queue ++ added) [] := by
    simp [moveResponses, polledResponses, hsource, hexpunges, sessionOf,
      hlater, SessionTracker.dequeue, hqueue]
  have hdirect : ((movedMessages source dest view numSet now).map fun entry =>
      Response.expunge (later.encodeSeqNum (Mailbox.seqNumAt entry.1))).countP isExpunge =
      (movedMessages source dest view numSet now).length := by
    rw [List.countP_map, List.countP_eq_length.mpr]
    intro entry _
    rfl
  have hadded : added.countP (·.expunge != 0) = added.length := by
    rw [List.countP_eq_length]
    intro update hupdate
    simpa using hexpunge update hupdate
  have hlengths := hperm.length_eq
  rw [(readResponses_counts hremoved).1, List.length_append, List.length_map,
    (readResponses_counts hpending).1, hpolled, hresponses, List.countP_append, hdirect,
    countP_writeLoop, countP_writeLoop, List.countP_append, hadded] at hlengths
  have hempty : added = [] := List.eq_nil_of_length_eq_zero (by omega)
  obtain ⟨hsame, hrange⟩ := hnone hempty
  obtain ⟨entry, hentry⟩ := List.exists_mem_of_ne_nil _ hmoved
  have hencoded : later.encodeSeqNum (Mailbox.seqNumAt entry.1) = 0 := by
    rw [hsame]
    rcases hrange entry hentry with hseq | hseq
    · simp [SessionTracker.encodeSeqNum, hseq]
    · simp [SessionTracker.encodeSeqNum, hseq]
  apply hzero
  rw [hresponses, List.mem_append, List.mem_map]
  exact .inl ⟨entry, hentry, by rw [hencoded]⟩

end

/--
A MOVE is reported right exactly when it moves nothing and the updates pending
for the client bring its list to the server's.
-/
theorem move_reports_once_iff [CaseMapping] (source dest : Mailbox) (view : View)
    (numSet : MessageSet) (now : Time) (client : ClientList) (session : SessionTracker)
    (hsession : source.tracker.sessions view.session = some session)
    (hopen : session.closed = false) (hconsistent : source.tracker.Consistent) :
    ReportsMoveOnce source dest view numSet now client ↔
      view.selected source numSet = [] ∧ PendingLeads source view client := by
  have hcount := (hconsistent view.session session hsession hopen).count_eq
  by_cases hmoved : movedMessages source dest view numSet now = []
  · obtain ⟨hresponses, hlist⟩ := moveResponses_of_nothing hmoved
    rw [ReportsMoveOnce, PendingLeads, hresponses, hlist, hmoved]
    constructor
    · rintro ⟨-, pending, afterPending, removed, final, hpending, hremoved, -, hheld⟩
      exact ⟨movedMessages_eq_nil.mp hmoved, removed, final, hremoved, hheld⟩
    · rintro ⟨-, pending, final, hpending, hheld⟩
      exact ⟨(readResponses_counts hpending).2, pending, final, pending, final,
        hpending, hpending, .refl _, hheld⟩
  · constructor
    · intro hreports
      exact absurd hreports (not_reportsMoveOnce hsession hopen hcount hmoved)
    · rintro ⟨hnone, -⟩
      exact absurd (movedMessages_eq_nil.mpr hnone) hmoved

def twoMessages : Mailbox := ([emptyAppend, emptyAppend, .newView].foldl
    (@MailboxState.perform asciiCaseMapping)
    (MailboxState.initial 1)).mbox

theorem twoMessages_consistent : twoMessages.tracker.Consistent := by
  have hrun : performAll (newMailboxTracker 0)
      [.queueNumMessages 1, .queueNumMessages 2, .newSession] = .ok twoMessages.tracker := rfl
  exact (reachable_of_performAll hrun).consistent

theorem move_reports_once_iff_twoMessages :
    @ReportsMoveOnce asciiCaseMapping twoMessages (newMailbox 2) firstView
        (.seqSet [⟨5, 5⟩]) 0 ⟨[1, 2], []⟩ :=
  (@move_reports_once_iff asciiCaseMapping twoMessages (newMailbox 2) firstView
    (.seqSet [⟨5, 5⟩]) 0 ⟨[1, 2], []⟩
    { closed := false
      numMessages := 2
      queue := [] } rfl rfl twoMessages_consistent).mpr ⟨by decide, _, _, rfl, rfl⟩

/-- MOVE 1 tells the client to drop its second entry, and then its first. -/
theorem move_first_misreported :
    @moveResponses asciiCaseMapping twoMessages (newMailbox 2) firstView
        (.seqSet [⟨1, 1⟩]) 0 = [.expunge 2, .expunge 1] ∧
      ¬@ReportsMoveOnce asciiCaseMapping twoMessages (newMailbox 2) firstView
        (.seqSet [⟨1, 1⟩]) 0 ⟨[1, 2], []⟩ := by
  have hresponses : @moveResponses asciiCaseMapping twoMessages (newMailbox 2)
      firstView (.seqSet [⟨1, 1⟩]) 0 = [.expunge 2, .expunge 1] := by decide
  refine ⟨hresponses, ?_⟩
  rintro ⟨-, pending, afterPending, removed, final, -, hremoved, -, hheld⟩
  cases hremoved
  exact absurd hheld (by decide)

/-! ## Where the messages go -/

def CopyOf [CaseMapping] (msg copy : Message) : Prop :=
  copy.buf = msg.buf ∧ copy.t = msg.t ∧ copy.flags =
    msg.flagList.foldl (fun flags flag => flags.insert (canonicalFlag flag)) .empty

theorem copyMsg_appends [CaseMapping] (mbox : Mailbox) (msg : Message) (now : Time) :
    ∃ copy, CopyOf msg copy ∧ (mbox.copyMsg msg now).2.uid = copy.uid ∧
      (mbox.copyMsg msg now).1.l = mbox.l ++ [copy] := by
  refine ⟨_, ?_, ?_, (track_keeps _ _).1⟩
  · exact ⟨rfl, rfl, rfl⟩
  · rfl

theorem copyLoop_copies [CaseMapping] (session : SessionTracker) (numSet : MessageSet) (now : Time)
    (l : List Message) (index : Nat) (state : CopyState) :
    ∃ copies, List.Forall₂ CopyOf ((selectedFrom session numSet l index).map Prod.snd) copies ∧
      (forEachLoop (fun _ => session) numSet (copyVisit now) l index state).1.dest.l =
        state.dest.l ++ copies ∧
      (forEachLoop (fun _ => session) numSet (copyVisit now) l index state).1.mapping =
        state.mapping ++ ((selectedFrom session numSet l index).map (·.2.uid)).zip
          (copies.map Message.uid) := by
  induction l generalizing index state with
  | nil => exact ⟨[], by simp [forEachLoop, selectedFrom]⟩
  | cons msg rest ih =>
    rw [forEachLoop, selectedFrom]
    split_ifs with hselects
    · obtain ⟨copy, hcopy, huid, happends⟩ := copyMsg_appends state.dest msg now
      obtain ⟨copies, hcopies, hl, hmapping⟩ :=
        ih (index + 1) (copyVisit now state (Mailbox.seqNumAt index) msg).1
      refine ⟨copy :: copies, .cons hcopy hcopies, ?_, ?_⟩
      · exact hl.trans (by simp [copyVisit, happends])
      · exact hmapping.trans (by simp [copyVisit, huid])
    · exact ih (index + 1) state

/--
MOVE puts a copy of each message it names behind the messages of the
destination, reports the UID of each with that of its copy, and takes these
messages and no others from the source.
-/
theorem moveMessages_conserves [CaseMapping] (source dest : Mailbox) (view : View)
    (numSet : MessageSet) (now : Time) :
    ∃ copies, List.Forall₂ CopyOf ((view.selected source numSet).map Prod.snd) copies ∧
      (moveMessages source dest view numSet now).dest.l = dest.l ++ copies ∧
      (moveMessages source dest view numSet now).copyData.uidMapping =
        ((view.selected source numSet).map (·.2.uid)).zip (copies.map Message.uid) ∧
      (moveMessages source dest view numSet now).source.l = source.l.filter
        (·.address ∉ (view.selected source numSet).map fun entry => entry.2.address) := by
  obtain ⟨copies, hcopies, hl, hmapping⟩ := copyLoop_copies
    (sessionOf source.tracker view.session) (staticNumSet source view numSet) now source.l 0
    ⟨dest, [], []⟩
  rw [moveMessages_eq.1, copyEach_copied]
  exact ⟨copies, hcopies, hl, hmapping, rfl⟩

end GoImap.MemServer
