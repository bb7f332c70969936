import GoImap.Lib.Transition
import GoImap.MemServer.Client
import GoImap.MemServer.Mailbox
import Mathlib.Data.List.InsertIdx

/-!
# The mailbox and its tracker

A mailbox changes its list and tells its tracker about it in the same critical
section.  `expungeLocked` numbers the messages it removes by their places in
the list as it was before the call, while the tracker expects each number to
take the earlier removals into account.  The two agree as long as a call
removes no more than one message; without open views it is enough that the
tracker accepts the numbers.
-/

namespace GoImap.MemServer

open Tracker

def uids (l : List Message) : List UID := l.map Message.uid

structure MailboxState where
  mbox : Mailbox
  clients : SessionId → ClientList

inductive MailboxOp where
  | append (buf : Bytes) (options : AppendOptions) (now : Time)
  | copy (msg : Message) (now : Time)
  | expunge (marked : List Nat)
  | move (moved : List Nat)
  | newView
  | poll (id : SessionId) (allowExpunge : Bool)
  | closeView (id : SessionId)

namespace MailboxState

def initial (uidValidity : UInt32) : MailboxState where
  mbox := newMailbox uidValidity
  clients := fun _ => ⟨[], []⟩

def arrived (state : MailboxState) (result : Mailbox × AppendData) : MailboxState where
  mbox := result.1
  clients := fun id =>
    { state.clients id with
      fresh := (state.clients id).fresh ++ [result.2.uid] }

def perform [CaseMapping] (state : MailboxState) : MailboxOp → MailboxState
  | .append buf options now =>
    state.arrived (state.mbox.appendBytes buf options now)
  | .copy msg now => state.arrived (state.mbox.copyMsg msg now)
  | .expunge marked =>
    if marked = [] then state
    else { state with mbox := (state.mbox.expungeLocked marked).1 }
  | .move moved => { state with mbox := (state.mbox.expungeLocked moved).1 }
  | .newView =>
    let (id, mbox) := state.mbox.newView
    { mbox := mbox, clients := Function.update state.clients id ⟨uids mbox.l, []⟩ }
  | .poll id allowExpunge =>
    match state.mbox.tracker.sessions id with
    | none => state
    | some session =>
      { mbox :=
          { state.mbox with tracker := state.mbox.tracker.pollSession id allowExpunge }
        clients := Function.update state.clients id ((state.clients id).applyAll
            (session.dequeue allowExpunge).1) }
  | .closeView id =>
    { state with
      mbox :=
        { state.mbox with tracker := state.mbox.tracker.closeSession id } }

/-- The tracker has the mailbox's count, has refused nothing, and its queues
lead every client to the mailbox's list. -/
structure Agrees (state : MailboxState) : Prop where
  count : state.mbox.tracker.numMessages.toNat = state.mbox.l.length
  accepted : state.mbox.dropped = []
  views : ∀ id session, state.mbox.tracker.sessions id = some session → session.closed = false →
      ((state.clients id).applyAll session.queue).held = uids state.mbox.l

def NoOpenView (state : MailboxState) : Prop :=
  ∀ id session, state.mbox.tracker.sessions id = some session → session.closed = true

end MailboxState

def removedFrom (expunged : List Nat) : List Message → Nat → List (Nat × Message)
  | [], _ => []
  | msg :: rest, index =>
    if msg.address ∈ expunged then
      (index, msg) :: removedFrom expunged rest (index + 1)
    else removedFrom expunged rest (index + 1)

/-- Nothing or one message is removed; or nobody watches and each number is
within the count that the removals before it leave. -/
def MailboxState.RemovesSafely (state : MailboxState) (expunged : List Nat) : Prop :=
  (removedFrom expunged state.mbox.l 0).length ≤ 1 ∨ state.NoOpenView ∧
      ∀ (order : Nat) (entry : Nat × Message),
        (removedFrom expunged state.mbox.l 0)[order]? = some entry →
          entry.1 + 1 + order ≤ state.mbox.l.length

def MailboxState.Safe (state : MailboxState) : MailboxOp → Prop
  | .append _ _ _ => state.mbox.l.length + 1 < 2 ^ 32
  | .copy _ _ => state.mbox.l.length + 1 < 2 ^ 32
  | .expunge marked => state.RemovesSafely marked
  | .move moved => state.RemovesSafely moved
  | _ => True

/-! ## Calls the tracker accepts -/

variable {tracker : MailboxTracker} {mbox : Mailbox} {expunged : List Nat}
  {index : Nat} {id : SessionId} {session : SessionTracker}

theorem queueUpdate_accepts {update : TrackerUpdate} (source : Option SessionId)
    (h : update.check tracker.numMessages = .ok ()) :
    ∃ next, tracker.queueUpdate update source = .ok next := by
  rw [MailboxTracker.queueUpdate, h]
  exact ⟨_, rfl⟩

theorem queueExpunge_accepts {seqNum : SeqNum} (uid : UID) (hne : seqNum ≠ 0)
    (hle : seqNum ≤ tracker.numMessages) :
    ∃ next, tracker.queueExpunge seqNum uid = .ok next ∧
      next.numMessages = tracker.numMessages - 1 ∧
      ∀ id, next.sessions id = (tracker.sessions id).map fun session =>
        if session.closed then session
        else
          session.queueUpdate { expunge := seqNum, expungeUID := uid } next.numMessages false := by
  have hcheck : TrackerUpdate.check { expunge := seqNum, expungeUID := uid }
      tracker.numMessages = .ok () := by
    simp [TrackerUpdate.check, UInt32.not_lt.mpr hle]
  obtain ⟨next, hnext⟩ := queueUpdate_accepts none hcheck
  obtain ⟨-, hcount, -, hsessions⟩ := MailboxTracker.queueUpdate_ok hnext
  refine ⟨next, ?_, ?_, ?_⟩
  · rw [MailboxTracker.queueExpunge, if_neg hne]
    exact hnext
  · simpa [TrackerUpdate.countAfter, hne] using hcount
  · simpa [TrackerUpdate.stamp] using hsessions

theorem queueNumMessages_accepts {count : UInt32} (hne : count ≠ 0)
    (hle : tracker.numMessages ≤ count) :
    ∃ next, tracker.queueNumMessages count = .ok next ∧ next.numMessages = count ∧
      ∀ id, next.sessions id = (tracker.sessions id).map fun session =>
        if session.closed then session
        else
          session.queueUpdate { numMessages := count, prevNumMessages := tracker.numMessages }
            next.numMessages false := by
  have hcheck : TrackerUpdate.check { numMessages := count } tracker.numMessages = .ok () := by
    simp [TrackerUpdate.check, UInt32.not_lt.mpr hle]
  obtain ⟨next, hnext⟩ := queueUpdate_accepts none hcheck
  obtain ⟨-, hcount, -, hsessions⟩ := MailboxTracker.queueUpdate_ok hnext
  refine ⟨next, ?_, ?_, ?_⟩
  · rw [MailboxTracker.queueNumMessages, if_neg hne]
    exact hnext
  · simpa [TrackerUpdate.countAfter, hne] using hcount
  · simpa [TrackerUpdate.stamp, hne] using hsessions

theorem track_ok {next : MailboxTracker} {call : MailboxTracker → Except String MailboxTracker}
    (h : call mbox.tracker = .ok next) :
    mbox.track call = { mbox with tracker := next } := by
  rw [Mailbox.track, h]

theorem track_tracker {P : MailboxTracker → Prop}
    {call : MailboxTracker → Except String MailboxTracker} (h : P mbox.tracker)
    (hcall : ∀ next, call mbox.tracker = .ok next → P next) : P (mbox.track call).tracker := by
  unfold Mailbox.track
  cases hnext : call mbox.tracker with
  | ok next => exact hcall next hnext
  | error text => exact h

theorem track_keeps (mbox : Mailbox) (call : MailboxTracker → Except String MailboxTracker) :
    (mbox.track call).l = mbox.l ∧ (mbox.track call).uidNext = mbox.uidNext ∧
      (mbox.track call).nextAddress = mbox.nextAddress := by
  unfold Mailbox.track
  cases call mbox.tracker with
  | ok tracker | error text => exact ⟨rfl, rfl, rfl⟩

section Kept

variable {P : MailboxTracker → Prop} (hkept : MailboxTracker.Kept P) (hinv : P mbox.tracker)

include hkept hinv

theorem kept_appendBytes [CaseMapping] (buf : Bytes) (options : AppendOptions) (now : Time) :
    P (mbox.appendBytes buf options now).1.tracker :=
  track_tracker hinv fun _ hnext => hkept.queueNumMessages hinv hnext

theorem kept_reportExpunge (index : Nat) (msg : Message) (expungeModSeq : ModSeq) :
    P (mbox.reportExpunge index msg expungeModSeq).tracker :=
  track_tracker hinv fun _ hnext => hkept.queueExpunge hinv hnext

end Kept

theorem appendBytes_appends [CaseMapping] (mbox : Mailbox) (buf : Bytes)
    (options : AppendOptions) (now : Time) :
    ∃ msg, msg.address = mbox.nextAddress ∧ msg.uid = mbox.uidNext ∧
      (mbox.appendBytes buf options now).1.l = mbox.l ++ [msg] ∧
      (mbox.appendBytes buf options now).1.uidNext = mbox.uidNext + 1 ∧
      (mbox.appendBytes buf options now).1.nextAddress = mbox.nextAddress + 1 := by
  obtain ⟨hl, huid, haddress⟩ := track_keeps _ _
  exact ⟨_, rfl, rfl, hl, huid, haddress⟩

/-! ## The loop of `expungeLocked` -/

def reportAll (expungeModSeq : ModSeq) (mbox : Mailbox)
    (entries : List (Nat × Message)) : Mailbox :=
  entries.foldl (fun mbox entry => mbox.reportExpunge entry.1 entry.2 expungeModSeq) mbox

theorem reportAll_keeps (expungeModSeq : ModSeq) (mbox : Mailbox) (entries : List (Nat × Message)) :
    (reportAll expungeModSeq mbox entries).l = mbox.l ∧
      (reportAll expungeModSeq mbox entries).uidNext = mbox.uidNext ∧
      (reportAll expungeModSeq mbox entries).nextAddress = mbox.nextAddress := by
  induction entries generalizing mbox with
  | nil => exact ⟨rfl, rfl, rfl⟩
  | cons entry rest ih =>
    obtain ⟨hl, huid, haddress⟩ := ih (mbox.reportExpunge entry.1 entry.2 expungeModSeq)
    obtain ⟨hl', huid', haddress'⟩ := track_keeps mbox
      (·.queueExpunge (Mailbox.seqNumAt entry.1) entry.2.uid)
    rw [reportAll, List.foldl_cons, ← reportAll]
    exact ⟨hl.trans hl', huid.trans huid', haddress.trans haddress'⟩

theorem expungeLoop_eq (expunged : List Nat) (expungeModSeq : ModSeq)
    (l : List Message) (index : Nat) (state : Mailbox.ExpungeState) :
    Mailbox.expungeLoop expunged expungeModSeq l index state =
      { mbox := reportAll expungeModSeq state.mbox
          (removedFrom expunged l index)
        kept := state.kept ++ l.filter (·.address ∉ expunged)
        seqNums := state.seqNums ++
          (removedFrom expunged l index).map (Mailbox.seqNumAt ·.1) } := by
  induction l generalizing index state with
  | nil => simp [Mailbox.expungeLoop, removedFrom, reportAll]
  | cons msg rest ih =>
    rw [Mailbox.expungeLoop, removedFrom]
    split_ifs with hmem
    · rw [ih]
      simp [hmem, reportAll]
    · rw [ih]
      simp [hmem]

theorem expungeLocked_eq (mbox : Mailbox) (expunged : List Nat) :
    mbox.expungeLocked expunged = ({ reportAll (mbox.highestModSeq + 1)
          { mbox with highestModSeq := mbox.highestModSeq + 1 }
          (removedFrom expunged mbox.l 0) with
         l := mbox.l.filter (·.address ∉ expunged) },
        (removedFrom expunged mbox.l 0).map (Mailbox.seqNumAt ·.1)) := by
  simp [Mailbox.expungeLocked, expungeLoop_eq]

theorem kept_reportAll {P : MailboxTracker → Prop} (hkept : MailboxTracker.Kept P)
    (expungeModSeq : ModSeq) (entries : List (Nat × Message)) (hinv : P mbox.tracker) :
    P (reportAll expungeModSeq mbox entries).tracker := by
  induction entries generalizing mbox with
  | nil => exact hinv
  | cons entry rest ih => exact ih (kept_reportExpunge hkept hinv entry.1 entry.2 expungeModSeq)

theorem kept_expungeLocked {P : MailboxTracker → Prop} (hkept : MailboxTracker.Kept P)
    (expunged : List Nat) (hinv : P mbox.tracker) :
    P (mbox.expungeLocked expunged).1.tracker := by
  rw [expungeLocked_eq]
  exact kept_reportAll hkept _ _ hinv

theorem removedFrom_eq_nil {l : List Message} (h : removedFrom expunged l index = []) :
    l.filter (·.address ∉ expunged) = l := by
  induction l generalizing index with
  | nil => rfl
  | cons msg rest ih =>
    rw [removedFrom] at h
    split_ifs at h with hmem
    rw [List.filter_cons_of_pos (by simpa using hmem), ih h]

theorem removedFrom_eq_singleton {l : List Message} {place : Nat}
    {msg : Message} (h : removedFrom expunged l index = [(place, msg)]) :
    index ≤ place ∧ place < index + l.length ∧
      l.filter (·.address ∉ expunged) = l.eraseIdx (place - index) := by
  induction l generalizing index with
  | nil => simp [removedFrom] at h
  | cons first rest ih =>
    rw [removedFrom] at h
    split_ifs at h with hmem
    · obtain ⟨hfirst, hrest⟩ := List.cons_eq_cons.mp h
      cases hfirst
      refine ⟨le_refl _, by simp, ?_⟩
      rw [List.filter_cons_of_neg (by simpa using hmem),
        removedFrom_eq_nil hrest, Nat.sub_self, List.eraseIdx_cons_zero]
    · obtain ⟨hle, hlt, hfilter⟩ := ih h
      refine ⟨by omega, by simp only [List.length_cons]; omega, ?_⟩
      obtain ⟨offset, rfl⟩ := Nat.exists_eq_add_of_le hle
      have hsub : index + 1 + offset - index = offset + 1 := by omega
      have hsub' : index + 1 + offset - (index + 1) = offset := by omega
      rw [hsub'] at hfilter
      rw [hsub, List.eraseIdx_cons_succ, ← hfilter, List.filter_cons_of_pos (by simpa using hmem)]

theorem length_removedFrom (expunged : List Nat) (l : List Message) (index : Nat) :
    (l.filter (·.address ∉ expunged)).length +
      (removedFrom expunged l index).length = l.length := by
  induction l generalizing index with
  | nil => rfl
  | cons msg rest ih =>
    have hrest := ih (index + 1)
    rw [removedFrom]
    split_ifs with hmem
    · simp [hmem] at hrest ⊢
      omega
    · simp [hmem] at hrest ⊢
      omega

theorem reportExpunge_accepts (msg : Message) (expungeModSeq : ModSeq)
    (h : index + 1 ≤ mbox.tracker.numMessages.toNat) :
    ∃ next : MailboxTracker, (mbox.reportExpunge index msg expungeModSeq).tracker = next ∧
      (mbox.reportExpunge index msg expungeModSeq).dropped = mbox.dropped ∧
      next.numMessages.toNat = mbox.tracker.numMessages.toNat - 1 ∧
      ∀ id, next.sessions id = (mbox.tracker.sessions id).map fun session =>
        if session.closed then session
        else
          session.queueUpdate { expunge := Mailbox.seqNumAt index, expungeUID := msg.uid }
            next.numMessages false := by
  have hlt := mbox.tracker.numMessages.toNat_lt
  have hseq : (Mailbox.seqNumAt index).toNat = index + 1 := Word.toNat_ofNat_succ (by omega)
  have hne : Mailbox.seqNumAt index ≠ 0 := Word.ne_zero_iff.mpr (by omega)
  have hle : Mailbox.seqNumAt index ≤ mbox.tracker.numMessages :=
    UInt32.le_iff_toNat_le.mpr (by omega)
  have hpos : mbox.tracker.numMessages ≠ 0 := Word.ne_zero_iff.mpr (by omega)
  obtain ⟨next, hnext, hcount, hsessions⟩ := queueExpunge_accepts msg.uid hne hle
  have htrack : mbox.track (·.queueExpunge (Mailbox.seqNumAt index) msg.uid) =
      { mbox with tracker := next } := track_ok hnext
  refine ⟨next, ?_, ?_, ?_, hsessions⟩
  · rw [Mailbox.reportExpunge, htrack]
  · rw [Mailbox.reportExpunge, htrack]
  · rw [hcount, Word.toNat_pred hpos]

/-! ## One operation -/

namespace MailboxState

structure Synced (state : MailboxState) : Prop where
  count : state.mbox.tracker.numMessages.toNat = state.mbox.l.length
  accepted : state.mbox.dropped = []
  views : ∀ id session, state.mbox.tracker.sessions id = some session → session.closed = false →
      Leads session.queue (state.clients id) (uids state.mbox.l)

theorem Synced.agrees {state : MailboxState} (h : state.Synced) : state.Agrees := by
  refine ⟨h.count, h.accepted, ?_⟩
  intro id session hsession hopen
  rw [(h.views id session hsession hopen).applyAll_eq]

theorem Synced.getElem?_decodeSeqNum {state : MailboxState} (h : state.Synced)
    (hsession : state.mbox.tracker.sessions id = some session) (hopen : session.closed = false)
    {seqNum : SeqNum} (hle : seqNum.toNat ≤ (state.clients id).held.length)
    (hne : session.decodeSeqNum seqNum ≠ 0) :
    (uids state.mbox.l)[(session.decodeSeqNum seqNum).toNat - 1]? =
      (state.clients id).held[seqNum.toNat - 1]? := by
  obtain ⟨hseq, hwalk⟩ := SessionTracker.decodeSeqNum_ne_zero hne
  rw [hwalk] at hne ⊢
  exact (h.views id session hsession hopen).getElem?_decodeWalk hseq hle hne

theorem initial_synced (uidValidity : UInt32) : (initial uidValidity).Synced := by
  refine ⟨rfl, rfl, ?_⟩
  intro id session hsession
  simp [initial, newMailbox, newMailboxTracker] at hsession

variable {state : MailboxState}

variable (h : state.Synced)

include h

theorem Synced.appendBytes [CaseMapping] (buf : Bytes) (options : AppendOptions) (now : Time)
    (hroom : state.mbox.l.length + 1 < 2 ^ 32) :
    (state.arrived (state.mbox.appendBytes buf options now)).Synced := by
  have hlength := Word.toNat_ofNat_of_lt hroom
  have hne : UInt32.ofNat (state.mbox.l.length + 1) ≠ 0 := Word.ne_zero_iff.mpr (by omega)
  have hle : state.mbox.tracker.numMessages ≤ UInt32.ofNat (state.mbox.l.length + 1) := by
    rw [UInt32.le_iff_toNat_le, h.count, hlength]
    omega
  obtain ⟨next, hnext, hcount, hsessions⟩ := queueNumMessages_accepts hne hle
  simp only [arrived, Mailbox.appendBytes, List.length_append,
    List.length_singleton, Mailbox.track, hnext]
  refine ⟨?_, h.accepted, ?_⟩
  · simp only [List.length_append, List.length_singleton, hcount, hlength]
  · intro id session hsession hopen
    obtain ⟨earlier, hearlier, hopen', rfl⟩ :=
      MailboxTracker.open_before (hsessions id) hsession hopen
    rw [uids, List.map_append]
    apply (h.views id earlier hearlier hopen').concat_numMessages rfl hne
    simpa [uids] using hlength

omit h in
theorem uids_eraseIdx (l : List Message) (index : Nat) :
    uids (l.eraseIdx index) = (uids l).eraseIdx index := by
  simp [uids, List.eraseIdx_map]

theorem Synced.removeOne {place : Nat} (msg : Message)
    (expungeModSeq : ModSeq) (hplace : place < state.mbox.l.length) :
    Synced { state with
      mbox :=
        { reportAll expungeModSeq
            { state.mbox with highestModSeq := expungeModSeq }
            [(place, msg)] with
          l := state.mbox.l.eraseIdx place } } := by
  have hcount := h.count
  have hroom : place + 1 ≤ state.mbox.tracker.numMessages.toNat := by omega
  have hlt := state.mbox.tracker.numMessages.toNat_lt
  have hseq : (Mailbox.seqNumAt place).toNat = place + 1 := Word.toNat_ofNat_succ (by omega)
  obtain ⟨next, hnext, hdropped, hless, hsessions⟩ :=
    @reportExpunge_accepts { state.mbox with highestModSeq := expungeModSeq } place msg
      expungeModSeq hroom
  simp only [reportAll, List.foldl_cons, List.foldl_nil]
  refine ⟨?_, ?_, ?_⟩
  · simp only [hnext, hless, hcount, List.length_eraseIdx, if_pos hplace]
  · exact hdropped.trans h.accepted
  · intro id session hsession hopen
    rw [hnext] at hsession
    obtain ⟨earlier, hearlier, hopen', rfl⟩ :=
      MailboxTracker.open_before (hsessions id) hsession hopen
    have hne : Mailbox.seqNumAt place ≠ 0 := Word.ne_zero_iff.mpr (by omega)
    have hfits : (Mailbox.seqNumAt place).toNat ≤ (uids state.mbox.l).length := by
      rw [hseq, uids, List.length_map]
      omega
    have hleads := (h.views id earlier hearlier hopen').concat_expunge
      { expunge := Mailbox.seqNumAt place, expungeUID := msg.uid } hne hfits
    simp only [hseq, Nat.add_sub_cancel] at hleads
    rw [uids_eraseIdx]
    exact hleads

omit h in
theorem reportAll_accepts {expungeModSeq : ModSeq} {entries : List (Nat × Message)}
    (hclosed : ∀ id session, mbox.tracker.sessions id = some session → session.closed = true)
    (hnumbers : ∀ (order : Nat) (entry : Nat × Message), entries[order]? = some entry →
        entry.1 + 1 + order ≤ mbox.tracker.numMessages.toNat) :
    (reportAll expungeModSeq mbox entries).tracker.numMessages.toNat +
        entries.length = mbox.tracker.numMessages.toNat ∧
      (reportAll expungeModSeq mbox entries).dropped = mbox.dropped ∧
      ∀ id session, (reportAll expungeModSeq mbox entries).tracker.sessions id =
          some session → session.closed = true := by
  induction entries generalizing mbox with
  | nil => exact ⟨rfl, rfl, hclosed⟩
  | cons entry rest ih =>
    have hfirst := hnumbers 0 entry rfl
    obtain ⟨next, hnext, hdropped, hless, hsessions⟩ :=
      reportExpunge_accepts entry.2 expungeModSeq hfirst
    have hstill : ∀ id session, next.sessions id = some session → session.closed = true := by
      intro id session hsession
      by_contra hopen
      rw [Bool.not_eq_true] at hopen
      obtain ⟨earlier, hearlier, hopen', -⟩ :=
        MailboxTracker.open_before (hsessions id) hsession hopen
      rw [hclosed id earlier hearlier] at hopen'
      cases hopen'
    rw [← hnext] at hless hstill
    obtain ⟨hcount, hdropped', hclosed'⟩ := ih hstill (by
      intro order other hother
      have hlater := hnumbers (order + 1) other (by simpa using hother)
      omega)
    have hpos : 1 ≤ mbox.tracker.numMessages.toNat := by omega
    refine ⟨?_, hdropped'.trans hdropped, hclosed'⟩
    simp only [reportAll, List.foldl_cons, List.length_cons] at hcount ⊢
    omega

theorem Synced.expungeLocked (hsafe : state.RemovesSafely expunged) :
    Synced { state with mbox := (state.mbox.expungeLocked expunged).1 } := by
  rw [expungeLocked_eq]
  rcases hsafe with hfew | ⟨hclosed, hnumbers⟩
  · match hremoved : removedFrom expunged state.mbox.l 0 with
    | [] =>
      rw [removedFrom_eq_nil hremoved]
      exact ⟨h.count, h.accepted, h.views⟩
    | [(place, msg)] =>
      obtain ⟨-, hplace, hfilter⟩ := removedFrom_eq_singleton hremoved
      rw [hfilter, Nat.sub_zero]
      exact h.removeOne msg _ (by omega)
    | _ :: _ :: _ =>
      rw [hremoved] at hfew
      simp at hfew
  · have hlength := length_removedFrom expunged state.mbox.l 0
    obtain ⟨hcount, hdropped, hclosed'⟩ :=
      @reportAll_accepts { state.mbox with highestModSeq := state.mbox.highestModSeq + 1 }
        (state.mbox.highestModSeq + 1) (removedFrom expunged state.mbox.l 0)
        hclosed (by simpa [h.count] using hnumbers)
    refine ⟨?_, hdropped.trans h.accepted, ?_⟩
    · have hbefore := h.count
      simp only at hcount ⊢
      omega
    · intro id session hsession hopen
      rw [hclosed' id session hsession] at hopen
      cases hopen

theorem Synced.newView [CaseMapping] : (state.perform .newView).Synced := by
  refine ⟨h.count, h.accepted, ?_⟩
  intro id session hsession hopen
  simp only [perform, Mailbox.newView, MailboxTracker.newSession,
    Function.update_apply] at hsession ⊢
  split_ifs at hsession ⊢ with hsame
  · cases hsession
    exact .done
  · exact h.views id session hsession hopen

theorem Synced.poll [CaseMapping] (id : SessionId)
    (allowExpunge : Bool) : (state.perform (.poll id allowExpunge)).Synced := by
  rw [perform]
  cases hpolled : state.mbox.tracker.sessions id with
  | none => exact h
  | some polled =>
    refine ⟨h.count, h.accepted, ?_⟩
    intro other session hsession hopen
    simp only [MailboxTracker.pollSession, MailboxTracker.modifySession,
      Function.update_apply] at hsession ⊢
    split_ifs at hsession ⊢ with hsame
    · rw [hpolled] at hsession
      cases hsession
      rw [SessionTracker.dequeue_closed] at hopen
      have hleads := h.views id polled hpolled hopen
      rw [← polled.dequeue_append allowExpunge] at hleads
      exact hleads.drop
    · exact h.views other session hsession hopen

theorem Synced.closeView [CaseMapping] (id : SessionId) :
    (state.perform (.closeView id)).Synced := by
  refine ⟨h.count, h.accepted, ?_⟩
  intro other session hsession hopen
  simp only [perform, MailboxTracker.closeSession, MailboxTracker.modifySession,
    Function.update_apply] at hsession ⊢
  split_ifs at hsession with hsame
  · obtain ⟨earlier, -, rfl⟩ := Option.map_eq_some_iff.mp hsession
    cases hopen
  · exact h.views other session hsession hopen

theorem Synced.perform [CaseMapping] {op : MailboxOp}
    (hsafe : state.Safe op) : (state.perform op).Synced := by
  cases op with
  | append buf options now => exact h.appendBytes buf options now hsafe
  | copy msg now => exact h.appendBytes _ _ now hsafe
  | expunge marked =>
    rw [MailboxState.perform]
    split_ifs
    · exact h
    · exact h.expungeLocked hsafe
  | move moved => exact h.expungeLocked hsafe
  | newView => exact h.newView
  | poll id allowExpunge => exact h.poll id allowExpunge
  | closeView id => exact h.closeView id

end MailboxState

section Runs

variable [CaseMapping] {uidValidity : UInt32} {ops : List MailboxOp} {state : MailboxState}

variable (hsafe : Transition.Meets MailboxState.perform MailboxState.Safe (MailboxState.initial
  uidValidity) ops)

include hsafe

variable (hstate : state ∈ ops.scanl MailboxState.perform (MailboxState.initial uidValidity))

include hstate

theorem synced_of_safe : state.Synced :=
  Transition.invariant_of_meets MailboxState.Synced (fun _ _ h hguard => h.perform hguard)
    (MailboxState.initial_synced uidValidity) hsafe state hstate

theorem decodeSeqNum_names_message (hsession : state.mbox.tracker.sessions id = some session)
    (hopen : session.closed = false) (seqNum : SeqNum)
    (hle : seqNum.toNat ≤ (state.clients id).held.length) :
    session.decodeSeqNum seqNum = 0 ∨
      (uids state.mbox.l)[(session.decodeSeqNum seqNum).toNat - 1]? =
        (state.clients id).held[seqNum.toNat - 1]? := by
  rw [or_iff_not_imp_left]
  intro hne
  exact (synced_of_safe hsafe hstate).getElem?_decodeSeqNum hsession hopen hle hne

end Runs

/-- The mailbox and its tracker agree in every state of a safe run. -/
theorem mailbox_tracker_agree [CaseMapping] (uidValidity : UInt32) (ops : List MailboxOp)
    (hsafe : Transition.Meets MailboxState.perform MailboxState.Safe
      (MailboxState.initial uidValidity) ops) :
    ∀ state ∈ ops.scanl MailboxState.perform (MailboxState.initial uidValidity), state.Agrees := by
  intro state hstate
  exact (synced_of_safe hsafe hstate).agrees

def emptyAppend : MailboxOp := .append [] {} 0

def removeFirstOfTwo : List MailboxOp :=
  [.newView, emptyAppend, .poll 0 true, emptyAppend, .expunge [0], .poll 0 false]

theorem removeFirstOfTwo_safe : Transition.Meets (@MailboxState.perform asciiCaseMapping)
      MailboxState.Safe (MailboxState.initial 1) removeFirstOfTwo :=
  ⟨trivial, by change _ + 1 < 2 ^ 32; decide, trivial,
    by change _ + 1 < 2 ^ 32; decide, .inl (by decide), trivial, trivial⟩

theorem mailbox_tracker_agree_removeFirstOfTwo :
    Transition.Meets (@MailboxState.perform asciiCaseMapping)
        MailboxState.Safe (MailboxState.initial 1) removeFirstOfTwo ∧
      ∀ state ∈ removeFirstOfTwo.scanl
        (@MailboxState.perform asciiCaseMapping) (MailboxState.initial 1),
        state.Agrees :=
  ⟨removeFirstOfTwo_safe, @mailbox_tracker_agree asciiCaseMapping 1 removeFirstOfTwo
      removeFirstOfTwo_safe⟩

theorem decodeSeqNum_names_message_second :
    let last := removeFirstOfTwo.foldl (@MailboxState.perform asciiCaseMapping)
      (MailboxState.initial 1)
    ∃ session, last.mbox.tracker.sessions 0 = some session ∧ (session.decodeSeqNum 2 = 0 ∨
      (uids last.mbox.l)[(session.decodeSeqNum 2).toNat - 1]? = (last.clients 0).held[1]?) := by
  refine ⟨_, rfl, @decodeSeqNum_names_message _ _ asciiCaseMapping 1 _ _ removeFirstOfTwo_safe ?_
    rfl rfl 2 (by decide)⟩
  rw [← List.getLast_scanl List.scanl_ne_nil]
  exact List.getLast_mem _

def removeBoth : List MailboxOp := [emptyAppend, emptyAppend, .newView, .expunge [0, 1]]

theorem removeBoth_disagrees : ∃ state ∈ removeBoth.scanl (@MailboxState.perform asciiCaseMapping)
      (MailboxState.initial 1),
      state.mbox.l = [] ∧ state.mbox.tracker.numMessages = 1 ∧
        state.mbox.dropped ≠ [] ∧ ¬state.Agrees := by
  refine ⟨removeBoth.foldl (@MailboxState.perform asciiCaseMapping)
    (MailboxState.initial 1), ?_, by decide, by decide, by decide, ?_⟩
  · rw [← List.getLast_scanl (List.scanl_ne_nil)]
    exact List.getLast_mem _
  · intro h
    exact absurd h.accepted (by decide)

end GoImap.MemServer
