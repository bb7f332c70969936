import GoImap.MemServer.Agreement
import GoImap.MemServer.View
import Mathlib.Algebra.Group.Int.Defs

/-!
# SELECT among other sessions

`Select` registers a view with the tracker and later, under the mutex of the
mailbox, reads the data it announces.  Registration takes only the mutex of the
tracker, so it may fall into a critical section of another session, between a
change of the list and the call that reports it.  Critical sections are
therefore cut into the steps a registration can fall between.
-/

namespace GoImap.MemServer

open Tracker

/-! ## The data of SELECT -/

structure SelectModifiedData where
  seqNum : SeqNum
  uid : UID
  flags : List Flag
  modSeq : ModSeq
  deriving DecidableEq, Repr

structure SelectData where
  flags : List Flag
  permanentFlags : List Flag
  numMessages : UInt32
  firstUnseenSeqNum : SeqNum
  uidNext : UID
  uidValidity : UInt32
  highestModSeq : ModSeq
  vanished : NumSet
  modified : List SelectModifiedData
  deriving DecidableEq, Repr

structure QResyncData where
  uidValidity : UInt32
  modSeq : ModSeq

namespace Mailbox

/-- The flags in use, in the order of their octets. -/
def flagsLocked (mbox : Mailbox) : List Flag :=
  (mbox.l.flatMap Message.flagList).dedup.mergeSort fun first second =>
    decide (¬second < first)

def firstUnseenLoop [CaseMapping] : List Message → Nat → SeqNum
  | [], _ => 0
  | msg :: rest, index =>
    if msg.flags.contains (canonicalFlag flagSeen) then
      firstUnseenLoop rest (index + 1)
    else seqNumAt index

def firstUnseenSeqNumLocked [CaseMapping] (mbox : Mailbox) : SeqNum := firstUnseenLoop mbox.l 0

def selectDataLocked [CaseMapping] (mbox : Mailbox) : SelectData where
  flags := mbox.flagsLocked
  permanentFlags := mbox.flagsLocked ++ [ascii "\\*"]
  numMessages := UInt32.ofNat mbox.l.length
  firstUnseenSeqNum := mbox.firstUnseenSeqNumLocked
  uidNext := mbox.uidNext
  uidValidity := mbox.uidValidity
  highestModSeq := mbox.highestModSeq
  vanished := []
  modified := []

end Mailbox

def modifiedSince (session : SessionTracker) (modSeq : ModSeq)
    (l : List Message) : List SelectModifiedData :=
  l.zipIdx.filterMap fun entry =>
    let seqNum := session.encodeSeqNum (Mailbox.seqNumAt entry.2)
    if entry.1.modSeq > modSeq ∧ seqNum ≠ 0 then
      some
        { seqNum := seqNum
          uid := entry.1.uid
          flags := entry.1.flagList
          modSeq := entry.1.modSeq }
    else none

def View.selectData [CaseMapping] (mbox : Mailbox) (view : View)
    (qresync : Option QResyncData) : SelectData :=
  let data := mbox.selectDataLocked
  match qresync with
  | none => data
  | some known =>
    if mbox.uidValidity = known.uidValidity then
      { data with
        vanished := ((mbox.expunged.filter fun expunged =>
          decide (expunged.modSeq > known.modSeq)).map ExpungedMessage.uid).foldl NumSet.addNum []
        modified := modifiedSince (sessionOf mbox.tracker view.session) known.modSeq mbox.l }
    else data

theorem selectData_numMessages [CaseMapping] (mbox : Mailbox) (view : View)
    (qresync : Option QResyncData) :
    (view.selectData mbox qresync).numMessages = UInt32.ofNat mbox.l.length := by
  unfold View.selectData
  cases qresync with
  | none => rfl
  | some known =>
    simp only
    split_ifs
    · rfl
    · rfl

/-! ## Critical sections, step by step -/

inductive SectionStep where
  | arrive (buf : Bytes) (options : AppendOptions) (now : Time)
  | announce
  | raiseModSeq
  | report (index : Nat) (msg : Message) (expungeModSeq : ModSeq)
  | drop (expunged : List Nat)

namespace SectionStep

/-- The part of `appendBytes` in front of the call of the tracker. -/
def arriveAt [CaseMapping] (mbox : Mailbox) (buf : Bytes)
    (options : AppendOptions) (now : Time) : Mailbox :=
  { mbox with
    l := mbox.l ++
      [{ address := mbox.nextAddress
         uid := mbox.uidNext
         buf := buf
         t := options.time.getD now
         flags := options.flags.foldl (fun flags flag => flags.insert (canonicalFlag flag)) .empty
         modSeq := mbox.highestModSeq + 1 }]
    uidNext := mbox.uidNext + 1
    highestModSeq := mbox.highestModSeq + 1
    nextAddress := mbox.nextAddress + 1 }

def perform [CaseMapping] (mbox : Mailbox) : SectionStep → Mailbox
  | .arrive buf options now => arriveAt mbox buf options now
  | .announce =>
    mbox.track (·.queueNumMessages (UInt32.ofNat mbox.l.length))
  | .raiseModSeq => { mbox with highestModSeq := mbox.highestModSeq + 1 }
  | .report index msg expungeModSeq =>
    mbox.reportExpunge index msg expungeModSeq
  | .drop expunged =>
    { mbox with l := mbox.l.filter (·.address ∉ expunged) }

def change (mbox : Mailbox) : SectionStep → Int
  | .arrive _ _ _ => 1
  | .drop expunged => -(mbox.l.countP (·.address ∈ expunged) : Int)
  | _ => 0

end SectionStep

def sectionSteps (mbox : Mailbox) : MailboxOp → List SectionStep
  | .append buf options now => [.arrive buf options now, .announce]
  | .copy msg now =>
    [.arrive msg.buf
      { time := some msg.t, flags := msg.flagList } now, .announce]
  | .expunge marked => if marked = [] then [] else removal mbox marked
  | .move moved => removal mbox moved
  | _ => []
where
  removal (mbox : Mailbox) (expunged : List Nat) : List SectionStep :=
    .raiseModSeq :: (removedFrom expunged mbox.l 0).map (fun entry =>
        .report entry.1 entry.2 (mbox.highestModSeq + 1)) ++ [.drop expunged]

def runSteps [CaseMapping] (mbox : Mailbox) (steps : List SectionStep) : Mailbox :=
  steps.foldl SectionStep.perform mbox

def allSteps [CaseMapping] (mbox : Mailbox) : List MailboxOp → List SectionStep
  | [] => []
  | op :: rest =>
    sectionSteps mbox op ++ allSteps (runSteps mbox (sectionSteps mbox op)) rest

def netChange [CaseMapping] (mbox : Mailbox) : List SectionStep → Int
  | [] => 0
  | step :: rest => step.change mbox + netChange (step.perform mbox) rest

theorem runSteps_removal [CaseMapping] (mbox : Mailbox) (expunged : List Nat) :
    runSteps mbox (sectionSteps.removal mbox expunged) = (mbox.expungeLocked expunged).1 := by
  rw [expungeLocked_eq]
  simp only [runSteps, sectionSteps.removal, List.foldl_cons,
    List.foldl_append, List.foldl_map, SectionStep.perform, List.foldl_nil]
  rw [← reportAll, (reportAll_keeps _ _ _).1]

theorem runSteps_sectionSteps [CaseMapping] (state : MailboxState) (op : MailboxOp) :
    runSteps state.mbox (sectionSteps state.mbox op) =
      match op with
      | .append _ _ _ | .copy _ _ | .expunge _ | .move _ =>
        (state.perform op).mbox
      | _ => state.mbox := by
  cases op with
  | append buf options now | copy msg now => rfl
  | expunge marked =>
    simp only [sectionSteps, MailboxState.perform]
    split_ifs
    · rfl
    · exact runSteps_removal state.mbox marked
  | move moved => exact runSteps_removal state.mbox moved
  | newView | poll id allowExpunge | closeView id => rfl

theorem length_perform [CaseMapping] (mbox : Mailbox) (step : SectionStep) :
    ((step.perform mbox).l.length : Int) = mbox.l.length + step.change mbox := by
  cases step with
  | arrive buf options now =>
    simp [SectionStep.perform, SectionStep.arriveAt, SectionStep.change]
  | announce =>
    rw [SectionStep.perform, (track_keeps _ _).1]
    simp [SectionStep.change]
  | raiseModSeq => simp [SectionStep.perform, SectionStep.change]
  | report index msg expungeModSeq =>
    rw [SectionStep.perform, Mailbox.reportExpunge, (track_keeps _ _).1]
    simp [SectionStep.change]
  | drop expunged =>
    have hsplit := mbox.l.length_eq_countP_add_countP (fun msg => decide (msg.address ∈ expunged))
    simp only [SectionStep.perform, SectionStep.change, ← List.countP_eq_length_filter]
    simp only [decide_eq_true_eq] at hsplit ⊢
    omega

theorem length_runSteps [CaseMapping] (mbox : Mailbox) (steps : List SectionStep) :
    ((runSteps mbox steps).l.length : Int) = mbox.l.length + netChange mbox steps := by
  induction steps generalizing mbox with
  | nil => simp [runSteps, netChange]
  | cons step rest ih =>
    rw [runSteps, List.foldl_cons, ← runSteps, ih, length_perform, netChange]
    omega

/-! ## The new view -/

def LeadsFrom (mbox : Mailbox) (id : SessionId) (count : UInt32) : Prop :=
  ∃ session, mbox.tracker.sessions id = some session ∧ session.closed = false ∧
    session.numMessages = mbox.tracker.numMessages ∧
    Chain session.queue count mbox.tracker.numMessages

theorem LeadsFrom.newView (mbox : Mailbox) :
    LeadsFrom mbox.newView.2 mbox.newView.1 mbox.tracker.numMessages :=
  ⟨{ closed := false, numMessages := mbox.tracker.numMessages, queue := [] },
    by simp [Mailbox.newView, MailboxTracker.newSession], rfl, rfl, rfl⟩

variable {mbox : Mailbox} {id : SessionId} {count : UInt32}

section

variable (h : LeadsFrom mbox id count)

include h

theorem LeadsFrom.queueUpdate {update : TrackerUpdate} (hkind : update.SingleKind)
    {next : MailboxTracker} (hnext : mbox.tracker.queueUpdate update none = .ok next) :
    LeadsFrom { mbox with tracker := next } id count := by
  obtain ⟨session, hsession, hopen, -, hchain⟩ := h
  obtain ⟨hcheck, hcount, -, hsessions⟩ := MailboxTracker.queueUpdate_ok hnext
  have hextends := TrackerUpdate.extends_of_check hkind hcheck
  refine ⟨session.queueUpdate (update.stamp mbox.tracker.numMessages)
    next.numMessages false, ?_, hopen, rfl, ?_⟩
  · simp [hsessions id, hsession, hopen]
  · refine chain_concat.mpr ⟨_, hchain, hextends, ?_⟩
    rw [TrackerUpdate.stamp_countAfter]
    exact hcount.symm

theorem LeadsFrom.perform [CaseMapping]
    (step : SectionStep) : LeadsFrom (step.perform mbox) id count := by
  let P := fun tracker => LeadsFrom { mbox with tracker := tracker } id count
  have hkept : MailboxTracker.Kept P := fun _ _ _ hkind hnext hinv => hinv.queueUpdate hkind hnext
  cases step with
  | arrive | raiseModSeq | drop => exact h
  | announce =>
    exact @track_tracker mbox P _ h fun _ hnext => hkept.queueNumMessages h hnext
  | report index msg expungeModSeq =>
    exact @kept_reportExpunge mbox _ hkept h index msg expungeModSeq

theorem LeadsFrom.runSteps [CaseMapping]
    (steps : List SectionStep) : LeadsFrom (runSteps mbox steps) id count := by
  induction steps generalizing mbox with
  | nil => exact h
  | cons step rest ih => exact ih (h.perform step)

end

theorem chain_countAfter {updates : List TrackerUpdate} {final : UInt32}
    (h : Chain updates count final) :
    updates.foldl (fun count update => update.countAfter count) count = final := by
  induction updates generalizing count with
  | nil => exact h
  | cons update rest ih => exact ih h.2

/--
The announced count is the one the view starts from, and what is queued for the
view leads a client with this count to the tracker's.
-/
def Announces (mbox : Mailbox) (id : SessionId) (data : SelectData) : Prop :=
  ∃ session, mbox.tracker.sessions id = some session ∧
    data.numMessages = session.encodeNumMessages ∧
    session.queue.foldl (fun count update => update.countAfter count)
      data.numMessages = mbox.tracker.numMessages

theorem LeadsFrom.announces_iff (h : LeadsFrom mbox id count) (data : SelectData) :
    Announces mbox id data ↔ data.numMessages = count := by
  obtain ⟨session, hsession, hopen, hsame, hchain⟩ := h
  have hclient : session.encodeNumMessages = count := by
    rw [← hsame] at hchain
    simp [SessionTracker.encodeNumMessages, hopen, (SessionTracker.encodeCountWalk_eq hchain).2]
  constructor
  · rintro ⟨other, hother, hcount, -⟩
    rw [hsession] at hother
    cases hother
    rw [hcount, hclient]
  · intro hcount
    exact ⟨session, hsession, by rw [hcount, hclient],
      by rw [hcount]; exact chain_countAfter hchain⟩

/--
A view is registered when `made` steps of the section `during` have been made,
which some other session has entered with the mailbox as it is; an operation
without steps stands for none.  The data is read after the section and those of
`after`.
-/
structure SelectRun where
  mbox : Mailbox
  during : MailboxOp
  made : Nat
  after : List MailboxOp

namespace SelectRun

variable [CaseMapping]

def atRegistration (run : SelectRun) : Mailbox :=
  runSteps run.mbox ((sectionSteps run.mbox run.during).take run.made)

def view (run : SelectRun) : View where
  session := run.atRegistration.newView.1
  searchRes := []

def registered (run : SelectRun) : Mailbox := run.atRegistration.newView.2

def laterSteps (run : SelectRun) : List SectionStep :=
  let rest := (sectionSteps run.mbox run.during).drop run.made
  rest ++ allSteps (runSteps run.registered rest) run.after

def atData (run : SelectRun) : Mailbox := runSteps run.registered run.laterSteps

theorem announces_iff (run : SelectRun) (qresync : Option QResyncData) :
    Announces run.atData run.view.session (run.view.selectData run.atData qresync) ↔
      UInt32.ofNat run.atData.l.length = run.atRegistration.tracker.numMessages := by
  have hleads : LeadsFrom run.atData run.view.session run.atRegistration.tracker.numMessages :=
    (LeadsFrom.newView run.atRegistration).runSteps run.laterSteps
  rw [hleads.announces_iff, selectData_numMessages]

/-- Where list and tracker agree when the data is read, the client is led to
the length of the list from its own count exactly if the view started there. -/
theorem announces_length_iff (run : SelectRun) (qresync : Option QResyncData)
    (hagree : run.atData.tracker.numMessages = UInt32.ofNat run.atData.l.length) :
    (∃ session, run.atData.tracker.sessions run.view.session = some session ∧
        (run.view.selectData run.atData qresync).numMessages = session.encodeNumMessages ∧
        session.queue.foldl (fun count update => update.countAfter count)
            (run.view.selectData run.atData qresync).numMessages =
          UInt32.ofNat run.atData.l.length) ↔
      run.atRegistration.tracker.numMessages = UInt32.ofNat run.atData.l.length := by
  have hannounces := run.announces_iff qresync
  rw [Announces, hagree] at hannounces
  exact hannounces.trans eq_comm

end SelectRun

theorem ofNat_eq_iff (value : Nat) (word : UInt32) :
    UInt32.ofNat value = word ↔ (value : Int) % 2 ^ 32 = word.toNat := by
  rw [← UInt32.toNat_inj, UInt32.toNat_ofNat']
  omega

/--
SELECT announces the count its view starts from exactly if the tracker's count
at the registration is the length the list then has, changed by what the other
sessions do to the list before the data is read.
-/
theorem select_announces_view_iff [CaseMapping] (run : SelectRun) (qresync : Option QResyncData) :
    Announces run.atData run.view.session (run.view.selectData run.atData qresync) ↔
      ((run.atRegistration.l.length : Int) + netChange run.registered run.laterSteps) % 2 ^ 32 =
        run.atRegistration.tracker.numMessages.toNat := by
  have hlength := length_runSteps run.registered run.laterSteps
  rw [run.announces_iff, ofNat_eq_iff, SelectRun.atData, hlength]
  rfl

/-- Another session removes the first of two messages before the data is read. -/
def removalDuringSelect : SelectRun where
  mbox := ([emptyAppend, emptyAppend].foldl
    (@MailboxState.perform asciiCaseMapping) (MailboxState.initial 1)).mbox
  during := .closeView 0
  made := 0
  after := [.expunge [0]]

/-- The client is told of one message, then that it is gone, and one is left. -/
theorem removal_during_select_misannounced :
    let mbox := @SelectRun.atData asciiCaseMapping removalDuringSelect
    let view := @SelectRun.view asciiCaseMapping removalDuringSelect
    let data := @View.selectData asciiCaseMapping mbox view none
    data.numMessages = 1 ∧ (sessionOf mbox.tracker view.session).encodeNumMessages = 2 ∧
      (sessionOf mbox.tracker view.session).queue.foldl
        (fun count update => update.countAfter count) data.numMessages = 0 ∧
      mbox.tracker.numMessages = 1 ∧ mbox.l.length = 1 := by
  decide

end GoImap.MemServer
