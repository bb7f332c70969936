import GoImap.MemServer.Fetch
import GoImap.MemServer.Move
import GoImap.Server.Handlers

/-!
# EXAMINE is read-only

A connection that has examined a mailbox is refused STORE, EXPUNGE and the
expunge of CLOSE, but neither MOVE nor a FETCH that sets `\Seen`.  The commands
that leave the messages as they are can be told from the state they are sent
in, and a run of them leaves the messages as they are throughout.
-/

namespace GoImap.Server

open Tracker MemServer

/-! ## The messages a FETCH marks -/

section

variable [CaseMapping] {id : SessionId} {options : FetchOptions}
  {writeFails : Nat → Bool} {numSet : MessageSet}

theorem fetchLoop_failed (l : List Message) (index : Nat) {state : FetchState}
    (hfailed : state.failed = true) :
    forEachLoop (fun state => sessionOf state.tracker id) numSet
      (fetchVisit id options writeFails) l index state = (state, l) := by
  induction l generalizing index with
  | nil => rfl
  | cons msg rest ih =>
    rw [forEachLoop]
    simp [fetchVisit, hfailed, ih]

def FetchOptions.mark (options : FetchOptions) (msg : Message) : Message :=
  if options.markSeen then
    { msg with flags := msg.flags.insert (canonicalFlag flagSeen) }
  else msg

theorem mark_eq_self_iff (msg : Message) :
    FetchOptions.mark options msg = msg ↔ (options.markSeen = true →
        msg.flags.contains (canonicalFlag flagSeen) = true) := by
  unfold FetchOptions.mark
  split_ifs with hmark
  · rw [← FlagSet.insert_eq_self_iff]
    constructor
    · intro hsame _
      exact congrArg Message.flags hsame
    · intro hsame
      rw [hsame hmark]
  · simp [hmark]

theorem fetchVisit_answered {state : FetchState} {msg : Message}
    (hrunning : state.failed = false) (hcurrent : UpToDate state.tracker id)
    (hanswers : options.passesOver msg = false) (seqNum : SeqNum) :
    ∃ next, fetchVisit id options writeFails state seqNum msg =
        (next, FetchOptions.mark options msg) ∧
      next.failed = writeFails state.responses.length ∧
      next.responses.length = state.responses.length + 1 ∧
      UpToDate next.tracker id ∧
      (sessionOf next.tracker id).encodeSeqNum = (sessionOf state.tracker id).encodeSeqNum := by
  have hpasses : ¬(options.changedSince > 0 ∧ msg.modSeq ≤ options.changedSince) :=
    of_decide_eq_false hanswers
  rcases hvisit : fetchVisit id options writeFails state seqNum msg with ⟨next, new⟩
  rcases fetchVisit_cases hvisit with ⟨hskips, -⟩ | ⟨-, hflagged, -, rfl, hfailed, hresponses⟩
  · rw [hrunning] at hskips
    exact absurd (hskips.resolve_left Bool.false_ne_true) hpasses
  · exact ⟨next, rfl, hfailed, by simp [hresponses], hflagged.upToDate hcurrent,
      hflagged.encodeSeqNum hcurrent⟩

theorem fetchLoop_keeps (session : SessionTracker) (l : List Message) (index : Nat)
    {state : FetchState} (hrunning : state.failed = false) (hcurrent : UpToDate state.tracker id)
    (hencode : (sessionOf state.tracker id).encodeSeqNum = session.encodeSeqNum) :
    UpToDate (forEachLoop (fun state => sessionOf state.tracker id) numSet
        (fetchVisit id options writeFails) l index state).1.tracker id ∧
      ((forEachLoop (fun state => sessionOf state.tracker id) numSet
          (fetchVisit id options writeFails) l index state).2 = l ↔
        (options.markSeen = true → ∀ entry ∈ upToFailure writeFails
            ((selectedFrom session numSet l index).filter fun entry =>
              !options.passesOver entry.2) state.responses.length,
          entry.2.flags.contains (canonicalFlag flagSeen) = true)) := by
  induction l generalizing index state with
  | nil => simp [forEachLoop, selectedFrom, upToFailure, hcurrent]
  | cons msg rest ih =>
    rw [forEachLoop, selectedFrom, selects_congr hencode]
    split_ifs with hselects
    · cases hanswers : options.passesOver msg with
      | true =>
        have hvisit : fetchVisit id options writeFails state
            (Mailbox.seqNumAt index) msg = (state, msg) := by
          have hskips : options.changedSince > 0 ∧ msg.modSeq ≤ options.changedSince :=
            of_decide_eq_true hanswers
          simp [fetchVisit, hskips]
        simpa [hvisit, hanswers] using ih (index + 1) hrunning hcurrent hencode
      | false =>
        obtain ⟨next, hvisit, hfailed, hlength, hcurrent', hsame⟩ :=
          @fetchVisit_answered _ id options writeFails state msg hrunning
            hcurrent hanswers (Mailbox.seqNumAt index)
        simp only [hvisit, List.cons.injEq, mark_eq_self_iff, hanswers, Bool.not_false,
          List.filter_cons_of_pos, upToFailure, List.forall_mem_cons, ← hfailed, ← hlength]
        cases hrun : next.failed with
        | true =>
          rw [fetchLoop_failed rest (index + 1) hrun]
          simp [hcurrent']
        | false =>
          obtain ⟨hafter, hkeeps⟩ := ih (index + 1) hrun hcurrent' (hsame.trans hencode)
          tauto
    · simpa using ih (index + 1) hrunning hcurrent hencode

end

/-! ## The examined mailbox -/

def KeepsMessages [CaseMapping] (id : MailboxId) (conn : Conn) (command : Command) : Prop :=
  ((conn.step command).backend.boxes id).l = (conn.backend.boxes id).l

/-- The command has nothing to change in the selected mailbox: a MOVE has no
destination or no messages, and a FETCH that marks messages finds the mark on
all of them. -/
def ReadsOnly [CaseMapping] (conn : Conn) (command : Command) : Prop :=
  match conn.mailbox, command with
  | some (id, view), .fetch _ numSet options writeFails =>
    options.markSeen = true →
      ∀ entry ∈ view.answered (conn.backend.boxes id) numSet options writeFails,
        entry.2.flags.contains (canonicalFlag flagSeen) = true
  | some (id, view), .move numSet destName _ =>
    (∃ err, conn.backend.destination id destName = .error err) ∨
      view.selected (conn.backend.boxes id) numSet = []
  | _, _ => True

structure Examining (id : MailboxId) (view : View) (conn : Conn) : Prop where
  mailbox_eq : conn.mailbox = some (id, view)
  state_eq : conn.state = .selected
  readOnly : conn.selectedReadOnly = true
  privateStore : conn.selectedPrivateStore = false
  upToDate : UpToDate (conn.backend.boxes id).tracker view.session

def Examined (id : MailboxId) (conn : Conn) : Prop :=
  (∃ view, Examining id view conn) ∨ (conn.state = .authenticated ∧ conn.mailbox = none)

theorem select_examined (backend : Backend) (id : MailboxId) :
    Examined id (Conn.select backend id true) := by
  left
  refine ⟨_, rfl, rfl, rfl, rfl, ?_⟩
  simp [UpToDate, sessionOf, Conn.select, Mailbox.newView, MailboxTracker.newSession]

section

variable {id : MailboxId} {view : View} {conn : Conn}

theorem poll_messages (conn : Conn) (allowExpunge : Bool) (id : MailboxId) :
    ((conn.poll allowExpunge).backend.boxes id).l = (conn.backend.boxes id).l := by
  unfold Conn.poll
  split
  · rename_i selected view _ _
    by_cases hsame : id = selected
    · subst hsame
      simp
    · rw [setBox_boxes_of_ne hsame]
  · rfl

theorem Examining.poll (h : Examining id view conn) (allowExpunge : Bool) :
    Examining id view (conn.poll allowExpunge) := by
  unfold Conn.poll
  rw [h.state_eq, h.mailbox_eq]
  refine ⟨rfl, rfl, h.readOnly, h.privateStore, ?_⟩
  simpa using pollSession_upToDate view.session allowExpunge h.upToDate

theorem Examining.setBackend (h : Examining id view conn) {backend : Backend} {newView : View}
    (hcurrent : UpToDate (backend.boxes id).tracker newView.session) :
    Examining id newView { conn with mailbox := some (id, newView), backend := backend } :=
  ⟨rfl, h.state_eq, h.readOnly, h.privateStore, hcurrent⟩

theorem Examining.checkSelected (h : Examining id view conn) : conn.checkSelected = .ok () := by
  simp [Conn.checkSelected, h.state_eq]

theorem Examining.checkWritableMailbox (h : Examining id view conn) :
    conn.checkWritableMailbox = .error Conn.readOnlyError := by
  simp [Conn.checkWritableMailbox, h.checkSelected, h.readOnly]

/-! ## One command -/

variable [CaseMapping]

/-- The condition tells whether the command keeps the messages, and a command
that meets it leaves the connection as the next one expects it. -/
structure Judged (id : MailboxId) (conn : Conn) (command : Command) : Prop where
  keeps_iff : KeepsMessages id conn command ↔ ReadsOnly conn command
  examined : ReadsOnly conn command → Examined id (conn.step command)

theorem Judged.of_kept {command : Command} (hkeeps : KeepsMessages id conn command)
    (hreads : ReadsOnly conn command) (hexamined : Examined id (conn.step command)) :
    Judged id conn command :=
  ⟨iff_of_true hkeeps hreads, fun _ => hexamined⟩

section

variable (h : Examining id view conn)

include h

theorem Examining.judged_of_unchanged {command : Command} (hstep : conn.step command = conn)
    (hreads : ReadsOnly conn command) : Judged id conn command := by
  refine .of_kept ?_ hreads ?_
  · rw [KeepsMessages, hstep]
  · rw [hstep]
    exact .inl ⟨view, h⟩

theorem Examining.readsOnly_of_other {command : Command}
    (hfetch : ∀ kind numSet options writeFails, command ≠ .fetch kind numSet options writeFails)
    (hmove : ∀ numSet destName now, command ≠ .move numSet destName now) :
    ReadsOnly conn command := by
  unfold ReadsOnly
  rw [h.mailbox_eq]
  cases command with
  | fetch kind numSet options writeFails =>
    exact absurd rfl (hfetch kind numSet options writeFails)
  | move numSet destName now => exact absurd rfl (hmove numSet destName now)
  | _ => trivial

theorem Examining.fetch (kind : NumKind) (numSet : MessageSet) (options : FetchOptions)
    (writeFails : Nat → Bool) :
    Judged id conn (.fetch kind numSet options writeFails) := by
  obtain ⟨hcurrent, hkeeps⟩ :=
    @fetchLoop_keeps _ view.session options writeFails
      (staticNumSet (conn.backend.boxes id) view numSet)
      (sessionOf (conn.backend.boxes id).tracker view.session)
      (conn.backend.boxes id).l 0 (.start (conn.backend.boxes id)) rfl h.upToDate rfl
  have hstored := @Examining.setBackend id view conn h
    (conn.backend.setBox id (view.fetch (conn.backend.boxes id) numSet options
      writeFails).1) view (by simpa [View.fetch, FetchState.store] using hcurrent)
  have hstep : Examining id view (conn.step (.fetch kind numSet options writeFails)) ∧
      ((conn.step (.fetch kind numSet options writeFails)).backend.boxes id).l =
        (view.fetch (conn.backend.boxes id) numSet options writeFails).1.l := by
    simp only [Conn.step, Conn.handle, Conn.handleFetch, h.checkSelected, h.mailbox_eq]
    split_ifs
    · exact ⟨hstored, by simp⟩
    · exact ⟨hstored.poll _, by rw [poll_messages, setBox_boxes_self]⟩
  refine ⟨?_, fun _ => .inl ⟨view, hstep.1⟩⟩
  simp only [KeepsMessages, hstep.2, ReadsOnly, h.mailbox_eq]
  exact hkeeps

theorem Examining.store (kind : NumKind)
    (numSet : MessageSet) (flags : StoreFlags) (options : StoreOptions) :
    Judged id conn (.store kind numSet flags options) := by
  have hstep : conn.step (.store kind numSet flags options) = conn := by
    simp [Conn.step, Conn.handle, Conn.handleStore, h.checkSelected,
      h.privateStore, h.checkWritableMailbox]
  exact h.judged_of_unchanged hstep (h.readsOnly_of_other (by simp) (by simp))

theorem Examining.expunge (uids : Option NumSet) : Judged id conn (.expunge uids) := by
  have hstep : conn.step (.expunge uids) = conn := by
    simp [Conn.step, Conn.handle, Conn.handleExpunge, h.checkWritableMailbox]
  exact h.judged_of_unchanged hstep (h.readsOnly_of_other (by simp) (by simp))

theorem Examining.search (kind : NumKind)
    (found : SeqNum → Message → Bool) (options : SearchOptions) :
    Judged id conn (.search kind found options) := by
  have hsearched := @Examining.setBackend id view conn h conn.backend
    (view.search (conn.backend.boxes id) kind found options).1 h.upToDate
  have hstep : (conn.step (.search kind found options)) = { conn with
        mailbox := some (id, (view.search (conn.backend.boxes id) kind found options).1) }.poll
        (Conn.mayExpunge kind) := by
    simp [Conn.step, Conn.handle, Conn.handleSearch, h.checkSelected, h.mailbox_eq]
  refine .of_kept ?_ (h.readsOnly_of_other (by simp) (by simp)) ?_
  · rw [KeepsMessages, hstep, poll_messages]
  · rw [hstep]
    exact .inl ⟨_, hsearched.poll _⟩

theorem Examining.searchRefused
    (options : SearchOptions) : Judged id conn (.searchRefused options) := by
  have hreset := @Examining.setBackend id view conn h conn.backend view.resetSearchRes h.upToDate
  refine .of_kept ?_ (h.readsOnly_of_other (by simp) (by simp)) ?_
  · simp only [KeepsMessages, Conn.step, Conn.handle,
      Conn.handleSearchRefused, h.checkSelected, h.mailbox_eq]
    split_ifs <;> rfl
  · simp only [Conn.step, Conn.handle, Conn.handleSearchRefused, h.checkSelected, h.mailbox_eq]
    split_ifs
    · exact .inl ⟨_, hreset⟩
    · exact .inl ⟨view, h⟩

theorem Examining.sort (kind : NumKind) : Judged id conn (.sort kind) := by
  have hstep : conn.step (.sort kind) = conn.poll (Conn.mayExpunge kind) := by
    simp [Conn.step, Conn.handle, Conn.handleSort, h.checkSelected]
  refine .of_kept ?_ (h.readsOnly_of_other (by simp) (by simp)) ?_
  · rw [KeepsMessages, hstep, poll_messages]
  · rw [hstep]
    exact .inl ⟨view, h.poll _⟩

omit h in
theorem copy_boxes {backend next : Backend} {selected : MailboxId} {numSet : MessageSet}
    {destName : Bytes} {now : Time} {data : CopyData}
    (h : backend.copy selected view numSet destName now = .ok (next, data))
    : next.boxes selected = backend.boxes selected := by
  unfold Backend.copy at h
  cases hdest : backend.destination selected destName with
  | error err => simp [hdest] at h
  | ok dest =>
    simp only [hdest, Except.ok.injEq, Prod.mk.injEq] at h
    rw [← h.1]
    exact setBox_boxes_of_ne (destination_ne hdest).symm

theorem Examining.copy (numSet : MessageSet) (destName : Bytes) (now : Time) :
    Judged id conn (.copy numSet destName now) := by
  have hreads : ReadsOnly conn (.copy numSet destName now) :=
    h.readsOnly_of_other (by simp) (by simp)
  cases hcopy : conn.backend.copy id view numSet destName now with
  | error err =>
    have hstep : conn.step (.copy numSet destName now) = conn := by
      simp [Conn.step, Conn.handle, Conn.handleCopy, h.checkSelected, h.mailbox_eq, hcopy]
    exact h.judged_of_unchanged hstep hreads
  | ok result =>
    have hboxes := copy_boxes hcopy
    have hcopied := @Examining.setBackend id view conn h result.1 view
      (by rw [hboxes]; exact h.upToDate)
    have hstep : conn.step (.copy numSet destName now) = { conn with
          mailbox := some (id, view)
          backend := result.1 }.poll true := by
      simp [Conn.step, Conn.handle, Conn.handleCopy, h.checkSelected, h.mailbox_eq, hcopy]
    refine .of_kept ?_ hreads ?_
    · rw [KeepsMessages, hstep, poll_messages, hboxes]
    · rw [hstep]
      exact .inl ⟨view, hcopied.poll _⟩

omit h in
theorem move_keeps_iff (source dest : Mailbox) (numSet : MessageSet) (now : Time) :
    (moveMessages source dest view numSet now).source.l = source.l ↔
      view.selected source numSet = [] := by
  rw [moveMessages_eq.1, copyEach_copied, List.filter_eq_self]
  constructor
  · intro hkept
    by_contra hsome
    obtain ⟨entry, hentry⟩ := List.exists_mem_of_ne_nil _ hsome
    have hmem : entry.2 ∈ source.l := List.mem_of_getElem? (getElem?_of_selected hentry)
    have hout := hkept entry.2 hmem
    exact of_decide_eq_true hout (List.mem_map_of_mem hentry)
  · intro hnone
    simp [hnone]

theorem Examining.move (numSet : MessageSet) (destName : Bytes) (now : Time) :
    Judged id conn (.move numSet destName now) := by
  cases hdest : conn.backend.destination id destName with
  | error err =>
    have hstep : conn.step (.move numSet destName now) = conn := by
      simp [Conn.step, Conn.handle, Conn.handleMove, h.checkSelected, h.mailbox_eq, Backend.move,
        hdest]
    refine h.judged_of_unchanged hstep ?_
    simp only [ReadsOnly, h.mailbox_eq]
    exact .inl ⟨err, hdest⟩
  | ok dest =>
    have hstep : conn.step (.move numSet destName now) = { conn with
          mailbox := some (id, view)
          backend := (conn.backend.setBox dest
            (moveMessages (conn.backend.boxes id) (conn.backend.boxes dest)
              view numSet now).dest).setBox id
            (moveMessages (conn.backend.boxes id) (conn.backend.boxes dest)
              view numSet now).source }.poll true := by
      simp [Conn.step, Conn.handle, Conn.handleMove, h.checkSelected, h.mailbox_eq, Backend.move,
        hdest]
    have hreads : ReadsOnly conn (.move numSet destName now) ↔
        view.selected (conn.backend.boxes id) numSet = [] := by
      simp [ReadsOnly, h.mailbox_eq, hdest]
    refine ⟨?_, ?_⟩
    · rw [hreads, KeepsMessages, hstep, poll_messages, setBox_boxes_self, move_keeps_iff]
    · intro hnone
      have hmoved : movedMessages (conn.backend.boxes id)
          (conn.backend.boxes dest) view numSet now = [] :=
        movedMessages_eq_nil.mpr (hreads.mp hnone)
      rw [hstep]
      refine .inl ⟨view, (h.setBackend ?_).poll true⟩
      rw [setBox_boxes_self, moveMessages_eq.1, hmoved]
      exact h.upToDate

theorem Examining.close : Judged id conn .close := by
  have hstep : conn.step .close = conn.unselect := by
    simp [Conn.step, Conn.handle, Conn.handleClose, h.checkSelected, h.mailbox_eq, h.readOnly]
  refine .of_kept ?_ (h.readsOnly_of_other (by simp) (by simp)) ?_
  · rw [KeepsMessages, hstep]
    simp [Conn.unselect, h.mailbox_eq]
  · rw [hstep]
    right
    simp [Conn.unselect, h.mailbox_eq]

theorem Examining.judged (command : Command) : Judged id conn command := by
  cases command with
  | fetch kind numSet options writeFails =>
    exact h.fetch kind numSet options writeFails
  | store kind numSet flags options => exact h.store kind numSet flags options
  | search kind found options => exact h.search kind found options
  | searchRefused options => exact h.searchRefused options
  | sort kind => exact h.sort kind
  | copy numSet destName now => exact h.copy numSet destName now
  | move numSet destName now => exact h.move numSet destName now
  | expunge uids => exact h.expunge uids
  | close => exact h.close

end

theorem step_of_not_selected (hstate : conn.state ≠ .selected)
    (command : Command) : conn.step command = conn := by
  have hcheck : conn.checkSelected = .error Conn.stateError := by
    simp [Conn.checkSelected, hstate]
  have hwritable : conn.checkWritableMailbox = .error Conn.stateError := by
    simp [Conn.checkWritableMailbox, hcheck]
  cases command with
  | fetch => simp [Conn.step, Conn.handle, Conn.handleFetch, hcheck]
  | store => simp [Conn.step, Conn.handle, Conn.handleStore, hcheck]
  | search => simp [Conn.step, Conn.handle, Conn.handleSearch, hcheck]
  | searchRefused =>
    simp [Conn.step, Conn.handle, Conn.handleSearchRefused, hcheck]
  | sort => simp [Conn.step, Conn.handle, Conn.handleSort, hcheck]
  | copy => simp [Conn.step, Conn.handle, Conn.handleCopy, hcheck]
  | move => simp [Conn.step, Conn.handle, Conn.handleMove, hcheck]
  | expunge => simp [Conn.step, Conn.handle, Conn.handleExpunge, hwritable]
  | close => simp [Conn.step, Conn.handle, Conn.handleClose, hcheck]

theorem Examined.judged (h : Examined id conn) (command : Command) : Judged id conn command := by
  rcases h with ⟨view, hexamining⟩ | ⟨hstate, hmailbox⟩
  · exact hexamining.judged command
  · have hclosed : conn.state ≠ .selected := by simp [hstate]
    have hstep := step_of_not_selected hclosed command
    refine .of_kept ?_ ?_ ?_
    · rw [KeepsMessages, hstep]
    · simp [ReadsOnly, hmailbox]
    · rw [hstep]
      exact .inr ⟨hstate, hmailbox⟩

end

/--
After EXAMINE the messages stay as they are at every command of a run exactly
if every command has nothing to change in the state it is sent in.
-/
theorem examine_keeps_messages_iff [CaseMapping] (backend : Backend)
    (id : MailboxId) (commands : List Command) :
    Transition.Meets Conn.step (KeepsMessages id) (Conn.select backend id true) commands ↔
      Transition.Meets Conn.step ReadsOnly (Conn.select backend id true) commands :=
  Transition.meets_iff_of_invariant (Examined id) (fun _ command h => (h.judged command).keeps_iff)
    (fun _ command h hreads => (h.judged command).examined hreads)
    (select_examined backend id) commands

/-- Mailbox 0 holds two messages without flags; mailbox 1 is the archive. -/
def exampleBackend : Backend where
  names := fun name => if name = ascii "Archive" then some 1 else none
  boxes := fun id => if id = 0 then twoMessages else newMailbox 2

/-- `MOVE 1 Archive` and `FETCH 1 BODY[]` change a mailbox under EXAMINE. -/
theorem examined_mailbox_changes :
    ¬@KeepsMessages asciiCaseMapping 0 (Conn.select exampleBackend 0 true)
        (.move (.seqSet [⟨1, 1⟩]) (ascii "Archive") 0) ∧
      ¬@KeepsMessages asciiCaseMapping 0 (Conn.select exampleBackend 0 true)
        (.fetch .seq (.seqSet [⟨1, 1⟩])
          { bodySection := [{ peek := false }]
            changedSince := 0 } fun _ => false) := by
  unfold KeepsMessages
  decide

end GoImap.Server
