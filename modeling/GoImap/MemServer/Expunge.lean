import GoImap.MemServer.Agreement
import GoImap.MemServer.View
import Mathlib.Data.List.Forall2

/-!
# EXPUNGE among other sessions

`Expunge` marks the deleted messages in one critical section and removes them
in another.  What was marked stays what it was: messages keep their addresses
and UIDs, and a new message never gets the address of an old one.  Only their
flags may change in between.
-/

namespace GoImap.MemServer

open Tracker

structure ExpungeCall where
  caller : Nat
  marked : List Nat
  uids : Option NumSet

/-- A mailbox, the `Expunge` calls in progress, and the messages removed so
far, as they were when they were removed, with the set they were removed for. -/
structure SharedMailbox where
  mbox : Mailbox
  pending : List ExpungeCall
  removed : List (Message × Option NumSet)

inductive SharedStep where
  | append (buf : Bytes) (options : AppendOptions) (now : Time)
  | store (view : View) (numSet : MessageSet) (flags : StoreFlags) (options : StoreOptions)
  | fetch (view : View) (numSet : MessageSet) (options : FetchOptions) (writeFails : Nat → Bool)
  | mark (caller : Nat) (uids : Option NumSet)
  | remove (caller : Nat)
  | newView
  | poll (id : SessionId) (allowExpunge : Bool)
  | closeView (id : SessionId)

namespace SharedMailbox

variable [CaseMapping]

def initial (uidValidity : UInt32) : SharedMailbox where
  mbox := newMailbox uidValidity
  pending := []
  removed := []

/-- A caller that is in an `Expunge` makes no other one. -/
def perform (state : SharedMailbox) : SharedStep → SharedMailbox
  | .append buf options now =>
    { state with mbox := (state.mbox.appendBytes buf options now).1 }
  | .store view numSet flags options =>
    { state with mbox := (view.store state.mbox numSet flags options).1 }
  | .fetch view numSet options writeFails =>
    { state with mbox := (view.fetch state.mbox numSet options writeFails).1 }
  | .mark caller uids =>
    let marked := state.mbox.deletedMessages uids
    if state.pending.any (·.caller == caller) ∨ marked = [] then state
    else
      { state with
        pending :=
          { caller := caller, marked := marked, uids := uids } :: state.pending }
  | .remove caller =>
    match state.pending.find? (·.caller == caller) with
    | none => state
    | some call =>
      { mbox := (state.mbox.expungeLocked call.marked).1
        pending := state.pending.filter (·.caller != caller)
        removed := state.removed ++ (state.mbox.l.filter (·.address ∈ call.marked)).map
            fun msg => (msg, call.uids) }
  | .newView => { state with mbox := state.mbox.newView.2 }
  | .poll id allowExpunge =>
    { state with
      mbox :=
        { state.mbox with tracker := state.mbox.tracker.pollSession id allowExpunge } }
  | .closeView id =>
    { state with
      mbox :=
        { state.mbox with tracker := state.mbox.tracker.closeSession id } }

theorem mark_remove (state : SharedMailbox) (caller : Nat) (uids : Option NumSet)
    (h : state.pending.find? (·.caller == caller) = none) :
    ((state.perform (.mark caller uids)).perform (.remove caller)).mbox =
      state.mbox.expunge uids := by
  have hidle : state.pending.any (·.caller == caller) = false := by
    simpa using h
  unfold Mailbox.expunge
  by_cases hempty : state.mbox.deletedMessages uids = []
  · simp [perform, hempty, h]
  · simp [perform, hidle, hempty]

end SharedMailbox

def Removable [CaseMapping] (uids : Option NumSet) (msg : Message) : Prop :=
  msg.flags.contains (canonicalFlag flagDeleted) = true ∧ uids.all (·.contains msg.uid) = true

instance [CaseMapping] (uids : Option NumSet) (msg : Message) : Decidable (Removable uids msg) :=
  inferInstanceAs (Decidable (_ ∧ _))

def StoreFlags.keepsDeleted [CaseMapping] (flags : StoreFlags) : Bool :=
  match flags.op with
  | .set => decide (canonicalFlag flagDeleted ∈ flags.flags.map canonicalFlag)
  | .add => true
  | .del => decide (canonicalFlag flagDeleted ∉ flags.flags.map canonicalFlag)

/-- A STORE does not take `\Deleted` off the message at an index: it is no
such operation, or does not name the message, or passes over it. -/
def View.leavesDeleted [CaseMapping] (mbox : Mailbox) (view : View) (numSet : MessageSet)
    (flags : StoreFlags) (options : StoreOptions) (entry : Message × Nat) : Bool :=
  flags.keepsDeleted || !selects (sessionOf mbox.tracker view.session)
      (staticNumSet mbox view numSet) (Mailbox.seqNumAt entry.2) entry.1 ||
    (options.conditional && decide (entry.1.modSeq > options.unchangedSince))

/-- A STORE leaves `\Deleted` on the messages marked by the `Expunge` calls in
progress. -/
def SharedMailbox.KeepsMarked [CaseMapping] (state : SharedMailbox) : SharedStep → Prop
  | .store view numSet flags options =>
    ∀ call ∈ state.pending, ∀ entry ∈ state.mbox.l.zipIdx, entry.1.address ∈ call.marked →
        view.leavesDeleted state.mbox numSet flags options entry = true
  | _ => True

instance [CaseMapping] (state : SharedMailbox) (step : SharedStep) :
    Decidable (state.KeepsMarked step) := by
  cases step <;> unfold SharedMailbox.KeepsMarked <;> infer_instance

/-! ## The loop over the messages -/

/-- What holds between each message, with its index, and what the loop makes
of it; the visits keep `Inv`. -/
theorem forEachLoop_forall₂ {σ : Type} {session : σ → SessionTracker}
    {numSet : MessageSet} {visit : σ → SeqNum → Message → σ × Message}
    (Inv : σ → Prop) (R : Message × Nat → Message → Prop)
    (hskip : ∀ state msg index, Inv state →
      selects (session state) numSet (Mailbox.seqNumAt index) msg = false → R (msg, index) msg)
    (hvisit : ∀ state msg index, Inv state →
      selects (session state) numSet (Mailbox.seqNumAt index) msg = true →
        Inv (visit state (Mailbox.seqNumAt index) msg).1 ∧
          R (msg, index) (visit state (Mailbox.seqNumAt index) msg).2)
    (l : List Message) (index : Nat) (state : σ) (hstate : Inv state) :
    Inv (forEachLoop session numSet visit l index state).1 ∧ List.Forall₂ R (l.zipIdx index)
        (forEachLoop session numSet visit l index state).2 := by
  induction l generalizing index state with
  | nil => exact ⟨hstate, .nil⟩
  | cons msg rest ih =>
    rw [forEachLoop, List.zipIdx_cons]
    cases hselects : selects (session state) numSet (Mailbox.seqNumAt index) msg with
    | false =>
      obtain ⟨hnext, hrest⟩ := ih (index + 1) state hstate
      exact ⟨hnext, .cons (hskip state msg index hstate hselects) hrest⟩
    | true =>
      obtain ⟨hvisited, hmsg⟩ := hvisit state msg index hstate hselects
      obtain ⟨hnext, hrest⟩ := ih (index + 1) _ hvisited
      exact ⟨hnext, .cons hmsg hrest⟩

theorem forall₂_exists {α β : Type} {R : α → β → Prop} {l : List α} {next : List β}
    (h : List.Forall₂ R l next) {new : β} (hnew : new ∈ next) : ∃ old ∈ l, R old new := by
  induction h with
  | nil => cases hnew
  | cons hfirst _ ih =>
    rcases List.mem_cons.mp hnew with rfl | hmem
    · exact ⟨_, by simp, hfirst⟩
    · obtain ⟨old, hold, hrest⟩ := ih hmem
      exact ⟨old, List.mem_cons_of_mem _ hold, hrest⟩

/-! ## What STORE and FETCH do to a message -/

/-- The same message, still deleted if it was and `keeps`. -/
structure SameMessage [CaseMapping] (keeps : Bool) (old new : Message) : Prop where
  address : new.address = old.address
  uid : new.uid = old.uid
  deleted : keeps = true → old.flags.contains (canonicalFlag flagDeleted) = true →
      new.flags.contains (canonicalFlag flagDeleted) = true

theorem SameMessage.refl [CaseMapping] (keeps : Bool) (msg : Message) : SameMessage keeps msg msg :=
  ⟨rfl, rfl, fun _ h => h⟩

def SameMessages [CaseMapping] (keeps : Message × Nat → Bool) (l next : List Message) : Prop :=
  List.Forall₂ (fun entry new => SameMessage (keeps entry) entry.1 new) l.zipIdx next

theorem contains_insert (flags : FlagSet) (added flag : Flag) :
    (flags.insert added).contains flag = true ↔ flag = added ∨ flags.contains flag = true := by
  unfold FlagSet.insert
  split_ifs with hmem
  · constructor
    · exact .inr
    · rintro (rfl | h)
      · exact (FlagSet.contains_iff _ _).mpr hmem
      · exact h
  · simp [or_comm]

theorem contains_addFlags [CaseMapping] (flags : FlagSet) (added : List Flag) (flag : Flag) :
    (Message.addFlags flags added).contains flag = true ↔
      flag ∈ added.map canonicalFlag ∨ flags.contains flag = true := by
  unfold Message.addFlags
  induction added generalizing flags with
  | nil => simp
  | cons first rest ih =>
    rw [List.foldl_cons, ih, contains_insert]
    simp only [List.map_cons, List.mem_cons]
    tauto

theorem contains_foldl_delete [CaseMapping] (flags : FlagSet) (deleted : List Flag) {flag : Flag}
    (hother : flag ∉ deleted.map canonicalFlag) (h : flags.contains flag = true) :
    (deleted.foldl (fun flags flag => flags.delete (canonicalFlag flag))
      flags).contains flag = true := by
  induction deleted generalizing flags with
  | nil => exact h
  | cons first rest ih =>
    rw [List.map_cons, List.mem_cons, not_or] at hother
    refine ih _ hother.2 ?_
    simpa [FlagSet.delete, hother.1] using h

variable {msg : Message} {mbox : Mailbox} {tracker : MailboxTracker}

theorem storedFlags_keepsDeleted [CaseMapping] {flags : StoreFlags}
    (hkeeps : flags.keepsDeleted = true)
    (h : msg.flags.contains (canonicalFlag flagDeleted) = true) :
    (msg.storedFlags flags).contains (canonicalFlag flagDeleted) = true := by
  unfold StoreFlags.keepsDeleted at hkeeps
  unfold Message.storedFlags
  cases hop : flags.op with
  | set =>
    rw [hop] at hkeeps
    exact (contains_addFlags _ _ _).mpr (.inl (of_decide_eq_true hkeeps))
  | add => exact (contains_addFlags _ _ _).mpr (.inr h)
  | del =>
    rw [hop] at hkeeps
    exact contains_foldl_delete _ _ (of_decide_eq_true hkeeps) h

theorem store_same [CaseMapping] (msg : Message) (highestModSeq : ModSeq) (flags : StoreFlags) :
    SameMessage flags.keepsDeleted msg (msg.store highestModSeq flags).1 := by
  unfold Message.store
  simp only
  split_ifs
  · exact ⟨rfl, rfl, storedFlags_keepsDeleted⟩
  · exact ⟨rfl, rfl, storedFlags_keepsDeleted⟩

def KeepsNumbers (tracker : MailboxTracker) (id : SessionId) (next : MailboxTracker) : Prop :=
  (∀ other, UpToDate next other) ∧
    (sessionOf next id).encodeSeqNum = (sessionOf tracker id).encodeSeqNum

theorem KeepsNumbers.flagged {start next : MailboxTracker} {id : SessionId}
    (h : KeepsNumbers start id tracker) (hflagged : Flagged tracker next) :
    KeepsNumbers start id next :=
  ⟨fun other => hflagged.upToDate (h.1 other), (hflagged.encodeSeqNum (h.1 id)).trans h.2⟩

theorem storeVisit_effect [CaseMapping] {start : MailboxTracker} {id : SessionId}
    {flags : StoreFlags} {options : StoreOptions} {inUIDs : Bool} {state next : StoreState}
    {seqNum : SeqNum} {new : Message}
    (hvisit : storeVisit id flags options inUIDs state seqNum msg = (next, new))
    (hstate : KeepsNumbers start id state.tracker) :
    KeepsNumbers start id next.tracker ∧ SameMessage (flags.keepsDeleted ||
          (options.conditional && decide (msg.modSeq > options.unchangedSince)))
        msg new := by
  rcases storeVisit_cases hvisit with ⟨-, htracker, -, -, rfl⟩ | ⟨hskip, hflagged, -, -, rfl, -⟩
  · rw [htracker]
    exact ⟨hstate, .refl _ _⟩
  · have htest : (options.conditional &&
        decide (msg.modSeq > options.unchangedSince)) = false := by
      simpa using hskip
    rw [htest, Bool.or_false]
    exact ⟨hstate.flagged hflagged, store_same _ _ _⟩

theorem View.store_effect [CaseMapping] (hcurrent : ∀ id, UpToDate mbox.tracker id) (view : View)
    (numSet : MessageSet) (flags : StoreFlags) (options : StoreOptions) :
    (∀ id, UpToDate (view.store mbox numSet flags options).1.tracker id) ∧
      SameMessages (view.leavesDeleted mbox numSet flags options) mbox.l
        (view.store mbox numSet flags options).1.l := by
  have hloop := @forEachLoop_forall₂ StoreState (fun state => sessionOf state.tracker view.session)
    (staticNumSet mbox view numSet)
    (storeVisit view.session flags options (uidSpace numSet options))
    (fun state => KeepsNumbers mbox.tracker view.session state.tracker)
    (fun entry new => SameMessage (view.leavesDeleted mbox numSet flags options entry) entry.1 new)
    (fun _ _ _ _ _ => .refl _ _) ?_ mbox.l 0 (.start mbox) ⟨hcurrent, rfl⟩
  · exact ⟨hloop.1.1, hloop.2⟩
  · intro state msg index hstate hselects
    rw [selects_congr hstate.2] at hselects
    rcases hvisit : storeVisit view.session flags options
      (uidSpace numSet options) state (Mailbox.seqNumAt index) msg
      with ⟨next, new⟩
    obtain ⟨hnext, hmsg⟩ := storeVisit_effect hvisit hstate
    refine ⟨hnext, ?_⟩
    simp only [View.leavesDeleted, hselects, Bool.not_true, Bool.or_false]
    exact hmsg

theorem fetchVisit_effect [CaseMapping] {id : SessionId} {options : FetchOptions}
    {writeFails : Nat → Bool} {state next : FetchState} {seqNum : SeqNum} {new : Message}
    (hvisit : fetchVisit id options writeFails state seqNum msg = (next, new))
    (hcurrent : ∀ other, UpToDate state.tracker other) :
    (∀ other, UpToDate next.tracker other) ∧ SameMessage true msg new := by
  rcases fetchVisit_cases hvisit with ⟨-, rfl, rfl⟩ | ⟨-, hflagged, -, rfl, -⟩
  · exact ⟨hcurrent, .refl _ _⟩
  · refine ⟨fun other => hflagged.upToDate (hcurrent other), ?_⟩
    split_ifs
    · exact ⟨rfl, rfl, fun _ h => (contains_insert _ _ _).mpr (.inr h)⟩
    · exact .refl _ _

theorem View.fetch_effect [CaseMapping] (hcurrent : ∀ id, UpToDate mbox.tracker id) (view : View)
    (numSet : MessageSet) (options : FetchOptions) (writeFails : Nat → Bool) :
    (∀ id, UpToDate (view.fetch mbox numSet options writeFails).1.tracker id) ∧
      SameMessages (fun _ => true) mbox.l (view.fetch mbox numSet options writeFails).1.l :=
  forEachLoop_forall₂ (fun state : FetchState => ∀ id, UpToDate state.tracker id)
    (fun entry new => SameMessage true entry.1 new)
    (fun _ _ _ _ _ => .refl _ _)
    (fun _ _ _ hstate _ => fetchVisit_effect rfl hstate) mbox.l 0 _ hcurrent

/-! ## The invariant -/

theorem kept_upToDate : MailboxTracker.Kept fun tracker => ∀ id, UpToDate tracker id :=
  fun _ _ _ _ h _ => queueUpdate_upToDate h

theorem modifySession_upToDate {change : SessionTracker → SessionTracker}
    {other : SessionId} (id : SessionId) (hother : UpToDate tracker other)
    (hcount : ∀ session, (change session).numMessages = session.numMessages)
    (hopen : ∀ session, (change session).closed = false → session.closed = false) :
    UpToDate (tracker.modifySession id change) other := by
  unfold UpToDate sessionOf MailboxTracker.modifySession at *
  by_cases hid : other = id
  · subst hid
    cases hsession : tracker.sessions other with
    | none => simp
    | some session =>
      simp only [hsession, Function.update_self, Option.map_some, Option.getD_some] at hother ⊢
      intro hclosed
      rw [hcount]
      exact hother (hopen session hclosed)
  · simpa [Function.update_of_ne hid] using hother

theorem newSession_upToDate (h : ∀ other, UpToDate tracker other) :
    ∀ other, UpToDate tracker.newSession.2 other := by
  intro other
  have hother := h other
  unfold UpToDate sessionOf MailboxTracker.newSession at *
  by_cases hid : other = tracker.nextSession
  · simp [hid]
  · simpa [Function.update_of_ne hid] using hother

theorem pollSession_upToDate {other : SessionId} (id : SessionId) (allowExpunge : Bool)
    (h : UpToDate tracker other) : UpToDate (tracker.pollSession id allowExpunge) other := by
  refine modifySession_upToDate id h ?_ ?_
  · intro session
    exact session.dequeue_numMessages allowExpunge
  · intro session hopen
    rw [← hopen]
    exact (session.dequeue_closed allowExpunge).symm

theorem closeSession_upToDate {other : SessionId} (id : SessionId) (h : UpToDate tracker other) :
    UpToDate (tracker.closeSession id) other := by
  refine modifySession_upToDate id h (fun _ => rfl) ?_
  intro session hclosed
  cases hclosed

/-- Sessions know the count, addresses tell messages apart, and what is marked
may be removed. -/
structure SharedMailbox.Sound [CaseMapping] (state : SharedMailbox) : Prop where
  current : ∀ id, UpToDate state.mbox.tracker id
  nodup : (state.mbox.l.map Message.address).Nodup
  below : ∀ msg ∈ state.mbox.l, msg.address < state.mbox.nextAddress
  old : ∀ call ∈ state.pending, ∀ address ∈ call.marked, address < state.mbox.nextAddress
  marked : ∀ call ∈ state.pending, ∀ msg ∈ state.mbox.l,
    msg.address ∈ call.marked → Removable call.uids msg
  removed : ∀ entry ∈ state.removed, Removable entry.2 entry.1

namespace SharedMailbox.Sound

variable [CaseMapping] {state : SharedMailbox}

theorem initial (uidValidity : UInt32) : (SharedMailbox.initial uidValidity).Sound where
  current := by
    simp [SharedMailbox.initial, newMailbox, newMailboxTracker, UpToDate, sessionOf]
  nodup := .nil
  below := by simp [SharedMailbox.initial, newMailbox]
  old := by simp [SharedMailbox.initial]
  marked := by simp [SharedMailbox.initial]
  removed := by simp [SharedMailbox.initial]

variable (h : state.Sound)

include h

theorem update {next : Mailbox} {keeps : Message × Nat → Bool}
    (hcurrent : ∀ id, UpToDate next.tracker id) (hsame : SameMessages keeps state.mbox.l next.l)
    (haddress : next.nextAddress = state.mbox.nextAddress)
    (hkeeps : ∀ call ∈ state.pending, ∀ entry ∈ state.mbox.l.zipIdx,
      entry.1.address ∈ call.marked → keeps entry = true) :
    SharedMailbox.Sound { state with mbox := next } where
  current := hcurrent
  nodup := by
    have hequal : List.Forall₂ (· = ·) ((state.mbox.l.zipIdx.map Prod.fst).map Message.address)
        (next.l.map Message.address) := by
      rw [List.map_map, List.forall₂_map_left_iff, List.forall₂_map_right_iff]
      exact hsame.imp fun _ _ hmsg => hmsg.address.symm
    rw [List.forall₂_eq_eq_eq, List.zipIdx_map_fst] at hequal
    simp only
    rw [← hequal]
    exact h.nodup
  below := by
    intro msg hmsg
    obtain ⟨old, hold, hmsg⟩ := forall₂_exists hsame hmsg
    simp only
    rw [haddress, hmsg.address]
    exact h.below old.1 (List.fst_mem_of_mem_zipIdx hold)
  old := by
    simp only
    rw [haddress]
    exact h.old
  marked := by
    intro call hcall msg hmsg hmarked
    obtain ⟨old, hold, hmsg⟩ := forall₂_exists hsame hmsg
    rw [hmsg.address] at hmarked
    have hremovable := h.marked call hcall old.1 (List.fst_mem_of_mem_zipIdx hold) hmarked
    refine ⟨hmsg.deleted (hkeeps call hcall old hold hmarked) hremovable.1, ?_⟩
    rw [hmsg.uid]
    exact hremovable.2
  removed := h.removed

theorem append (buf : Bytes) (options : AppendOptions)
    (now : Time) : (state.perform (.append buf options now)).Sound := by
  obtain ⟨new, hnew, -, hl, -, haddress⟩ := appendBytes_appends state.mbox buf options now
  constructor
  · exact kept_appendBytes kept_upToDate h.current buf options now
  · simp only [SharedMailbox.perform]
    rw [hl, List.map_append, List.nodup_append]
    refine ⟨h.nodup, by simp, ?_⟩
    rintro address hmem other hother rfl
    obtain ⟨msg, hmsg, rfl⟩ := List.mem_map.mp hmem
    have hlt := h.below msg hmsg
    rw [List.map_singleton, List.mem_singleton, hnew] at hother
    omega
  · simp only [SharedMailbox.perform]
    rw [hl, haddress]
    intro msg hmsg
    rcases List.mem_append.mp hmsg with hmem | hmem
    · exact Nat.lt_succ_of_lt (h.below msg hmem)
    · rw [List.mem_singleton.mp hmem, hnew]
      exact Nat.lt_succ_self _
  · simp only [SharedMailbox.perform]
    rw [haddress]
    exact fun call hcall address hmem =>
      Nat.lt_succ_of_lt (h.old call hcall address hmem)
  · simp only [SharedMailbox.perform]
    rw [hl]
    intro call hcall msg hmsg hmarked
    rcases List.mem_append.mp hmsg with hmem | hmem
    · exact h.marked call hcall msg hmem hmarked
    · rw [List.mem_singleton.mp hmem, hnew] at hmarked
      exact absurd (h.old call hcall _ hmarked) (lt_irrefl _)
  · exact h.removed

theorem mark (caller : Nat) (uids : Option NumSet) : (state.perform (.mark caller uids)).Sound := by
  simp only [SharedMailbox.perform]
  split_ifs with hskip
  · exact h
  · refine ⟨h.current, h.nodup, h.below, ?_, ?_, h.removed⟩
    · intro call hcall address hmem
      rcases List.mem_cons.mp hcall with rfl | hold
      · obtain ⟨msg, hmsg, rfl⟩ := List.mem_map.mp hmem
        exact h.below msg (List.mem_of_mem_filter hmsg)
      · exact h.old call hold address hmem
    · intro call hcall msg hmsg hmarked
      rcases List.mem_cons.mp hcall with rfl | hold
      · -- The address belongs to a deleted message, which is this one.
        obtain ⟨found, hfound, haddress⟩ := List.mem_map.mp hmarked
        obtain ⟨hmem, htest⟩ := List.mem_filter.mp hfound
        have hequal := List.inj_on_of_nodup_map h.nodup hmem hmsg haddress
        subst hequal
        rw [Bool.and_eq_true] at htest
        exact ⟨htest.2, htest.1⟩
      · exact h.marked call hold msg hmsg hmarked

theorem remove (caller : Nat) : (state.perform (.remove caller)).Sound := by
  cases hfind : state.pending.find? (·.caller == caller) with
  | none =>
    simp only [SharedMailbox.perform, hfind]
    exact h
  | some call =>
    have haddress := (reportAll_keeps (state.mbox.highestModSeq + 1)
      { state.mbox with highestModSeq := state.mbox.highestModSeq + 1 }
      (removedFrom call.marked state.mbox.l 0)).2.2
    simp only [SharedMailbox.perform, hfind, expungeLocked_eq]
    constructor
    · exact kept_reportAll kept_upToDate _ _ h.current
    · exact h.nodup.sublist (List.filter_sublist.map _)
    · simp only [haddress]
      exact fun msg hmsg => h.below msg (List.mem_of_mem_filter hmsg)
    · simp only [haddress]
      exact fun other hother => h.old other (List.mem_of_mem_filter hother)
    · exact fun other hother msg hmsg =>
        h.marked other (List.mem_of_mem_filter hother) msg (List.mem_of_mem_filter hmsg)
    · intro entry hentry
      rcases List.mem_append.mp hentry with hmem | hmem
      · exact h.removed entry hmem
      · obtain ⟨msg, hmsg, rfl⟩ := List.mem_map.mp hmem
        obtain ⟨hin, hmarked⟩ := List.mem_filter.mp hmsg
        exact h.marked call (List.mem_of_find?_eq_some hfind) msg hin (of_decide_eq_true hmarked)

theorem perform {step : SharedStep}
    (hkeeps : state.KeepsMarked step) : (state.perform step).Sound := by
  cases step with
  | append buf options now => exact h.append buf options now
  | store view numSet flags options =>
    obtain ⟨hcurrent, hsame⟩ := View.store_effect h.current view numSet flags options
    exact h.update hcurrent hsame rfl hkeeps
  | fetch view numSet options writeFails =>
    obtain ⟨hcurrent, hsame⟩ := View.fetch_effect h.current view numSet options writeFails
    exact h.update hcurrent hsame rfl fun _ _ _ _ _ => rfl
  | mark caller uids => exact h.mark caller uids
  | remove caller => exact h.remove caller
  | newView =>
    refine ⟨?_, h.nodup, h.below, h.old, h.marked, h.removed⟩
    exact newSession_upToDate h.current
  | poll id allowExpunge =>
    exact ⟨fun other => pollSession_upToDate id allowExpunge (h.current other), h.nodup, h.below,
      h.old, h.marked, h.removed⟩
  | closeView id =>
    exact ⟨fun other => closeSession_upToDate id (h.current other), h.nodup, h.below, h.old,
      h.marked, h.removed⟩

end SharedMailbox.Sound

/--
In every run in which no STORE takes `\Deleted` off a message that an `Expunge`
in progress has marked, each message an `Expunge` removed was deleted then, and
in the set of UIDs if there was one.
-/
theorem expunge_removes_deleted [CaseMapping] (uidValidity : UInt32) (steps : List SharedStep)
    (hkeeps : Transition.Meets SharedMailbox.perform
      SharedMailbox.KeepsMarked (SharedMailbox.initial uidValidity) steps) :
    ∀ state ∈ steps.scanl SharedMailbox.perform (SharedMailbox.initial uidValidity),
      ∀ entry ∈ state.removed, Removable entry.2 entry.1 := by
  intro state hstate
  exact (Transition.invariant_of_meets SharedMailbox.Sound (fun _ _ h hguard => h.perform hguard)
    (SharedMailbox.Sound.initial uidValidity) hkeeps state hstate).removed

/-- Two deleted messages, a view that knows of them, and an `Expunge` of the
first in progress while a STORE takes `\Deleted` off the given one. -/
def undeleteDuringExpunge (uid : UID) : List SharedStep :=
  let deleted : AppendOptions := { flags := [flagDeleted] }
  [.append [] deleted 0, .append [] deleted 0, .newView, .mark 0 (some [⟨1, 1⟩]),
    .store firstView (.uidSet [⟨uid, uid⟩])
      { op := .del, silent := false, flags := [flagDeleted] } { uidStore := true }, .remove 0]

theorem undeleteDuringExpunge_keepsMarked :
    Transition.Meets (@SharedMailbox.perform asciiCaseMapping)
      (@SharedMailbox.KeepsMarked asciiCaseMapping) (.initial 1)
      (undeleteDuringExpunge 2) := by
  decide +kernel

theorem expunge_removes_deleted_other : Transition.Meets (@SharedMailbox.perform asciiCaseMapping)
        (@SharedMailbox.KeepsMarked asciiCaseMapping) (.initial 1)
        (undeleteDuringExpunge 2) ∧
      ∀ state ∈ (undeleteDuringExpunge 2).scanl
          (@SharedMailbox.perform asciiCaseMapping) (.initial 1),
        ∀ entry ∈ state.removed, @Removable asciiCaseMapping entry.2 entry.1 :=
  ⟨undeleteDuringExpunge_keepsMarked, @expunge_removes_deleted asciiCaseMapping 1 _
      undeleteDuringExpunge_keepsMarked⟩

/-- The message the STORE has just undeleted is removed. -/
theorem undeleted_message_removed : ¬∀ state ∈ (undeleteDuringExpunge 1).scanl
        (@SharedMailbox.perform asciiCaseMapping) (.initial 1),
      ∀ entry ∈ state.removed, @Removable asciiCaseMapping entry.2 entry.1 := by
  decide +kernel

end GoImap.MemServer
