import GoImap.MemServer.History

/-!
# FETCH and the client's numbers

`Fetch` selects messages in the server's list and answers with the numbers of
the client.  A message that has arrived without the client having been told of
it has no such number; a UID set or `$` selects it all the same, and the answer
then carries the number zero.
-/

namespace GoImap.MemServer

open Tracker

inductive ViewStep where
  | mailbox (op : MailboxOp)
  | store (view : View) (numSet : MessageSet) (flags : StoreFlags) (options : StoreOptions)
  | fetch (view : View) (numSet : MessageSet) (options : FetchOptions) (writeFails : Nat → Bool)

namespace ViewStep

def perform [CaseMapping] (state : MailboxState) : ViewStep → MailboxState
  | .mailbox op => state.perform op
  | .store view numSet flags options =>
    { state with mbox := (view.store state.mbox numSet flags options).1 }
  | .fetch view numSet options writeFails =>
    { state with mbox := (view.fetch state.mbox numSet options writeFails).1 }

def Safe (state : MailboxState) : ViewStep → Prop
  | .mailbox op => state.Safe op
  | _ => True

end ViewStep

/-! ## What the sessions know of their clients -/

/-- A session that is open has been open, with a client that counts as many
messages as before. -/
def SameClients (tracker next : MailboxTracker) : Prop :=
  ∀ id session, next.sessions id = some session → session.closed = false →
    ∃ earlier, tracker.sessions id = some earlier ∧ earlier.closed = false ∧
      session.encodeNumMessages = earlier.encodeNumMessages

theorem SameClients.refl (tracker : MailboxTracker) : SameClients tracker tracker :=
  fun _ session hsession hopen => ⟨session, hsession, hopen, rfl⟩

theorem SameClients.trans {first second third : MailboxTracker}
    (h : SameClients first second) (h' : SameClients second third) :
    SameClients first third := by
  intro id session hsession hopen
  obtain ⟨middle, hmiddle, hopen', hcount⟩ := h' id session hsession hopen
  obtain ⟨earlier, hearlier, hopen'', hcount'⟩ := h id middle hmiddle hopen'
  exact ⟨earlier, hearlier, hopen'', hcount.trans hcount'⟩

variable {session : SessionTracker} {mbox : Mailbox} {final : List UID}
  {id : SessionId} {seqNum : SeqNum} {clients : SessionId → ClientList}
  {msg new : Message} {options : FetchOptions} {writeFails : Nat → Bool}

theorem encodeNumMessages_of_chain {count : UInt32} (hopen : session.closed = false)
    (hchain : Chain session.queue count session.numMessages) :
    session.encodeNumMessages = count := by
  simp [SessionTracker.encodeNumMessages, hopen, (SessionTracker.encodeCountWalk_eq hchain).2]

theorem queueUpdate_sameClients {tracker next : MailboxTracker} {update : TrackerUpdate}
    {source : Option SessionId} (hkind : update.SingleKind)
    (hsource : source ≠ none → update.expunge = 0 ∧ update.numMessages = 0)
    (h : tracker.queueUpdate update source = .ok next) (hinv : tracker.Consistent)
    : SameClients tracker next := by
  intro id session hsession hopen
  obtain ⟨earlier, hearlier, hclosed, hcount, hafter⟩ :=
    MailboxTracker.queueUpdate_chain hkind hsource h hsession hopen
  have hfollows := hinv id earlier hearlier hclosed
  have hchain := hfollows.chain_from_client hclosed
  rw [hfollows.count_eq] at hchain
  exact ⟨earlier, hearlier, hclosed, encodeNumMessages_of_chain hopen (hcount ▸ hafter _ hchain)⟩

theorem kept_sameClients (start : MailboxTracker) :
    MailboxTracker.Kept fun tracker => tracker.Consistent ∧ SameClients start tracker :=
  fun _ _ _ hkind h hinv => ⟨MailboxTracker.kept_consistent hkind h hinv.1,
    hinv.2.trans (queueUpdate_sameClients hkind (fun hnone => absurd rfl hnone) h hinv.1)⟩

/-! ## The invariant -/

/-- The queues lead the clients to the list of UIDs, and the sessions count
what their clients hold. -/
structure Informs (tracker : MailboxTracker)
    (clients : SessionId → ClientList) (final : List UID) : Prop where
  count : tracker.numMessages.toNat = final.length
  consistent : tracker.Consistent
  leads : ∀ id session, tracker.sessions id = some session →
    session.closed = false → Leads session.queue (clients id) final
  held : ∀ id session, tracker.sessions id = some session → session.closed = false →
      session.encodeNumMessages.toNat = (clients id).held.length

theorem Leads.concat_other {updates : List TrackerUpdate} {client : ClientList}
    (h : Leads updates client final) {update : TrackerUpdate} (hexpunge : update.expunge = 0)
    (hcount : update.numMessages = 0) :
    Leads (updates ++ [update]) client final := by
  induction h with
  | done => exact .other hexpunge hcount .done
  | expunge hexpunge' hle _ ih => exact .expunge hexpunge' hle ih
  | numMessages hexpunge' hcount' hlength _ ih =>
    exact .numMessages hexpunge' hcount' hlength ih
  | other hexpunge' hcount' _ ih => exact .other hexpunge' hcount' ih

theorem Leads.length_applyAll {updates rest : List TrackerUpdate} {client : ClientList}
    (h : Leads (updates ++ rest) client final) {count middle : UInt32}
    (hchain : Chain updates count middle) (hcount : count.toNat = client.held.length) :
    middle.toNat = (client.applyAll updates).held.length := by
  induction updates generalizing client count with
  | nil =>
    cases hchain
    exact hcount
  | cons update updates ih =>
    obtain ⟨hextends, hchain⟩ := hchain
    rw [ClientList.applyAll_cons]
    cases h with
    | @expunge _ _ held _ _ hexpunge hle hrest =>
      rw [ClientList.apply_expunge _ hexpunge]
      refine ih hrest hchain ?_
      have hpos := Word.ne_zero_iff.mp hexpunge
      have hlt : update.expunge.toNat - 1 < held.length := by omega
      simp only at hcount
      have hne : count ≠ 0 := Word.ne_zero_iff.mpr (by omega)
      rw [TrackerUpdate.countAfter, if_pos hexpunge, Word.toNat_pred hne,
        List.length_eraseIdx, if_pos hlt, hcount]
    | numMessages hexpunge hexists hlength hrest =>
      rw [ClientList.apply_numMessages hexpunge hexists hlength]
      refine ih hrest hchain ?_
      simp [TrackerUpdate.countAfter, hexpunge, hexists, hlength]
    | other hexpunge hexists hrest =>
      rw [ClientList.apply_other _ hexpunge hexists]
      refine ih hrest hchain ?_
      simpa [TrackerUpdate.countAfter, hexpunge, hexists] using hcount

namespace Informs

variable {tracker next : MailboxTracker} {clients : SessionId → ClientList}

theorem follows (h : Informs tracker clients final) (hsession : tracker.sessions id = some session)
    (hopen : session.closed = false) : session.Follows tracker.numMessages :=
  h.consistent id session hsession hopen

theorem upToDate (h : Informs tracker clients final) (id : SessionId) : UpToDate tracker id := by
  unfold UpToDate sessionOf
  cases hsession : tracker.sessions id with
  | none => simp
  | some session => exact fun hopen => (h.follows hsession hopen).count_eq

theorem flagged (h : Informs tracker clients final) (hflagged : Flagged tracker next) :
    Informs next clients final := by
  cases hflagged with
  | same => exact h
  | queued hnext =>
    have hsource : ∀ {source : Option SessionId}, source ≠ none →
        (0 : UInt32) = 0 ∧ (0 : UInt32) = 0 := fun _ => ⟨rfl, rfl⟩
    refine ⟨?_, MailboxTracker.queueUpdate_consistent (.inl rfl) hsource hnext h.consistent, ?_, ?_⟩
    · rw [(Flagged.queued hnext).numMessages, h.count]
    · intro id session hsession hopen
      obtain ⟨-, -, -, hsessions⟩ := MailboxTracker.queueUpdate_ok hnext
      obtain ⟨earlier, hearlier, hclosed, rfl⟩ :=
        MailboxTracker.open_before (hsessions id) hsession hopen
      have hleads := h.leads id earlier hearlier hclosed
      unfold SessionTracker.queueUpdate
      split_ifs
      · exact hleads
      · exact hleads.concat_other rfl rfl
    · intro id session hsession hopen
      obtain ⟨earlier, hearlier, hopen', hcount⟩ :=
        queueUpdate_sameClients (.inl rfl) hsource hnext h.consistent id session hsession hopen
      rw [hcount]
      exact h.held id earlier hearlier hopen'

end Informs

theorem storeVisit_informs [CaseMapping] {flags : StoreFlags}
    {options : StoreOptions} {inUIDs : Bool} {state next : StoreState}
    (hvisit : storeVisit id flags options inUIDs state seqNum msg = (next, new))
    (hstate : Informs state.tracker clients final ∧ state.dropped = []) :
    Informs next.tracker clients final ∧ next.dropped = [] := by
  rcases storeVisit_cases hvisit with ⟨-, htracker, hdropped, -⟩ | ⟨-, hflagged, hdropped, -⟩
  · rwa [htracker, hdropped]
  · exact ⟨hstate.1.flagged hflagged, hdropped.trans hstate.2⟩

theorem fetchVisit_informs [CaseMapping] {state next : FetchState}
    (hvisit : fetchVisit id options writeFails state seqNum msg = (next, new))
    (hstate : Informs state.tracker clients final ∧ state.dropped = []) :
    Informs next.tracker clients final ∧ next.dropped = [] := by
  rcases fetchVisit_cases hvisit with ⟨-, rfl, -⟩ | ⟨-, hflagged, hdropped, -⟩
  · exact hstate
  · exact ⟨hstate.1.flagged hflagged, hdropped.trans hstate.2⟩

theorem View.store_informs [CaseMapping] (view : View) (numSet : MessageSet) (flags : StoreFlags)
    (options : StoreOptions) (h : Informs mbox.tracker clients final ∧ mbox.dropped = []) :
    Informs (view.store mbox numSet flags options).1.tracker clients final ∧
      (view.store mbox numSet flags options).1.dropped = [] :=
  (@forEachLoop_forall₂ StoreState (fun state => sessionOf state.tracker view.session)
    (staticNumSet mbox view numSet)
    (storeVisit view.session flags options (uidSpace numSet options))
    (fun state => Informs state.tracker clients final ∧ state.dropped = [])
    (fun _ _ => True) (fun _ _ _ _ _ => trivial)
    (fun _ _ _ hstate _ => ⟨storeVisit_informs rfl hstate, trivial⟩) mbox.l 0
    (.start mbox) h).1

theorem View.fetch_informs [CaseMapping] (view : View) (numSet : MessageSet)
    (options : FetchOptions) (writeFails : Nat → Bool)
    (h : Informs mbox.tracker clients final ∧ mbox.dropped = []) :
    Informs (view.fetch mbox numSet options writeFails).1.tracker clients final ∧
      (view.fetch mbox numSet options writeFails).1.dropped = [] :=
  (@forEachLoop_forall₂ FetchState (fun state => sessionOf state.tracker view.session)
    (staticNumSet mbox view numSet)
    (fetchVisit view.session options writeFails)
    (fun state => Informs state.tracker clients final ∧ state.dropped = [])
    (fun _ _ => True) (fun _ _ _ _ _ => trivial)
    (fun _ _ _ hstate _ => ⟨fetchVisit_informs rfl hstate, trivial⟩) mbox.l 0
    (.start mbox) h).1

theorem uids_of_same [CaseMapping] {keeps : Message × Nat → Bool}
    {l next : List Message} (h : SameMessages keeps l next) :
    uids next = uids l := by
  have hequal : List.Forall₂ (· = ·)
      ((l.zipIdx.map Prod.fst).map Message.uid) (next.map Message.uid) := by
    rw [List.map_map, List.forall₂_map_left_iff, List.forall₂_map_right_iff]
    exact h.imp fun _ _ hmsg => hmsg.uid.symm
  rw [List.forall₂_eq_eq_eq, List.zipIdx_map_fst] at hequal
  exact hequal.symm

namespace MailboxState

def Informed (state : MailboxState) : Prop :=
  Informs state.mbox.tracker state.clients (uids state.mbox.l) ∧ state.mbox.dropped = []

variable {state : MailboxState}

theorem Informed.synced (h : state.Informed) : state.Synced where
  count := by
    rw [h.1.count, uids, List.length_map]
  accepted := h.2
  views := h.1.leads

theorem initial_informed (uidValidity : UInt32) : (initial uidValidity).Informed := by
  refine ⟨⟨rfl, newMailboxTracker_consistent 0, ?_, ?_⟩, rfl⟩
  · intro id session hsession
    simp [initial, newMailbox, newMailboxTracker] at hsession
  · intro id session hsession
    simp [initial, newMailbox, newMailboxTracker] at hsession

theorem Synced.informed {next : MailboxState} (h : next.Synced)
    (hconsistent : next.mbox.tracker.Consistent)
    (hheld : ∀ id session, next.mbox.tracker.sessions id = some session → session.closed = false →
        session.encodeNumMessages.toNat = (next.clients id).held.length) :
    next.Informed := by
  refine ⟨⟨?_, hconsistent, h.views, hheld⟩, h.accepted⟩
  rw [h.count, uids, List.length_map]

variable (h : state.Informed)

include h

theorem Informed.held_of_same {next : MailboxState}
    (hsame : SameClients state.mbox.tracker next.mbox.tracker)
    (hclients : ∀ id, (next.clients id).held = (state.clients id).held) :
    ∀ id session, next.mbox.tracker.sessions id = some session → session.closed = false →
        session.encodeNumMessages.toNat = (next.clients id).held.length := by
  intro id session hsession hopen
  obtain ⟨earlier, hearlier, hopen', hcount⟩ := hsame id session hsession hopen
  rw [hcount, hclients]
  exact h.1.held id earlier hearlier hopen'

theorem Informed.dequeue_held (hsession : state.mbox.tracker.sessions id = some session)
    {allowExpunge : Bool} (hopen : (session.dequeue allowExpunge).2.closed = false) :
    (session.dequeue allowExpunge).2.encodeNumMessages.toNat = ((state.clients id).applyAll
        (session.dequeue allowExpunge).1).held.length := by
  have hsplit := session.dequeue_append allowExpunge
  have hbefore : session.closed = false := (session.dequeue_closed allowExpunge).symm.trans hopen
  have hchain := (h.1.follows hsession hbefore).chain_from_client hbefore
  have hleads := h.1.leads id session hsession hbefore
  rw [← hsplit] at hchain hleads
  obtain ⟨middle, hfirst, hrest⟩ := chain_append.mp hchain
  rw [← session.dequeue_numMessages allowExpunge] at hrest
  rw [encodeNumMessages_of_chain hopen hrest]
  exact hleads.length_applyAll hfirst (h.1.held id session hsession hbefore)

theorem Informed.poll [CaseMapping] (id : SessionId) (allowExpunge : Bool) :
    (state.perform (.poll id allowExpunge)).Informed := by
  refine (h.synced.poll id allowExpunge).informed ?_ ?_
  · rw [perform]
    cases hpolled : state.mbox.tracker.sessions id with
    | none => exact h.1.consistent
    | some polled =>
      exact MailboxTracker.pollSession_consistent id allowExpunge h.1.consistent
  · intro other session hsession hopen
    rw [perform] at hsession ⊢
    cases hpolled : state.mbox.tracker.sessions id with
    | none =>
      simp only [hpolled] at hsession ⊢
      exact h.1.held other session hsession hopen
    | some polled =>
      simp only [hpolled, MailboxTracker.pollSession,
        MailboxTracker.modifySession, Function.update_apply] at hsession ⊢
      split_ifs at hsession ⊢ with hsame
      · simp only [Option.map_some, Option.some.injEq] at hsession
        subst hsession
        exact h.dequeue_held hpolled hopen
      · exact h.1.held other session hsession hopen

theorem Informed.perform [CaseMapping] {op : MailboxOp}
    (hsafe : state.Safe op) : (state.perform op).Informed := by
  have hsynced := h.synced.perform hsafe
  have hkept := kept_sameClients state.mbox.tracker
  have hstart : state.mbox.tracker.Consistent ∧
      SameClients state.mbox.tracker state.mbox.tracker := ⟨h.1.consistent, .refl _⟩
  cases op with
  | append buf options now =>
    obtain ⟨hconsistent, hsame⟩ := kept_appendBytes hkept hstart buf options now
    exact hsynced.informed hconsistent (h.held_of_same hsame fun _ => rfl)
  | copy msg now =>
    obtain ⟨hconsistent, hsame⟩ := kept_appendBytes hkept hstart msg.buf
        { time := some msg.t, flags := msg.flagList } now
    exact hsynced.informed hconsistent (h.held_of_same hsame fun _ => rfl)
  | expunge marked =>
    rw [MailboxState.perform] at hsynced ⊢
    split_ifs at hsynced ⊢
    · exact h
    · obtain ⟨hconsistent, hsame⟩ := kept_expungeLocked hkept marked hstart
      exact hsynced.informed hconsistent (h.held_of_same hsame fun _ => rfl)
  | move moved =>
    obtain ⟨hconsistent, hsame⟩ := kept_expungeLocked hkept moved hstart
    exact hsynced.informed hconsistent (h.held_of_same hsame fun _ => rfl)
  | newView =>
    refine hsynced.informed (MailboxTracker.newSession_consistent h.1.consistent) ?_
    intro id session hsession hopen
    simp only [MailboxState.perform, Mailbox.newView,
      MailboxTracker.newSession, Function.update_apply] at hsession ⊢
    split_ifs at hsession ⊢ with hsame
    · cases hsession
      exact h.1.count
    · exact h.1.held id session hsession hopen
  | poll id allowExpunge => exact h.poll id allowExpunge
  | closeView id =>
    refine hsynced.informed (MailboxTracker.closeSession_consistent id h.1.consistent)
      (h.held_of_same ?_ fun _ => rfl)
    intro other session hsession hopen
    simp only [MailboxState.perform, MailboxTracker.closeSession,
      MailboxTracker.modifySession, Function.update_apply] at hsession
    split_ifs at hsession with hsame
    · obtain ⟨earlier, -, rfl⟩ := Option.map_eq_some_iff.mp hsession
      cases hopen
    · exact ⟨session, hsession, hopen, rfl⟩

theorem Informed.viewStep [CaseMapping] {step : ViewStep}
    (hsafe : step.Safe state) : (step.perform state).Informed := by
  have hcurrent := h.1.upToDate
  cases step with
  | mailbox op => exact h.perform hsafe
  | store view numSet flags options =>
    have huids := uids_of_same (view.store_effect hcurrent numSet flags options).2
    have hinforms := view.store_informs numSet flags options h
    rw [← huids] at hinforms
    exact hinforms
  | fetch view numSet options writeFails =>
    have huids := uids_of_same (view.fetch_effect hcurrent numSet options writeFails).2
    have hinforms := view.fetch_informs numSet options writeFails h
    rw [← huids] at hinforms
    exact hinforms

end MailboxState

/-! ## The answers of FETCH -/

def upToFailure {α : Type} (writeFails : Nat → Bool) : List α → Nat → List α
  | [], _ => []
  | first :: rest, written =>
    first :: if writeFails written then []
      else upToFailure writeFails rest (written + 1)

def FetchOptions.passesOver (options : FetchOptions) (msg : Message) : Bool :=
  decide (options.changedSince > 0 ∧ msg.modSeq ≤ options.changedSince)

def View.answered (mbox : Mailbox) (view : View) (numSet : MessageSet)
    (options : FetchOptions) (writeFails : Nat → Bool) :
    List (Nat × Message) :=
  upToFailure writeFails ((view.selected mbox numSet).filter fun entry =>
      !options.passesOver entry.2) 0

def Knows (session : SessionTracker) (index : Nat) : Prop :=
  ∃ seqNum, 1 ≤ seqNum ∧ seqNum ≤ session.encodeNumMessages ∧
    session.decodeSeqNum seqNum = Mailbox.seqNumAt index

theorem fetchVisit_responses [CaseMapping] {start : MailboxTracker} {state next : FetchState}
    (h : fetchVisit id options writeFails state seqNum msg = (next, new))
    (hstate : KeepsNumbers start id state.tracker) :
    KeepsNumbers start id next.tracker ∧
      if state.failed || options.passesOver msg then
        next.failed = state.failed ∧ next.responses = state.responses
      else
        next.failed = writeFails state.responses.length ∧ next.responses = state.responses ++
            [((sessionOf start id).encodeSeqNum seqNum, msg.uid)] := by
  have hpasses : (state.failed || options.passesOver msg) = true ↔ (state.failed = true ∨
      options.changedSince > 0 ∧ msg.modSeq ≤ options.changedSince) := by
    simp [FetchOptions.passesOver]
  rcases fetchVisit_cases h with
    ⟨hskips, rfl, rfl⟩ | ⟨⟨hfailed, hpassed⟩, hflagged, -, -, hfails, hresponses⟩
  · rw [if_pos (hpasses.mpr hskips)]
    exact ⟨hstate, rfl, rfl⟩
  · have hnext := hstate.flagged hflagged
    rw [if_neg (hpasses.not.mpr (by simp [hfailed, hpassed])), hresponses, hnext.2]
    exact ⟨hnext, hfails, rfl⟩

theorem fetchLoop_responses [CaseMapping] {start : MailboxTracker} (numSet : MessageSet)
    (options : FetchOptions) (writeFails : Nat → Bool) (l : List Message) (index : Nat)
    (state : FetchState) (hstate : KeepsNumbers start id state.tracker) :
    (forEachLoop (fun state => sessionOf state.tracker id) numSet
        (fetchVisit id options writeFails) l index state).1.responses =
      state.responses ++ (if state.failed then []
          else upToFailure writeFails ((selectedFrom (sessionOf start id) numSet l index).filter
              fun entry => !options.passesOver entry.2)
            state.responses.length).map fun entry =>
          ((sessionOf start id).encodeSeqNum (Mailbox.seqNumAt entry.1), entry.2.uid) := by
  induction l generalizing index state with
  | nil => simp [forEachLoop, selectedFrom, upToFailure]
  | cons msg rest ih =>
    rw [forEachLoop, selectedFrom]
    simp only
    rw [selects_congr hstate.2]
    by_cases hselects : selects (sessionOf start id) numSet (Mailbox.seqNumAt index) msg = true
    · rcases hvisit : fetchVisit id options writeFails state
        (Mailbox.seqNumAt index) msg with ⟨next, new⟩
      obtain ⟨hnext, hwritten⟩ := fetchVisit_responses hvisit hstate
      simp only [if_pos hselects]
      rw [ih (index + 1) next hnext]
      cases hfailed : state.failed with
      | true =>
        simp only [hfailed, Bool.true_or, if_true] at hwritten
        simp [hwritten]
      | false =>
        cases hpasses : options.passesOver msg with
        | true =>
          simp only [hfailed, hpasses, Bool.false_or, if_true] at hwritten
          simp [hwritten, hpasses]
        | false =>
          simp only [hfailed, hpasses, Bool.or_self, Bool.false_eq_true, if_false] at hwritten
          rw [hwritten.1, hwritten.2]
          cases hfails : writeFails state.responses.length with
          | true | false => simp [hpasses, upToFailure, hfails]
    · simp only [if_neg hselects]
      exact ih (index + 1) state hstate

theorem fetch_responses [CaseMapping] (hcurrent : ∀ id, UpToDate mbox.tracker id) (view : View)
    (numSet : MessageSet) (options : FetchOptions) (writeFails : Nat → Bool) :
    (view.fetch mbox numSet options writeFails).2.responses =
      (view.answered mbox numSet options writeFails).map fun entry =>
        ((sessionOf mbox.tracker view.session).encodeSeqNum
          (Mailbox.seqNumAt entry.1), entry.2.uid) :=
  fetchLoop_responses (staticNumSet mbox view numSet) options writeFails mbox.l 0
    (.start mbox) ⟨hcurrent, rfl⟩

theorem mem_upToFailure {α : Type} {l : List α} {written : Nat} {entry : α}
    (h : entry ∈ upToFailure writeFails l written) : entry ∈ l := by
  induction l generalizing written with
  | nil => cases h
  | cons first rest ih =>
    rw [upToFailure] at h
    rcases List.mem_cons.mp h with rfl | h
    · simp
    · split_ifs at h
      · cases h
      · exact List.mem_cons_of_mem _ (ih h)

theorem mem_answered {view : View} {numSet : MessageSet} {entry : Nat × Message}
    (h : entry ∈ view.answered mbox numSet options writeFails) :
    entry ∈ view.selected mbox numSet :=
  List.mem_of_mem_filter (mem_upToFailure h)

/-! ## The numbers of the answers -/

/-- The number is one of the client's, for the message with that UID. -/
structure NamesKnown (session : SessionTracker) (held : List UID)
    (response : SeqNum × UID) : Prop where
  pos : 1 ≤ response.1
  le : response.1 ≤ session.encodeNumMessages
  uid : held[response.1.toNat - 1]? = some response.2

theorem namesKnown_iff {state : MailboxState} (h : state.Informed)
    (hsession : state.mbox.tracker.sessions id = some session) (hopen : session.closed = false)
    {index : Nat} (hmsg : state.mbox.l[index]? = some msg) :
    NamesKnown session (state.clients id).held
        (session.encodeSeqNum (Mailbox.seqNumAt index), msg.uid) ↔
      Knows session index := by
  have hfollows := h.1.follows hsession hopen
  constructor
  · rintro ⟨hpos, hle, -⟩
    have hne : session.encodeSeqNum (Mailbox.seqNumAt index) ≠ 0 :=
      Word.ne_zero_iff.mpr (UInt32.le_iff_toNat_le.mp hpos)
    exact ⟨_, hpos, hle, (SessionTracker.decode_encode hfollows hopen hne).2⟩
  · rintro ⟨seqNum, hpos, hle, hdecode⟩
    have hindex := (List.getElem?_eq_some_iff.mp hmsg).1
    have hcount := h.synced.count
    have hlt := state.mbox.tracker.numMessages.toNat_lt
    have hplace : (Mailbox.seqNumAt index).toNat = index + 1 := Word.toNat_ofNat_succ (by omega)
    have hseq : seqNum ≠ 0 := Word.ne_zero_iff.mpr (UInt32.le_iff_toNat_le.mp hpos)
    have hne : session.decodeSeqNum seqNum ≠ 0 := by
      rw [hdecode]
      exact Word.ne_zero_iff.mpr (by omega)
    have hencode := SessionTracker.encode_decode hfollows hopen hseq hle hne
    rw [hdecode] at hencode
    have hheld : seqNum.toNat ≤ (state.clients id).held.length := by
      rw [← h.1.held id session hsession hopen]
      exact UInt32.le_iff_toNat_le.mp hle
    have huid := h.synced.getElem?_decodeSeqNum hsession hopen hheld hne
    rw [hdecode, hplace, Nat.add_sub_cancel, uids, List.getElem?_map, hmsg] at huid
    rw [hencode]
    exact ⟨hpos, hle, huid.symm⟩

/--
In every state a safe run reaches, the answers of a FETCH carry numbers of the
client for the messages with their UIDs exactly if the client has a number for
each message the FETCH answers for.
-/
theorem fetch_names_known_iff [CaseMapping] (uidValidity : UInt32) (steps : List ViewStep)
    (hsafe : Transition.Meets ViewStep.perform
      (fun state step => step.Safe state) (MailboxState.initial uidValidity)
      steps) (view : View) (session : SessionTracker)
    (hsession : (steps.foldl ViewStep.perform
      (MailboxState.initial uidValidity)).mbox.tracker.sessions view.session = some session)
    (hopen : session.closed = false) (numSet : MessageSet) (options : FetchOptions)
    (writeFails : Nat → Bool) :
    let state := steps.foldl ViewStep.perform (MailboxState.initial uidValidity)
    (∀ response ∈ (view.fetch state.mbox numSet options writeFails).2.responses,
      NamesKnown session (state.clients view.session).held response) ↔
      ∀ entry ∈ view.answered state.mbox numSet options writeFails, Knows session entry.1 := by
  intro state
  have hinformed : state.Informed := Transition.foldl_of_meets
    MailboxState.Informed (fun _ _ h hguard => h.viewStep hguard)
    (MailboxState.initial_informed uidValidity) hsafe
  have hsessionOf : sessionOf state.mbox.tracker view.session = session := by
    rw [sessionOf, hsession]
    rfl
  rw [fetch_responses hinformed.1.upToDate, hsessionOf, List.forall_mem_map]
  refine forall₂_congr fun entry hentry => ?_
  exact namesKnown_iff hinformed hsession hopen (getElem?_of_selected (mem_answered hentry))

def unannounced : List ViewStep := [.mailbox .newView, .mailbox emptyAppend]

def announced : List ViewStep := unannounced ++ [.mailbox (.poll 0 true)]

def fetchUID (uid : UID) : MessageSet := .uidSet [⟨uid, uid⟩]

theorem announced_safe : Transition.Meets (@ViewStep.perform asciiCaseMapping)
      (fun state step => step.Safe state) (MailboxState.initial 7)
      announced :=
  ⟨trivial, by change _ + 1 < 2 ^ 32; decide, trivial, trivial⟩

theorem fetch_names_known_announced :
    let state := announced.foldl (@ViewStep.perform asciiCaseMapping) (MailboxState.initial 7)
    ∃ session, state.mbox.tracker.sessions 0 = some session ∧
      (@View.fetch asciiCaseMapping state.mbox firstView (fetchUID 1)
        { bodySection := [], changedSince := 0 }
        fun _ => false).2.responses = [(1, 1)] ∧
      ((∀ response ∈ (@View.fetch asciiCaseMapping state.mbox
          firstView (fetchUID 1)
          { bodySection := [], changedSince := 0 }
          fun _ => false).2.responses,
        NamesKnown session (state.clients 0).held response) ↔
        ∀ entry ∈ View.answered state.mbox firstView
          (fetchUID 1) { bodySection := [], changedSince := 0 }
          (fun _ => false), Knows session entry.1) :=
  ⟨_, rfl, by decide, @fetch_names_known_iff asciiCaseMapping 7 announced
    announced_safe firstView _ rfl rfl (fetchUID 1)
    { bodySection := [], changedSince := 0 } fun _ => false⟩

/-- The answer for the message that was not announced has the number zero. -/
theorem unannounced_fetched :
    let state := unannounced.foldl (@ViewStep.perform asciiCaseMapping) (MailboxState.initial 7)
    ∃ session, state.mbox.tracker.sessions 0 = some session ∧ session.closed = false ∧
      (@View.fetch asciiCaseMapping state.mbox firstView (fetchUID 1)
        { bodySection := [], changedSince := 0 }
        fun _ => false).2.responses = [(0, 1)] ∧
      ¬NamesKnown session (state.clients 0).held (0, 1) := by
  refine ⟨_, rfl, rfl, by decide, ?_⟩
  intro h
  exact absurd h.pos (by decide)

end GoImap.MemServer
