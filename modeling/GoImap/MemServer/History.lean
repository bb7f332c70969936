import GoImap.MemServer.Expunge
import GoImap.MemServer.Session

/-!
# Histories of a mailbox

The critical sections of the sessions, the copies that arrive from other
mailboxes and the moves out of this one make up the history of a mailbox.  A
step keeps the messages, lets one arrive, stores flags or removes messages; the
modification sequence is raised once for each message that arrives or is
changed, and once for each removal.

A FETCH that sets `\Seen` is the exception: it changes flags and raises nothing.
-/

namespace GoImap.MemServer

open Tracker

inductive HistoryStep where
  | shared (step : SharedStep)
  | copy (msg : Message) (now : Time)
  | move (view : View) (numSet : MessageSet) (dest : Mailbox) (now : Time)

namespace HistoryStep

def perform [CaseMapping] (state : SharedMailbox) : HistoryStep → SharedMailbox
  | .shared step => state.perform step
  | .copy msg now => { state with mbox := (state.mbox.copyMsg msg now).1 }
  | .move view numSet dest now =>
    { state with mbox := (moveMessages state.mbox dest view numSet now).source }

/-- A FETCH leaves the flags of the message at an index as they are: it peeks,
or does not name the message, or passes over it, or the message is seen. -/
def leavesSeen [CaseMapping] (mbox : Mailbox) (view : View)
    (numSet : MessageSet) (options : FetchOptions) (entry : Message × Nat) :
    Bool :=
  !options.markSeen || !selects (sessionOf mbox.tracker view.session)
      (staticNumSet mbox view numSet) (Mailbox.seqNumAt entry.2) entry.1 ||
    (decide (options.changedSince > 0) && decide (entry.1.modSeq ≤ options.changedSince)) ||
    entry.1.flags.contains (canonicalFlag flagSeen)

def Quiet [CaseMapping] (mbox : Mailbox) : HistoryStep → Prop
  | .shared (.fetch view numSet options _) =>
    ∀ entry ∈ mbox.l.zipIdx, leavesSeen mbox view numSet options entry = true
  | _ => True

instance [CaseMapping] (mbox : Mailbox) (step : HistoryStep) : Decidable (step.Quiet mbox) := by
  unfold Quiet
  split <;> infer_instance

end HistoryStep

/-! ## What a step makes of a mailbox -/

/-- What a STORE makes of a message: it keeps its flags and its modification
sequence, or gets one of those the STORE has raised. -/
structure Stored (base : ModSeq) (raised : Nat) (old new : Message) : Prop where
  address : new.address = old.address
  uid : new.uid = old.uid
  change : new.flags.contains = old.flags.contains ∧ new.modSeq = old.modSeq ∨
    ∃ order, 0 < order ∧ order ≤ raised ∧ new.modSeq = base + UInt64.ofNat order

/-- The mailbox a step leads to, and how often it raises the modification
sequence.  The tracker's count may exceed the number of messages, since a
removal it refuses is not counted. -/
inductive Effect (mbox : Mailbox) : Nat → Mailbox → Prop
  | keeps (tracker : MailboxTracker) (dropped : List String)
      (count : tracker.numMessages = mbox.tracker.numMessages) :
      Effect mbox 0 { mbox with tracker := tracker, dropped := dropped }
  | arrives (tracker : MailboxTracker) (dropped : List String) (msg : Message)
      (address : msg.address = mbox.nextAddress)
      (uid : msg.uid = mbox.uidNext)
      (modSeq : msg.modSeq = mbox.highestModSeq + 1)
      (count : mbox.l.length + 1 < 2 ^ 32 → mbox.l.length + 1 ≤ tracker.numMessages.toNat) :
      Effect mbox 1 { mbox with
          tracker := tracker
          dropped := dropped
          l := mbox.l ++ [msg]
          uidNext := mbox.uidNext + 1
          highestModSeq := mbox.highestModSeq + 1
          nextAddress := mbox.nextAddress + 1 }
  | stores (tracker : MailboxTracker) (dropped : List String) (raised : Nat) (l : List Message)
      (stored : List.Forall₂ (Stored mbox.highestModSeq raised) mbox.l l)
      (most : raised ≤ mbox.l.length)
      (count : tracker.numMessages = mbox.tracker.numMessages) :
      Effect mbox raised { mbox with
          tracker := tracker
          dropped := dropped
          l := l
          highestModSeq := mbox.highestModSeq + UInt64.ofNat raised }
  | removes (tracker : MailboxTracker) (dropped : List String) (removed : List Nat)
      (count : mbox.tracker.numMessages.toNat ≤ tracker.numMessages.toNat +
          (mbox.l.filter (·.address ∈ removed)).length) :
      Effect mbox 1 { mbox with
          tracker := tracker
          dropped := dropped
          l := mbox.l.filter (·.address ∉ removed)
          highestModSeq := mbox.highestModSeq + 1
          expunged := mbox.expunged ++ (mbox.l.filter (·.address ∈ removed)).map fun msg =>
              { uid := msg.uid, modSeq := mbox.highestModSeq + 1 } }

namespace Effect

variable {mbox next : Mailbox} {raised : Nat}

theorem raised_le (h : Effect mbox raised next) : raised ≤ mbox.l.length + 1 := by
  cases h with
  | keeps | arrives | stores tracker dropped raised l stored most
  | removes => omega

theorem highestModSeq_eq (h : Effect mbox raised next) :
    next.highestModSeq = mbox.highestModSeq + UInt64.ofNat raised := by
  cases h with
  | keeps => simp
  | _ => rfl

end Effect

/-! ## Arrivals -/

theorem track_queueNumMessages (mbox : Mailbox) {count : UInt32} (hne : count ≠ 0) :
    count ≤ (mbox.track (·.queueNumMessages count)).tracker.numMessages := by
  by_cases hle : mbox.tracker.numMessages ≤ count
  · obtain ⟨next, hnext, hcount, -⟩ := queueNumMessages_accepts hne hle
    rw [track_ok hnext]
    exact UInt32.le_of_eq hcount.symm
  · have hlt := UInt32.not_le.mp hle
    have hrefused : mbox.tracker.queueNumMessages count =
        .error (decreaseError mbox.tracker.numMessages count) := by
      simp [MailboxTracker.queueNumMessages, MailboxTracker.queueUpdate,
        TrackerUpdate.check, hne, hlt]
    simp only [Mailbox.track, hrefused]
    exact UInt32.le_of_lt hlt

theorem track_eq (mbox : Mailbox) (call : MailboxTracker → Except String MailboxTracker) :
    mbox.track call = { mbox with
        tracker := (mbox.track call).tracker
        dropped := (mbox.track call).dropped } := by
  unfold Mailbox.track
  cases call mbox.tracker <;> rfl

theorem appendBytes_effect [CaseMapping] (mbox : Mailbox) (buf : Bytes)
    (options : AppendOptions) (now : Time) :
    Effect mbox 1 (mbox.appendBytes buf options now).1 := by
  unfold Mailbox.appendBytes
  simp only
  rw [track_eq]
  refine .arrives _ _ _ rfl rfl rfl ?_
  intro hroom
  have hcount := Word.toNat_ofNat_of_lt hroom
  have hne : UInt32.ofNat (mbox.l.length + 1) ≠ 0 := Word.ne_zero_iff.mpr (by omega)
  rw [List.length_append, List.length_singleton]
  nth_rewrite 1 [← hcount]
  exact UInt32.le_iff_toNat_le.mp (track_queueNumMessages _ hne)

/-! ## Removals -/

theorem reportExpunge_count (mbox : Mailbox) (index : Nat) (msg : Message)
    (expungeModSeq : ModSeq) :
    mbox.tracker.numMessages.toNat ≤
      (mbox.reportExpunge index msg expungeModSeq).tracker.numMessages.toNat + 1 := by
  unfold Mailbox.reportExpunge Mailbox.track
  simp only
  cases hcall : mbox.tracker.queueExpunge (Mailbox.seqNumAt index) msg.uid with
  | error text => simp
  | ok next =>
    unfold MailboxTracker.queueExpunge at hcall
    split_ifs at hcall with hzero
    obtain ⟨-, hcount, -⟩ := MailboxTracker.queueUpdate_ok hcall
    rw [hcount, TrackerUpdate.countAfter, if_pos hzero, UInt32.toNat_sub]
    have hlt := mbox.tracker.numMessages.toNat_lt
    simp
    omega

theorem reportAll_eq (expungeModSeq : ModSeq) (mbox : Mailbox) (entries : List (Nat × Message)) :
    reportAll expungeModSeq mbox entries = { mbox with
        tracker := (reportAll expungeModSeq mbox entries).tracker
        dropped := (reportAll expungeModSeq mbox entries).dropped
        expunged := mbox.expunged ++ entries.map fun entry =>
          { uid := entry.2.uid
            modSeq := expungeModSeq } } := by
  induction entries generalizing mbox with
  | nil => simp [reportAll]
  | cons entry rest ih =>
    rw [reportAll, List.foldl_cons, ← reportAll, ih, Mailbox.reportExpunge, track_eq]
    simp

theorem reportAll_count (expungeModSeq : ModSeq) (mbox : Mailbox) (entries : List (Nat × Message)) :
    mbox.tracker.numMessages.toNat ≤
      (reportAll expungeModSeq mbox entries).tracker.numMessages.toNat + entries.length := by
  induction entries generalizing mbox with
  | nil => simp [reportAll]
  | cons entry rest ih =>
    have hfirst := reportExpunge_count mbox entry.1 entry.2 expungeModSeq
    have hrest := ih (mbox.reportExpunge entry.1 entry.2 expungeModSeq)
    rw [reportAll, List.foldl_cons, ← reportAll, List.length_cons]
    omega

theorem map_removedFrom (removed : List Nat) (l : List Message) (index : Nat) :
    (removedFrom removed l index).map Prod.snd = l.filter (·.address ∈ removed) := by
  induction l generalizing index with
  | nil => rfl
  | cons msg rest ih =>
    rw [removedFrom]
    split_ifs with hmem
    · simp [hmem, ih]
    · simp [hmem, ih]

theorem expungeLocked_effect (mbox : Mailbox) (removed : List Nat) :
    Effect mbox 1 (mbox.expungeLocked removed).1 := by
  have hentries := map_removedFrom removed mbox.l 0
  have hcount := reportAll_count (mbox.highestModSeq + 1)
    { mbox with highestModSeq := mbox.highestModSeq + 1 }
    (removedFrom removed mbox.l 0)
  rw [expungeLocked_eq, reportAll_eq]
  have hmap : (removedFrom removed mbox.l 0).map (fun entry =>
      ({ uid := entry.2.uid, modSeq := mbox.highestModSeq + 1 } : ExpungedMessage)) =
      (mbox.l.filter (·.address ∈ removed)).map fun msg =>
        { uid := msg.uid
          modSeq := mbox.highestModSeq + 1 } := by
    rw [← hentries, List.map_map]
    rfl
  simp only [hmap]
  refine .removes _ _ removed ?_
  rw [← hentries, List.length_map]
  exact hcount

/-! ## STORE -/

theorem contains_eq_of_not_flagsChanged {old new : FlagSet}
    (h : Message.flagsChanged old new = false) :
    new.contains = old.contains := by
  unfold Message.flagsChanged at h
  split_ifs at h with hlength
  obtain ⟨hold, hnew⟩ := Bool.or_eq_false_iff.mp h
  funext flag
  rw [Bool.eq_iff_iff]
  constructor
  · intro hmem
    have := List.any_eq_false.mp hnew flag ((FlagSet.contains_iff _ _).mp hmem)
    simpa using this
  · intro hmem
    have := List.any_eq_false.mp hold flag ((FlagSet.contains_iff _ _).mp hmem)
    simpa using this

theorem Flagged.numMessages {tracker next : MailboxTracker} (h : Flagged tracker next) :
    next.numMessages = tracker.numMessages := by
  cases h with
  | same => rfl
  | queued h =>
    rw [(MailboxTracker.queueUpdate_ok h).2.1]
    simp [TrackerUpdate.countAfter]

theorem store_cases [CaseMapping] (msg : Message) (highestModSeq : ModSeq) (flags : StoreFlags) :
    msg.store highestModSeq flags = ({ msg with
            flags := msg.storedFlags flags
            modSeq := highestModSeq + 1 }, highestModSeq + 1, true) ∨
      msg.store highestModSeq flags =
          ({ msg with flags := msg.storedFlags flags }, highestModSeq, false) ∧
        (msg.storedFlags flags).contains = msg.flags.contains := by
  unfold Message.store
  simp only
  cases hchanged : Message.flagsChanged msg.flags (msg.storedFlags flags) with
  | true => exact .inl rfl
  | false => exact .inr ⟨rfl, contains_eq_of_not_flagsChanged hchanged⟩

theorem storeVisit_raises [CaseMapping] {id : SessionId} {flags : StoreFlags}
    {options : StoreOptions} {inUIDs : Bool} {state next : StoreState} {seqNum : SeqNum}
    {msg new : Message} (h : storeVisit id flags options inUIDs state seqNum msg = (next, new)) :
    next.tracker.numMessages = state.tracker.numMessages ∧ ∃ raised ≤ 1,
        next.highestModSeq = state.highestModSeq + UInt64.ofNat raised ∧
        Stored state.highestModSeq raised msg new := by
  rcases storeVisit_cases h with
    ⟨-, htracker, -, hhighest, rfl⟩ | ⟨-, hflagged, -, hhighest, rfl, -⟩
  · rw [htracker, hhighest]
    exact ⟨rfl, 0, by omega, by simp, rfl, rfl, .inl ⟨rfl, rfl⟩⟩
  · refine ⟨hflagged.numMessages, ?_⟩
    rw [hhighest]
    rcases store_cases msg state.highestModSeq flags with hstore | ⟨hstore, hflags⟩
    · rw [hstore]
      exact ⟨1, le_rfl, rfl, rfl, rfl, .inr ⟨1, by omega, le_rfl, rfl⟩⟩
    · rw [hstore]
      exact ⟨0, by omega, by simp, rfl, rfl, .inl ⟨hflags, rfl⟩⟩

theorem Stored.mono {base : ModSeq} {raised more : Nat} {old new : Message}
    (h : Stored base raised old new) (hle : raised ≤ more) :
    Stored base more old new := by
  refine ⟨h.address, h.uid, h.change.imp id ?_⟩
  rintro ⟨order, hpos, hraised, hmodSeq⟩
  exact ⟨order, hpos, by omega, hmodSeq⟩

theorem Stored.shift {base : ModSeq} {first raised : Nat} {old new : Message}
    (h : Stored (base + UInt64.ofNat first) raised old new) :
    Stored base (first + raised) old new := by
  refine ⟨h.address, h.uid, h.change.imp id ?_⟩
  rintro ⟨order, hpos, hraised, hmodSeq⟩
  refine ⟨first + order, by omega, by omega, ?_⟩
  rw [hmodSeq, UInt64.ofNat_add, UInt64.add_assoc]

theorem storeLoop_raises [CaseMapping] (session : StoreState → SessionTracker) (numSet : MessageSet)
    (id : SessionId) (flags : StoreFlags) (options : StoreOptions) (inUIDs : Bool)
    (l : List Message) (index : Nat) (state : StoreState) :
    (forEachLoop session numSet (storeVisit id flags options inUIDs) l index
        state).1.tracker.numMessages = state.tracker.numMessages ∧
      ∃ raised ≤ l.length, (forEachLoop session numSet (storeVisit id flags options inUIDs) l
          index state).1.highestModSeq = state.highestModSeq + UInt64.ofNat raised ∧
        List.Forall₂ (Stored state.highestModSeq raised) l
          (forEachLoop session numSet (storeVisit id flags options inUIDs) l index state).2 := by
  induction l generalizing index state with
  | nil => exact ⟨rfl, 0, le_rfl, by simp [forEachLoop], .nil⟩
  | cons msg rest ih =>
    rw [forEachLoop]
    split_ifs
    · rcases hvisit : storeVisit id flags options inUIDs state
        (Mailbox.seqNumAt index) msg with ⟨next, new⟩
      obtain ⟨hcount, first, hfirst, hhighest, hmsg⟩ := storeVisit_raises hvisit
      obtain ⟨hcount', raised, hraised, hhighest', hrest⟩ := ih (index + 1) next
      refine ⟨hcount'.trans hcount, first + raised, ?_, ?_, ?_⟩
      · rw [List.length_cons]
        omega
      · rw [hhighest', hhighest, UInt64.ofNat_add, UInt64.add_assoc]
      · rw [hhighest] at hrest
        exact .cons (hmsg.mono (by omega)) (hrest.imp fun _ _ hstored => hstored.shift)
    · obtain ⟨hcount, raised, hraised, hhighest, hrest⟩ := ih (index + 1) state
      refine ⟨hcount, raised, ?_, hhighest, .cons ?_ hrest⟩
      · rw [List.length_cons]
        omega
      · exact ⟨rfl, rfl, .inl ⟨rfl, rfl⟩⟩

theorem View.store_raises [CaseMapping] (mbox : Mailbox) (view : View)
    (numSet : MessageSet) (flags : StoreFlags) (options : StoreOptions) :
    ∃ raised, Effect mbox raised (view.store mbox numSet flags options).1 := by
  obtain ⟨hcount, raised, hraised, hhighest, hl⟩ := storeLoop_raises
    (fun state => sessionOf state.tracker view.session)
    (staticNumSet mbox view numSet) view.session flags options
    (uidSpace numSet options) mbox.l 0 (.start mbox)
  refine ⟨raised, ?_⟩
  simp only [View.store, StoreState.store, hhighest]
  exact .stores _ _ raised _ hl hraised hcount

/-! ## FETCH -/

theorem fetchVisit_keeps [CaseMapping] {start : MailboxTracker} {id : SessionId}
    {options : FetchOptions} {writeFails : Nat → Bool} {state next : FetchState} {seqNum : SeqNum}
    {msg new : Message} (h : fetchVisit id options writeFails state seqNum msg = (next, new))
    (hstate : KeepsNumbers start id state.tracker ∧ state.tracker.numMessages = start.numMessages) :
    (KeepsNumbers start id next.tracker ∧ next.tracker.numMessages = start.numMessages) ∧
      ((options.markSeen = false ∨ options.changedSince > 0 ∧ msg.modSeq ≤ options.changedSince ∨
          msg.flags.contains (canonicalFlag flagSeen) = true) →
        new = msg) := by
  rcases fetchVisit_cases h with ⟨-, rfl, rfl⟩ | ⟨⟨-, hpassed⟩, hflagged, -, rfl, -⟩
  · exact ⟨hstate, fun _ => rfl⟩
  · refine ⟨⟨hstate.1.flagged hflagged, hflagged.numMessages.trans hstate.2⟩, ?_⟩
    rintro (hpeek | hskip | hseen)
    · simp [hpeek]
    · exact absurd hskip hpassed
    · simp [(FlagSet.insert_eq_self_iff _ _).mpr hseen]

theorem View.fetch_keeps [CaseMapping] {mbox : Mailbox} (hcurrent : ∀ id, UpToDate mbox.tracker id)
    (view : View) (numSet : MessageSet) (options : FetchOptions) (writeFails : Nat → Bool)
    (hquiet : ∀ entry ∈ mbox.l.zipIdx, HistoryStep.leavesSeen mbox view numSet options entry = true)
    :
    Effect mbox 0 (view.fetch mbox numSet options writeFails).1 := by
  have hloop := @forEachLoop_forall₂ FetchState (fun state => sessionOf state.tracker view.session)
    (staticNumSet mbox view numSet)
    (fetchVisit view.session options writeFails)
    (fun state => KeepsNumbers mbox.tracker view.session state.tracker ∧
      state.tracker.numMessages = mbox.tracker.numMessages)
    (fun entry new =>
      HistoryStep.leavesSeen mbox view numSet options entry = true → new = entry.1)
    (fun _ _ _ _ _ _ => rfl) ?_ mbox.l 0 (.start mbox) ⟨⟨hcurrent, rfl⟩, rfl⟩
  · obtain ⟨⟨-, hcount⟩, hl⟩ := hloop
    have hsame := ((List.forall₂_and_left _ _).mpr ⟨hquiet, hl⟩).imp
      fun entry new h => (h.2 h.1).symm
    rw [← List.forall₂_map_left_iff, List.forall₂_eq_eq_eq, List.zipIdx_map_fst] at hsame
    unfold View.fetch
    simp only
    rw [← hsame]
    exact .keeps _ _ hcount
  · intro state msg index hstate hselects
    rw [selects_congr hstate.1.2] at hselects
    rcases hvisit : fetchVisit view.session options writeFails state
      (Mailbox.seqNumAt index) msg with ⟨next, new⟩
    obtain ⟨hnext, hmsg⟩ := fetchVisit_keeps hvisit hstate
    refine ⟨hnext, fun hleaves => hmsg ?_⟩
    simpa [HistoryStep.leavesSeen, hselects, or_assoc] using hleaves

/-! ## A step of the history -/

namespace HistoryStep

variable [CaseMapping] {state : SharedMailbox}

theorem upToDate (hcurrent : ∀ id, UpToDate state.mbox.tracker id) (step : HistoryStep) :
    ∀ id, UpToDate (step.perform state).mbox.tracker id := by
  cases step with
  | copy msg now => exact kept_appendBytes kept_upToDate hcurrent _ _ _
  | move view numSet dest now => exact kept_expungeLocked kept_upToDate _ hcurrent
  | shared step =>
    cases step with
    | append buf options now => exact kept_appendBytes kept_upToDate hcurrent _ _ _
    | store view numSet flags options =>
      exact (view.store_effect hcurrent numSet flags options).1
    | fetch view numSet options writeFails =>
      exact (view.fetch_effect hcurrent numSet options writeFails).1
    | mark caller uids =>
      simp only [perform, SharedMailbox.perform]
      split_ifs
      · exact hcurrent
      · exact hcurrent
    | remove caller =>
      simp only [perform, SharedMailbox.perform]
      cases state.pending.find? (·.caller == caller) with
      | none => exact hcurrent
      | some call => exact kept_expungeLocked kept_upToDate _ hcurrent
    | newView => exact newSession_upToDate hcurrent
    | poll id allowExpunge =>
      exact fun other => pollSession_upToDate id allowExpunge (hcurrent other)
    | closeView id => exact fun other => closeSession_upToDate id (hcurrent other)

theorem effect (hcurrent : ∀ id, UpToDate state.mbox.tracker id)
    {step : HistoryStep} (hquiet : step.Quiet state.mbox) :
    ∃ raised, Effect state.mbox raised (step.perform state).mbox := by
  cases step with
  | copy msg now => exact ⟨1, appendBytes_effect _ _ _ _⟩
  | move view numSet dest now => exact ⟨1, expungeLocked_effect _ _⟩
  | shared step =>
    cases step with
    | append buf options now => exact ⟨1, appendBytes_effect _ _ _ _⟩
    | store view numSet flags options =>
      exact view.store_raises state.mbox numSet flags options
    | fetch view numSet options writeFails =>
      exact ⟨0, view.fetch_keeps hcurrent numSet options writeFails hquiet⟩
    | mark caller uids =>
      refine ⟨0, ?_⟩
      simp only [perform, SharedMailbox.perform]
      split_ifs
      · exact .keeps _ _ rfl
      · exact .keeps _ _ rfl
    | remove caller =>
      simp only [perform, SharedMailbox.perform]
      cases state.pending.find? (·.caller == caller) with
      | none => exact ⟨0, .keeps _ _ rfl⟩
      | some call => exact ⟨1, expungeLocked_effect _ _⟩
    | newView | poll id allowExpunge
    | closeView id => exact ⟨0, .keeps _ _ rfl⟩

end HistoryStep

theorem initial_upToDate (uidValidity : UInt32) (id : SessionId) :
    UpToDate (SharedMailbox.initial uidValidity).mbox.tracker id :=
  nofun

theorem upToDate_of_history [CaseMapping] {state : SharedMailbox}
    (h : ∀ id, UpToDate state.mbox.tracker id) (steps : List HistoryStep) :
    ∀ id, UpToDate (steps.foldl HistoryStep.perform state).mbox.tracker id := by
  induction steps generalizing state with
  | nil => exact h
  | cons step rest ih => exact ih (step.upToDate h)

end GoImap.MemServer
