import GoImap.Tracker.Poll
import GoImap.Tracker.Translation
import Mathlib.Data.List.TakeWhile

/-!
# Delivery under concurrency

Goroutines queue updates and poll sessions at the same time.  `queueUpdate`
holds the mailbox's mutex while it visits the sessions one by one, in any
order; a poll holds the session's delivery lock from before it dequeues until
its last write.  A session's own mutex guards straight-line code only, so what
happens under it is one step.

A call that waits for a lock has done nothing yet.  A state therefore records,
for each lock, the call that holds it and what remains of that call; the next
holder may be any goroutine.  Each session also carries its history: the count
it was opened with, the updates queued for it, and its polls.
-/

namespace GoImap.Tracker.Delivery

inductive Built : TrackerUpdate → Option SessionId → Prop
  | expunge {seqNum : SeqNum} {uid : UID} (h : seqNum ≠ 0) :
      Built { expunge := seqNum, expungeUID := uid } none
  | numMessages {count : UInt32} (h : count ≠ 0) : Built { numMessages := count } none
  | mailboxFlags {flags : List Flag} : Built { mailboxFlags := some flags } none
  | messageFlags {fetch : TrackerUpdateFetch} {source : Option SessionId} :
      Built { fetch := some fetch } source

structure PollRecord where
  allowExpunge : Bool
  qresync : Bool
  batch : List TrackerUpdate
  output : List Response
  deriving DecidableEq, Repr

inductive PollPhase where
  | locked (allowExpunge qresync : Bool)
  | writing (record : PollRecord) (pending : List TrackerUpdate) (vanished : NumSet)
  | panicked
  deriving DecidableEq, Repr

def currentRecord : Option PollPhase → List PollRecord
  | some (.writing record _ _) => [record]
  | _ => []

structure Session where
  tracker : SessionTracker
  deliverMutex : Option PollPhase
  base : UInt32
  queued : List TrackerUpdate
  polls : List PollRecord
  deriving DecidableEq, Repr

namespace Session

def opened (numMessages : UInt32) : Session where
  tracker :=
    { closed := false, numMessages := numMessages, queue := [] }
  deliverMutex := none
  base := numMessages
  queued := []
  polls := []

def enqueue (session : Session) (update : TrackerUpdate)
    (numMessages : UInt32) (skip : Bool) : Session :=
  { session with
    tracker := session.tracker.queueUpdate update numMessages skip
    queued := if skip then session.queued else session.queued ++ [update] }

def records (session : Session) : List PollRecord :=
  session.polls ++ currentRecord session.deliverMutex

def written (session : Session) : List Response := session.records.flatMap PollRecord.output

/-- The steps of polls and of closing, each under the session's mutex. -/
inductive Step : Session → Session → Prop
  | lock {session : Session} (allowExpunge qresync : Bool) (hfree : session.deliverMutex = none) :
      Step session { session with deliverMutex := some (.locked allowExpunge qresync) }
  | dequeue {session : Session} {allowExpunge qresync : Bool}
      (hlock : session.deliverMutex = some (.locked allowExpunge qresync)) :
      Step session { session with
          tracker := (session.tracker.dequeue allowExpunge).2
          deliverMutex := some (.writing
            { allowExpunge := allowExpunge
              qresync := qresync
              batch := (session.tracker.dequeue allowExpunge).1
              output := [] }
            (session.tracker.dequeue allowExpunge).1 []) }
  | write {session : Session} {record : PollRecord}
      {pending rest : List TrackerUpdate} {vanished collected : NumSet}
      {written : Option Response}
      (hlock : session.deliverMutex = some (.writing record pending vanished))
      (hnext : writeNext record.qresync pending vanished = .next written rest collected) :
      Step session { session with
          deliverMutex := some (.writing
            { record with output := record.output ++ written.toList }
            rest collected) }
  | unlock {session : Session} {record : PollRecord}
      {pending : List TrackerUpdate} {vanished : NumSet}
      (hlock : session.deliverMutex = some (.writing record pending vanished))
      (hdone : writeNext record.qresync pending vanished = .done) :
      Step session { session with deliverMutex := none, polls := session.polls ++ [record] }
  | panic {session : Session} {record : PollRecord}
      {pending : List TrackerUpdate} {vanished : NumSet}
      (hlock : session.deliverMutex = some (.writing record pending vanished))
      (hpanic : writeNext record.qresync pending vanished = .panic) :
      Step session { session with deliverMutex := some .panicked }
  | close {session : Session} : Step session { session with tracker := session.tracker.close }

end Session

structure Fanout where
  update : TrackerUpdate
  source : Option SessionId
  waiting : List SessionId

structure System where
  numMessages : UInt32
  mutex : Option Fanout
  registered : List SessionId
  sessions : SessionId → Option Session

def System.initial (numMessages : UInt32) : System where
  numMessages := numMessages
  mutex := none
  registered := []
  sessions := fun _ => none

def System.setSession (system : System) (id : SessionId) (session : Session) : System :=
  { system with sessions := Function.update system.sessions id (some session) }

inductive Step : System → System → Prop
  | newSession {system : System} {id : SessionId}
      (hfree : system.mutex = none) (hfresh : system.sessions id = none) :
      Step system { system.setSession id (Session.opened system.numMessages) with
          registered := id :: system.registered }
  | beginUpdate {system : System} {update : TrackerUpdate}
      {source : Option SessionId} (hfree : system.mutex = none)
      (hbuilt : Built update source)
      (hcheck : update.check system.numMessages = .ok ()) :
      Step system { system with
          numMessages := update.countAfter system.numMessages
          mutex := some
            { update := update.stamp system.numMessages
              source := source
              waiting := system.registered } }
  | enqueue {system : System} {fanout : Fanout} {id : SessionId}
      {session : Session} (hlock : system.mutex = some fanout)
      (hwaiting : id ∈ fanout.waiting)
      (hsession : system.sessions id = some session) :
      Step system { system.setSession id
            (session.enqueue fanout.update system.numMessages
              (fanout.source == some id)) with
          mutex := some
            { fanout with waiting := fanout.waiting.erase id } }
  | endUpdate {system : System} {fanout : Fanout}
      (hlock : system.mutex = some fanout) (hdone : fanout.waiting = []) :
      Step system { system with mutex := none }
  | session {system : System} {id : SessionId} {session next : Session}
      (hsession : system.sessions id = some session)
      (hstep : session.Step next) :
      Step system (system.setSession id next)
  | unregister {system : System} {id : SessionId} {session : Session} (hfree : system.mutex = none)
      (hsession : system.sessions id = some session)
      (hclosed : session.tracker.closed = true) :
      Step system { system with registered := system.registered.erase id }

def Reachable (system : System) : Prop :=
  ∃ numMessages, Relation.ReflTransGen Step (System.initial numMessages) system

/-! ## What a session's history says -/

/-- The history of a session accounts for its queue and for what it wrote. -/
structure Session.Recorded (session : Session) : Prop where
  queued_eq : session.queued = session.records.flatMap PollRecord.batch ++ session.tracker.queue
  chain : Chain session.queued session.base session.tracker.numMessages
  kinds : ∀ update ∈ session.queued, update.response.isSome = true
  quiet : ∀ record ∈ session.records, record.allowExpunge = false →
    ∀ update ∈ record.batch, update.expunge = 0
  finished : ∀ record ∈ session.polls, record.output = writeLoop record.qresync record.batch []
  progress : ∀ record pending vanished,
    session.deliverMutex = some (.writing record pending vanished) → pending <:+ record.batch ∧
        record.output ++ writeLoop record.qresync pending vanished =
          writeLoop record.qresync record.batch []
  no_panic : session.deliverMutex ≠ some .panicked

theorem opened_recorded (numMessages : UInt32) : (Session.opened numMessages).Recorded := by
  refine ⟨rfl, rfl, ?_, ?_, ?_, ?_, ?_⟩ <;>
    simp [Session.opened, Session.records, currentRecord]

variable {session next : Session} {update : TrackerUpdate} {record : PollRecord}
  {source : Option SessionId}

theorem Session.Recorded.enqueue (h : session.Recorded) {numMessages : UInt32}
    {skip : Bool} (hextends : update.Extends session.tracker.numMessages)
    (hcount : update.countAfter session.tracker.numMessages = numMessages)
    (hkind : update.response.isSome = true)
    (hskip : skip = true → numMessages = session.tracker.numMessages) :
    (session.enqueue update numMessages skip).Recorded := by
  cases skip with
  | true =>
    have hsame : session.enqueue update numMessages true = session := by
      cases session
      simp [Session.enqueue, SessionTracker.queueUpdate, hskip rfl]
    rw [hsame]
    exact h
  | false =>
    refine ⟨?_, ?_, ?_, h.quiet, h.finished, h.progress, h.no_panic⟩
    · simp [Session.enqueue, SessionTracker.queueUpdate, h.queued_eq, Session.records]
    · exact chain_concat.mpr ⟨_, h.chain, hextends, hcount⟩
    · exact List.forall_mem_append.mpr ⟨h.kinds, List.forall_mem_singleton.mpr hkind⟩

namespace Session

theorem records_idle (h : currentRecord session.deliverMutex = []) :
    session.records = session.polls := by
  rw [records, h, List.append_nil]

variable {pending : List TrackerUpdate} {vanished : NumSet}

theorem records_writing (h : session.deliverMutex = some (.writing record pending vanished)) :
    session.records = session.polls ++ [record] := by
  rw [records, h, currentRecord]

theorem dequeue_quiet (tracker : SessionTracker) :
    ∀ update ∈ (tracker.dequeue false).1, update.expunge = 0 := by
  intro update hupdate
  simpa using List.mem_takeWhile_imp hupdate

section

variable (h : session.Recorded)

include h

theorem Recorded.lock (hfree : session.deliverMutex = none) (allowExpunge qresync : Bool) :
    Recorded { session with
      deliverMutex := some (.locked allowExpunge qresync) } := by
  refine ⟨?_, h.chain, h.kinds, ?_, h.finished, by simp, by simp⟩
  · simpa [records, hfree, currentRecord] using h.queued_eq
  · simpa [records, hfree, currentRecord] using h.quiet

theorem Recorded.dequeue {allowExpunge qresync : Bool}
    (hlock : session.deliverMutex = some (.locked allowExpunge qresync)) :
    Recorded { session with
      tracker := (session.tracker.dequeue allowExpunge).2
      deliverMutex := some (.writing
        { allowExpunge := allowExpunge
          qresync := qresync
          batch := (session.tracker.dequeue allowExpunge).1
          output := [] }
        (session.tracker.dequeue allowExpunge).1 []) } := by
  have hrecords : session.records = session.polls := records_idle (by rw [hlock]; rfl)
  have hsplit := session.tracker.dequeue_append allowExpunge
  have hqueued := h.queued_eq
  have hquiet := h.quiet
  rw [hrecords] at hqueued hquiet
  refine ⟨?_, ?_, h.kinds, ?_, h.finished, ?_, by simp⟩
  · rw [records_writing rfl, List.flatMap_append, List.append_assoc]
    simpa [hsplit] using hqueued
  · rw [SessionTracker.dequeue_numMessages]
    exact h.chain
  · rw [records_writing rfl]
    refine List.forall_mem_append.mpr ⟨hquiet, List.forall_mem_singleton.mpr fun hfalse => ?_⟩
    subst hfalse
    exact dequeue_quiet session.tracker
  · rintro record pending vanished hwriting
    cases hwriting
    exact ⟨List.suffix_refl _, rfl⟩

section

variable (hlock : session.deliverMutex = some (.writing record pending vanished))

include hlock

theorem Recorded.write {rest : List TrackerUpdate} {collected : NumSet} {written : Option Response}
    (hnext : writeNext record.qresync pending vanished = .next written rest collected) :
    Recorded { session with
      deliverMutex := some (.writing
        { record with output := record.output ++ written.toList }
        rest collected) } := by
  have hqueued := h.queued_eq
  have hquiet := h.quiet
  rw [records_writing hlock] at hqueued hquiet
  obtain ⟨hsuffix, hwhole⟩ := h.progress _ _ _ hlock
  have hout := writeNext_outcome record.qresync pending vanished
  rw [hnext] at hout
  refine ⟨?_, h.chain, h.kinds, ?_, h.finished, ?_, by simp⟩
  · rw [records_writing rfl]
    simpa using hqueued
  · rw [records_writing rfl]
    rw [List.forall_mem_append] at hquiet ⊢
    exact ⟨hquiet.1, List.forall_mem_singleton.mpr (hquiet.2 record (by simp))⟩
  · rintro other pending' vanished' hwriting
    cases hwriting
    refine ⟨hout.1.trans hsuffix, ?_⟩
    rw [List.append_assoc, hout.2]
    exact hwhole

theorem Recorded.unlock (hdone : writeNext record.qresync pending vanished = .done) :
    Recorded { session with
      deliverMutex := none
      polls := session.polls ++ [record] } := by
  obtain ⟨-, hwhole⟩ := h.progress _ _ _ hlock
  have hout := writeNext_outcome record.qresync pending vanished
  rw [hdone] at hout
  rw [hout, List.append_nil] at hwhole
  have hrecords := records_writing hlock
  refine ⟨?_, h.chain, h.kinds, ?_, ?_, by simp, by simp⟩
  · rw [records_idle rfl, ← hrecords]
    exact h.queued_eq
  · rw [records_idle rfl, ← hrecords]
    exact h.quiet
  · exact List.forall_mem_append.mpr ⟨h.finished, List.forall_mem_singleton.mpr hwhole⟩

theorem Recorded.never_panics : writeNext record.qresync pending vanished ≠ .panic := by
  intro hpanic
  have hout := writeNext_outcome record.qresync pending vanished
  rw [hpanic] at hout
  obtain ⟨update, hpending, hnone⟩ := hout
  have hbatch := (h.progress _ _ _ hlock).1.subset hpending
  have hmem : update ∈ session.queued := by
    rw [h.queued_eq, records_writing hlock]
    simp [hbatch]
  have hkind := h.kinds update hmem
  rw [hnone] at hkind
  cases hkind

end

theorem Recorded.step (hstep : session.Step next) : next.Recorded := by
  cases hstep with
  | lock allowExpunge qresync hfree => exact h.lock hfree allowExpunge qresync
  | dequeue hlock => exact h.dequeue hlock
  | write hlock hnext => exact h.write hlock hnext
  | unlock hlock hdone => exact h.unlock hlock hdone
  | panic hlock hpanic => exact absurd hpanic (h.never_panics hlock)
  | close =>
    exact ⟨h.queued_eq, h.chain, h.kinds, h.quiet, h.finished, h.progress, h.no_panic⟩

end

theorem Step.numMessages_eq (hstep : session.Step next) :
    next.tracker.numMessages = session.tracker.numMessages := by
  cases hstep with
  | dequeue hlock => exact SessionTracker.dequeue_numMessages _ _
  | _ => rfl

end Session

/-! ## The counts of the registered sessions -/

theorem Built.singleKind (h : Built update source) : update.SingleKind := by
  cases h with
  | expunge _ => exact .inr rfl
  | _ => exact .inl rfl

theorem Built.response_stamp (h : Built update source) (count : UInt32) :
    (update.stamp count).response.isSome = true := by
  cases h with
  | expunge hne
  | numMessages hne => simp [TrackerUpdate.stamp, TrackerUpdate.response, hne]
  | mailboxFlags
  | messageFlags => simp [TrackerUpdate.stamp, TrackerUpdate.response]

theorem Built.source_only_flags (h : Built update source)
    (hsource : source ≠ none) (count : UInt32) :
    update.countAfter count = count := by
  cases h with
  | messageFlags => rfl
  | _ => exact absurd rfl hsource

/-- A fan-out in progress: the sessions it has yet to visit are one behind. -/
structure Fanout.Sound (fanout : Fanout) (system : System) : Prop where
  counts : ∃ before, fanout.update.Extends before ∧
    fanout.update.countAfter before = system.numMessages ∧
    (fanout.source ≠ none → system.numMessages = before) ∧
    ∀ id ∈ system.registered, ∀ session, system.sessions id = some session →
      session.tracker.numMessages =
        if id ∈ fanout.waiting then before else system.numMessages
  kind : fanout.update.response.isSome = true
  waiting_subset : fanout.waiting ⊆ system.registered
  waiting_nodup : fanout.waiting.Nodup

structure System.Sound (system : System) : Prop where
  recorded : ∀ id session, system.sessions id = some session → session.Recorded
  known : ∀ id ∈ system.registered, system.sessions id ≠ none
  registered_nodup : system.registered.Nodup
  free : system.mutex = none → ∀ id ∈ system.registered, ∀ session,
    system.sessions id = some session → session.tracker.numMessages = system.numMessages
  held : ∀ fanout, system.mutex = some fanout → fanout.Sound system

theorem initial_sound (numMessages : UInt32) : (System.initial numMessages).Sound := by
  refine ⟨?_, ?_, ?_, ?_, ?_⟩ <;> simp [System.initial]

namespace System.Sound

variable {system : System} {id : SessionId}

variable (h : system.Sound)

include h

theorem setSession_recorded (hnext : next.Recorded) :
    ∀ other session, (system.setSession id next).sessions other =
      some session → session.Recorded := by
  intro other session hsession
  simp only [System.setSession, Function.update_apply] at hsession
  split_ifs at hsession with hsame
  · cases hsession
    exact hnext
  · exact h.recorded other session hsession

theorem setSession_known (id : SessionId) (next : Session) :
    ∀ other ∈ system.registered, (system.setSession id next).sessions other ≠ none := by
  intro other hother
  simp only [System.setSession, Function.update_apply]
  split_ifs
  · simp
  · exact h.known other hother

theorem newSession (hfree : system.mutex = none) (hfresh : system.sessions id = none) :
    System.Sound { system.setSession id (Session.opened system.numMessages) with
        registered := id :: system.registered } := by
  refine ⟨h.setSession_recorded (opened_recorded _), ?_, ?_, ?_, ?_⟩
  · intro other hother
    rcases List.mem_cons.mp hother with rfl | hother
    · simp [System.setSession]
    · exact h.setSession_known id _ other hother
  · refine List.nodup_cons.mpr ⟨?_, h.registered_nodup⟩
    intro hmem
    exact h.known id hmem hfresh
  · intro _ other hother session hsession
    simp only [System.setSession, Function.update_apply] at hsession
    split_ifs at hsession with hsame
    · cases hsession
      rfl
    · exact h.free hfree other ((List.mem_cons.mp hother).resolve_left hsame) session hsession
  · simp [System.setSession, hfree]

theorem beginUpdate (hfree : system.mutex = none) (hbuilt : Built update source)
    (hcheck : update.check system.numMessages = .ok ()) :
    System.Sound { system with
        numMessages := update.countAfter system.numMessages
        mutex := some
          { update := update.stamp system.numMessages
            source := source
            waiting := system.registered } } := by
  refine ⟨h.recorded, h.known, h.registered_nodup, by simp, ?_⟩
  intro fanout hfanout
  cases hfanout
  refine ⟨⟨system.numMessages, ?_, ?_, ?_, ?_⟩, hbuilt.response_stamp _,
    List.Subset.refl _, h.registered_nodup⟩
  · exact TrackerUpdate.extends_of_check hbuilt.singleKind hcheck
  · exact TrackerUpdate.stamp_countAfter _ _ _
  · intro hsource
    exact hbuilt.source_only_flags hsource _
  · intro id hid session hsession
    simp only [hid, if_true]
    exact h.free hfree id hid session hsession

theorem enqueue {fanout : Fanout} (hlock : system.mutex = some fanout)
    (hwaiting : id ∈ fanout.waiting) (hsession : system.sessions id = some session) :
    System.Sound { system.setSession id
          (session.enqueue fanout.update system.numMessages
            (fanout.source == some id)) with
        mutex := some
          { fanout with waiting := fanout.waiting.erase id } } := by
  have hfanout := h.held fanout hlock
  obtain ⟨before, hextends, hafter, hsource, hcounts⟩ := hfanout.counts
  have hregistered := hfanout.waiting_subset hwaiting
  have hcount : session.tracker.numMessages = before := by
    have hone := hcounts id hregistered session hsession
    rwa [if_pos hwaiting] at hone
  have hrecorded : (session.enqueue fanout.update system.numMessages
      (fanout.source == some id)).Recorded := by
    apply (h.recorded id session hsession).enqueue
    · rw [hcount]
      exact hextends
    · rw [hcount]
      exact hafter
    · exact hfanout.kind
    · intro hskip
      rw [hcount]
      apply hsource
      rintro hnone
      simp [hnone] at hskip
  refine ⟨h.setSession_recorded hrecorded, h.setSession_known id _, h.registered_nodup, by simp, ?_⟩
  intro next hnext
  cases hnext
  refine ⟨⟨before, hextends, hafter, hsource, ?_⟩, hfanout.kind, ?_, hfanout.waiting_nodup.erase id⟩
  · intro other hother current hcurrent
    simp only [System.setSession, Function.update_apply] at hcurrent ⊢
    split_ifs at hcurrent with hsame
    · cases hcurrent
      rw [if_neg (by rw [hsame]; exact hfanout.waiting_nodup.not_mem_erase)]
      simp only [Session.enqueue, SessionTracker.queueUpdate]
      split_ifs <;> rfl
    · rw [hcounts other hother current hcurrent]
      simp only [List.mem_erase_of_ne hsame]
  · intro other hother
    exact hfanout.waiting_subset (List.mem_of_mem_erase hother)

theorem endUpdate {fanout : Fanout}
    (hlock : system.mutex = some fanout) (hdone : fanout.waiting = []) :
    System.Sound { system with mutex := none } := by
  obtain ⟨before, -, -, -, hcounts⟩ := (h.held fanout hlock).counts
  refine ⟨h.recorded, h.known, h.registered_nodup, ?_, by simp⟩
  intro _ id hid session hsession
  simpa [hdone] using hcounts id hid session hsession

theorem sessionStep (hsession : system.sessions id = some session) (hstep : session.Step next) :
    (system.setSession id next).Sound := by
  have hcount := hstep.numMessages_eq
  have hold : ∀ other current, (system.setSession id next).sessions other = some current →
        ∃ earlier, system.sessions other = some earlier ∧
          earlier.tracker.numMessages = current.tracker.numMessages := by
    intro other current hcurrent
    simp only [System.setSession, Function.update_apply] at hcurrent
    split_ifs at hcurrent with hsame
    · cases hcurrent
      exact ⟨session, by rw [hsame]; exact hsession, hcount.symm⟩
    · exact ⟨current, hcurrent, rfl⟩
  refine ⟨h.setSession_recorded ((h.recorded id session hsession).step hstep),
    h.setSession_known id _, h.registered_nodup, ?_, ?_⟩
  · intro hfree other hother current hcurrent
    obtain ⟨earlier, hearlier, hsame⟩ := hold other current hcurrent
    exact hsame ▸ h.free hfree other hother earlier hearlier
  · intro fanout hlock
    obtain ⟨⟨before, hextends, hafter, hsource, hcounts⟩, hkind, hsubset,
      hnodup⟩ := h.held fanout hlock
    refine ⟨⟨before, hextends, hafter, hsource, ?_⟩, hkind, hsubset, hnodup⟩
    intro other hother current hcurrent
    obtain ⟨earlier, hearlier, hsame⟩ := hold other current hcurrent
    exact hsame ▸ hcounts other hother earlier hearlier

theorem unregister (id : SessionId) (hfree : system.mutex = none) :
    System.Sound { system with registered := system.registered.erase id } := by
  refine ⟨h.recorded, ?_, h.registered_nodup.erase id, ?_, ?_⟩
  · intro other hother
    exact h.known other (List.mem_of_mem_erase hother)
  · intro _ other hother
    exact h.free hfree other (List.mem_of_mem_erase hother)
  · simp [hfree]

end System.Sound

theorem step_sound {system next : System} (hstep : Step system next)
    (h : system.Sound) : next.Sound := by
  cases hstep with
  | newSession hfree hfresh => exact h.newSession hfree hfresh
  | beginUpdate hfree hbuilt hcheck => exact h.beginUpdate hfree hbuilt hcheck
  | enqueue hlock hwaiting hsession =>
    exact h.enqueue hlock hwaiting hsession
  | endUpdate hlock hdone => exact h.endUpdate hlock hdone
  | session hsession hstep => exact h.sessionStep hsession hstep
  | unregister hfree _ _ => exact h.unregister _ hfree

theorem Reachable.sound {system : System} (h : Reachable system) : system.Sound := by
  obtain ⟨numMessages, hrun⟩ := h
  exact Transition.invariant_of_step System.Sound (fun _ _ hstep hinv => step_sound hstep hinv) hrun
    (initial_sound numMessages)

/-! ## Delivery -/

theorem mem_currentRecord {phase : Option PollPhase} (h : record ∈ currentRecord phase) :
    ∃ pending vanished, phase = some (.writing record pending vanished) := by
  match phase with
  | none => simp [currentRecord] at h
  | some (.locked _ _) => simp [currentRecord] at h
  | some .panicked => simp [currentRecord] at h
  | some (.writing current pending vanished) =>
    rw [List.mem_singleton.mp h]
    exact ⟨pending, vanished, rfl⟩

namespace Session

variable (h : session.Recorded)

include h

section

variable (hrecord : record ∈ session.records)

include hrecord

theorem Recorded.batch_kinds : ∀ update ∈ record.batch, update.response.isSome = true := by
  intro update hupdate
  apply h.kinds
  rw [h.queued_eq]
  exact List.mem_append_left _ (List.mem_flatMap.mpr ⟨record, hrecord, hupdate⟩)

theorem Recorded.batch_reports :
    Reports (writeLoop record.qresync record.batch []) record.batch := by
  exact writeLoop_batch (h.batch_kinds hrecord)

theorem Recorded.output_rest :
    ∃ rest, record.output ++ rest = writeLoop record.qresync record.batch [] ∧
      (record ∈ session.polls → rest = []) := by
  by_cases hpolls : record ∈ session.polls
  · exact ⟨[], by rw [List.append_nil, h.finished record hpolls], fun _ => rfl⟩
  · have hcurrent := (List.mem_append.mp hrecord).resolve_left hpolls
    obtain ⟨pending, vanished, hphase⟩ := mem_currentRecord hcurrent
    exact ⟨_, (h.progress _ _ _ hphase).2, fun hmem => absurd hmem hpolls⟩

theorem Recorded.output_reports :
    ∃ delivered, delivered <+: record.batch ∧ Reports record.output delivered := by
  obtain ⟨rest, hrest, -⟩ := h.output_rest hrecord
  exact (h.batch_reports hrecord).of_isPrefix ⟨rest, hrest⟩

end

theorem Recorded.finished_reports :
    Reports (session.polls.flatMap PollRecord.output) (session.polls.flatMap PollRecord.batch) := by
  have heach : ∀ record ∈ session.polls, Reports record.output record.batch := by
    intro record hrecord
    rw [h.finished record hrecord]
    exact h.batch_reports (List.mem_append_left _ hrecord)
  generalize session.polls = polls at heach
  induction polls with
  | nil => exact .nil
  | cons record rest ih =>
    rw [List.flatMap_cons, List.flatMap_cons]
    exact (heach record (by simp)).append
      (ih fun other hother => heach other (List.mem_cons_of_mem _ hother))

theorem Recorded.delivered :
    ∃ delivered pending, session.queued = delivered ++ pending ∧ Reports session.written delivered ∧
      (session.deliverMutex = none → pending = session.tracker.queue) := by
  have hqueued := h.queued_eq
  have hfinished := h.finished_reports
  cases hcurrent : currentRecord session.deliverMutex with
  | nil =>
    rw [records_idle hcurrent] at hqueued
    refine ⟨_, _, hqueued, ?_, fun _ => rfl⟩
    rw [written, records_idle hcurrent]
    exact hfinished
  | cons record others =>
    obtain ⟨pending, vanished, hphase⟩ := mem_currentRecord (hcurrent ▸ List.mem_cons_self)
    have hrecords := records_writing hphase
    have hmem : record ∈ session.records := by simp [hrecords]
    obtain ⟨delivered, ⟨undelivered, hbatch⟩, hreports⟩ := h.output_reports hmem
    rw [hrecords] at hqueued
    refine ⟨session.polls.flatMap PollRecord.batch ++ delivered,
      undelivered ++ session.tracker.queue, ?_, ?_, ?_⟩
    · rw [hqueued]
      simp [← hbatch]
    · rw [written, hrecords, List.flatMap_append]
      simpa using hfinished.append hreports
    · rw [hphase]
      simp

omit h in
theorem replay_polls {polls : List PollRecord} {count final : UInt32}
    (hfinished : ∀ record ∈ polls, record.output = writeLoop record.qresync record.batch [])
    (hkinds : ∀ record ∈ polls, ∀ update ∈ record.batch, update.response.isSome = true)
    (hdistinct : (expungedUIDs (polls.flatMap PollRecord.batch)).Nodup)
    (hchain : Chain (polls.flatMap PollRecord.batch) count final) :
    replayAll count.toNat (polls.flatMap PollRecord.output) = final.toNat := by
  induction polls generalizing count with
  | nil =>
    cases hchain
    rfl
  | cons record rest ih =>
    rw [List.flatMap_cons] at hchain hdistinct
    rw [expungedUIDs_append, List.nodup_append] at hdistinct
    obtain ⟨middle, hfirst, hrest⟩ := chain_append.mp hchain
    rw [List.forall_mem_cons] at hfinished hkinds
    rw [List.flatMap_cons, replayAll_append, hfinished.1,
      writeLoop_batch_replay hkinds.1 hdistinct.1 hfirst]
    exact ih hfinished.2 hkinds.2 hdistinct.2.1 hrest

theorem Recorded.replay (hidle : session.deliverMutex = none)
    (hopen : session.tracker.closed = false) (hdistinct : (expungedUIDs session.queued).Nodup) :
    replayAll session.base.toNat session.written = session.tracker.encodeNumMessages.toNat := by
  have hrecords : session.records = session.polls := records_idle (by rw [hidle]; rfl)
  have hchain := h.chain
  rw [h.queued_eq, hrecords] at hchain hdistinct
  obtain ⟨middle, hdelivered, hqueue⟩ := chain_append.mp hchain
  have hclient : session.tracker.encodeNumMessages = middle := by
    rw [SessionTracker.encodeNumMessages, hopen]
    exact (SessionTracker.encodeCountWalk_eq hqueue).2
  rw [expungedUIDs_append, List.nodup_append] at hdistinct
  rw [hclient, written, hrecords]
  refine replay_polls h.finished ?_ hdistinct.1 hdelivered
  intro record hrecord
  exact h.batch_kinds (by rw [hrecords]; exact hrecord)

end Session

def removesMessages : Response → Bool
  | .expunge _ => true
  | .vanished _ => true
  | _ => false

theorem reports_keep {responses : List Response} {updates : List TrackerUpdate}
    (h : Reports responses updates) (hquiet : ∀ update ∈ updates, update.expunge = 0) :
    ∀ response ∈ responses, removesMessages response = false := by
  induction h with
  | nil => simp
  | @one response update responses updates hresponse _ ih =>
    have hzero := hquiet update (by simp)
    have hrest := ih fun other hother => hquiet other (by simp [hother])
    intro other hother
    rcases List.mem_cons.mp hother with rfl | hother
    · cases other with
      | expunge seqNum => exact absurd (hresponse.1.symm.trans hzero) hresponse.2
      | vanished uids => exact hresponse.elim
      | _ => rfl
    · exact hrest other hother
  | @run uids run responses updates hne hrun _ _ _ =>
    obtain ⟨update, hupdate⟩ := List.exists_mem_of_ne_nil run hne
    have hexpunge := (vanishedUID_ne_zero (hrun update hupdate)).1
    exact absurd (hquiet update (by simp [hupdate])) hexpunge

/-- The expunges of `run` are a maximal run of known UIDs in a batch. -/
structure MaximalRun (batch before run after : List TrackerUpdate) : Prop where
  batch_eq : batch = before ++ (run ++ after)
  run_ne : run ≠ []
  run_known : ∀ update ∈ run, update.hasVanishedUID = true
  before_end : ∀ last, before.getLast? = some last → last.hasVanishedUID = false
  after_start : ∀ next, after.head? = some next → next.hasVanishedUID = false

theorem writeLoop_maximalRun {batch before run after : List TrackerUpdate}
    (h : MaximalRun batch before run after)
    (hkinds : ∀ update ∈ batch, update.response.isSome = true) :
    ∃ first uids second, writeLoop true batch [] = first ++ .vanished uids :: second ∧
        Reports first before ∧ Reports second after ∧
        ∀ uid, uids.contains uid = true ↔ uid ∈ run.map TrackerUpdate.expungeUID := by
  rw [h.batch_eq, List.forall_mem_append, List.forall_mem_append] at hkinds
  have hcoalesce : ∀ update ∈ run, update.coalesces true = true := h.run_known
  rw [h.batch_eq]
  exact ⟨_, _, _, writeLoop_run h.run_ne hcoalesce h.before_end h.after_start,
    writeLoop_batch hkinds.1, writeLoop_batch hkinds.2.2, contains_collectRun hcoalesce⟩

/--
Whatever the interleaving, a session's responses report the updates queued for
it in order and without loss.  Polls that may not expunge write no removal, a
QRESYNC poll writes one VANISHED for each maximal run, and between polls the
replayed count is the one the session announces.
-/
theorem updates_delivered_in_order {system : System} (hreach : Reachable system) {id : SessionId}
    {session : Session} (hsession : system.sessions id = some session) :
    (∃ delivered pending, session.queued = delivered ++ pending ∧
      Reports session.written delivered ∧
      (session.deliverMutex = none → pending = session.tracker.queue)) ∧
    session.deliverMutex ≠ some .panicked ∧
    (∀ record ∈ session.records, record.allowExpunge = false →
      ∀ response ∈ record.output, removesMessages response = false) ∧
    (∀ record ∈ session.records, record.qresync = true →
      ∀ before run after, MaximalRun record.batch before run after → ∃ rest first uids second,
          record.output ++ rest = first ++ .vanished uids :: second ∧
          (record ∈ session.polls → rest = []) ∧
          Reports first before ∧ Reports second after ∧
          ∀ uid, uids.contains uid = true ↔ uid ∈ run.map TrackerUpdate.expungeUID) ∧
    (session.deliverMutex = none → session.tracker.closed = false →
      (expungedUIDs session.queued).Nodup → replayAll session.base.toNat session.written =
          session.tracker.encodeNumMessages.toNat) := by
  have h := hreach.sound.recorded id session hsession
  refine ⟨h.delivered, h.no_panic, ?_, ?_, h.replay⟩
  · intro record hrecord hfalse
    obtain ⟨delivered, hpart, hreports⟩ := h.output_reports hrecord
    apply reports_keep hreports
    intro update hupdate
    exact h.quiet record hrecord hfalse update (hpart.subset hupdate)
  · intro record hrecord hqresync before run after hrun
    obtain ⟨rest, hrest, hfinished⟩ := h.output_rest hrecord
    obtain ⟨first, uids, second, houtput, hfirst, hsecond, huids⟩ :=
      writeLoop_maximalRun hrun (h.batch_kinds hrecord)
    rw [hqresync, houtput] at hrest
    exact ⟨rest, first, uids, second, hrest, hfinished, hfirst, hsecond, huids⟩

def polledSession : Session where
  tracker :=
    { closed := false, numMessages := 3, queue := [] }
  deliverMutex := none
  base := 2
  queued :=
    [{ expunge := 2, expungeUID := 7 }, { numMessages := 3, prevNumMessages := 1 }]
  polls :=
    [{ allowExpunge := true
       qresync := true
       batch :=
        [{ expunge := 2, expungeUID := 7 }, { numMessages := 3, prevNumMessages := 1 }]
       output := [.vanished [⟨7, 7⟩], .numMessages 3] }]

theorem updates_delivered_in_order_polled :
    ∃ system, Reachable system ∧ system.sessions 0 = some polledSession ∧
      replayAll polledSession.base.toNat polledSession.written =
        polledSession.tracker.encodeNumMessages.toNat := by
  have hrun : ∃ system, Reachable system ∧ system.sessions 0 = some polledSession := by
    refine ⟨?system, ⟨2, ?run⟩, ?view⟩
    case run =>
      refine .head (@Step.newSession _ 0 rfl rfl) ?_
      refine .head (Step.beginUpdate rfl (@Built.expunge 2 7 (by decide)) rfl) ?_
      refine .head (@Step.enqueue _ _ 0 _ rfl (by decide) rfl) ?_
      refine .head (Step.endUpdate rfl rfl) ?_
      refine .head (Step.beginUpdate rfl (@Built.numMessages 3 (by decide)) rfl) ?_
      refine .head (@Step.enqueue _ _ 0 _ rfl (by decide) rfl) ?_
      refine .head (Step.endUpdate rfl rfl) ?_
      refine .head (@Step.session _ 0 _ _ rfl (.lock true true rfl)) ?_
      refine .head (@Step.session _ 0 _ _ rfl (.dequeue rfl)) ?_
      refine .head (@Step.session _ 0 _ _ rfl (.write rfl rfl)) ?_
      refine .head (@Step.session _ 0 _ _ rfl (.write rfl rfl)) ?_
      refine .head (@Step.session _ 0 _ _ rfl (.write rfl rfl)) ?_
      refine .head (@Step.session _ 0 _ _ rfl (.unlock rfl rfl)) ?_
      exact .refl
    case view => rfl
  obtain ⟨system, hreach, hsession⟩ := hrun
  have hdelivery := updates_delivered_in_order hreach hsession
  exact ⟨system, hreach, hsession, hdelivery.2.2.2.2 rfl rfl (by decide)⟩

end GoImap.Tracker.Delivery
