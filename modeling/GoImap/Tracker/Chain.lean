import GoImap.Lib.Word
import GoImap.Lib.Edits
import GoImap.Lib.Transition
import GoImap.Tracker.Model

/-!
# The counts behind a queue of updates

A queued update was valid for the mailbox at the moment it was queued.  Read
from the client's count on, a queue therefore forms a chain of valid updates
that ends in the server's count.  This is the invariant every reader of a
session relies on, and it makes the queue a positional edit script that fits
the client's list.
-/

namespace GoImap.Tracker

open Edits

structure TrackerUpdate.Extends (update : TrackerUpdate) (count : UInt32) : Prop where
  expunge_le : update.expunge ≠ 0 → update.expunge ≤ count
  expunge_only : update.expunge ≠ 0 → update.numMessages = 0
  prev_eq : update.numMessages ≠ 0 → update.prevNumMessages = count
  le_numMessages : update.numMessages ≠ 0 → count ≤ update.numMessages

def Chain : List TrackerUpdate → UInt32 → UInt32 → Prop
  | [], count, final => count = final
  | update :: rest, count, final =>
    update.Extends count ∧ Chain rest (update.countAfter count) final

variable {count final : UInt32} {update : TrackerUpdate} {tracker next : MailboxTracker}

theorem chain_append {first second : List TrackerUpdate} :
    Chain (first ++ second) count final ↔
      ∃ middle, Chain first count middle ∧ Chain second middle final := by
  induction first generalizing count with
  | nil => simp [Chain]
  | cons update rest ih => simp [Chain, ih, and_assoc]

theorem chain_concat {updates : List TrackerUpdate} : Chain (updates ++ [update]) count final ↔
      ∃ middle, Chain updates count middle ∧ update.Extends middle ∧
        update.countAfter middle = final := by
  simp [chain_append, Chain]

/-! ## Chains as edit scripts -/

def TrackerUpdate.edit (update : TrackerUpdate) : Edit Unit :=
  if update.expunge ≠ 0 then .remove (update.expunge.toNat - 1)
  else if update.numMessages ≠ 0 then
    .append (List.replicate (update.numMessages.toNat - update.prevNumMessages.toNat) ())
  else .keep

theorem TrackerUpdate.Extends.edit_fits (h : update.Extends count) : update.edit.Fits count.toNat ∧
      update.edit.resize count.toNat = (update.countAfter count).toNat := by
  unfold TrackerUpdate.edit TrackerUpdate.countAfter
  split_ifs with hexpunge hexists
  · have hle := UInt32.le_iff_toNat_le.mp (h.expunge_le hexpunge)
    have hpos := Word.ne_zero_iff.mp hexpunge
    have hcount : count ≠ 0 := Word.ne_zero_iff.mpr (by omega)
    rw [Word.toNat_pred hcount]
    exact ⟨by simp only [Edit.Fits]; omega, rfl⟩
  · have hprev := h.prev_eq hexists
    have hle := UInt32.le_iff_toNat_le.mp (h.le_numMessages hexists)
    subst hprev
    refine ⟨trivial, ?_⟩
    simp only [Edit.resize, List.length_replicate]
    omega
  · exact ⟨trivial, rfl⟩

theorem Chain.script_fits {updates : List TrackerUpdate} (h : Chain updates count final) :
    FitsAll (updates.map TrackerUpdate.edit) count.toNat ∧
      resizeAll (updates.map TrackerUpdate.edit) count.toNat = final.toNat := by
  induction updates generalizing count with
  | nil =>
    cases h
    exact ⟨trivial, rfl⟩
  | cons update rest ih =>
    obtain ⟨hextends, hrest⟩ := h
    obtain ⟨hfits, hresize⟩ := hextends.edit_fits
    obtain ⟨hfitsRest, hresizeRest⟩ := ih hrest
    rw [List.map_cons]
    constructor
    · exact ⟨hfits, by rw [hresize]; exact hfitsRest⟩
    · rw [resizeAll_cons, hresize]
      exact hresizeRest

/-! ## The invariant of a tracker -/

structure SessionTracker.Follows (session : SessionTracker) (numMessages : UInt32) : Prop where
  count_eq : session.numMessages = numMessages
  chain : ∃ count, Chain session.queue count numMessages

def MailboxTracker.Consistent (tracker : MailboxTracker) : Prop :=
  ∀ id session, tracker.sessions id = some session →
    session.closed = false → session.Follows tracker.numMessages

theorem newMailboxTracker_consistent (numMessages : UInt32) :
    (newMailboxTracker numMessages).Consistent := by
  intro id session h
  simp [newMailboxTracker] at h

/-- Updates the exported functions build: at most one of the two counters. -/
def TrackerUpdate.SingleKind (update : TrackerUpdate) : Prop :=
  update.expunge = 0 ∨ update.numMessages = 0

namespace TrackerUpdate

@[simp] theorem stamp_expunge (update : TrackerUpdate) (count : UInt32) :
    (update.stamp count).expunge = update.expunge := by
  unfold stamp
  split_ifs <;> rfl

@[simp] theorem stamp_numMessages (update : TrackerUpdate) (count : UInt32) :
    (update.stamp count).numMessages = update.numMessages := by
  unfold stamp
  split_ifs <;> rfl

@[simp] theorem stamp_countAfter (update : TrackerUpdate) (stamped count : UInt32) :
    (update.stamp stamped).countAfter count = update.countAfter count := by
  simp [countAfter]

theorem extends_of_check (hkind : update.SingleKind)
    (h : update.check count = .ok ()) : (update.stamp count).Extends count := by
  unfold check at h
  split_ifs at h with hrange hdecrease
  refine ⟨?_, ?_, ?_, ?_⟩
  · rw [stamp_expunge]
    intro hne
    exact UInt32.not_lt.mp fun hlt => hrange ⟨hne, hlt⟩
  · rw [stamp_expunge, stamp_numMessages]
    intro hne
    exact hkind.resolve_left hne
  · rw [stamp_numMessages]
    intro hne
    simp [stamp, hne]
  · rw [stamp_numMessages]
    intro hne
    exact UInt32.not_lt.mp fun hlt => hdecrease ⟨hne, hlt⟩

end TrackerUpdate

namespace MailboxTracker

theorem queueUpdate_ok {source : Option SessionId}
    (h : tracker.queueUpdate update source = .ok next) :
    update.check tracker.numMessages = .ok () ∧
      next.numMessages = update.countAfter tracker.numMessages ∧
      next.nextSession = tracker.nextSession ∧
      ∀ id, next.sessions id = (tracker.sessions id).map fun session =>
        if session.closed then session
        else
          session.queueUpdate (update.stamp tracker.numMessages)
            next.numMessages (source == some id) := by
  unfold queueUpdate at h
  cases hcheck : update.check tracker.numMessages with
  | error text =>
    rw [hcheck] at h
    cases h
  | ok accepted =>
    rw [hcheck] at h
    cases h
    exact ⟨rfl, rfl, rfl, fun id => rfl⟩

theorem open_before {id : SessionId} {session : SessionTracker} {skip : Bool}
    (hsessions : next.sessions id = (tracker.sessions id).map fun session =>
      if session.closed then session else session.queueUpdate update count skip)
    (hsession : next.sessions id = some session) (hopen : session.closed = false) :
    ∃ earlier, tracker.sessions id = some earlier ∧ earlier.closed = false ∧
      session = earlier.queueUpdate update count skip := by
  rw [hsessions] at hsession
  obtain ⟨earlier, hearlier, rfl⟩ := Option.map_eq_some_iff.mp hsession
  cases hclosed : earlier.closed with
  | true => simp [hclosed] at hopen
  | false => exact ⟨earlier, hearlier, hclosed, by simp⟩

theorem queueUpdate_chain {source : Option SessionId} (hkind : update.SingleKind)
    (hsource : source ≠ none → update.expunge = 0 ∧ update.numMessages = 0)
    (h : tracker.queueUpdate update source = .ok next) {id : SessionId} {session : SessionTracker}
    (hsession : next.sessions id = some session) (hopen : session.closed = false) :
    ∃ earlier, tracker.sessions id = some earlier ∧ earlier.closed = false ∧
      session.numMessages = next.numMessages ∧ ∀ count,
        Chain earlier.queue count tracker.numMessages →
          Chain session.queue count next.numMessages := by
  obtain ⟨hcheck, hcount, -, hsessions⟩ := queueUpdate_ok h
  obtain ⟨earlier, hearlier, hclosed, rfl⟩ := open_before (hsessions id) hsession hopen
  refine ⟨earlier, hearlier, hclosed, ?_⟩
  unfold SessionTracker.queueUpdate
  split_ifs with hskip
  · have hnone : source ≠ none := by
      rintro rfl
      simp at hskip
    have hstay : next.numMessages = tracker.numMessages := by
      rw [hcount]
      simp [TrackerUpdate.countAfter, hsource hnone]
    exact ⟨rfl, fun count hchain => by rwa [hstay]⟩
  · refine ⟨rfl, fun count hchain => chain_concat.mpr
      ⟨_, hchain, TrackerUpdate.extends_of_check hkind hcheck, ?_⟩⟩
    rw [TrackerUpdate.stamp_countAfter, hcount]

theorem queueUpdate_consistent {source : Option SessionId} (hkind : update.SingleKind)
    (hsource : source ≠ none → update.expunge = 0 ∧ update.numMessages = 0)
    (h : tracker.queueUpdate update source = .ok next)
    (hinv : tracker.Consistent) : next.Consistent := by
  intro id session hsession hopen
  obtain ⟨earlier, hearlier, hclosed, hcount, hchain⟩ :=
    queueUpdate_chain hkind hsource h hsession hopen
  obtain ⟨-, count, hbefore⟩ := hinv id earlier hearlier hclosed
  exact ⟨hcount, count, hchain count hbefore⟩

def Kept (P : MailboxTracker → Prop) : Prop :=
  ∀ ⦃tracker next update⦄, TrackerUpdate.SingleKind update →
    tracker.queueUpdate update none = .ok next → P tracker → P next

theorem kept_consistent : Kept Consistent := fun _ _ _ hkind h hinv =>
  queueUpdate_consistent hkind (fun hnone => absurd rfl hnone) h hinv

section Kept

variable {P : MailboxTracker → Prop} (hkept : Kept P) (hinv : P tracker)

include hkept hinv

theorem Kept.queueExpunge {seqNum : SeqNum} {uid : UID}
    (h : tracker.queueExpunge seqNum uid = .ok next) : P next := by
  unfold MailboxTracker.queueExpunge at h
  split_ifs at h
  exact hkept (.inr rfl) h hinv

theorem Kept.queueNumMessages {numMessages : UInt32}
    (h : tracker.queueNumMessages numMessages = .ok next) : P next := by
  unfold MailboxTracker.queueNumMessages at h
  split_ifs at h
  · cases h
    exact hinv
  · exact hkept (.inl rfl) h hinv

end Kept

theorem modifySession_consistent {id : SessionId} {change : SessionTracker → SessionTracker}
    (hchange : ∀ session, session.closed = false →
      session.Follows tracker.numMessages → (change session).closed = false →
      (change session).Follows tracker.numMessages)
    (hclosed : ∀ session, session.closed = true → (change session).closed = true)
    (hinv : tracker.Consistent) :
    (tracker.modifySession id change).Consistent := by
  intro other session hsession hopen
  simp only [modifySession] at hsession ⊢
  by_cases hsame : other = id
  · subst hsame
    rw [Function.update_self] at hsession
    obtain ⟨before, hbefore, rfl⟩ := Option.map_eq_some_iff.mp hsession
    have hopenBefore : before.closed = false := by
      by_contra hclosedBefore
      rw [Bool.not_eq_false] at hclosedBefore
      rw [hclosed before hclosedBefore] at hopen
      cases hopen
    exact hchange before hopenBefore (hinv other before hbefore hopenBefore) hopen
  · rw [Function.update_of_ne hsame] at hsession
    exact hinv other session hsession hopen

theorem newSession_consistent (hinv : tracker.Consistent) : tracker.newSession.2.Consistent := by
  intro id session hsession hopen
  simp only [newSession] at hsession ⊢
  by_cases hsame : id = tracker.nextSession
  · subst hsame
    rw [Function.update_self] at hsession
    cases hsession
    exact ⟨rfl, tracker.numMessages, rfl⟩
  · rw [Function.update_of_ne hsame] at hsession
    exact hinv id session hsession hopen

theorem closeSession_consistent (id : SessionId) (hinv : tracker.Consistent) :
    (tracker.closeSession id).Consistent := by
  apply modifySession_consistent _ _ hinv
  · intro session _ _ hopen
    simp [SessionTracker.close] at hopen
  · intro session _
    rfl

end MailboxTracker

theorem SessionTracker.dequeue_append (session : SessionTracker) (allowExpunge : Bool) :
    (session.dequeue allowExpunge).1 ++ (session.dequeue allowExpunge).2.queue = session.queue := by
  cases allowExpunge with
  | false | true => simp [SessionTracker.dequeue]

theorem SessionTracker.dequeue_numMessages (session : SessionTracker) (allowExpunge : Bool) :
    (session.dequeue allowExpunge).2.numMessages = session.numMessages := by
  cases allowExpunge <;> rfl

theorem SessionTracker.dequeue_closed (session : SessionTracker) (allowExpunge : Bool) :
    (session.dequeue allowExpunge).2.closed = session.closed := by
  cases allowExpunge <;> rfl

theorem MailboxTracker.pollSession_consistent (id : SessionId)
    (allowExpunge : Bool) (hinv : tracker.Consistent) :
    (tracker.pollSession id allowExpunge).Consistent := by
  apply modifySession_consistent _ _ hinv
  · rintro session - ⟨hcount, count, hchain⟩ -
    rw [← session.dequeue_append allowExpunge] at hchain
    obtain ⟨middle, -, hrest⟩ := chain_append.mp hchain
    exact ⟨by rw [SessionTracker.dequeue_numMessages, hcount], middle, hrest⟩
  · intro session hclosed
    rw [SessionTracker.dequeue_closed, hclosed]

/-! ## Runs of a tracker -/

inductive Operation where
  | newSession
  | close (id : SessionId)
  | queueExpunge (seqNum : SeqNum) (uid : UID)
  | queueNumMessages (numMessages : UInt32)
  | queueMailboxFlags (flags : Option (List Flag))
  | queueMessageFlags (seqNum : SeqNum) (uid : UID) (flags : List Flag)
      (modSeq : ModSeq) (source : Option SessionId)
  | poll (id : SessionId) (allowExpunge : Bool)

def Operation.perform (tracker : MailboxTracker) : Operation → Except String MailboxTracker
  | .newSession => .ok tracker.newSession.2
  | .close id => .ok (tracker.closeSession id)
  | .queueExpunge seqNum uid => tracker.queueExpunge seqNum uid
  | .queueNumMessages numMessages => tracker.queueNumMessages numMessages
  | .queueMailboxFlags flags => tracker.queueMailboxFlags flags
  | .queueMessageFlags seqNum uid flags modSeq source =>
    tracker.queueMessageFlags seqNum uid flags modSeq source
  | .poll id allowExpunge => .ok (tracker.pollSession id allowExpunge)

def Step (tracker next : MailboxTracker) : Prop :=
  ∃ operation : Operation, operation.perform tracker = .ok next

def Reachable (tracker : MailboxTracker) : Prop := ∃ numMessages,
    Relation.ReflTransGen Step (newMailboxTracker numMessages) tracker

def performAll (tracker : MailboxTracker) (operations : List Operation) :
    Except String MailboxTracker :=
  operations.foldlM (fun current operation => operation.perform current) tracker

theorem reachable_of_performAll {numMessages : UInt32} {operations : List Operation}
    (h : performAll (newMailboxTracker numMessages) operations = .ok tracker) :
    Reachable tracker := by
  refine ⟨numMessages, ?_⟩
  unfold performAll at h
  generalize newMailboxTracker numMessages = start at h ⊢
  induction operations generalizing start with
  | nil =>
    cases h
    exact .refl
  | cons operation rest ih =>
    rw [List.foldlM_cons] at h
    cases hperform : operation.perform start with
    | error text =>
      rw [hperform] at h
      cases h
    | ok next =>
      rw [hperform] at h
      exact .head ⟨operation, hperform⟩ (ih next h)

theorem step_consistent (hstep : Step tracker next)
    (hinv : tracker.Consistent) : next.Consistent := by
  obtain ⟨operation, hperform⟩ := hstep
  cases operation with
  | newSession =>
    cases hperform
    exact MailboxTracker.newSession_consistent hinv
  | close id =>
    cases hperform
    exact MailboxTracker.closeSession_consistent id hinv
  | queueExpunge seqNum uid =>
    exact MailboxTracker.kept_consistent.queueExpunge hinv hperform
  | queueNumMessages numMessages =>
    exact MailboxTracker.kept_consistent.queueNumMessages hinv hperform
  | queueMailboxFlags flags =>
    simp only [Operation.perform, MailboxTracker.queueMailboxFlags] at hperform
    exact MailboxTracker.kept_consistent (.inl rfl) hperform hinv
  | queueMessageFlags seqNum uid flags modSeq source =>
    simp only [Operation.perform, MailboxTracker.queueMessageFlags] at hperform
    exact MailboxTracker.queueUpdate_consistent (.inl rfl) (fun _ => ⟨rfl, rfl⟩) hperform hinv
  | poll id allowExpunge =>
    cases hperform
    exact MailboxTracker.pollSession_consistent id allowExpunge hinv

theorem Reachable.consistent (h : Reachable tracker) : tracker.Consistent := by
  obtain ⟨numMessages, hrun⟩ := h
  exact Transition.invariant_of_step MailboxTracker.Consistent
    (fun _ _ hstep hinv => step_consistent hstep hinv) hrun
    (newMailboxTracker_consistent numMessages)

end GoImap.Tracker
