import GoImap.Tracker.Chain

/-!
# Exactness of sequence-number translation

On a chain of updates the forward walk of `decodeSeqNum` and the backward walks
of `encodeSeqNum` and `encodeNumMessages` compute the position maps of the
edit script the queue denotes.  The maps of a script that fits are inverse to
each other, and so are the walks.
-/

namespace GoImap.Tracker

open Edits

namespace SessionTracker

/-! ## The walks as position maps -/

variable {seqNum : SeqNum} {count numMessages : UInt32} {session : SessionTracker}

theorem decodeWalk_forward (updates : List TrackerUpdate) (hseq : seqNum ≠ 0) :
    forwardAll (updates.map TrackerUpdate.edit) (seqNum.toNat - 1) =
      if decodeWalk updates seqNum = 0 then none
      else some ((decodeWalk updates seqNum).toNat - 1) := by
  induction updates generalizing seqNum with
  | nil => simp [forwardAll, decodeWalk, hseq]
  | cons update rest ih =>
    have hpos := Word.ne_zero_iff.mp hseq
    rw [List.map_cons, forwardAll, decodeWalk]
    by_cases hexpunge : update.expunge = 0
    · have hkeep : update.edit.forward (seqNum.toNat - 1) = some (seqNum.toNat - 1) := by
        simp only [TrackerUpdate.edit, hexpunge, ne_eq, not_true_eq_false, if_false]
        split_ifs <;> rfl
      rw [hkeep, if_pos hexpunge]
      exact ih hseq
    · have hexpungePos := Word.ne_zero_iff.mp hexpunge
      rw [if_neg hexpunge]
      simp only [TrackerUpdate.edit, ne_eq, hexpunge, not_false_eq_true, if_true, Edit.forward]
      by_cases hsame : seqNum = update.expunge
      · rw [if_pos hsame, if_pos (by rw [hsame])]
        rfl
      · have hne : seqNum.toNat ≠ update.expunge.toNat :=
          fun h => hsame (UInt32.toNat_inj.mp h)
        rw [if_neg hsame, if_neg (by omega)]
        by_cases hgt : seqNum > update.expunge
        · have hgtNat := UInt32.lt_iff_toNat_lt.mp hgt
          have hpred := Word.toNat_pred hseq
          have hpredNe : seqNum - 1 ≠ 0 := Word.ne_zero_iff.mpr (by omega)
          rw [if_pos hgt, if_pos (by omega), ← ih hpredNe, hpred]
          rfl
        · have hleNat : ¬update.expunge.toNat < seqNum.toNat :=
            fun h => hgt (UInt32.lt_iff_toNat_lt.mpr h)
          rw [if_neg hgt, if_neg (by omega)]
          exact ih hseq

def DecodeNoWrap : List TrackerUpdate → SeqNum → Prop
  | [], _ => True
  | update :: rest, seqNum =>
    if update.expunge = 0 then DecodeNoWrap rest seqNum
    else if seqNum = update.expunge then True
    else if seqNum > update.expunge then
      0 < seqNum.toNat ∧ DecodeNoWrap rest (seqNum - 1)
    else DecodeNoWrap rest seqNum

theorem decodeNoWrap (updates : List TrackerUpdate) (seqNum : SeqNum) :
    DecodeNoWrap updates seqNum := by
  induction updates generalizing seqNum with
  | nil => trivial
  | cons update rest ih =>
    rw [DecodeNoWrap]
    split_ifs with hexpunge hsame hgt
    · exact ih seqNum
    · have hlt := UInt32.lt_iff_toNat_lt.mp hgt
      exact ⟨by omega, ih _⟩
    · exact ih seqNum

def EncodeNoWrap : List TrackerUpdate → SeqNum → Prop
  | [], _ => True
  | update :: rest, seqNum =>
    if update.numMessages ≠ 0 ∧ seqNum > update.prevNumMessages ∧
        seqNum ≤ update.numMessages then True
    else if update.expunge ≠ 0 ∧ seqNum ≥ update.expunge then
      seqNum.toNat + 1 < 2 ^ 32 ∧ EncodeNoWrap rest (seqNum + 1)
    else EncodeNoWrap rest seqNum

theorem encodeStep_backward {update : TrackerUpdate} (hextends : update.Extends count)
    (hseq : seqNum ≠ 0) (hle : seqNum ≤ update.countAfter count) :
    if update.numMessages ≠ 0 ∧ seqNum > update.prevNumMessages ∧ seqNum ≤ update.numMessages then
      update.edit.backward count.toNat (seqNum.toNat - 1) = none
    else if update.expunge ≠ 0 ∧ seqNum ≥ update.expunge then
      seqNum.toNat + 1 < 2 ^ 32 ∧ seqNum + 1 ≤ count ∧
        update.edit.backward count.toNat (seqNum.toNat - 1) = some ((seqNum + 1).toNat - 1)
    else
      seqNum ≤ count ∧ update.edit.backward count.toNat (seqNum.toNat - 1) =
          some (seqNum.toNat - 1) := by
  have hpos := Word.ne_zero_iff.mp hseq
  have hcountLt := count.toNat_lt
  rw [UInt32.le_iff_toNat_le] at hle
  by_cases hexpunge : update.expunge = 0
  · by_cases hexists : update.numMessages = 0
    · simp only [TrackerUpdate.countAfter, hexpunge, hexists, ne_eq,
        not_true_eq_false, if_false] at hle
      simp [hexpunge, hexists, TrackerUpdate.edit, Edit.backward, UInt32.le_iff_toNat_le, hle]
    · have hprev := hextends.prev_eq hexists
      have hgrow := UInt32.le_iff_toNat_le.mp (hextends.le_numMessages hexists)
      simp only [TrackerUpdate.countAfter, hexpunge, ne_eq, not_true_eq_false,
        if_false, hexists, not_false_eq_true, if_true] at hle
      simp only [hexists, hexpunge, hprev, TrackerUpdate.edit, Edit.backward, ne_eq,
        not_true_eq_false, not_false_eq_true, true_and, false_and, if_false, if_true, gt_iff_lt,
        UInt32.lt_iff_toNat_lt, UInt32.le_iff_toNat_le, hle, and_true]
      split_ifs with hnew hold hold
      · rfl
      · omega
      · omega
      · exact ⟨by omega, rfl⟩
  · have hexists := hextends.expunge_only hexpunge
    have hexpungePos := Word.ne_zero_iff.mp hexpunge
    have hbound := UInt32.le_iff_toNat_le.mp (hextends.expunge_le hexpunge)
    have hcountNe : count ≠ 0 := Word.ne_zero_iff.mpr (by omega)
    simp only [TrackerUpdate.countAfter, hexpunge, ne_eq, not_false_eq_true,
      if_true, Word.toNat_pred hcountNe] at hle
    have hsucc : (seqNum + 1).toNat = seqNum.toNat + 1 := Word.toNat_succ count (by omega)
    simp only [hexists, hexpunge, TrackerUpdate.edit, Edit.backward, ne_eq,
      not_true_eq_false, not_false_eq_true, true_and, false_and, if_false,
      if_true, ge_iff_le, UInt32.le_iff_toNat_le, hsucc, Option.some.injEq]
    split_ifs <;> refine ⟨?_, ?_⟩ <;> omega

theorem encodeWalk_backward {updates : List TrackerUpdate} {final : UInt32}
    (hchain : Chain updates count final) (hseq : seqNum ≠ 0) (hle : seqNum ≤ final) :
    EncodeNoWrap updates.reverse seqNum ∧ encodeWalk updates.reverse seqNum ≤ count ∧
      backwardAll (updates.map TrackerUpdate.edit) count.toNat (seqNum.toNat - 1) =
        if encodeWalk updates.reverse seqNum = 0 then none
        else some ((encodeWalk updates.reverse seqNum).toNat - 1) := by
  induction updates using List.reverseRecOn generalizing final seqNum with
  | nil =>
    cases hchain
    simp [EncodeNoWrap, encodeWalk, backwardAll, hseq, hle]
  | append_singleton updates update ih =>
    obtain ⟨middle, hbefore, hextends, rfl⟩ := chain_concat.mp hchain
    have hstep := encodeStep_backward hextends hseq hle
    have hsize := hbefore.script_fits.2
    rw [List.reverse_append, List.reverse_singleton, List.singleton_append, EncodeNoWrap,
      encodeWalk, List.map_append, List.map_singleton, backwardAll_concat, hsize]
    by_cases hnew : update.numMessages ≠ 0 ∧
        seqNum > update.prevNumMessages ∧ seqNum ≤ update.numMessages
    · rw [if_pos hnew] at hstep
      rw [if_pos hnew, if_pos hnew, hstep]
      exact ⟨trivial, by simp, rfl⟩
    · rw [if_neg hnew] at hstep
      rw [if_neg hnew, if_neg hnew]
      by_cases hshift : update.expunge ≠ 0 ∧ seqNum ≥ update.expunge
      · rw [if_pos hshift] at hstep
        obtain ⟨hroom, hnext, hback⟩ := hstep
        have hnextNe : seqNum + 1 ≠ 0 := by
          rw [Word.ne_zero_iff, UInt32.toNat_add]
          simp
          omega
        rw [if_pos hshift, if_pos hshift, hback, Option.bind_some]
        obtain ⟨hnoWrap, hbound, hall⟩ := ih hbefore hnextNe hnext
        exact ⟨⟨hroom, hnoWrap⟩, hbound, hall⟩
      · rw [if_neg hshift] at hstep
        obtain ⟨hnext, hback⟩ := hstep
        rw [if_neg hshift, if_neg hshift, hback, Option.bind_some]
        exact ih hbefore hseq hnext

def EncodeCountNoWrap : List TrackerUpdate → UInt32 → Prop
  | [], _ => True
  | update :: rest, count =>
    let undone :=
      if update.numMessages ≠ 0 then update.prevNumMessages else count
    if update.expunge ≠ 0 then
      undone.toNat + 1 < 2 ^ 32 ∧ EncodeCountNoWrap rest (undone + 1)
    else EncodeCountNoWrap rest undone

theorem encodeCountWalk_eq {updates : List TrackerUpdate} {final : UInt32}
    (hchain : Chain updates count final) :
    EncodeCountNoWrap updates.reverse final ∧ encodeCountWalk updates.reverse final = count := by
  induction updates using List.reverseRecOn generalizing final with
  | nil =>
    cases hchain
    exact ⟨trivial, rfl⟩
  | append_singleton updates update ih =>
    obtain ⟨middle, hbefore, hextends, rfl⟩ := chain_concat.mp hchain
    rw [List.reverse_append, List.reverse_singleton, List.singleton_append,
      EncodeCountNoWrap, encodeCountWalk]
    by_cases hexpunge : update.expunge = 0
    · by_cases hexists : update.numMessages = 0
      · simpa [hexpunge, hexists, TrackerUpdate.countAfter] using ih hbefore
      · simpa [hexpunge, hexists, hextends.prev_eq hexists] using ih hbefore
    · have hexists := hextends.expunge_only hexpunge
      have hexpungePos := Word.ne_zero_iff.mp hexpunge
      have hbound := UInt32.le_iff_toNat_le.mp (hextends.expunge_le hexpunge)
      have hmiddleNe : middle ≠ 0 := Word.ne_zero_iff.mpr (by omega)
      have hpred := Word.toNat_pred hmiddleNe
      have hmiddleLt := middle.toNat_lt
      have hrestore : middle - 1 + 1 = middle := by simp
      simp only [hexists, hexpunge, TrackerUpdate.countAfter, ne_eq,
        not_true_eq_false, not_false_eq_true, if_false, if_true, hrestore]
      obtain ⟨hnoWrap, hcount⟩ := ih hbefore
      exact ⟨⟨by omega, hnoWrap⟩, hcount⟩

/-! ## Exactness on a session -/

theorem encodeSeqNum_ne_zero (h : session.encodeSeqNum seqNum ≠ 0) :
    seqNum ≠ 0 ∧ seqNum ≤ session.numMessages := by
  unfold encodeSeqNum at h
  split_ifs at h with hzero hclosed hgt
  · simp at h
  · simp at h
  · simp at h
  · exact ⟨hzero, UInt32.not_lt.mp hgt⟩

theorem decodeSeqNum_ne_zero (h : session.decodeSeqNum seqNum ≠ 0) :
    seqNum ≠ 0 ∧ session.decodeSeqNum seqNum = decodeWalk session.queue seqNum := by
  unfold decodeSeqNum at h ⊢
  simp only at h ⊢
  split_ifs at h ⊢ with hzero hclosed hgt
  · simp at h
  · simp at h
  · simp at h
  · exact ⟨hzero, rfl⟩

section Open

variable (h : session.Follows numMessages) (hopen : session.closed = false)

include h hopen

theorem Follows.chain_from_client :
    Chain session.queue session.encodeNumMessages session.numMessages := by
  obtain ⟨hcount, count, hchain⟩ := h
  rw [← hcount] at hchain
  have hclient : session.encodeNumMessages = count := by
    simp [encodeNumMessages, hopen, (encodeCountWalk_eq hchain).2]
  rw [hclient]
  exact hchain

theorem decodeSeqNum_eq_forward (hseq : seqNum ≠ 0) (hle : seqNum ≤ session.encodeNumMessages) :
    forwardAll (session.queue.map TrackerUpdate.edit) (seqNum.toNat - 1) =
      if session.decodeSeqNum seqNum = 0 then none
      else some ((session.decodeSeqNum seqNum).toNat - 1) := by
  have hwalk := decodeWalk_forward session.queue hseq
  have hchain := h.chain_from_client hopen
  obtain ⟨hfits, hsize⟩ := hchain.script_fits
  have hpos := Word.ne_zero_iff.mp hseq
  rw [UInt32.le_iff_toNat_le] at hle
  have hin : ¬decodeWalk session.queue seqNum > session.numMessages := by
    intro hgt
    have hgtNat := UInt32.lt_iff_toNat_lt.mp hgt
    have hne : decodeWalk session.queue seqNum ≠ 0 := Word.ne_zero_iff.mpr (by omega)
    rw [if_neg hne] at hwalk
    have hlt := (backwardAll_of_forwardAll hfits (by omega) hwalk).1
    omega
  simp only [decodeSeqNum, hseq, hopen, if_false, Bool.false_eq_true, hin]
  exact hwalk

theorem encodeSeqNum_eq_backward (hseq : seqNum ≠ 0) (hle : seqNum ≤ session.numMessages) :
    session.encodeSeqNum seqNum ≤ session.encodeNumMessages ∧
      backwardAll (session.queue.map TrackerUpdate.edit)
          session.encodeNumMessages.toNat (seqNum.toNat - 1) =
        if session.encodeSeqNum seqNum = 0 then none
        else some ((session.encodeSeqNum seqNum).toNat - 1) := by
  have hchain := h.chain_from_client hopen
  obtain ⟨-, hbound, hback⟩ := encodeWalk_backward hchain hseq hle
  have hin : ¬seqNum > session.numMessages := UInt32.not_lt.mpr hle
  simp only [encodeSeqNum, hseq, hopen, if_false, Bool.false_eq_true, hin]
  exact ⟨hbound, hback⟩

theorem decode_encode (hne : session.encodeSeqNum seqNum ≠ 0) :
    session.encodeSeqNum seqNum ≤ session.encodeNumMessages ∧
      session.decodeSeqNum (session.encodeSeqNum seqNum) = seqNum := by
  obtain ⟨hseq, hle⟩ := encodeSeqNum_ne_zero hne
  obtain ⟨hbound, hback⟩ := encodeSeqNum_eq_backward h hopen hseq hle
  refine ⟨hbound, ?_⟩
  obtain ⟨hfits, hsize⟩ := (h.chain_from_client hopen).script_fits
  have hpos := Word.ne_zero_iff.mp hseq
  rw [UInt32.le_iff_toNat_le] at hle
  rw [if_neg hne] at hback
  have hforward := (forwardAll_of_backwardAll hfits (by omega) hback).2
  rw [decodeSeqNum_eq_forward h hopen hne hbound] at hforward
  split_ifs at hforward with hzero
  have hdecodedPos := Word.ne_zero_iff.mp hzero
  rw [Option.some.injEq] at hforward
  apply UInt32.toNat_inj.mp
  omega

theorem encode_decode (hseq : seqNum ≠ 0) (hle : seqNum ≤ session.encodeNumMessages)
    (hne : session.decodeSeqNum seqNum ≠ 0) :
    session.encodeSeqNum (session.decodeSeqNum seqNum) = seqNum := by
  have hforward := decodeSeqNum_eq_forward h hopen hseq hle
  rw [if_neg hne] at hforward
  obtain ⟨hfits, hsize⟩ := (h.chain_from_client hopen).script_fits
  have hpos := Word.ne_zero_iff.mp hseq
  have hdecodedPos := Word.ne_zero_iff.mp hne
  rw [UInt32.le_iff_toNat_le] at hle
  obtain ⟨hlt, hback⟩ := backwardAll_of_forwardAll hfits (by omega) hforward
  have hdecodedLe : session.decodeSeqNum seqNum ≤ session.numMessages := by
    rw [UInt32.le_iff_toNat_le]
    omega
  rw [(encodeSeqNum_eq_backward h hopen hne hdecodedLe).2] at hback
  split_ifs at hback with hzero
  have hencodedPos := Word.ne_zero_iff.mp hzero
  rw [Option.some.injEq] at hback
  apply UInt32.toNat_inj.mp
  omega

end Open

/-- No addition or subtraction of the three translation functions wraps. -/
structure TranslatesWithoutWrap (session : SessionTracker) : Prop where
  decode : ∀ seqNum, DecodeNoWrap session.queue seqNum
  encode : ∀ seqNum, seqNum ≠ 0 → seqNum ≤ session.numMessages →
    EncodeNoWrap session.queue.reverse seqNum
  count : EncodeCountNoWrap session.queue.reverse session.numMessages

theorem Follows.translatesWithoutWrap (h : session.Follows numMessages)
    (hopen : session.closed = false) : session.TranslatesWithoutWrap where
  decode := decodeNoWrap session.queue
  encode := fun _ hseq hle =>
    (encodeWalk_backward (h.chain_from_client hopen) hseq hle).1
  count := (encodeCountWalk_eq (h.chain_from_client hopen)).1

end SessionTracker

/--
In every reachable tracker the two translations of an open session are inverse
to each other on the numbers the client can name, and none of their arithmetic
wraps.
-/
theorem seqNum_translation_exact {tracker : MailboxTracker} (hreach : Reachable tracker)
    {id : SessionId} {session : SessionTracker} (hsession : tracker.sessions id = some session)
    (hopen : session.closed = false) :
    (∀ server client, session.encodeSeqNum server = client → client ≠ 0 →
      1 ≤ client ∧ client ≤ session.encodeNumMessages ∧ session.decodeSeqNum client = server) ∧
    (∀ client server, 1 ≤ client → client ≤ session.encodeNumMessages →
      session.decodeSeqNum client = server → server ≠ 0 → session.encodeSeqNum server = client) ∧
    session.TranslatesWithoutWrap := by
  have hfollows := hreach.consistent id session hsession hopen
  refine ⟨?_, ?_, hfollows.translatesWithoutWrap hopen⟩
  · rintro server client rfl hne
    obtain ⟨hle, hdecode⟩ := SessionTracker.decode_encode hfollows hopen hne
    exact ⟨Word.one_le_iff.mpr hne, hle, hdecode⟩
  · rintro client server hone hle rfl hne
    exact SessionTracker.encode_decode hfollows hopen (Word.one_le_iff.mp hone) hle hne

def pendingSession : SessionTracker where
  closed := false
  numMessages := 4
  queue := [{ expunge := 1, expungeUID := 7 }, { numMessages := 4, prevNumMessages := 2 }]

theorem seqNum_translation_exact_pending : ∃ tracker, performAll (newMailboxTracker 3)
          [.newSession, .queueExpunge 1 7, .queueNumMessages 4] =
        .ok tracker ∧
      tracker.sessions 0 = some pendingSession ∧
      pendingSession.encodeSeqNum 1 = 2 ∧
      pendingSession.decodeSeqNum 2 = 1 := by
  obtain ⟨tracker, hrun, hsession⟩ : ∃ tracker, performAll (newMailboxTracker 3)
          [.newSession, .queueExpunge 1 7, .queueNumMessages 4] =
        .ok tracker ∧
      tracker.sessions 0 = some pendingSession := ⟨_, rfl, rfl⟩
  have hexact := seqNum_translation_exact (reachable_of_performAll hrun) hsession rfl
  have hencode : pendingSession.encodeSeqNum 1 = 2 := by decide
  exact ⟨tracker, hrun, hsession, hencode, (hexact.1 1 2 hencode (by decide)).2.2⟩

/-! ## The numbers a client can name -/

namespace SessionTracker

variable {session : SessionTracker} {numMessages : UInt32} {client server : SeqNum}

/-- A queued expunge removes the message `client` names in the client's view. -/
def Removes (session : SessionTracker) (client : SeqNum) : Prop :=
  forwardAll (session.queue.map TrackerUpdate.edit) (client.toNat - 1) = none

/--
The number that leads to `server` when only the queued expunges are undone: the
client's number of a message it has been told of, a number above the client's
count for one it has not.
-/
def expungesUndone (session : SessionTracker) (server : SeqNum) : Nat :=
  originAll (session.queue.map TrackerUpdate.edit) (server.toNat - 1) + 1

theorem decodeSeqNum_ne_zero_iff (h : session.Follows numMessages) (hopen : session.closed = false)
    (hone : 1 ≤ client) (hle : client ≤ session.encodeNumMessages) :
    session.decodeSeqNum client ≠ 0 ↔ ¬session.Removes client := by
  have hclient := Word.one_le_iff.mp hone
  rw [Removes, decodeSeqNum_eq_forward h hopen hclient hle]
  by_cases hzero : session.decodeSeqNum client = 0 <;> simp

theorem decodeWalk_eq_iff (hclient : client ≠ 0) (hserver : server ≠ 0) :
    decodeWalk session.queue client = server ↔ client.toNat = session.expungesUndone server := by
  have hclientPos := Word.ne_zero_iff.mp hclient
  have hserverPos := Word.ne_zero_iff.mp hserver
  have horigin : client.toNat = session.expungesUndone server ↔
      forwardAll (session.queue.map TrackerUpdate.edit) (client.toNat - 1) =
        some (server.toNat - 1) := by
    rw [forwardAll_eq_some_iff, expungesUndone]
    omega
  rw [horigin, decodeWalk_forward session.queue hclient]
  by_cases hzero : decodeWalk session.queue client = 0
  · simp [hzero, hserver.symm]
  · have hwalkPos := Word.ne_zero_iff.mp hzero
    rw [if_neg hzero, Option.some.injEq, ← UInt32.toNat_inj]
    omega

theorem decodeSeqNum_eq_iff (hopen : session.closed = false)
    (hserver : server ≠ 0) (hle : server ≤ session.numMessages) :
    session.decodeSeqNum client = server ↔ client.toNat = session.expungesUndone server := by
  by_cases hclient : client = 0
  · simp [hclient, decodeSeqNum, expungesUndone, hserver.symm]
  · rw [← decodeWalk_eq_iff hclient hserver]
    simp only [decodeSeqNum, hclient, hopen, if_false, Bool.false_eq_true]
    split_ifs with hgt
    · have hne : decodeWalk session.queue client ≠ server := by
        rintro rfl
        exact UInt32.not_lt.mpr hle hgt
      simp [hserver.symm, hne]
    · rfl

theorem decodeSeqNum_le (session : SessionTracker) (client : SeqNum) :
    session.decodeSeqNum client ≤ session.numMessages := by
  unfold decodeSeqNum
  simp only
  split_ifs with hzero hclosed hgt
  · simp [UInt32.le_iff_toNat_le]
  · simp [UInt32.le_iff_toNat_le]
  · simp [UInt32.le_iff_toNat_le]
  · exact UInt32.not_lt.mp hgt

theorem decodeSeqNum_expungesUndone (hopen : session.closed = false) (hserver : server ≠ 0)
    (hle : server ≤ session.numMessages) (hfits : session.expungesUndone server < 2 ^ 32) :
    ∃ client, client ≠ 0 ∧ client.toNat = session.expungesUndone server ∧
      session.decodeSeqNum client = server := by
  have hclient := UInt32.toNat_ofNat_of_lt' hfits
  refine ⟨UInt32.ofNat (session.expungesUndone server), ?_, hclient,
    (decodeSeqNum_eq_iff hopen hserver hle).mpr hclient⟩
  rw [Word.ne_zero_iff, hclient, expungesUndone]
  omega

theorem encodeSeqNum_ne_zero_iff (h : session.Follows numMessages) (hopen : session.closed = false)
    (hserver : server ≠ 0) (hle : server ≤ session.numMessages) :
    session.encodeSeqNum server ≠ 0 ↔
      session.expungesUndone server ≤ session.encodeNumMessages.toNat := by
  constructor
  · intro hne
    obtain ⟨hbound, hdecode⟩ := decode_encode h hopen hne
    rw [← (decodeSeqNum_eq_iff hopen hserver hle).mp hdecode]
    exact UInt32.le_iff_toNat_le.mp hbound
  · intro hbound
    have hcount := session.encodeNumMessages.toNat_lt
    obtain ⟨client, hclient, hundone, hdecode⟩ :=
      decodeSeqNum_expungesUndone hopen hserver hle (by omega)
    have hencode := encode_decode h hopen hclient
      (UInt32.le_iff_toNat_le.mpr (by omega)) (by rwa [hdecode])
    rw [hdecode] at hencode
    rwa [hencode]

end SessionTracker

/--
A number above the client's count decodes to a message that a queued update has
added: the client reaches it before it is told of it, unless the number that
leads to it does not fit in a word.
-/
theorem decodeSeqNum_nameable_iff {tracker : MailboxTracker} (hreach : Reachable tracker)
    {id : SessionId} {session : SessionTracker} (hsession : tracker.sessions id = some session)
    (hopen : session.closed = false) :
    (∀ client, session.decodeSeqNum client ≠ 0 ↔ 1 ≤ client ∧ client ≤ session.encodeNumMessages ∧
        ¬session.Removes client) ↔
    ∀ server, 1 ≤ server → server ≤ session.numMessages → session.encodeSeqNum server ≠ 0 ∨
        2 ^ 32 ≤ session.expungesUndone server := by
  have hfollows := hreach.consistent id session hsession hopen
  constructor
  · intro hnames server hone hle
    have hserver := Word.one_le_iff.mp hone
    rw [SessionTracker.encodeSeqNum_ne_zero_iff hfollows hopen hserver hle]
    by_contra hneither
    obtain ⟨hunannounced, hfits⟩ := not_or.mp hneither
    obtain ⟨client, -, hundone, hdecode⟩ :=
      SessionTracker.decodeSeqNum_expungesUndone hopen hserver hle (Nat.lt_of_not_le hfits)
    have hbound := ((hnames client).mp (by rwa [hdecode])).2.1
    rw [UInt32.le_iff_toNat_le] at hbound
    omega
  · intro hannounced client
    constructor
    · intro hne
      have hle := session.decodeSeqNum_le client
      have hundone := (SessionTracker.decodeSeqNum_eq_iff hopen hne hle).mp rfl
      have hlt := client.toNat_lt
      have hencode := (hannounced _ (Word.one_le_iff.mpr hne) hle).resolve_right (by omega)
      rw [SessionTracker.encodeSeqNum_ne_zero_iff hfollows hopen hne hle,
        ← hundone, ← UInt32.le_iff_toNat_le] at hencode
      have hone := Word.one_le_iff.mpr (SessionTracker.decodeSeqNum_ne_zero hne).1
      exact ⟨hone, hencode, (SessionTracker.decodeSeqNum_ne_zero_iff hfollows hopen hone
          hencode).mp hne⟩
    · rintro ⟨hone, hle, hkept⟩
      exact (SessionTracker.decodeSeqNum_ne_zero_iff hfollows hopen hone hle).mpr hkept

def expungedSession : SessionTracker where
  closed := false
  numMessages := 2
  queue := [{ expunge := 1, expungeUID := 7 }]

theorem decodeSeqNum_nameable_expunged : ∃ tracker,
      performAll (newMailboxTracker 3) [.newSession, .queueExpunge 1 7] = .ok tracker ∧
      tracker.sessions 0 = some expungedSession ∧
      ∀ client, expungedSession.decodeSeqNum client ≠ 0 ↔
        1 ≤ client ∧ client ≤ 3 ∧ ¬expungedSession.Removes client := by
  obtain ⟨tracker, hrun, hsession⟩ : ∃ tracker,
      performAll (newMailboxTracker 3) [.newSession, .queueExpunge 1 7] = .ok tracker ∧
      tracker.sessions 0 = some expungedSession := ⟨_, rfl, rfl⟩
  refine ⟨tracker, hrun, hsession, ?_⟩
  refine (decodeSeqNum_nameable_iff (reachable_of_performAll hrun) hsession rfl).mpr ?_
  intro server hone hle
  rw [UInt32.le_iff_toNat_le] at hone hle
  have hcases : server = 1 ∨ server = 2 := by
    simp only [← UInt32.toNat_inj]
    simp [expungedSession] at hone hle ⊢
    omega
  rcases hcases with rfl | rfl
  · exact .inl (by decide)
  · exact .inl (by decide)

def arrivedSession : SessionTracker where
  closed := false
  numMessages := 5
  queue := [{ numMessages := 5, prevNumMessages := 3 }]

theorem unannounced_decodes : ∃ tracker,
      performAll (newMailboxTracker 3) [.newSession, .queueNumMessages 5] = .ok tracker ∧
      tracker.sessions 0 = some arrivedSession ∧
      arrivedSession.encodeNumMessages = 3 ∧
      arrivedSession.decodeSeqNum 4 = 4 ∧
      ¬∀ client, arrivedSession.decodeSeqNum client ≠ 0 ↔
        1 ≤ client ∧ client ≤ arrivedSession.encodeNumMessages ∧
          ¬arrivedSession.Removes client := by
  refine ⟨_, rfl, rfl, by decide, by decide, ?_⟩
  intro hnames
  have hbound := ((hnames 4).mp (by decide)).2.1
  revert hbound
  decide

end GoImap.Tracker
