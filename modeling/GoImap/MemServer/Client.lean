import GoImap.Tracker.Translation

/-!
# The list a client holds

A client keeps the UIDs of a mailbox in order.  EXPUNGE takes the entry at a
position away and EXISTS makes the list longer: the new entries are the
messages that arrived in the meantime, in the order of their arrival.
-/

namespace GoImap.MemServer

open Tracker Edits

structure ClientList where
  held : List UID
  fresh : List UID
  deriving DecidableEq, Repr

variable {update : TrackerUpdate}

namespace ClientList

def apply (client : ClientList) (update : TrackerUpdate) : ClientList :=
  if update.expunge ≠ 0 then
    { client with held := client.held.eraseIdx (update.expunge.toNat - 1) }
  else if update.numMessages ≠ 0 then
    let count := update.numMessages.toNat - client.held.length
    { held := client.held ++ client.fresh.take count, fresh := client.fresh.drop count }
  else client

def applyAll (client : ClientList) (updates : List TrackerUpdate) : ClientList :=
  updates.foldl apply client

@[simp] theorem applyAll_cons (client : ClientList) (update : TrackerUpdate)
    (updates : List TrackerUpdate) :
    client.applyAll (update :: updates) = (client.apply update).applyAll updates := rfl

theorem apply_expunge (client : ClientList) (h : update.expunge ≠ 0) :
    client.apply update = ⟨client.held.eraseIdx (update.expunge.toNat - 1), client.fresh⟩ :=
  if_pos h

theorem apply_numMessages {held arrived fresh : List UID}
    (hexpunge : update.expunge = 0) (hcount : update.numMessages ≠ 0)
    (hlength : update.numMessages.toNat = held.length + arrived.length) :
    apply ⟨held, arrived ++ fresh⟩ update = ⟨held ++ arrived, fresh⟩ := by
  simp [apply, hexpunge, hcount, hlength]

theorem apply_other (client : ClientList) (hexpunge : update.expunge = 0)
    (hcount : update.numMessages = 0) : client.apply update = client := by
  simp [apply, hexpunge, hcount]

end ClientList

/--
The updates fit the client's list one after the other, use up the messages
that have arrived, and lead to the given list.
-/
inductive Leads : List TrackerUpdate → ClientList → List UID → Prop
  | done {held : List UID} : Leads [] ⟨held, []⟩ held
  | expunge {update : TrackerUpdate} {rest : List TrackerUpdate}
      {held fresh final : List UID} (hexpunge : update.expunge ≠ 0)
      (hle : update.expunge.toNat ≤ held.length)
      (hrest : Leads rest ⟨held.eraseIdx (update.expunge.toNat - 1), fresh⟩ final) :
      Leads (update :: rest) ⟨held, fresh⟩ final
  | numMessages {update : TrackerUpdate} {rest : List TrackerUpdate}
      {held arrived fresh final : List UID} (hexpunge : update.expunge = 0)
      (hcount : update.numMessages ≠ 0)
      (hlength : update.numMessages.toNat = held.length + arrived.length)
      (hrest : Leads rest ⟨held ++ arrived, fresh⟩ final) :
      Leads (update :: rest) ⟨held, arrived ++ fresh⟩ final
  | other {update : TrackerUpdate} {rest : List TrackerUpdate}
      {client : ClientList} {final : List UID} (hexpunge : update.expunge = 0)
      (hcount : update.numMessages = 0) (hrest : Leads rest client final) :
      Leads (update :: rest) client final

namespace Leads

variable {updates rest : List TrackerUpdate} {client : ClientList} {final : List UID}

theorem drop (h : Leads (updates ++ rest) client final) :
    Leads rest (client.applyAll updates) final := by
  induction updates generalizing client with
  | nil => exact h
  | cons update updates ih =>
    rw [ClientList.applyAll_cons]
    cases h with
    | expunge hexpunge _ hrest =>
      rw [ClientList.apply_expunge _ hexpunge]
      exact ih hrest
    | numMessages hexpunge hcount hlength hrest =>
      rw [ClientList.apply_numMessages hexpunge hcount hlength]
      exact ih hrest
    | other hexpunge hcount hrest =>
      rw [ClientList.apply_other _ hexpunge hcount]
      exact ih hrest

theorem applyAll_eq (h : Leads updates client final) : client.applyAll updates = ⟨final, []⟩ := by
  rw [← List.append_nil updates] at h
  generalize hclient : client.applyAll updates = result
  have hdone := h.drop
  rw [hclient] at hdone
  cases hdone
  rfl

theorem concat_expunge (h : Leads updates client final) (update : TrackerUpdate)
    (hexpunge : update.expunge ≠ 0) (hle : update.expunge.toNat ≤ final.length) :
    Leads (updates ++ [update]) client (final.eraseIdx (update.expunge.toNat - 1)) := by
  induction h with
  | done => exact .expunge hexpunge hle .done
  | expunge hexpunge' hle' _ ih => exact .expunge hexpunge' hle' (ih hle)
  | numMessages hexpunge' hcount hlength _ ih =>
    exact .numMessages hexpunge' hcount hlength (ih hle)
  | other hexpunge' hcount _ ih => exact .other hexpunge' hcount (ih hle)

theorem concat_numMessages {uid : UID} (h : Leads updates client final)
    (hexpunge : update.expunge = 0) (hcount : update.numMessages ≠ 0)
    (hlength : update.numMessages.toNat = final.length + 1) :
    Leads (updates ++ [update]) { client with fresh := client.fresh ++ [uid] }
      (final ++ [uid]) := by
  induction h with
  | @done held =>
    have hone : Leads [update] ⟨held, [uid] ++ []⟩ (held ++ [uid]) :=
      .numMessages hexpunge hcount (by simpa using hlength) .done
    exact hone
  | expunge hexpunge' hle _ ih => exact .expunge hexpunge' hle (ih hlength)
  | @numMessages _ _ _ arrived fresh _ hexpunge' hcount' hlength' _ ih =>
    rw [List.append_assoc]
    exact .numMessages hexpunge' hcount' hlength' (ih hlength)
  | other hexpunge' hcount' _ ih => exact .other hexpunge' hcount' (ih hlength)

/-! ## Numbers and messages -/

theorem exists_script (h : Leads updates client final) :
    ∃ script : List (Edit UID), FitsAll script client.held.length ∧
      Edits.applyAll script client.held = final ∧
      ∀ position, forwardAll script position =
        forwardAll (updates.map TrackerUpdate.edit) position := by
  induction h with
  | done => exact ⟨[], trivial, rfl, fun _ => rfl⟩
  | @expunge update _ held _ _ hexpunge hle _ ih =>
    obtain ⟨script, hfits, happly, hforward⟩ := ih
    have hpos := Word.ne_zero_iff.mp hexpunge
    have hlt : update.expunge.toNat - 1 < held.length := by omega
    refine ⟨.remove (update.expunge.toNat - 1) :: script, ⟨hlt, ?_⟩, happly, fun position => ?_⟩
    · rwa [List.length_eraseIdx, if_pos hlt] at hfits
    · have hedit : update.edit = .remove (update.expunge.toNat - 1) :=
        if_pos hexpunge
      simp [hedit, forwardAll, Edit.forward, funext hforward]
  | @numMessages update _ _ arrived _ _ hexpunge hcount _ _ ih =>
    obtain ⟨script, hfits, happly, hforward⟩ := ih
    refine ⟨.append arrived :: script, ⟨trivial, ?_⟩, happly, fun position => ?_⟩
    · rwa [List.length_append] at hfits
    · simp [TrackerUpdate.edit, hexpunge, hcount, forwardAll, Edit.forward, hforward]
  | other hexpunge hcount _ ih =>
    obtain ⟨script, hfits, happly, hforward⟩ := ih
    refine ⟨.keep :: script, ⟨trivial, hfits⟩, happly, fun position => ?_⟩
    simp [TrackerUpdate.edit, hexpunge, hcount, forwardAll, Edit.forward, hforward]

theorem getElem?_decodeWalk (h : Leads updates client final) {seqNum : SeqNum} (hseq : seqNum ≠ 0)
    (hle : seqNum.toNat ≤ client.held.length) (hne : SessionTracker.decodeWalk updates seqNum ≠ 0) :
    final[(SessionTracker.decodeWalk updates seqNum).toNat - 1]? =
      client.held[seqNum.toNat - 1]? := by
  obtain ⟨script, hfits, rfl, hforward⟩ := h.exists_script
  have hwalk := SessionTracker.decodeWalk_forward updates hseq
  rw [if_neg hne, ← hforward] at hwalk
  have hpos := Word.ne_zero_iff.mp hseq
  exact getElem?_applyAll hfits (by omega) hwalk

end Leads

end GoImap.MemServer
