import GoImap.MemServer.ModSeq
import GoImap.MemServer.Select
import GoImap.NumSet.Collect

/-!
# Resynchronisation

A client that comes back names the HIGHESTMODSEQ it has recorded.  The answer
lists the UIDs that have vanished and the messages that have changed since
then.  Between two points of a history every message either is as it was, or is
newer than what was recorded, or has been removed after it; so the answer takes
the recorded flags to the present ones.

UIDs must not be given out twice and the modification sequence must not wrap
around.
-/

namespace GoImap.MemServer

open Tracker

abbrev FlagMap := UID → Option (Flag → Bool)

def Mailbox.flagMap (mbox : Mailbox) : FlagMap :=
  fun uid =>
    (mbox.l.find? (·.uid == uid)).map fun msg => msg.flags.contains

def FlagMap.update (known : FlagMap) (entry : SelectModifiedData) : FlagMap :=
  Function.update known entry.uid (some entry.flags.contains)

def SelectData.applyTo (data : SelectData) (known : FlagMap) : FlagMap :=
  data.modified.foldl FlagMap.update fun uid =>
    if data.vanished.contains uid then none else known uid

/-- SELECT with QRESYNC, nothing happening in between. -/
def Mailbox.qresync [CaseMapping] (mbox : Mailbox) (modSeq : ModSeq) : SelectData :=
  let (session, mbox) := mbox.newView
  View.selectData mbox
    { session := session, searchRes := [] }
    (some
      { uidValidity := mbox.uidValidity, modSeq := modSeq })

/-! ## UIDs -/

def Mailbox.usedUIDs (mbox : Mailbox) : List UID :=
  mbox.l.map Message.uid ++ mbox.expunged.map ExpungedMessage.uid

/-- UIDs are given out once, and the tracker counts every message. -/
structure Mailbox.Numbered (mbox : Mailbox) : Prop where
  bounded : ∀ msg ∈ mbox.l, msg.modSeq ≤ mbox.highestModSeq
  distinct : mbox.usedUIDs.Nodup
  below : ∀ uid ∈ mbox.usedUIDs, 0 < uid.toNat ∧ uid.toNat < mbox.uidNext.toNat
  length : mbox.l.length < mbox.uidNext.toNat
  count : mbox.l.length ≤ mbox.tracker.numMessages.toNat

theorem newMailbox_numbered (uidValidity : UInt32) : (newMailbox uidValidity).Numbered where
  bounded := by simp [newMailbox]
  distinct := by simp [newMailbox, Mailbox.usedUIDs]
  below := by simp [newMailbox, Mailbox.usedUIDs]
  length := by simp [newMailbox]
  count := by simp [newMailbox]

namespace Mailbox.Numbered

variable {mbox : Mailbox}

theorem uid_inj (h : mbox.Numbered) {first second : Message} (hfirst : first ∈ mbox.l)
    (hsecond : second ∈ mbox.l) (huid : first.uid = second.uid) : first = second :=
  List.inj_on_of_nodup_map (List.nodup_append.mp h.distinct).1 hfirst hsecond huid

theorem uid_ne_expunged (h : mbox.Numbered) {msg : Message} (hmsg : msg ∈ mbox.l)
    {gone : ExpungedMessage} (hgone : gone ∈ mbox.expunged) : msg.uid ≠ gone.uid :=
  (List.nodup_append.mp h.distinct).2.2 _ (List.mem_map_of_mem hmsg) _ (List.mem_map_of_mem hgone)

theorem flagMap_uid (h : mbox.Numbered) {msg : Message} (hmsg : msg ∈ mbox.l) :
    mbox.flagMap msg.uid = some msg.flags.contains := by
  cases hfind : mbox.l.find? (·.uid == msg.uid) with
  | none =>
    have := List.find?_eq_none.mp hfind msg hmsg
    simp at this
  | some found =>
    have huid : found.uid = msg.uid := by
      simpa using List.find?_some hfind
    rw [Mailbox.flagMap, hfind, h.uid_inj (List.mem_of_find?_eq_some hfind) hmsg huid]
    rfl

end Mailbox.Numbered

theorem Mailbox.flagMap_eq_none {mbox : Mailbox} {uid : UID} :
    mbox.flagMap uid = none ↔ ∀ msg ∈ mbox.l, msg.uid ≠ uid := by
  simp [Mailbox.flagMap]

theorem usedUIDs_removes (l : List Message) (expunged : List ExpungedMessage)
    (removed : List Nat) (modSeq : ModSeq) :
    ((l.filter (·.address ∉ removed)).map Message.uid ++
      (expunged ++ (l.filter (·.address ∈ removed)).map fun msg =>
        ({ uid := msg.uid, modSeq := modSeq } : ExpungedMessage)).map
        ExpungedMessage.uid).Perm
      (l.map Message.uid ++ expunged.map ExpungedMessage.uid) := by
  have hsplit : (l.filter (·.address ∉ removed) ++ l.filter (·.address ∈ removed)).Perm l := by
    simpa using List.filter_append_perm (fun msg : Message => decide (msg.address ∉ removed)) l
  refine List.Perm.trans ?_ ((hsplit.map Message.uid).append_right _)
  rw [List.map_append, List.map_append, List.map_map, List.append_assoc]
  exact List.perm_append_comm.append_left _

namespace Effect

variable {mbox next : Mailbox} {raised : Nat}

theorem usedUIDs_perm (h : Effect mbox raised next) :
    next.usedUIDs.Perm mbox.usedUIDs ∧ next.uidNext = mbox.uidNext ∨
      next.usedUIDs.Perm (mbox.uidNext :: mbox.usedUIDs) ∧ next.uidNext = mbox.uidNext + 1 := by
  unfold Mailbox.usedUIDs
  cases h with
  | keeps => exact .inl ⟨.refl _, rfl⟩
  | arrives tracker dropped msg address uid modSeq count =>
    rw [List.map_append, List.map_singleton, uid]
    simp
  | stores tracker dropped raised l stored most count =>
    refine .inl ⟨?_, rfl⟩
    rw [Stored.map_eq Message.uid (fun _ _ h => h.uid) stored]
  | removes tracker dropped removed count =>
    exact .inl ⟨usedUIDs_removes _ _ _ _, rfl⟩

theorem uidNext_of_le (h : mbox.uidNext ≤ mbox.uidNext + 1) :
    (mbox.uidNext + 1).toNat = mbox.uidNext.toNat + 1 := by
  rw [UInt32.le_iff_toNat_le, UInt32.toNat_add] at h
  rw [UInt32.toNat_add]
  have hlt := mbox.uidNext.toNat_lt
  simp at h ⊢
  omega

theorem length_count (h : Effect mbox raised next)
    (hnext : mbox.uidNext ≤ next.uidNext) (hmbox : mbox.Numbered) :
    next.l.length < next.uidNext.toNat ∧ next.l.length ≤ next.tracker.numMessages.toNat := by
  have hlength := hmbox.length
  have hcount := hmbox.count
  cases h with
  | keeps tracker dropped count =>
    rw [← count] at hcount
    exact ⟨hlength, hcount⟩
  | arrives tracker dropped msg address uid modSeq count =>
    have hword := uidNext_of_le hnext
    have hlt := (mbox.uidNext + 1).toNat_lt
    simp only [List.length_append, List.length_singleton]
    exact ⟨by omega, count (by omega)⟩
  | stores tracker dropped raised l stored most count =>
    rw [← count] at hcount
    rw [← stored.length_eq]
    exact ⟨hlength, hcount⟩
  | removes tracker dropped removed count =>
    have hsplit := length_removedFrom removed mbox.l 0
    have hremoved := congrArg List.length (map_removedFrom removed mbox.l 0)
    rw [List.length_map] at hremoved
    simp only
    omega

theorem numbered (h : Effect mbox raised next) (hroom : mbox.highestModSeq.toNat + raised < 2 ^ 64)
    (hnext : mbox.uidNext ≤ next.uidNext) (hmbox : mbox.Numbered) :
    next.Numbered := by
  obtain ⟨hlength, hcount⟩ := h.length_count hnext hmbox
  rcases h.usedUIDs_perm with ⟨hperm, huid⟩ | ⟨hperm, huid⟩
  · refine ⟨h.bounded hroom hmbox.bounded, hperm.nodup_iff.mpr hmbox.distinct, ?_, hlength, hcount⟩
    intro uid hmem
    rw [huid]
    exact hmbox.below uid (hperm.mem_iff.mp hmem)
  · rw [huid] at hnext
    have hword := uidNext_of_le hnext
    have hpos : 0 < mbox.uidNext.toNat := by
      have := hmbox.length
      omega
    refine ⟨h.bounded hroom hmbox.bounded, ?_, ?_, hlength, hcount⟩
    · rw [hperm.nodup_iff, List.nodup_cons]
      refine ⟨?_, hmbox.distinct⟩
      intro hmem
      exact absurd (hmbox.below _ hmem).2 (lt_irrefl _)
    · intro uid hmem
      rw [huid, hword]
      rcases List.mem_cons.mp (hperm.mem_iff.mp hmem) with rfl | hused
      · omega
      · have := hmbox.below uid hused
        omega

end Effect

/-! ## Between two points of a history -/

structure Mailbox.Since (recorded mbox : Mailbox) : Prop where
  grows : recorded.highestModSeq ≤ mbox.highestModSeq
  unchanged : ∀ msg ∈ mbox.l, msg.modSeq ≤ recorded.highestModSeq →
    ∃ old ∈ recorded.l, old.uid = msg.uid ∧ old.modSeq = msg.modSeq ∧
      old.flags.contains = msg.flags.contains
  accounted : ∀ old ∈ recorded.l, (∃ msg ∈ mbox.l, msg.uid = old.uid) ∨
    ∃ gone ∈ mbox.expunged, gone.uid = old.uid ∧ recorded.highestModSeq < gone.modSeq
  expunged : recorded.expunged ⊆ mbox.expunged

namespace Mailbox.Since

theorem refl (mbox : Mailbox) : mbox.Since mbox where
  grows := UInt64.le_refl _
  unchanged := fun msg hmsg _ => ⟨msg, hmsg, rfl, rfl, rfl⟩
  accounted := fun old hold => .inl ⟨old, hold, rfl⟩
  expunged := fun _ h => h

theorem trans {first second third : Mailbox} (h : first.Since second)
    (h' : second.Since third) : first.Since third where
  grows := UInt64.le_trans h.grows h'.grows
  unchanged := by
    intro msg hmsg hle
    obtain ⟨middle, hmiddle, huid, hmodSeq, hflags⟩ :=
      h'.unchanged msg hmsg (UInt64.le_trans hle h.grows)
    obtain ⟨old, hold, huid', hmodSeq', hflags'⟩ := h.unchanged middle hmiddle (hmodSeq ▸ hle)
    exact ⟨old, hold, huid'.trans huid, hmodSeq'.trans hmodSeq, hflags'.trans hflags⟩
  accounted := by
    intro old hold
    rcases h.accounted old hold with ⟨middle, hmiddle, huid⟩ | ⟨gone, hgone, huid, hlt⟩
    · rcases h'.accounted middle hmiddle with ⟨msg, hmsg, huid'⟩ |
        ⟨gone, hgone, huid', hlt⟩
      · exact .inl ⟨msg, hmsg, huid'.trans huid⟩
      · exact .inr ⟨gone, hgone, huid'.trans huid, UInt64.lt_of_le_of_lt h.grows hlt⟩
    · exact .inr ⟨gone, h'.expunged hgone, huid, hlt⟩
  expunged := fun _ hgone => h'.expunged (h.expunged hgone)

end Mailbox.Since

theorem Effect.since {mbox next : Mailbox} {raised : Nat} (h : Effect mbox raised next)
    (hroom : mbox.highestModSeq.toNat + raised < 2 ^ 64) :
    mbox.Since next := by
  have hgrows := h.highestModSeq_le hroom
  have hraises := h.highestModSeq_lt hroom
  cases h with
  | keeps => exact ⟨hgrows, (Mailbox.Since.refl mbox).unchanged,
      (Mailbox.Since.refl mbox).accounted, fun _ h => h⟩
  | arrives tracker dropped msg address uid modSeq count =>
    refine ⟨hgrows, ?_, ?_, fun _ h => h⟩
    · intro found hfound hle
      rcases List.mem_append.mp hfound with hmem | hmem
      · exact ⟨found, hmem, rfl, rfl, rfl⟩
      · rw [List.mem_singleton.mp hmem, modSeq] at hle
        exact absurd (hraises one_pos) (UInt64.not_lt.mpr hle)
    · intro old hold
      exact .inl ⟨old, List.mem_append_left _ hold, rfl⟩
  | stores tracker dropped raised l stored most count =>
    refine ⟨hgrows, ?_, ?_, fun _ h => h⟩
    · intro msg hmsg hle
      obtain ⟨old, hold, hstored⟩ := forall₂_exists stored hmsg
      rcases hstored.fresh hroom with ⟨hflags, hmodSeq⟩ | ⟨hlt, -⟩
      · exact ⟨old, hold, hstored.uid.symm, hmodSeq.symm, hflags.symm⟩
      · exact absurd hlt (UInt64.not_lt.mpr hle)
    · intro old hold
      obtain ⟨msg, hmsg, hstored⟩ := forall₂_exists stored.flip hold
      exact .inl ⟨msg, hmsg, hstored.uid⟩
  | removes tracker dropped removed count =>
    refine ⟨hgrows, ?_, ?_, List.subset_append_left _ _⟩
    · intro msg hmsg _
      exact ⟨msg, List.mem_of_mem_filter hmsg, rfl, rfl, rfl⟩
    · intro old hold
      by_cases hmem : old.address ∈ removed
      · right
        refine ⟨{ uid := old.uid, modSeq := mbox.highestModSeq + 1 }, ?_, rfl, hraises one_pos⟩
        apply List.mem_append_right
        exact List.mem_map.mpr ⟨old, by simp [hold, hmem], rfl⟩
      · exact .inl ⟨old, by simp [hold, hmem], rfl⟩

/-! ## The answer -/

theorem encodeSeqNum_fresh {numMessages seqNum : UInt32} (hle : seqNum ≤ numMessages) :
    SessionTracker.encodeSeqNum
      { closed := false
        numMessages := numMessages
        queue := [] } seqNum = seqNum := by
  unfold SessionTracker.encodeSeqNum
  by_cases hzero : seqNum = 0
  · simp [hzero]
  · simp [hzero, UInt32.not_lt.mpr hle, SessionTracker.encodeWalk]

theorem qresync_modified [CaseMapping] (mbox : Mailbox) (modSeq : ModSeq) :
    (mbox.qresync modSeq).modified = modifiedSince
        { closed := false
          numMessages := mbox.tracker.numMessages
          queue := [] } modSeq mbox.l := by
  simp [Mailbox.qresync, View.selectData, Mailbox.newView, MailboxTracker.newSession, sessionOf]

theorem mem_modified [CaseMapping] {mbox : Mailbox} (h : mbox.Numbered)
    {modSeq : ModSeq} {entry : SelectModifiedData} :
    entry ∈ (mbox.qresync modSeq).modified ↔
      ∃ index msg, mbox.l[index]? = some msg ∧ modSeq < msg.modSeq ∧ entry =
          { seqNum := Mailbox.seqNumAt index
            uid := msg.uid
            flags := msg.flagList
            modSeq := msg.modSeq } := by
  have hseqNum : ∀ index msg, mbox.l[index]? = some msg → Mailbox.seqNumAt index ≠ 0 ∧
        Mailbox.seqNumAt index ≤ mbox.tracker.numMessages := by
    intro index msg hmsg
    obtain ⟨hindex, -⟩ := List.getElem?_eq_some_iff.mp hmsg
    have hcount := h.count
    have hlt := mbox.tracker.numMessages.toNat_lt
    have hnat : (Mailbox.seqNumAt index).toNat = index + 1 := Word.toNat_ofNat_succ (by omega)
    exact ⟨Word.ne_zero_iff.mpr (by omega), UInt32.le_iff_toNat_le.mpr (by omega)⟩
  rw [qresync_modified, modifiedSince]
  simp only [List.mem_filterMap, Prod.exists, List.mem_zipIdx_iff_getElem?]
  constructor
  · rintro ⟨msg, index, hmsg, hentry⟩
    obtain ⟨-, hle⟩ := hseqNum index msg hmsg
    rw [encodeSeqNum_fresh hle] at hentry
    split_ifs at hentry with hnewer
    exact ⟨index, msg, hmsg, hnewer.1, (Option.some.inj hentry).symm⟩
  · rintro ⟨index, msg, hmsg, hlt, rfl⟩
    obtain ⟨hne, hle⟩ := hseqNum index msg hmsg
    refine ⟨msg, index, hmsg, ?_⟩
    rw [encodeSeqNum_fresh hle, if_pos ⟨hlt, hne⟩]

theorem foldl_update_apply {entries : List SelectModifiedData} {uid : UID} {flags : Flag → Bool}
    (h : ∀ entry ∈ entries, entry.uid = uid → entry.flags.contains = flags) (known : FlagMap) :
    entries.foldl FlagMap.update known uid =
      if ∃ entry ∈ entries, entry.uid = uid then some flags
      else known uid := by
  induction entries generalizing known with
  | nil => simp
  | cons first rest ih =>
    rw [List.foldl_cons, ih fun entry hentry => h entry (List.mem_cons_of_mem _ hentry)]
    by_cases hrest : ∃ entry ∈ rest, entry.uid = uid
    · have hall : ∃ entry ∈ first :: rest, entry.uid = uid :=
        hrest.imp fun _ hentry => ⟨List.mem_cons_of_mem _ hentry.1, hentry.2⟩
      rw [if_pos hrest, if_pos hall]
    · rw [if_neg hrest]
      by_cases hfirst : first.uid = uid
      · rw [if_pos ⟨first, by simp, hfirst⟩, FlagMap.update, hfirst,
          Function.update_self, h first (by simp) hfirst]
      · rw [FlagMap.update, Function.update_of_ne (Ne.symm hfirst), if_neg]
        rintro ⟨entry, hentry, huid⟩
        rcases List.mem_cons.mp hentry with rfl | hmem
        · exact hfirst huid
        · exact hrest ⟨entry, hmem, huid⟩

theorem qresync_vanished [CaseMapping] {mbox : Mailbox} (h : mbox.Numbered)
    (modSeq : ModSeq) (uid : UID) :
    (mbox.qresync modSeq).vanished.contains uid = true ↔
      ∃ gone ∈ mbox.expunged, gone.uid = uid ∧ modSeq < gone.modSeq := by
  have hvanished : (mbox.qresync modSeq).vanished =
      NumSet.addNums [] ((mbox.expunged.filter fun gone =>
        decide (gone.modSeq > modSeq)).map ExpungedMessage.uid) := by
    simp [Mailbox.qresync, View.selectData, Mailbox.newView, NumSet.addNums]
  have hzero : (0 : UID) ∉ (mbox.expunged.filter fun gone =>
      decide (gone.modSeq > modSeq)).map ExpungedMessage.uid := by
    intro hmem
    obtain ⟨gone, hgone, huid⟩ := List.mem_map.mp hmem
    have hused := h.below gone.uid (List.mem_append_right _
      (List.mem_map_of_mem (List.mem_of_mem_filter hgone)))
    rw [huid] at hused
    exact absurd hused.1 (by decide)
  rw [hvanished, NumSet.contains_addNums hzero]
  simp only [List.mem_map, List.mem_filter, decide_eq_true_eq]
  constructor
  · rintro ⟨gone, ⟨hgone, hlt⟩, huid⟩
    exact ⟨gone, hgone, huid, hlt⟩
  · rintro ⟨gone, hgone, huid, hlt⟩
    exact ⟨gone, ⟨hgone, hlt⟩, huid⟩

theorem Mailbox.Since.applyTo [CaseMapping] {recorded mbox : Mailbox} (h : recorded.Since mbox)
    (hrecorded : recorded.Numbered) (hmbox : mbox.Numbered) :
    (mbox.qresync recorded.highestModSeq).applyTo recorded.flagMap = mbox.flagMap := by
  funext uid
  unfold SelectData.applyTo
  by_cases hlive : ∃ msg ∈ mbox.l, msg.uid = uid
  · obtain ⟨msg, hmsg, rfl⟩ := hlive
    have hagree : ∀ entry ∈ (mbox.qresync recorded.highestModSeq).modified,
        entry.uid = msg.uid → entry.flags.contains = msg.flags.contains := by
      intro entry hmem huid
      obtain ⟨index, found, hfound, -, rfl⟩ := (mem_modified hmbox).mp hmem
      rw [hmbox.uid_inj (List.mem_of_getElem? hfound) hmsg huid]
      rfl
    rw [foldl_update_apply hagree, hmbox.flagMap_uid hmsg]
    split_ifs with hmodified hvanished
    · rfl
    · obtain ⟨gone, hgone, huid, -⟩ := (qresync_vanished hmbox _ _).mp hvanished
      exact absurd huid.symm (hmbox.uid_ne_expunged hmsg hgone)
    · -- Not reported as modified, the message is as old as the record.
      have hold : msg.modSeq ≤ recorded.highestModSeq := by
        rw [← UInt64.not_lt]
        intro hlt
        obtain ⟨index, hindex⟩ := List.mem_iff_getElem?.mp hmsg
        exact hmodified ⟨_, (mem_modified hmbox).mpr ⟨index, msg, hindex, hlt, rfl⟩, rfl⟩
      obtain ⟨old, hmem, huid, -, hflags⟩ := h.unchanged msg hmsg hold
      rw [← huid, hrecorded.flagMap_uid hmem, hflags]
  · have hnone : ∀ entry ∈ (mbox.qresync recorded.highestModSeq).modified, entry.uid ≠ uid := by
      intro entry hmem huid
      obtain ⟨index, found, hfound, -, rfl⟩ := (mem_modified hmbox).mp hmem
      exact hlive ⟨found, List.mem_of_getElem? hfound, huid⟩
    have hcurrent := Mailbox.flagMap_eq_none.mpr fun msg hmsg huid => hlive ⟨msg, hmsg, huid⟩
    have hagree : ∀ entry ∈ (mbox.qresync recorded.highestModSeq).modified,
        entry.uid = uid → entry.flags.contains = fun _ => false :=
      fun entry hmem huid => absurd huid (hnone entry hmem)
    rw [foldl_update_apply hagree, if_neg, hcurrent]
    · split_ifs with hvanished
      · rfl
      · rw [Mailbox.flagMap_eq_none]
        intro old hold huid
        rcases h.accounted old hold with ⟨msg, hmsg, hsame⟩ | ⟨gone, hgone, hsame, hlt⟩
        · exact hlive ⟨msg, hmsg, hsame.trans huid⟩
        · exact hvanished ((qresync_vanished hmbox _ _).mpr ⟨gone, hgone, hsame.trans huid, hlt⟩)
    · rintro ⟨entry, hmem, huid⟩
      exact hnone entry hmem huid

/-! ## Runs -/

namespace HistoryStep

def isArrival : HistoryStep → Bool
  | .shared (.append _ _ _) => true
  | .copy _ _ => true
  | _ => false

def peeks : HistoryStep → Bool
  | .shared (.fetch _ _ options _) => !options.markSeen
  | _ => true

variable [CaseMapping]

theorem quiet_of_peeks {step : HistoryStep} (h : step.peeks = true)
    (mbox : Mailbox) : step.Quiet mbox := by
  unfold Quiet
  split
  · rename_i view numSet options writeFails
    have hpeeks : options.markSeen = false := by simpa [peeks] using h
    simp [leavesSeen, hpeeks]
  · trivial

theorem uidNext_perform (state : SharedMailbox) (step : HistoryStep) :
    (step.perform state).mbox.uidNext =
      if step.isArrival then state.mbox.uidNext + 1
      else state.mbox.uidNext := by
  have hremoves : ∀ (mbox : Mailbox) (removed : List Nat),
      (mbox.expungeLocked removed).1.uidNext = mbox.uidNext := by
    intro mbox removed
    rw [expungeLocked_eq]
    exact (reportAll_keeps _ _ _).2.1
  cases step with
  | copy msg now => exact (track_keeps _ _).2.1
  | move view numSet dest now => exact hremoves _ _
  | shared step =>
    cases step with
    | append buf options now => exact (track_keeps _ _).2.1
    | mark caller uids =>
      simp only [perform, SharedMailbox.perform, isArrival, Bool.false_eq_true, if_false]
      split_ifs
      · rfl
      · rfl
    | remove caller =>
      simp only [perform, SharedMailbox.perform]
      cases state.pending.find? (·.caller == caller) with
      | none => rfl
      | some call => exact hremoves _ _
    | _ => rfl

/-- What a run must keep to: it peeks, and no counter wraps around. -/
structure Complete (state : SharedMailbox) (step : HistoryStep) : Prop where
  peeks : step.peeks = true
  uidNext : state.mbox.uidNext ≤ (step.perform state).mbox.uidNext
  modSeq : state.mbox.highestModSeq ≤ (step.perform state).mbox.highestModSeq

end HistoryStep

def SharedMailbox.Numbered (state : SharedMailbox) : Prop :=
  (∀ id, UpToDate state.mbox.tracker id) ∧ state.mbox.Numbered

theorem HistoryStep.Complete.numbered [CaseMapping] {state : SharedMailbox} {step : HistoryStep}
    (hstate : state.Numbered) (hstep : step.Complete state) :
    (step.perform state).Numbered ∧ state.mbox.Since (step.perform state).mbox := by
  obtain ⟨raised, heffect⟩ := step.effect hstate.1 (step.quiet_of_peeks hstep.peeks state.mbox)
  have hroom : state.mbox.highestModSeq.toNat + raised < 2 ^ 64 := by
    have hle := heffect.raised_le
    have hlength := hstate.2.length
    have hlt := state.mbox.uidNext.toNat_lt
    refine Word.add_ofNat_lt (by omega) ?_
    rw [← heffect.highestModSeq_eq]
    exact hstep.modSeq
  exact ⟨⟨step.upToDate hstate.1,
    heffect.numbered hroom hstep.uidNext hstate.2⟩, heffect.since hroom⟩

theorem uidNext_of_arrivals [CaseMapping] {state : SharedMailbox} {steps : List HistoryStep}
    (h : state.mbox.uidNext.toNat + steps.countP HistoryStep.isArrival < 2 ^ 32) :
    Transition.Meets HistoryStep.perform (fun state step => state.mbox.uidNext ≤
      (step.perform state).mbox.uidNext) state steps := by
  induction steps generalizing state with
  | nil => trivial
  | cons step rest ih =>
    rw [List.countP_cons] at h
    have hnext : state.mbox.uidNext.toNat + (if step.isArrival then 1 else 0) =
          (step.perform state).mbox.uidNext.toNat := by
      rw [step.uidNext_perform state]
      split_ifs at h ⊢
      · rw [UInt32.toNat_add]
        simp
        omega
      · rfl
    refine ⟨UInt32.le_iff_toNat_le.mpr ?_, ih ?_⟩
    · omega
    · omega

theorem initial_arrivals (uidValidity : UInt32) {steps : List HistoryStep}
    (h : steps.countP HistoryStep.isArrival < 2 ^ 32 - 1) :
    (SharedMailbox.initial uidValidity).mbox.uidNext.toNat +
      steps.countP HistoryStep.isArrival < 2 ^ 32 := by
  have huid : (SharedMailbox.initial uidValidity).mbox.uidNext.toNat = 1 := rfl
  omega

theorem complete_of_uidNext [CaseMapping] {state : SharedMailbox} {steps : List HistoryStep}
    (huid : Transition.Meets HistoryStep.perform (fun state step => state.mbox.uidNext ≤
        (step.perform state).mbox.uidNext) state steps) (hpeeks : ∀ step ∈ steps, step.peeks = true)
    (hmodSeq : Transition.Meets HistoryStep.perform (fun state step => state.mbox.highestModSeq ≤
        (step.perform state).mbox.highestModSeq) state steps) :
    Transition.Meets HistoryStep.perform (fun state step => step.Complete state) state steps := by
  induction steps generalizing state with
  | nil => trivial
  | cons step rest ih =>
    rw [List.forall_mem_cons] at hpeeks
    exact ⟨⟨hpeeks.1, huid.1, hmodSeq.1⟩, ih huid.2 hpeeks.2 hmodSeq.2⟩

/--
In every run that adds fewer than 2^32 - 1 messages, reads without setting
flags and never makes the modification sequence wrap around, what was recorded
at any point becomes what there is at the end by the answer to the recorded
HIGHESTMODSEQ.
-/
theorem qresync_complete [CaseMapping] (uidValidity : UInt32) (steps : List HistoryStep)
    (harrivals : steps.countP HistoryStep.isArrival < 2 ^ 32 - 1)
    (hpeeks : ∀ step ∈ steps, step.peeks = true)
    (hmodSeq : Transition.Meets HistoryStep.perform (fun state step => state.mbox.highestModSeq ≤
        (step.perform state).mbox.highestModSeq)
      (SharedMailbox.initial uidValidity) steps) :
    let initial := SharedMailbox.initial uidValidity
    let current := (steps.foldl HistoryStep.perform initial).mbox
    ∀ recorded ∈ steps.scanl HistoryStep.perform initial,
      (current.qresync recorded.mbox.highestModSeq).applyTo
          recorded.mbox.flagMap = current.flagMap := by
  intro initial current recorded hrecorded
  have hinitial : SharedMailbox.Numbered initial :=
    ⟨initial_upToDate uidValidity, newMailbox_numbered uidValidity⟩
  have hcomplete := complete_of_uidNext
    (uidNext_of_arrivals (initial_arrivals uidValidity harrivals)) hpeeks hmodSeq
  have hkeeps : ∀ (state : SharedMailbox) (step : HistoryStep),
      state.Numbered → step.Complete state → (step.perform state).Numbered :=
    fun state step hstate hstep => (hstep.numbered hstate).1
  have hsince := Transition.related_of_meets SharedMailbox.Numbered
    (fun first second : SharedMailbox => first.mbox.Since second.mbox)
    (fun state => .refl state.mbox) (fun _ _ _ => .trans)
    (fun _ _ hstate hstep => hstep.numbered hstate) hinitial hcomplete
    recorded hrecorded
  exact hsince.applyTo (Transition.invariant_of_meets SharedMailbox.Numbered hkeeps hinitial
      hcomplete recorded hrecorded).2
    (Transition.foldl_of_meets SharedMailbox.Numbered hkeeps hinitial hcomplete).2

theorem qresync_complete_storeDeleted : Transition.Meets (@HistoryStep.perform asciiCaseMapping)
        (fun state step => state.mbox.highestModSeq ≤ (@HistoryStep.perform asciiCaseMapping state
            step).mbox.highestModSeq)
        (SharedMailbox.initial 7) (oneMessage ++ [storeDeleted]) ∧
      ∀ recorded ∈ (oneMessage ++ [storeDeleted]).scanl
          (@HistoryStep.perform asciiCaseMapping) (SharedMailbox.initial 7),
        (@Mailbox.qresync asciiCaseMapping ((oneMessage ++ [storeDeleted]).foldl
            (@HistoryStep.perform asciiCaseMapping)
            (SharedMailbox.initial 7)).mbox
          recorded.mbox.highestModSeq).applyTo recorded.mbox.flagMap =
        ((oneMessage ++ [storeDeleted]).foldl (@HistoryStep.perform asciiCaseMapping)
          (SharedMailbox.initial 7)).mbox.flagMap := by
  have hmeets : Transition.Meets (@HistoryStep.perform asciiCaseMapping)
      (fun state step => state.mbox.highestModSeq ≤
        (@HistoryStep.perform asciiCaseMapping state step).mbox.highestModSeq)
      (SharedMailbox.initial 7) (oneMessage ++ [storeDeleted]) := by
    decide
  exact ⟨hmeets, @qresync_complete asciiCaseMapping 7
    (oneMessage ++ [storeDeleted]) (by decide) (by decide) hmeets⟩

/-! ## Messages keep their UIDs -/

structure Mailbox.KeepsUIDs (recorded mbox : Mailbox) : Prop where
  next : recorded.uidNext ≤ mbox.uidNext
  same : ∀ msg ∈ mbox.l, msg.uid < recorded.uidNext →
    ∃ old ∈ recorded.l, old.uid = msg.uid ∧ old.address = msg.address

theorem Mailbox.KeepsUIDs.trans {first second third : Mailbox} (h : first.KeepsUIDs second)
    (h' : second.KeepsUIDs third) : first.KeepsUIDs third where
  next := UInt32.le_trans h.next h'.next
  same := by
    intro msg hmsg hlt
    obtain ⟨middle, hmiddle, huid, haddress⟩ := h'.same msg hmsg (UInt32.lt_of_lt_of_le hlt h.next)
    obtain ⟨old, hold, huid', haddress'⟩ := h.same middle hmiddle (huid ▸ hlt)
    exact ⟨old, hold, huid'.trans huid, haddress'.trans haddress⟩

theorem Effect.keepsUIDs {mbox next : Mailbox} {raised : Nat} (h : Effect mbox raised next)
    (hnext : mbox.uidNext ≤ next.uidNext) : mbox.KeepsUIDs next := by
  refine ⟨hnext, fun msg hmsg hlt => ?_⟩
  cases h with
  | keeps => exact ⟨msg, hmsg, rfl, rfl⟩
  | arrives tracker dropped new address uid modSeq count =>
    rcases List.mem_append.mp hmsg with hmem | hmem
    · exact ⟨msg, hmem, rfl, rfl⟩
    · rw [List.mem_singleton.mp hmem, uid] at hlt
      exact absurd hlt (UInt32.lt_irrefl _)
  | stores tracker dropped raised l stored most count =>
    obtain ⟨old, hold, hstored⟩ := forall₂_exists stored hmsg
    exact ⟨old, hold, hstored.uid.symm, hstored.address.symm⟩
  | removes => exact ⟨msg, List.mem_of_mem_filter hmsg, rfl, rfl⟩

theorem HistoryStep.keepsUIDs [CaseMapping] {state : SharedMailbox} {step : HistoryStep}
    (hcurrent : ∀ id, UpToDate state.mbox.tracker id)
    (hnext : state.mbox.uidNext ≤ (step.perform state).mbox.uidNext) :
    state.mbox.KeepsUIDs (step.perform state).mbox := by
  by_cases hquiet : step.Quiet state.mbox
  · obtain ⟨raised, heffect⟩ := step.effect hcurrent hquiet
    exact heffect.keepsUIDs hnext
  · cases step with
    | copy | move => exact absurd trivial hquiet
    | shared step =>
      cases step with
      | fetch view numSet options writeFails =>
        refine ⟨hnext, fun msg hmsg _ => ?_⟩
        obtain ⟨old, hold, hsame⟩ := forall₂_exists
          (View.fetch_effect hcurrent view numSet options writeFails).2 hmsg
        exact ⟨old.1, List.fst_mem_of_mem_zipIdx hold, hsame.uid.symm, hsame.address.symm⟩
      | _ => exact absurd trivial hquiet

/--
In every run that adds fewer than 2^32 - 1 messages, a message whose UID was
given out at some point of the run is the one that had it then.
-/
theorem uids_never_reassigned [CaseMapping] (uidValidity : UInt32) (steps : List HistoryStep)
    (harrivals : steps.countP HistoryStep.isArrival < 2 ^ 32 - 1) :
    ∀ recorded ∈ steps.scanl HistoryStep.perform (SharedMailbox.initial uidValidity),
      recorded.mbox.KeepsUIDs
        (steps.foldl HistoryStep.perform (SharedMailbox.initial uidValidity)).mbox :=
  Transition.related_of_meets (fun state : SharedMailbox => ∀ id, UpToDate state.mbox.tracker id)
    (fun first second => first.mbox.KeepsUIDs second.mbox)
    (fun _ => ⟨UInt32.le_refl _, fun msg hmsg _ => ⟨msg, hmsg, rfl, rfl⟩⟩)
    (fun _ _ _ => .trans)
    (fun _ step hcurrent hnext => ⟨step.upToDate hcurrent, HistoryStep.keepsUIDs hcurrent hnext⟩)
    (initial_upToDate uidValidity) (uidNext_of_arrivals (initial_arrivals uidValidity harrivals))

/-- The first message is deleted and removed before another one is added. -/
def replaced : List HistoryStep :=
  oneMessage ++ [storeDeleted, .shared (.mark 0 none), .shared (.remove 0)] ++ oneMessage

theorem uids_never_reassigned_replaced : replaced.countP HistoryStep.isArrival < 2 ^ 32 - 1 ∧
      (replaced.foldl (@HistoryStep.perform asciiCaseMapping)
        (SharedMailbox.initial 7)).mbox.l.map Message.uid = [2] ∧
      ∀ recorded ∈ replaced.scanl (@HistoryStep.perform asciiCaseMapping)
          (SharedMailbox.initial 7), recorded.mbox.KeepsUIDs (replaced.foldl
          (@HistoryStep.perform asciiCaseMapping) (SharedMailbox.initial 7)).mbox :=
  have harrivals := by decide
  ⟨harrivals, by decide, @uids_never_reassigned asciiCaseMapping 7 replaced harrivals⟩

/-! ## A counter that wraps around -/

/-- A MOVE of a UID that does not exist: it raises the sequence all the same. -/
def moveNothing : HistoryStep :=
  .move firstView (.uidSet [⟨99, 99⟩]) (newMailbox 8) 0

def SharedMailbox.atModSeq (state : SharedMailbox) (modSeq : ModSeq) : SharedMailbox :=
  { state with
    mbox :=
      { state.mbox with highestModSeq := modSeq } }

def knownMessage : SharedMailbox :=
  oneMessage.foldl (@HistoryStep.perform asciiCaseMapping) (SharedMailbox.initial 7)

theorem moveNothing_perform (modSeq : ModSeq) :
    @HistoryStep.perform asciiCaseMapping (knownMessage.atModSeq modSeq)
        moveNothing = knownMessage.atModSeq (modSeq + 1) :=
  rfl

theorem replicate_moveNothing (times : Nat) (modSeq : ModSeq) :
    (List.replicate times moveNothing).foldl (@HistoryStep.perform asciiCaseMapping)
        (knownMessage.atModSeq modSeq) =
      knownMessage.atModSeq (modSeq + UInt64.ofNat times) := by
  induction times generalizing modSeq with
  | zero => simp
  | succ times ih =>
    rw [List.replicate_succ, List.foldl_cons, moveNothing_perform, ih,
      Nat.add_comm, UInt64.ofNat_add, UInt64.add_assoc]
    rfl

/-- The sequence wraps around; then the flags of the message change. -/
def wrapAround : List HistoryStep := List.replicate (2 ^ 64 - 2) moveNothing ++ [storeDeleted]

theorem foldl_wrapAround : wrapAround.foldl (@HistoryStep.perform asciiCaseMapping) knownMessage =
      @HistoryStep.perform asciiCaseMapping (knownMessage.atModSeq 0) storeDeleted := by
  have hknown : knownMessage = knownMessage.atModSeq 2 := rfl
  have hzero : (2 : UInt64) + UInt64.ofNat (2 ^ 64 - 2) = 0 := by decide
  rw [wrapAround, List.foldl_append, List.foldl_cons, List.foldl_nil]
  nth_rewrite 1 [hknown]
  rw [replicate_moveNothing, hzero]

/-- A client that knows the message is not told of its new flag. -/
theorem wrapAround_missed : (oneMessage ++ wrapAround).countP HistoryStep.isArrival < 2 ^ 32 - 1 ∧
      (∀ step ∈ oneMessage ++ wrapAround, step.peeks = true) ∧
      let recorded := (oneMessage.foldl
        (@HistoryStep.perform asciiCaseMapping) (SharedMailbox.initial 7)).mbox
      let current := ((oneMessage ++ wrapAround).foldl
        (@HistoryStep.perform asciiCaseMapping) (SharedMailbox.initial 7)).mbox
      (@Mailbox.qresync asciiCaseMapping current recorded.highestModSeq).applyTo recorded.flagMap ≠
          current.flagMap := by
  refine ⟨?_, ?_, ?_⟩
  · have hmoves : List.countP HistoryStep.isArrival
        (List.replicate (2 ^ 64 - 2) moveNothing) = 0 := by
      rw [List.countP_replicate]
      rfl
    rw [wrapAround, List.countP_append, List.countP_append, hmoves]
    decide
  · intro step hstep
    simp only [wrapAround, List.mem_append, List.mem_replicate] at hstep
    rcases hstep with hstep | ⟨-, rfl⟩ | hstep
    · revert step
      decide
    · rfl
    · rw [List.mem_singleton.mp hstep]
      rfl
  · intro recorded current hsame
    have hcurrent : current = (@HistoryStep.perform asciiCaseMapping (knownMessage.atModSeq 0)
          storeDeleted).mbox := by
      rw [← foldl_wrapAround, knownMessage, ← List.foldl_append]
    have hflags := congrArg (fun map : FlagMap => (map 1).map fun flags =>
      flags (@canonicalFlag asciiCaseMapping flagDeleted)) hsame
    rw [hcurrent] at hflags
    revert hflags
    decide

end GoImap.MemServer
