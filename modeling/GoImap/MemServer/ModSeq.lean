import GoImap.MemServer.History
import Mathlib.Data.Set.Basic

/-!
# Modification sequences

As long as reading sets no flags and the counter does not wrap around, the
modification sequences record every change: what has changed is newer than
everything that was there before.
-/

namespace GoImap.MemServer

def Mailbox.flagPairs (mbox : Mailbox) : Set (UID × (Flag → Bool)) :=
  {pair | pair ∈ mbox.l.map fun msg => (msg.uid, msg.flags.contains)}

structure Mailbox.Dated (mbox : Mailbox) : Prop where
  bounded : ∀ msg ∈ mbox.l, msg.modSeq ≤ mbox.highestModSeq
  nodup : (mbox.l.map Message.address).Nodup
  below : ∀ msg ∈ mbox.l, msg.address < mbox.nextAddress

theorem newMailbox_dated (uidValidity : UInt32) : (newMailbox uidValidity).Dated where
  bounded := by simp [newMailbox]
  nodup := .nil
  below := by simp [newMailbox]

theorem Stored.fresh {base : ModSeq} {raised : Nat} {old new : Message}
    (h : Stored base raised old new) (hroom : base.toNat + raised < 2 ^ 64) :
    new.flags.contains = old.flags.contains ∧ new.modSeq = old.modSeq ∨
      base < new.modSeq ∧ new.modSeq ≤ base + UInt64.ofNat raised := by
  refine h.change.imp id ?_
  rintro ⟨order, hpos, hle, hmodSeq⟩
  rw [hmodSeq, UInt64.lt_iff_toNat_lt, UInt64.le_iff_toNat_le,
    Word.toNat_add_ofNat hroom, Word.toNat_add_ofNat (by omega)]
  omega

theorem Stored.map_eq {α : Type} {base : ModSeq} {raised : Nat} {l next : List Message}
    (f : Message → α) (hf : ∀ old new, Stored base raised old new → f new = f old)
    (h : List.Forall₂ (Stored base raised) l next) :
    next.map f = l.map f := by
  rw [← List.forall₂_eq_eq_eq, List.forall₂_map_left_iff, List.forall₂_map_right_iff]
  exact h.flip.imp fun new old hstored => hf old new hstored

namespace Effect

variable {mbox next : Mailbox} {raised : Nat}

variable (h : Effect mbox raised next)

include h

section

variable (hroom : mbox.highestModSeq.toNat + raised < 2 ^ 64)

include hroom

theorem toNat_highestModSeq : next.highestModSeq.toNat = mbox.highestModSeq.toNat + raised := by
  rw [h.highestModSeq_eq, Word.toNat_add_ofNat hroom]

theorem highestModSeq_le : mbox.highestModSeq ≤ next.highestModSeq := by
  rw [UInt64.le_iff_toNat_le, h.toNat_highestModSeq hroom]
  omega

theorem highestModSeq_lt (hraised : 0 < raised) : mbox.highestModSeq < next.highestModSeq := by
  rw [UInt64.lt_iff_toNat_lt, h.toNat_highestModSeq hroom]
  omega

theorem bounded (hmbox : ∀ msg ∈ mbox.l, msg.modSeq ≤ mbox.highestModSeq) :
    ∀ msg ∈ next.l, msg.modSeq ≤ next.highestModSeq := by
  have hle := h.highestModSeq_le hroom
  intro msg hmsg
  cases h with
  | keeps => exact hmbox msg hmsg
  | arrives tracker dropped new address uid modSeq count =>
    rcases List.mem_append.mp hmsg with hmem | hmem
    · exact UInt64.le_trans (hmbox msg hmem) hle
    · rw [List.mem_singleton.mp hmem, modSeq]
      exact UInt64.le_refl _
  | stores tracker dropped raised l stored most count =>
    obtain ⟨old, hold, hstored⟩ := forall₂_exists stored hmsg
    rcases hstored.fresh hroom with ⟨-, hmodSeq⟩ | ⟨-, hmost⟩
    · rw [hmodSeq]
      exact UInt64.le_trans (hmbox old hold) hle
    · exact hmost
  | removes tracker dropped removed count =>
    exact UInt64.le_trans (hmbox msg (List.mem_of_mem_filter hmsg)) hle

theorem dated (hmbox : mbox.Dated) : next.Dated := by
  refine ⟨h.bounded hroom hmbox.bounded, ?_, ?_⟩
  · cases h with
    | keeps => exact hmbox.nodup
    | arrives tracker dropped new address uid modSeq count =>
      rw [List.map_append, List.nodup_append]
      refine ⟨hmbox.nodup, by simp, ?_⟩
      rintro place hmem other hother rfl
      obtain ⟨msg, hmsg, rfl⟩ := List.mem_map.mp hmem
      have hlt := hmbox.below msg hmsg
      rw [List.map_singleton, List.mem_singleton, address] at hother
      omega
    | stores tracker dropped raised l stored most count =>
      rw [Stored.map_eq Message.address (fun _ _ h => h.address) stored]
      exact hmbox.nodup
    | removes tracker dropped removed count =>
      exact hmbox.nodup.sublist (List.filter_sublist.map _)
  · intro msg hmsg
    cases h with
    | keeps => exact hmbox.below msg hmsg
    | arrives tracker dropped new address uid modSeq count =>
      rcases List.mem_append.mp hmsg with hmem | hmem
      · exact Nat.lt_succ_of_lt (hmbox.below msg hmem)
      · rw [List.mem_singleton.mp hmem, address]
        exact Nat.lt_succ_self _
    | stores tracker dropped raised l stored most count =>
      obtain ⟨old, hold, hstored⟩ := forall₂_exists stored hmsg
      rw [hstored.address]
      exact hmbox.below old hold
    | removes tracker dropped removed count =>
      exact hmbox.below msg (List.mem_of_mem_filter hmsg)

theorem changed_fresh (hmbox : mbox.Dated) {old new : Message} (hold : old ∈ mbox.l)
    (hnew : new ∈ next.l) (haddress : new.address = old.address)
    (hflags : new.flags.contains ≠ old.flags.contains) :
    mbox.highestModSeq < new.modSeq := by
  have hsame : new ∉ mbox.l := by
    intro hmem
    have := List.inj_on_of_nodup_map hmbox.nodup hmem hold haddress
    exact hflags (this ▸ rfl)
  cases h with
  | keeps => exact absurd hnew hsame
  | arrives tracker dropped msg address uid modSeq count =>
    rcases List.mem_append.mp hnew with hmem | hmem
    · exact absurd hmem hsame
    · have hbelow := hmbox.below old hold
      rw [List.mem_singleton.mp hmem, address] at haddress
      omega
  | stores tracker dropped raised l stored most count =>
    obtain ⟨found, hfound, hstored⟩ := forall₂_exists stored hnew
    have hequal := List.inj_on_of_nodup_map hmbox.nodup hfound hold
      (hstored.address.symm.trans haddress)
    subst hequal
    rcases hstored.fresh hroom with ⟨hkept, -⟩ | ⟨hlt, -⟩
    · exact absurd hkept hflags
    · exact hlt
  | removes tracker dropped removed count =>
    exact absurd (List.mem_of_mem_filter hnew) hsame

end

theorem raised_of_flagPairs_ne (hne : next.flagPairs ≠ mbox.flagPairs) : 0 < raised := by
  cases h with
  | keeps => exact absurd rfl hne
  | arrives | removes => omega
  | stores tracker dropped raised l stored most count =>
    apply Nat.pos_of_ne_zero
    rintro rfl
    apply hne
    unfold Mailbox.flagPairs
    rw [Stored.map_eq _ ?_ stored]
    intro old new hstored
    rcases hstored.change with ⟨hflags, -⟩ | ⟨order, hpos, hle, -⟩
    · rw [hflags, hstored.uid]
    · omega

end Effect

/-! ## Runs -/

def HistoryStep.Recording [CaseMapping] (state : SharedMailbox) (step : HistoryStep) : Prop :=
  step.Quiet state.mbox ∧ state.mbox.highestModSeq.toNat + state.mbox.l.length + 1 < 2 ^ 64

instance [CaseMapping] (state : SharedMailbox) (step : HistoryStep) :
    Decidable (step.Recording state) :=
  inferInstanceAs (Decidable (_ ∧ _))

def SharedMailbox.Dated (state : SharedMailbox) : Prop :=
  (∀ id, UpToDate state.mbox.tracker id) ∧ state.mbox.Dated

theorem SharedMailbox.initial_dated (uidValidity : UInt32) :
    (SharedMailbox.initial uidValidity).Dated :=
  ⟨initial_upToDate uidValidity, newMailbox_dated uidValidity⟩

theorem HistoryStep.recording_effect [CaseMapping] {state : SharedMailbox} {step : HistoryStep}
    (hstate : state.Dated) (hstep : step.Recording state) :
    ∃ raised, state.mbox.highestModSeq.toNat + raised < 2 ^ 64 ∧
      Effect state.mbox raised (step.perform state).mbox := by
  obtain ⟨raised, heffect⟩ := step.effect hstate.1 hstep.1
  have hle := heffect.raised_le
  have hroom := hstep.2
  exact ⟨raised, by omega, heffect⟩

theorem HistoryStep.recording_dated [CaseMapping] {state : SharedMailbox} {step : HistoryStep}
    (hstate : state.Dated) (hstep : step.Recording state) :
    (step.perform state).Dated ∧
      state.mbox.highestModSeq ≤ (step.perform state).mbox.highestModSeq := by
  obtain ⟨raised, hroom, heffect⟩ := recording_effect hstate hstep
  exact ⟨⟨step.upToDate hstate.1, heffect.dated hroom hstate.2⟩, heffect.highestModSeq_le hroom⟩

/--
In every run in which no FETCH sets `\Seen` on a message that lacks it and the
counter has room, each step leaves the messages no newer than the mailbox and
the mailbox no older; a message with other flags is newer than everything the
run had before; and other flags or UIDs raise the mailbox's sequence.
-/
theorem modSeq_records_changes [CaseMapping] (uidValidity : UInt32)
    (steps : List HistoryStep) (last : HistoryStep)
    (h : Transition.Meets HistoryStep.perform (fun state step => step.Recording state)
      (SharedMailbox.initial uidValidity) (steps ++ [last])) :
    let initial := SharedMailbox.initial uidValidity
    let mbox := (steps.foldl HistoryStep.perform initial).mbox
    let next := ((steps ++ [last]).foldl HistoryStep.perform initial).mbox
    (∀ msg ∈ mbox.l, msg.modSeq ≤ mbox.highestModSeq) ∧
      (∀ msg ∈ next.l, msg.modSeq ≤ next.highestModSeq) ∧
      mbox.highestModSeq ≤ next.highestModSeq ∧
      (∀ old ∈ mbox.l, ∀ new ∈ next.l, new.address = old.address →
        new.flags.contains ≠ old.flags.contains →
          ∀ earlier ∈ steps.scanl HistoryStep.perform initial,
            earlier.mbox.highestModSeq < new.modSeq ∧
            ∀ msg ∈ earlier.mbox.l, msg.modSeq < new.modSeq) ∧
      (next.flagPairs ≠ mbox.flagPairs → mbox.highestModSeq < next.highestModSeq) := by
  intro initial mbox next
  obtain ⟨hsteps, hlast⟩ := Transition.meets_concat.mp h
  have hinitial := SharedMailbox.initial_dated uidValidity
  have hkeeps : ∀ (state : SharedMailbox) (step : HistoryStep), state.Dated →
      step.Recording state → (step.perform state).Dated :=
    fun state step hstate hstep =>
      (HistoryStep.recording_dated hstate hstep).1
  have hdated := Transition.foldl_of_meets SharedMailbox.Dated hkeeps hinitial hsteps
  have hall := Transition.invariant_of_meets SharedMailbox.Dated hkeeps hinitial hsteps
  have hgrows := Transition.related_of_meets SharedMailbox.Dated
    (fun first second : SharedMailbox =>
      first.mbox.highestModSeq ≤ second.mbox.highestModSeq)
    (fun _ => UInt64.le_refl _) (fun _ _ _ => UInt64.le_trans)
    (fun _ _ hstate hstep => HistoryStep.recording_dated hstate hstep)
    hinitial hsteps
  obtain ⟨raised, hroom, heffect⟩ := HistoryStep.recording_effect hdated hlast
  have hnext : next = (last.perform (steps.foldl HistoryStep.perform initial)).mbox := by
    simp [next]
  rw [hnext]
  refine ⟨hdated.2.bounded, (heffect.dated hroom hdated.2).bounded,
    heffect.highestModSeq_le hroom, ?_, ?_⟩
  · intro old hold new hnew haddress hflags earlier hearlier
    have hfresh := heffect.changed_fresh hroom hdated.2 hold hnew haddress hflags
    have hlt := UInt64.lt_of_le_of_lt (hgrows earlier hearlier) hfresh
    exact ⟨hlt, fun msg hmsg =>
      UInt64.lt_of_le_of_lt ((hall earlier hearlier).2.bounded msg hmsg) hlt⟩
  · intro hne
    exact heffect.highestModSeq_lt hroom (heffect.raised_of_flagPairs_ne hne)

def oneMessage : List HistoryStep :=
  [.shared (.append [] {} 0), .shared .newView]

def storeDeleted : HistoryStep :=
  .shared (.store firstView (.seqSet [⟨1, 1⟩])
    { op := .add, silent := false, flags := [flagDeleted] } {})

theorem modSeq_records_changes_storeDeleted :
    Transition.Meets (@HistoryStep.perform asciiCaseMapping)
        (fun state step => @HistoryStep.Recording asciiCaseMapping state step)
        (SharedMailbox.initial 7) (oneMessage ++ [storeDeleted]) ∧
      (((oneMessage ++ [storeDeleted]).foldl (@HistoryStep.perform asciiCaseMapping)
          (SharedMailbox.initial 7)).mbox.flagPairs ≠
        (oneMessage.foldl (@HistoryStep.perform asciiCaseMapping)
          (SharedMailbox.initial 7)).mbox.flagPairs →
        (oneMessage.foldl (@HistoryStep.perform asciiCaseMapping)
            (SharedMailbox.initial 7)).mbox.highestModSeq <
          ((oneMessage ++ [storeDeleted]).foldl (@HistoryStep.perform asciiCaseMapping)
            (SharedMailbox.initial 7)).mbox.highestModSeq) := by
  have hmeets : Transition.Meets (@HistoryStep.perform asciiCaseMapping)
      (fun state step => @HistoryStep.Recording asciiCaseMapping state step)
      (SharedMailbox.initial 7) (oneMessage ++ [storeDeleted]) := by
    decide
  exact ⟨hmeets, (@modSeq_records_changes asciiCaseMapping 7 oneMessage
    storeDeleted hmeets).2.2.2.2⟩

/-- A FETCH of the message's text, which sets `\Seen`. -/
def fetchBody : HistoryStep :=
  .shared (.fetch firstView (.seqSet [⟨1, 1⟩])
    { bodySection := [{ peek := false }], changedSince := 0 } fun _ => false)

/-- The FETCH gives the message another flag set; neither the message nor the
mailbox gets a new modification sequence. -/
theorem seen_not_recorded :
    let mbox := (oneMessage.foldl (@HistoryStep.perform asciiCaseMapping)
      (SharedMailbox.initial 7)).mbox
    let next := ((oneMessage ++ [fetchBody]).foldl
      (@HistoryStep.perform asciiCaseMapping) (SharedMailbox.initial 7)).mbox
    (∃ old ∈ mbox.l, ∃ new ∈ next.l, new.address = old.address ∧
      new.flags.contains ≠ old.flags.contains ∧
      ¬mbox.highestModSeq < new.modSeq) ∧
    next.flagPairs ≠ mbox.flagPairs ∧
    ¬mbox.highestModSeq < next.highestModSeq := by
  intro mbox next
  have hold : mbox.l.map (fun msg => (msg.address, msg.uid, msg.modSeq,
      msg.flags.contains (@canonicalFlag asciiCaseMapping flagSeen))) =
      [(0, 1, 2, false)] := by decide
  have hnew : next.l.map (fun msg => (msg.address, msg.uid, msg.modSeq,
      msg.flags.contains (@canonicalFlag asciiCaseMapping flagSeen))) =
      [(0, 1, 2, true)] := by decide
  have hhighest : mbox.highestModSeq = 2 ∧ next.highestModSeq = 2 := by decide
  obtain ⟨old, holdl, hold⟩ := List.map_eq_singleton_iff.mp hold
  obtain ⟨new, hnewl, hnew⟩ := List.map_eq_singleton_iff.mp hnew
  simp only [Prod.mk.injEq] at hold hnew
  have hflags : new.flags.contains ≠ old.flags.contains := by
    intro hsame
    have hseen := hnew.2.2.2
    rw [hsame, hold.2.2.2] at hseen
    cases hseen
  refine ⟨⟨old, by simp [holdl], new, by simp [hnewl], ?_, hflags, ?_⟩, ?_, ?_⟩
  · rw [hnew.1, hold.1]
  · rw [hhighest.1, hnew.2.2.1]
    decide
  · intro hsame
    have hmem : (new.uid, new.flags.contains) ∈ next.flagPairs := by
      simp [Mailbox.flagPairs, hnewl]
    rw [hsame] at hmem
    simp only [Mailbox.flagPairs, holdl, List.map_singleton,
      List.mem_singleton, Set.mem_ofPred_eq, Prod.mk.injEq] at hmem
    exact hflags hmem.2
  · rw [hhighest.1, hhighest.2]
    decide

end GoImap.MemServer
