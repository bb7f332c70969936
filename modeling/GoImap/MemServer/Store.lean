import GoImap.MemServer.History
import GoImap.NumSet.Text

/-!
# Conditional STORE

With UNCHANGEDSINCE a STORE passes over the messages that are newer than the
value it names.  The session has the same numbers throughout the loop and each
message is tested before it changes, so which messages are passed over can be
told beforehand; the MODIFIED response code lists them in the number space of
the command.
-/

namespace GoImap.MemServer

open Tracker

/-- The code of the tagged response, empty if the set is. -/
def modifiedResponseCode (numSet : NumSet) : Bytes :=
  if numSet.string = [] then [] else ascii "MODIFIED " ++ numSet.string

def StoreResult.code (result : StoreResult) : Bytes := modifiedResponseCode result.failed

def numberIn (inUIDs : Bool) (session : SessionTracker) (entry : Nat × Message) : Option UInt32 :=
  if inUIDs then some entry.2.uid
  else if session.encodeSeqNum (Mailbox.seqNumAt entry.1) = 0 then none
  else some (session.encodeSeqNum (Mailbox.seqNumAt entry.1))

/-! ## Empty sets -/

theorem string_eq_nil {set : NumSet} : set.string = [] ↔ set = [] := by
  cases set with
  | nil => simp [NumSet.string]
  | cons range rest =>
    have hne : rangeText range ≠ [] := by
      unfold rangeText
      split_ifs with hstar hsingle hopen
      · simp
      · simp [formatUint_ne_nil]
      · simp
      · simp
    simp [NumSet.string, hne]

theorem addNums_eq_nil {numbers : List UInt32} : NumSet.addNums [] numbers = [] ↔ numbers = [] := by
  constructor
  · intro h
    obtain ⟨-, hcovers⟩ := NumSet.addNums_spec NumSet.empty_canonical numbers
    rw [h] at hcovers
    apply List.eq_nil_iff_forall_not_mem.mpr
    intro number hnumber
    have := (hcovers (position number)).mpr (.inr ⟨number, hnumber, rfl⟩)
    simp at this
  · rintro rfl
    rfl

theorem contains_addNums_iff (numbers : List UInt32) (number : UInt32) :
    NumSet.contains (NumSet.addNums [] numbers) number = true ↔ number ≠ 0 ∧ number ∈ numbers := by
  obtain ⟨hcanonical, hcovers⟩ := NumSet.addNums_spec NumSet.empty_canonical numbers
  rw [NumSet.contains_iff hcanonical, hcovers]
  simp only [NumSet.spans_nil, Intervals.covers_nil, false_or]
  refine and_congr_right fun _ => ?_
  constructor
  · rintro ⟨other, hother, hplace⟩
    rwa [← position_inj hplace]
  · intro hnumber
    exact ⟨number, hnumber, rfl⟩

/-! ## The loop -/

def StoreState.failed (state : StoreState) (inUIDs : Bool) : NumSet :=
  if inUIDs then state.failedUIDs else state.failedSeqs

def failedNumbers (inUIDs : Bool) (session : SessionTracker)
    (unchangedSince : ModSeq) (entries : List (Nat × Message)) :
    List UInt32 :=
  (entries.filter fun entry =>
    decide (unchangedSince < entry.2.modSeq)).filterMap (numberIn inUIDs session)

def StoredBy [CaseMapping] (flags : StoreFlags) (msg new : Message) : Prop :=
  ∃ modSeq, new = { msg with flags := msg.storedFlags flags, modSeq := modSeq }

theorem storeVisit_conditional [CaseMapping] {start : MailboxTracker} {id : SessionId}
    {flags : StoreFlags} {options : StoreOptions} (hconditional : options.conditional = true)
    {inUIDs : Bool} {state next : StoreState} {index : Nat} {msg new : Message}
    (hvisit : storeVisit id flags options inUIDs state (Mailbox.seqNumAt index) msg = (next, new))
    (hstate : KeepsNumbers start id state.tracker) :
    (if msg.modSeq ≤ options.unchangedSince then StoredBy flags msg new
      else new = msg) ∧
    next.failed inUIDs = (state.failed inUIDs).addNums
      (failedNumbers inUIDs (sessionOf start id) options.unchangedSince [(index, msg)]) := by
  by_cases hle : msg.modSeq ≤ options.unchangedSince
  · have hnone : failedNumbers inUIDs (sessionOf start id)
        options.unchangedSince [(index, msg)] = [] := by
      simp [failedNumbers, UInt64.not_lt.mpr hle]
    rcases storeVisit_cases hvisit with ⟨hskip, -⟩ | ⟨-, -, -, -, rfl, huids, hseqs⟩
    · exact absurd hskip.2 (UInt64.not_lt.mpr hle)
    · rw [if_pos hle, hnone, StoreState.failed, StoreState.failed, huids, hseqs]
      refine ⟨?_, rfl⟩
      rcases store_cases msg state.highestModSeq flags with hstore | ⟨hstore, -⟩
      · exact ⟨_, by rw [hstore]⟩
      · exact ⟨_, by rw [hstore]⟩
  · have hnewer := UInt64.not_le.mp hle
    rw [storeVisit, if_pos ⟨hconditional, hnewer⟩, hstate.2] at hvisit
    unfold failedNumbers numberIn
    split_ifs at hvisit with hspace hclient
    all_goals
      cases hvisit
      simp_all [StoreState.failed, NumSet.addNums]

theorem addNums_failedNumbers (set : NumSet) (inUIDs : Bool) (session : SessionTracker)
    (unchangedSince : ModSeq) (entry : Nat × Message) (rest : List (Nat × Message)) :
    (set.addNums (failedNumbers inUIDs session unchangedSince
        [entry])).addNums (failedNumbers inUIDs session unchangedSince rest) =
      set.addNums (failedNumbers inUIDs session unchangedSince (entry :: rest)) := by
  unfold NumSet.addNums failedNumbers
  rw [← List.foldl_append, ← List.filterMap_append, ← List.filter_append, List.singleton_append]

theorem storeLoop_conditional [CaseMapping] {start : MailboxTracker} {id : SessionId}
    (numSet : MessageSet) (flags : StoreFlags) {options : StoreOptions}
    (hconditional : options.conditional = true) (inUIDs : Bool) (l : List Message) (index : Nat)
    (state : StoreState) (hstate : KeepsNumbers start id state.tracker) :
    List.Forall₂ (fun entry new =>
          if selects (sessionOf start id) numSet (Mailbox.seqNumAt entry.2)
              entry.1 = true ∧ entry.1.modSeq ≤ options.unchangedSince then
            StoredBy flags entry.1 new
          else new = entry.1)
        (l.zipIdx index)
        (forEachLoop (fun state => sessionOf state.tracker id) numSet
          (storeVisit id flags options inUIDs) l index state).2 ∧
      (forEachLoop (fun state => sessionOf state.tracker id) numSet
          (storeVisit id flags options inUIDs) l index state).1.failed inUIDs =
        (state.failed inUIDs).addNums
          (failedNumbers inUIDs (sessionOf start id) options.unchangedSince
            (selectedFrom (sessionOf start id) numSet l index)) := by
  induction l generalizing index state with
  | nil => exact ⟨.nil, rfl⟩
  | cons msg rest ih =>
    rw [forEachLoop, List.zipIdx_cons, selectedFrom]
    rw [selects_congr hstate.2]
    split_ifs with hselects
    · rcases hvisit : storeVisit id flags options inUIDs state
        (Mailbox.seqNumAt index) msg with ⟨next, new⟩
      obtain ⟨hnext, -⟩ := storeVisit_effect hvisit hstate
      obtain ⟨hmsg, hfailed⟩ := storeVisit_conditional hconditional hvisit hstate
      obtain ⟨hrest, hfailed'⟩ := ih (index + 1) next hnext
      refine ⟨.cons ?_ hrest, ?_⟩
      · simpa [hselects] using hmsg
      · rw [hfailed', hfailed, addNums_failedNumbers]
    · obtain ⟨hrest, hfailed⟩ := ih (index + 1) state hstate
      exact ⟨.cons (by simp [hselects]) hrest, hfailed⟩

theorem forall₂_zipIdx {β : Type} {R : Message × Nat → β → Prop} {l : List Message} {next : List β}
    (h : List.Forall₂ R l.zipIdx next) {index : Nat} {msg : Message} (hmsg : l[index]? = some msg) :
    ∃ new, next[index]? = some new ∧ R (msg, index) new := by
  obtain ⟨hlength, hget⟩ := List.forall₂_iff_get.mp h
  obtain ⟨hindex, rfl⟩ := List.getElem?_eq_some_iff.mp hmsg
  have hzip : index < l.zipIdx.length := by simpa using hindex
  refine ⟨next[index], List.getElem?_eq_getElem (hlength ▸ hzip), ?_⟩
  simpa using hget index hzip (hlength ▸ hzip)

theorem mem_failedNumbers {inUIDs : Bool} {session : SessionTracker} {unchangedSince : ModSeq}
    {entries : List (Nat × Message)} {number : UInt32} :
    number ∈ failedNumbers inUIDs session unchangedSince entries ↔
      ∃ entry ∈ entries, unchangedSince < entry.2.modSeq ∧
        numberIn inUIDs session entry = some number := by
  simp [failedNumbers, and_assoc]

/--
After any history of the mailbox, a conditional STORE applies its operation to
the messages of the set that are not newer than the value it names and leaves
all other messages as they are; the MODIFIED code lists the numbers of those
that are newer, and is absent if there are none.
-/
theorem store_partitions [CaseMapping] (uidValidity : UInt32) (steps : List HistoryStep)
    (view : View) (numSet : MessageSet) (flags : StoreFlags) (options : StoreOptions)
    (hconditional : options.conditional = true) :
    let mbox := (steps.foldl HistoryStep.perform (SharedMailbox.initial uidValidity)).mbox
    let result := view.store mbox numSet flags options
    let targets := view.selected mbox numSet
    let number := numberIn (uidSpace numSet options) (sessionOf mbox.tracker view.session)
    result.1.l.length = mbox.l.length ∧ (∀ index msg, mbox.l[index]? = some msg →
        ∃ new, result.1.l[index]? = some new ∧
          if (index, msg) ∈ targets ∧ msg.modSeq ≤ options.unchangedSince then
            StoredBy flags msg new
          else new = msg) ∧
      (∀ listed, result.2.failed.contains listed = true ↔ listed ≠ 0 ∧ ∃ entry ∈ targets,
          options.unchangedSince < entry.2.modSeq ∧
          number entry = some listed) ∧
      (result.2.code = [] ↔ ∀ entry ∈ targets,
        options.unchangedSince < entry.2.modSeq → number entry = none) := by
  intro mbox result targets number
  have hcurrent := upToDate_of_history (initial_upToDate uidValidity) steps
  obtain ⟨hl, hfailed⟩ := storeLoop_conditional (staticNumSet mbox view numSet)
    flags hconditional (uidSpace numSet options) mbox.l 0 (.start mbox) ⟨hcurrent, rfl⟩
  have hset : result.2.failed = NumSet.addNums [] (failedNumbers (uidSpace numSet options)
        (sessionOf mbox.tracker view.session) options.unchangedSince
        targets) := by
    refine Eq.trans ?_ (hfailed.trans ?_)
    · rfl
    · unfold StoreState.failed
      split <;> rfl
  refine ⟨?_, ?_, ?_, ?_⟩
  · exact hl.length_eq.symm.trans List.length_zipIdx
  · intro index msg hmsg
    obtain ⟨new, hnew, hstored⟩ := forall₂_zipIdx hl hmsg
    refine ⟨new, hnew, ?_⟩
    have htarget : (index, msg) ∈ targets ↔ selects
        (sessionOf mbox.tracker view.session) (staticNumSet mbox view numSet)
        (Mailbox.seqNumAt index) msg = true := by
      simp only [targets, View.selected]
      rw [mem_selectedFrom_iff, List.mk_mem_zipIdx_iff_getElem?]
      exact and_iff_right hmsg
    simp only [htarget]
    exact hstored
  · intro listed
    rw [hset, contains_addNums_iff, mem_failedNumbers]
  · have hcode : result.2.code = [] ↔ result.2.failed.string = [] := by
      rw [StoreResult.code, modifiedResponseCode]
      split_ifs with hempty
      · simp [hempty]
      · simp [hempty]
    rw [hcode, string_eq_nil, hset, addNums_eq_nil, List.eq_nil_iff_forall_not_mem]
    simp only [mem_failedNumbers]
    constructor
    · intro hnone entry hentry hnewer
      rw [Option.eq_none_iff_forall_ne_some]
      exact fun listed hlisted => hnone listed ⟨entry, hentry, hnewer, hlisted⟩
    · rintro hnone listed ⟨entry, hentry, hnewer, hlisted⟩
      have habsent := hnone entry hentry hnewer
      cases habsent.symm.trans hlisted

def firstChanged : List HistoryStep :=
  [.shared (.append [] {} 0), .shared (.append [] {} 0), .shared .newView,
    .shared (.store firstView (.seqSet [⟨1, 1⟩])
      { op := .add, silent := false, flags := [flagSeen] } {})]

theorem store_partitions_firstChanged :
    let mbox := (firstChanged.foldl (@HistoryStep.perform asciiCaseMapping)
      (SharedMailbox.initial 7)).mbox
    let result := @View.store asciiCaseMapping mbox
      firstView (.seqSet [⟨1, 0⟩])
      { op := .add, silent := false, flags := [flagDeleted] }
      { unchangedSince := 3, unchangedSinceSet := true, uidStore := false }
    result.2.code = ascii "MODIFIED 1" ∧
      result.1.l.map (·.flags.keys) = [[flagSeen], [flagDeleted]].map
        (List.map (@canonicalFlag asciiCaseMapping)) ∧
      result.1.l.length = mbox.l.length := by
  exact ⟨by decide, by decide, (@store_partitions asciiCaseMapping 7 firstChanged
      firstView (.seqSet [⟨1, 0⟩])
      { op := .add, silent := false, flags := [flagDeleted] }
      { unchangedSince := 3, unchangedSinceSet := true, uidStore := false }
      rfl).1⟩

end GoImap.MemServer
