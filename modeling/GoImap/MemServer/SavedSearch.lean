import GoImap.MemServer.MultiSearch
import GoImap.MemServer.Store

/-!
# What a search saves

A search with `SAVE` leaves a set of UIDs for `$`, and its answer may be in
sequence numbers.  The two agree on the first and the last match.  On the whole
result they differ if a message matches that the client has no number for: it
is saved and not reported.
-/

namespace GoImap.MemServer

open Tracker

def NumKind.number (numKind : NumKind) (entry : SeqNum × Message) : UInt32 :=
  match numKind with
  | .seq => entry.1
  | .uid => entry.2.uid

def SearchData.reports (data : SearchData) (session : SessionTracker) (numKind : NumKind)
    (options : SearchOptions) (seqNum : SeqNum) (msg : Message) : Bool :=
  if options.returnAll ∨ options.returnCount ∨ ¬options.returnMin ∧ ¬options.returnMax then
    selects session data.all seqNum msg
  else
    let number := numKind.number (session.encodeSeqNum seqNum, msg)
    number ≠ 0 ∧ (options.returnMin ∧ number = data.min ∨ options.returnMax ∧ number = data.max)

def View.SavesReported (mbox : Mailbox) (view : View) (numKind : NumKind)
    (options : SearchOptions) (data : SearchData) : Prop :=
  view.visited mbox .searchRes =
    picked mbox.l (data.reports (sessionOf mbox.tracker view.session) numKind options)

theorem SearchOptions.wholeResult_iff (options : SearchOptions) :
    options.wholeResult = true ↔ options.returnAll ∨ options.returnCount ∨
        ¬options.returnMin ∧ ¬options.returnMax := by
  simp [SearchOptions.wholeResult, or_assoc]

/-! ## Numbers and UIDs -/

theorem encodeSeqNum_inj {tracker : MailboxTracker} (hreach : Reachable tracker) (id : SessionId)
    {first second : SeqNum} (hne : (sessionOf tracker id).encodeSeqNum first ≠ 0)
    (hsame : (sessionOf tracker id).encodeSeqNum second = (sessionOf tracker id).encodeSeqNum first)
    : second = first := by
  cases hopen : (sessionOf tracker id).closed with
  | true => simp [SessionTracker.encodeSeqNum, hopen] at hne
  | false =>
    have hsession : tracker.sessions id = some (sessionOf tracker id) := by
      cases hsession : tracker.sessions id with
      | none => simp [sessionOf, hsession] at hopen
      | some session => simp [sessionOf, hsession]
    have hfollows := hreach.consistent id _ hsession hopen
    have hback := (SessionTracker.decode_encode hfollows hopen hne).2
    rw [← hsame] at hne hback
    rw [← hback, (SessionTracker.decode_encode hfollows hopen hne).2]

variable {entry : SeqNum × Message} {numKind : NumKind} {mbox : Mailbox}
  {view : View} {pool : List (SeqNum × Message)} {state : SearchState}

namespace OrderedUIDs

variable (h : OrderedUIDs mbox)

include h

theorem nodup : (mbox.l.map Message.uid).Nodup := by
  rw [List.Nodup, List.pairwise_map]
  exact h.ascending.imp fun hlt => UInt32.ne_of_lt hlt

theorem length_le : mbox.l.length ≤ 2 ^ 32 := by
  have hnodup := h.nodup.map fun _ _ => UInt32.toNat_inj.mp
  have hsub : (mbox.l.map Message.uid).map UInt32.toNat ⊆ List.range (2 ^ 32) := by
    intro number hnumber
    obtain ⟨uid, -, rfl⟩ := List.mem_map.mp hnumber
    exact List.mem_range.mpr uid.toNat_lt
  have hle := (hnodup.subperm hsub).length_le
  rwa [List.length_map, List.length_map, List.length_range] at hle

theorem uid_ne_zero (hentry : entry ∈ view.numbered mbox) : entry.2.uid ≠ 0 := by
  obtain ⟨⟨msg, index⟩, hmem, rfl⟩ := List.mem_map.mp hentry
  exact (h.below msg (List.fst_mem_of_mem_zipIdx hmem)).1

theorem seqNum_injOn_numbered (hreach : Reachable mbox.tracker) {first second : SeqNum × Message}
    (hfirst : first ∈ view.numbered mbox) (hsecond : second ∈ view.numbered mbox)
    (hne : first.1 ≠ 0) (hsame : second.1 = first.1) : second = first := by
  obtain ⟨⟨msg, index⟩, hmem, rfl⟩ := List.mem_map.mp hfirst
  obtain ⟨⟨other, index'⟩, hmem', rfl⟩ := List.mem_map.mp hsecond
  rw [List.mk_mem_zipIdx_iff_getElem?] at hmem hmem'
  have hlength := h.length_le
  have hlt := (List.getElem?_eq_some_iff.mp hmem).1
  have hlt' := (List.getElem?_eq_some_iff.mp hmem').1
  have hplace := encodeSeqNum_inj hreach view.session hne hsame
  rw [Mailbox.seqNumAt, Mailbox.seqNumAt, UInt32.add_left_inj,
    ← UInt32.toNat_inj, Word.toNat_ofNat_of_lt (by omega),
    Word.toNat_ofNat_of_lt (by omega)] at hplace
  dsimp only at hplace
  subst hplace
  rw [hmem] at hmem'
  injection hmem' with hmsg
  rw [hmsg]

theorem same_number_iff (hreach : Reachable mbox.tracker) {first second : SeqNum × Message}
    (hfirst : first ∈ view.numbered mbox)
    (hsecond : second ∈ view.numbered mbox) (hne : numKind.number first ≠ 0) :
    numKind.number second = numKind.number first ↔ second.2.uid = first.2.uid := by
  cases numKind with
  | uid => rfl
  | seq =>
    constructor
    · intro hsame
      rw [h.seqNum_injOn_numbered hreach hfirst hsecond hne hsame]
    · intro hsame
      rw [uid_injOn_numbered view h.nodup hsecond hfirst hsame]

end OrderedUIDs

/-! ## The loop -/

def Endpoint.From (numKind : NumKind) (pool : List (SeqNum × Message))
    (endpoint : Endpoint) : Prop :=
  endpoint.num = 0 ∧ endpoint.uid = 0 ∨ ∃ entry ∈ pool, numKind.number entry ≠ 0 ∧
      endpoint.num = numKind.number entry ∧ endpoint.uid = entry.2.uid

theorem Endpoint.From.ite {new old : Endpoint} {closer : Prop} [Decidable closer]
    (hnew : new.From numKind pool) (hold : old.From numKind pool) :
    (if closer then new else old).From numKind pool := by
  split_ifs
  · exact hnew
  · exact hold

theorem searchVisit_ends (hentry : entry ∈ pool) (huid : entry.2.uid ≠ 0)
    (hmin : state.min.From numKind pool) (hmax : state.max.From numKind pool) :
    (searchVisit numKind state entry.1 entry.2).min.From numKind pool ∧
      (searchVisit numKind state entry.1 entry.2).max.From numKind pool := by
  by_cases hnone : numKind = .seq ∧ entry.1 = 0
  · simp only [searchVisit, hnone]
    simpa [hnone.1] using And.intro hmin hmax
  · have hnumber : numKind.number entry ≠ 0 := by
      cases numKind with
      | uid => exact huid
      | seq => exact fun hzero => hnone ⟨rfl, hzero⟩
    have hnew : Endpoint.From numKind pool
        { num := if numKind = .seq then entry.1 else entry.2.uid
          uid := entry.2.uid
          modSeq := entry.2.modSeq } := by
      refine .inr ⟨entry, hentry, hnumber, ?_, rfl⟩
      cases numKind <;> rfl
    rw [searchVisit, if_neg hnone]
    exact ⟨hnew.ite hmin, hnew.ite hmax⟩

theorem foldl_searchVisit_ends (huid : ∀ entry ∈ pool, entry.2.uid ≠ 0)
    {entries : List (SeqNum × Message)} (hsub : entries ⊆ pool)
    (hmin : state.min.From numKind pool) (hmax : state.max.From numKind pool) :
    let after := entries.foldl (fun state entry =>
      searchVisit numKind state entry.1 entry.2) state
    after.min.From numKind pool ∧ after.max.From numKind pool := by
  induction entries generalizing state with
  | nil => exact ⟨hmin, hmax⟩
  | cons entry rest ih =>
    rw [List.cons_subset] at hsub
    obtain ⟨hmin, hmax⟩ := searchVisit_ends hsub.1 (huid entry hsub.1) hmin hmax
    exact ih hsub.2 hmin hmax

theorem foldl_searchVisit_seqSet (entries : List (SeqNum × Message)) (state : SearchState) :
    (entries.foldl (fun state entry =>
        searchVisit .seq state entry.1 entry.2) state).seqSet =
      state.seqSet.addNums ((entries.map (·.1)).filter (· ≠ 0)) := by
  induction entries generalizing state with
  | nil => rfl
  | cons entry rest ih =>
    rw [List.foldl_cons, ih, List.map_cons, List.filter_cons]
    by_cases hzero : entry.1 = 0
    · simp [searchVisit, hzero]
    · simp [searchVisit, hzero, NumSet.addNums]

/-! ## The saved set -/

theorem contains_savedSearch_iff {options : SearchOptions}
    (hends : options.wholeResult = false) (uid : UID) :
    (savedSearch options state).contains uid = true ↔ uid ≠ 0 ∧
        (options.returnMin = true ∧ uid = state.min.uid ∨
          options.returnMax = true ∧ uid = state.max.uid) := by
  have hsaved : savedSearch options state = NumSet.addNums []
      ((if options.returnMin ∧ state.min.uid ≠ 0 then [state.min.uid] else []) ++
        if options.returnMax ∧ state.max.uid ≠ 0 then [state.max.uid]
        else []) := by
    rw [savedSearch, hends]
    split_ifs <;> simp_all [NumSet.addNums]
  rw [hsaved, contains_addNums_iff, List.mem_append]
  refine and_congr_right fun hne => or_congr ?_ ?_
  · split_ifs with hasked
    · simp [hasked.1]
    · simp
      rintro hmin rfl
      exact hasked ⟨hmin, hne⟩
  · split_ifs with hasked
    · simp [hasked.1]
    · simp
      rintro hmax rfl
      exact hasked ⟨hmax, hne⟩

section

variable {test : SeqNum → Message → Bool} {options : SearchOptions}

def View.searchState (mbox : Mailbox) (view : View) (numKind : NumKind)
    (test : SeqNum → Message → Bool) : SearchState :=
  (view.found mbox test).foldl (fun state entry => searchVisit numKind state entry.1 entry.2) {}

theorem search_searchRes (hsave : options.returnSave = true) :
    (view.search mbox numKind test options).1.searchRes =
      savedSearch options (view.searchState mbox numKind test) := by
  simp only [View.search, searchLoop_eq, hsave, if_true]
  rfl

theorem search_data :
    let data := (view.search mbox numKind test options).2
    let state := view.searchState mbox numKind test
    data.min = state.min.num ∧ data.max = state.max.num ∧
      data.all = if numKind = .seq then .seqSet state.seqSet
        else .uidSet state.uidSet := by
  simp only [View.search, searchLoop_eq]
  exact ⟨rfl, rfl, rfl⟩

variable (huids : OrderedUIDs mbox)

include huids

theorem searchState_ends :
    let state := view.searchState mbox numKind test
    state.min.From numKind (view.numbered mbox) ∧ state.max.From numKind (view.numbered mbox) :=
  foldl_searchVisit_ends (fun _ hentry => huids.uid_ne_zero hentry)
    (List.filter_subset_self _) (.inl ⟨rfl, rfl⟩) (.inl ⟨rfl, rfl⟩)

omit huids in
theorem Endpoint.From.same_iff {endpoint : Endpoint}
    (h : endpoint.From numKind (view.numbered mbox)) (huids : OrderedUIDs mbox)
    (hreach : Reachable mbox.tracker) (hentry : entry ∈ view.numbered mbox) :
    entry.2.uid ≠ 0 ∧ entry.2.uid = endpoint.uid ↔
      numKind.number entry ≠ 0 ∧ numKind.number entry = endpoint.num := by
  rcases h with ⟨hnum, huid⟩ | ⟨other, hother, hne, hnum, huid⟩
  · rw [hnum, huid]
    simp
  · rw [hnum, huid, huids.same_number_iff hreach hother hentry hne]
    refine and_congr_left fun hsame => ?_
    have hnumber := (huids.same_number_iff hreach hother hentry hne).mpr hsame
    simp [hnumber, hne, huids.uid_ne_zero hentry]

variable (hreach : Reachable mbox.tracker)

include hreach

theorem ends_saved_iff (hends : options.wholeResult = false) (hentry : entry ∈ view.numbered mbox) :
    (savedSearch options (view.searchState mbox numKind test)).contains entry.2.uid = true ↔
      numKind.number entry ≠ 0 ∧ (options.returnMin = true ∧ numKind.number entry =
            (view.searchState mbox numKind test).min.num ∨
          options.returnMax = true ∧ numKind.number entry =
            (view.searchState mbox numKind test).max.num) := by
  obtain ⟨hmin, hmax⟩ := @searchState_ends numKind mbox view test huids
  have hminSame := hmin.same_iff huids hreach hentry
  have hmaxSame := hmax.same_iff huids hreach hentry
  rw [contains_savedSearch_iff hends]
  tauto

omit hreach in
theorem whole_saved_iff (hwhole : options.wholeResult = true)
    (hentry : entry ∈ view.numbered mbox) :
    (savedSearch options (view.searchState mbox numKind test)).contains
        entry.2.uid = true ↔ test entry.1 entry.2 = true := by
  rw [savedSearch, if_pos hwhole, View.searchState, foldl_searchVisit_uidSet, contains_addNums_iff]
  constructor
  · rintro ⟨-, hmem⟩
    obtain ⟨found, hfound, huid⟩ := List.mem_map.mp hmem
    obtain ⟨hnumbered, htest⟩ := List.mem_filter.mp hfound
    rwa [← uid_injOn_numbered view huids.nodup hnumbered hentry huid]
  · intro htest
    exact ⟨huids.uid_ne_zero hentry, List.mem_map_of_mem (List.mem_filter.mpr ⟨hentry, htest⟩)⟩

theorem seqSet_reported_iff (hentry : entry ∈ view.numbered mbox) :
    entry.1 ≠ 0 ∧ (view.searchState mbox .seq test).seqSet.contains entry.1 = true ↔
      entry.1 ≠ 0 ∧ test entry.1 entry.2 = true := by
  rw [View.searchState, foldl_searchVisit_seqSet, contains_addNums_iff]
  refine and_congr_right fun hne => ?_
  constructor
  · rintro ⟨-, hmem⟩
    obtain ⟨found, hfound, hseq⟩ := List.mem_map.mp (List.mem_of_mem_filter hmem)
    obtain ⟨hnumbered, htest⟩ := List.mem_filter.mp hfound
    rwa [← huids.seqNum_injOn_numbered hreach hentry hnumbered hne hseq]
  · intro htest
    refine ⟨hne, List.mem_filter.mpr ⟨?_, by simpa using hne⟩⟩
    exact List.mem_map_of_mem (List.mem_filter.mpr ⟨hentry, htest⟩)

/-- The answer names what is saved, unless it leaves out a message that was
found and has no number. -/
theorem reports_iff {index : Nat} {msg : Message} (hmem : (msg, index) ∈ mbox.l.zipIdx) :
    let session := sessionOf mbox.tracker view.session
    let seqNum := session.encodeSeqNum (Mailbox.seqNumAt index)
    (view.search mbox numKind test options).2.reports session numKind options
        (Mailbox.seqNumAt index) msg = true ↔
      (savedSearch options (view.searchState mbox numKind test)).contains msg.uid = true ∧
        ¬(numKind = .seq ∧ options.wholeResult = true ∧ seqNum = 0) := by
  intro session seqNum
  have hentry : (seqNum, msg) ∈ view.numbered mbox := List.mem_map_of_mem hmem
  obtain ⟨hmin, hmax, hall⟩ := @search_data numKind mbox view test options
  rw [SearchData.reports, hmin, hmax, hall]
  by_cases hwhole : options.wholeResult = true
  · rw [if_pos (options.wholeResult_iff.mp hwhole)]
    cases numKind with
    | uid => simp [selects, savedSearch, hwhole]
    | seq =>
      have hreported := @seqSet_reported_iff _ mbox view test huids hreach hentry
      have hsaved := @whole_saved_iff _ .seq mbox view test options huids hwhole hentry
      simp only [selects, if_true, Bool.and_eq_true, bne_iff_ne, ne_eq, true_and, hwhole]
      rw [hsaved]
      exact hreported.trans and_comm
  · have hends : options.wholeResult = false := by simpa using hwhole
    have hsaved := @ends_saved_iff _ numKind mbox view test options huids hreach hends hentry
    rw [if_neg (fun hasked => hwhole (options.wholeResult_iff.mpr hasked)), hsaved]
    simp [hends, seqNum]

theorem search_saves_iff (hsave : options.returnSave = true) :
    (view.search mbox numKind test options).1.SavesReported mbox numKind
        options (view.search mbox numKind test options).2 ↔
      (numKind = .seq → options.wholeResult = true →
        ∀ entry ∈ view.numbered mbox, test entry.1 entry.2 = true → entry.1 ≠ 0) := by
  have hselects : ∀ seqNum msg, selects (sessionOf mbox.tracker view.session)
          (staticNumSet mbox (view.search mbox numKind test options).1 .searchRes) seqNum msg =
        (savedSearch options (view.searchState mbox numKind test)).contains msg.uid := by
    intro seqNum msg
    rw [← search_searchRes hsave]
    rfl
  rw [View.SavesReported, visited_eq_picked, eq_comm, picked_eq_iff]
  · constructor
    · rintro hpicked rfl hwhole entry hentry htest hzero
      obtain ⟨⟨msg, index⟩, hmem, rfl⟩ := List.mem_map.mp hentry
      have hreported := hpicked index msg hmem
        ((hselects _ _).trans ((whole_saved_iff huids hwhole hentry).mpr htest))
      exact ((reports_iff huids hreach hmem).mp hreported).2 ⟨rfl, hwhole, hzero⟩
    · intro hnumbers index msg hmem hselected
      rw [show (view.search mbox numKind test options).1.session =
        view.session from rfl, hselects] at hselected
      refine (reports_iff huids hreach hmem).mpr ⟨hselected, ?_⟩
      rintro ⟨rfl, hwhole, hzero⟩
      have hentry : ((sessionOf mbox.tracker view.session).encodeSeqNum
          (Mailbox.seqNumAt index), msg) ∈ view.numbered mbox :=
        List.mem_map_of_mem hmem
      exact hnumbers rfl hwhole _ hentry ((whole_saved_iff huids hwhole hentry).mp hselected) hzero
  · intro index msg hmem hreported
    exact (hselects _ _).trans ((reports_iff huids hreach hmem).mp hreported).1

end

/--
With `SAVE`, `$` selects what the answer reports, unless the answer is the
whole result in sequence numbers and a message matches that the client has no
number for.
-/
theorem search_savesReported_iff [CaseMapping] (content : Content) {mbox : Mailbox}
    (hreach : Reachable mbox.tracker) (huids : OrderedUIDs mbox) (view : View) (numKind : NumKind)
    (criteria : SearchCriteria) (options : SearchOptions) (hsave : options.returnSave = true) :
    let result := view.searchCriteria content mbox numKind criteria options
    result.1.SavesReported mbox numKind options result.2.1 ↔
      (numKind = .seq → options.wholeResult = true → ∀ entry ∈ view.numbered mbox,
          entry.2.search content entry.1 (staticSearchCriteria mbox view criteria) = true →
            entry.1 ≠ 0) :=
  search_saves_iff huids hreach hsave

def secondArrives : Mailbox :=
  ([emptyAppend, .newView, emptyAppend].foldl
    (@MailboxState.perform asciiCaseMapping) (MailboxState.initial 1)).mbox

theorem secondArrives_reachable : Reachable secondArrives.tracker := by
  have hrun : performAll (newMailboxTracker 0)
      [.queueNumMessages 1, .newSession, .queueNumMessages 2] = .ok secondArrives.tracker := rfl
  exact reachable_of_performAll hrun

theorem search_savesReported_ends :
    let options : SearchOptions :=
      { returnMin := true, returnMax := true, returnSave := true }
    let result := @View.searchCriteria asciiCaseMapping noContent
      secondArrives firstView .seq .empty options
    result.1.SavesReported secondArrives .seq options result.2.1 ∧ result.2.1.max = 1 := by
  refine ⟨(@search_savesReported_iff asciiCaseMapping noContent secondArrives
    secondArrives_reachable ⟨by decide, by decide, by decide⟩ firstView .seq
    .empty _ rfl).mpr ?_, by decide⟩
  intro _ hwhole
  cases hwhole

/-- Both messages match, one is reported, and `$` selects both. -/
theorem unannounced_saved :
    let options : SearchOptions :=
      { returnAll := true, returnCount := true, returnSave := true }
    let result := @View.searchCriteria asciiCaseMapping noContent
      secondArrives firstView .seq .empty options
    result.2.1.all = .seqSet [⟨1, 1⟩] ∧ result.2.1.count = 1 ∧
      (result.1.visited secondArrives .searchRes).map (·.2.uid) = [1, 2] ∧
      ¬result.1.SavesReported secondArrives .seq options result.2.1 := by
  refine ⟨by decide, by decide, by decide, ?_⟩
  unfold View.SavesReported
  decide

end GoImap.MemServer
