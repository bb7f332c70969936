import GoImap.NumSet.Collect
import GoImap.Tracker.Chain

/-!
# What a poll writes

A poll walks the updates it has dequeued and writes one response for each, but
a session with QRESYNC collects consecutive expunges of known UIDs and reports
them together in one VANISHED response.  The loop is given twice: as the next
action in a given state, which other goroutines may interleave with, and as
the whole output.  The output reports the updates in order, and replayed on a
count it has the effect of the updates.
-/

namespace GoImap.Tracker

inductive Response where
  | expunge (seqNum : SeqNum)
  | vanished (uids : NumSet)
  | numMessages (count : UInt32)
  | mailboxFlags (flags : List Flag)
  | messageFlags (fetch : TrackerUpdateFetch)
  deriving DecidableEq, Repr

namespace TrackerUpdate

def response (update : TrackerUpdate) : Option Response :=
  if update.expunge ≠ 0 then some (.expunge update.expunge)
  else if update.numMessages ≠ 0 then some (.numMessages update.numMessages)
  else match update.mailboxFlags, update.fetch with
    | some flags, _ => some (.mailboxFlags flags)
    | none, some fetch => some (.messageFlags fetch)
    | none, none => none

def hasVanishedUID (update : TrackerUpdate) : Bool := update.expunge != 0 && update.expungeUID != 0

def coalesces (qresync : Bool) (update : TrackerUpdate) : Bool := qresync && update.hasVanishedUID

end TrackerUpdate

inductive Progress where
  | next (written : Option Response) (pending : List TrackerUpdate) (vanished : NumSet)
  | done
  | panic

/-- The next action of the write loop of `poll`: at most one write. -/
def writeNext (qresync : Bool) : List TrackerUpdate → NumSet → Progress
  | [], vanished =>
    if vanished = [] then .done else .next (some (.vanished vanished)) [] []
  | update :: rest, vanished =>
    if update.coalesces qresync then
      .next none rest (vanished.addNum update.expungeUID)
    else if vanished = [] then
      match update.response with
      | some response => .next (some response) rest []
      | none => .panic
    else .next (some (.vanished vanished)) (update :: rest) []

def flushVanished (vanished : NumSet) : List Response :=
  if vanished = [] then [] else [.vanished vanished]

def writeLoop (qresync : Bool) : List TrackerUpdate → NumSet → List Response
  | [], vanished => flushVanished vanished
  | update :: rest, vanished =>
    if update.coalesces qresync then
      writeLoop qresync rest (vanished.addNum update.expungeUID)
    else
      flushVanished vanished ++ (update.response.toList ++ writeLoop qresync rest [])

@[simp] theorem flushVanished_nil : flushVanished [] = [] := rfl

variable {qresync : Bool} {pending rest after updates run : List TrackerUpdate}
  {vanished : NumSet} {update : TrackerUpdate} {count final : UInt32}

theorem writeNext_outcome (qresync : Bool) (pending : List TrackerUpdate) (vanished : NumSet) :
    match writeNext qresync pending vanished with
    | .next written rest collected => rest <:+ pending ∧
        written.toList ++ writeLoop qresync rest collected = writeLoop qresync pending vanished
    | .done => writeLoop qresync pending vanished = []
    | .panic => ∃ update ∈ pending, update.response = none := by
  cases pending with
  | nil => by_cases hempty : vanished = [] <;> simp [writeNext, writeLoop, flushVanished, hempty]
  | cons update tail =>
    by_cases hcoalesce : update.coalesces qresync = true
    · simp [writeNext, writeLoop, hcoalesce]
    · by_cases hempty : vanished = []
      · cases hresponse : update.response with
        | none | some response => simp [writeNext, writeLoop, hcoalesce, hempty, hresponse]
      · simp [writeNext, writeLoop, hcoalesce, flushVanished, hempty]

/-! ## The output reports the updates -/

def collectRun (run : List TrackerUpdate) : NumSet :=
  NumSet.addNums [] (run.map TrackerUpdate.expungeUID)

/-- A response that tells what is set in the update. -/
def Response.StandsFor : Response → TrackerUpdate → Prop
  | .expunge seqNum, update => update.expunge = seqNum ∧ seqNum ≠ 0
  | .numMessages count, update => update.numMessages = count ∧ count ≠ 0 ∧ update.expunge = 0
  | .mailboxFlags flags, update =>
    update.mailboxFlags = some flags ∧ update.expunge = 0 ∧ update.numMessages = 0
  | .messageFlags fetch, update =>
    update.fetch = some fetch ∧ update.expunge = 0 ∧ update.numMessages = 0
  | .vanished _, _ => False

theorem standsFor_of_response {response : Response} (h : update.response = some response) :
    response.StandsFor update := by
  unfold TrackerUpdate.response at h
  split_ifs at h with hexpunge hcount
  · cases h
    exact ⟨rfl, hexpunge⟩
  · cases h
    exact ⟨rfl, hcount, not_not.mp hexpunge⟩
  · split at h
    · next hflags =>
        cases h
        exact ⟨hflags, not_not.mp hexpunge, not_not.mp hcount⟩
    · next hfetch =>
        cases h
        exact ⟨hfetch, not_not.mp hexpunge, not_not.mp hcount⟩
    · cases h

/--
The responses correspond to the updates, in order: each response to one update
of its own, or one VANISHED to a run of expunges whose UIDs it holds.
-/
inductive Reports : List Response → List TrackerUpdate → Prop
  | nil : Reports [] []
  | one {response : Response} {update : TrackerUpdate}
      {responses : List Response} {updates : List TrackerUpdate}
      (hresponse : response.StandsFor update)
      (hrest : Reports responses updates) :
      Reports (response :: responses) (update :: updates)
  | run {uids : NumSet} {run : List TrackerUpdate}
      {responses : List Response} {updates : List TrackerUpdate}
      (hne : run ≠ []) (hrun : ∀ update ∈ run, update.hasVanishedUID = true)
      (huids : ∀ uid, uids.contains uid = true ↔ uid ∈ run.map TrackerUpdate.expungeUID)
      (hrest : Reports responses updates) :
      Reports (.vanished uids :: responses) (run ++ updates)

theorem Reports.append {first second : List Response} {before : List TrackerUpdate}
    (hfirst : Reports first before) (hsecond : Reports second after) :
    Reports (first ++ second) (before ++ after) := by
  induction hfirst with
  | nil => exact hsecond
  | one hresponse _ ih => exact .one hresponse ih
  | run hne hrun huids _ ih =>
    rw [List.append_assoc]
    exact .run hne hrun huids ih

theorem Reports.of_isPrefix {responses output : List Response}
    (h : Reports responses updates) (hpart : output <+: responses) :
    ∃ delivered, delivered <+: updates ∧ Reports output delivered := by
  induction h generalizing output with
  | nil =>
    rw [List.prefix_nil.mp hpart]
    exact ⟨[], List.nil_prefix, .nil⟩
  | one hresponse _ ih =>
    rcases List.prefix_cons_iff.mp hpart with rfl | ⟨rest, rfl, hrest⟩
    · exact ⟨[], List.nil_prefix, .nil⟩
    · obtain ⟨delivered, hdelivered, hreports⟩ := ih hrest
      exact ⟨_, (List.prefix_cons_inj _).mpr hdelivered, .one hresponse hreports⟩
  | run hne hrun huids _ ih =>
    rcases List.prefix_cons_iff.mp hpart with rfl | ⟨rest, rfl, hrest⟩
    · exact ⟨[], List.nil_prefix, .nil⟩
    · obtain ⟨delivered, hdelivered, hreports⟩ := ih hrest
      exact ⟨_, (List.prefix_append_right_inj _).mpr hdelivered, .run hne hrun huids hreports⟩

theorem collectRun_concat (run : List TrackerUpdate) (update : TrackerUpdate) :
    collectRun (run ++ [update]) = (collectRun run).addNum update.expungeUID := by
  simp [collectRun, NumSet.addNums]

section Run

variable {run : List TrackerUpdate}

theorem vanishedUID_ne_zero (h : update.hasVanishedUID = true) :
    update.expunge ≠ 0 ∧ update.expungeUID ≠ 0 := by
  simpa [TrackerUpdate.hasVanishedUID] using h

theorem hasVanishedUID_of_coalesces (h : update.coalesces qresync = true) :
    update.hasVanishedUID = true := by
  simp only [TrackerUpdate.coalesces, Bool.and_eq_true] at h
  exact h.2

section

variable (hrun : ∀ update ∈ run, update.coalesces qresync = true)

include hrun

theorem zero_not_mem_uids : 0 ∉ run.map TrackerUpdate.expungeUID := by
  intro hmem
  obtain ⟨update, hupdate, hzero⟩ := List.mem_map.mp hmem
  have hknown := hasVanishedUID_of_coalesces (hrun update hupdate)
  exact (vanishedUID_ne_zero hknown).2 hzero

theorem contains_collectRun (uid : UID) :
    (collectRun run).contains uid = true ↔ uid ∈ run.map TrackerUpdate.expungeUID :=
  NumSet.contains_addNums (zero_not_mem_uids hrun) uid

theorem collectRun_eq_nil : collectRun run = [] ↔ run = [] := by
  constructor
  · intro hempty
    cases run with
    | nil => rfl
    | cons update rest =>
      have hmem := (contains_collectRun hrun update.expungeUID).mpr (by simp)
      rw [hempty] at hmem
      cases hmem
  · rintro rfl
    rfl

theorem flushVanished_reports : Reports (flushVanished (collectRun run)) run := by
  unfold flushVanished
  split_ifs with hempty
  · rw [(collectRun_eq_nil hrun).mp hempty]
    exact .nil
  · have hne := fun h => hempty ((collectRun_eq_nil hrun).mpr h)
    have hone : Reports [.vanished (collectRun run)] (run ++ []) := .run hne
        (fun update hupdate => hasVanishedUID_of_coalesces (hrun update hupdate))
        (contains_collectRun hrun) .nil
    rwa [List.append_nil] at hone

theorem concat_coalesces (h : update.coalesces qresync = true) :
    ∀ other ∈ run ++ [update], other.coalesces qresync = true := by
  exact List.forall_mem_append.mpr ⟨hrun, List.forall_mem_singleton.mpr h⟩

theorem writeLoop_reports (hkinds : ∀ update ∈ updates, update.response.isSome = true) :
    Reports (writeLoop qresync updates (collectRun run)) (run ++ updates) := by
  induction updates generalizing run with
  | nil =>
    rw [writeLoop, List.append_nil]
    exact flushVanished_reports hrun
  | cons update rest ih =>
    rw [List.forall_mem_cons] at hkinds
    rw [writeLoop]
    split_ifs with hcoalesce
    · have hnext := ih (concat_coalesces hrun hcoalesce) hkinds.2
      rwa [collectRun_concat, List.append_assoc] at hnext
    · obtain ⟨response, hresponse⟩ := Option.isSome_iff_exists.mp hkinds.1
      rw [hresponse]
      have htail : Reports (writeLoop qresync rest (collectRun [])) rest := ih (by simp) hkinds.2
      exact (flushVanished_reports hrun).append (.one (standsFor_of_response hresponse) htail)

omit hrun in
theorem writeLoop_batch (hkinds : ∀ update ∈ updates, update.response.isSome = true) :
    Reports (writeLoop qresync updates []) updates :=
  @writeLoop_reports _ _ [] (by simp) hkinds

theorem writeLoop_collect : writeLoop qresync (run ++ after) vanished = writeLoop qresync after
        (vanished.addNums (run.map TrackerUpdate.expungeUID)) := by
  induction run generalizing vanished with
  | nil => rfl
  | cons update rest ih =>
    rw [List.forall_mem_cons] at hrun
    rw [List.cons_append, writeLoop, if_pos hrun.1]
    exact ih hrun.2

end

theorem writeLoop_flush
    (hafter : ∀ next, after.head? = some next → next.coalesces qresync = false) :
    writeLoop qresync after vanished = flushVanished vanished ++ writeLoop qresync after [] := by
  cases after with
  | nil => simp [writeLoop]
  | cons next rest => simp [writeLoop, hafter next rfl]

theorem writeLoop_cut {front : List TrackerUpdate} {last : TrackerUpdate}
    (hlast : last.coalesces qresync = false) :
    writeLoop qresync (front ++ last :: rest) vanished =
      writeLoop qresync (front ++ [last]) vanished ++ writeLoop qresync rest [] := by
  induction front generalizing vanished with
  | nil => simp [writeLoop, hlast]
  | cons update front ih =>
    rw [List.cons_append, List.cons_append, writeLoop, writeLoop]
    split_ifs with hcoalesce
    · exact ih
    · rw [ih]
      simp

/--
A maximal run of expunges with known UIDs becomes one VANISHED between the
output for the updates in front of it and the output for those behind it.
-/
theorem writeLoop_run {before : List TrackerUpdate} (hne : run ≠ [])
    (hrun : ∀ update ∈ run, update.coalesces qresync = true)
    (hbefore : ∀ last, before.getLast? = some last → last.coalesces qresync = false)
    (hafter : ∀ next, after.head? = some next → next.coalesces qresync = false) :
    writeLoop qresync (before ++ (run ++ after)) [] = writeLoop qresync before [] ++
        .vanished (collectRun run) :: writeLoop qresync after [] := by
  have hmiddle : writeLoop qresync (run ++ after) [] =
      .vanished (collectRun run) :: writeLoop qresync after [] := by
    have hcollected : collectRun run ≠ [] := fun h =>
      hne ((collectRun_eq_nil hrun).mp h)
    rw [writeLoop_collect hrun, writeLoop_flush hafter]
    exact congrArg (· ++ writeLoop qresync after []) (if_neg hcollected)
  rcases List.eq_nil_or_concat before with rfl | ⟨front, last, rfl⟩
  · exact hmiddle
  · rw [List.concat_eq_append, List.append_assoc, List.singleton_append,
      writeLoop_cut (hbefore last (by simp)), hmiddle]

end Run

/-! ## Replaying the output -/

def Response.replay (count : Int) : Response → Int
  | .expunge _ => count - 1
  | .vanished uids => count - uids.cardinality.toNat
  | .numMessages total => total.toNat
  | .mailboxFlags _ => count
  | .messageFlags _ => count

def replayAll (count : Int) (responses : List Response) : Int :=
  responses.foldl Response.replay count

@[simp] theorem replayAll_nil (count : Int) : replayAll count [] = count := rfl

@[simp] theorem replayAll_cons (count : Int) (response : Response) (responses : List Response) :
    replayAll count (response :: responses) = replayAll (response.replay count) responses := rfl

@[simp] theorem replayAll_append (count : Int) (first second : List Response) :
    replayAll count (first ++ second) = replayAll (replayAll count first) second := by
  simp [replayAll]

def expungedUIDs (updates : List TrackerUpdate) : List UID :=
  (updates.filter TrackerUpdate.hasVanishedUID).map TrackerUpdate.expungeUID

theorem TrackerUpdate.Extends.replay {response : Response}
    (h : update.Extends count) (hresponse : update.response = some response) :
    response.replay count.toNat = (update.countAfter count).toNat := by
  unfold TrackerUpdate.response at hresponse
  unfold TrackerUpdate.countAfter
  split_ifs at hresponse ⊢ with hexpunge hexists
  · cases hresponse
    have hle := UInt32.le_iff_toNat_le.mp (h.expunge_le hexpunge)
    have hpos := Word.ne_zero_iff.mp hexpunge
    have hcount : count ≠ 0 := Word.ne_zero_iff.mpr (by omega)
    rw [Word.toNat_pred hcount]
    simp only [Response.replay]
    omega
  · cases hresponse
    rfl
  · split at hresponse
    · cases hresponse
      rfl
    · cases hresponse
      rfl
    · cases hresponse

theorem chain_run_length (hchain : Chain run count final)
    (hrun : ∀ update ∈ run, update.hasVanishedUID = true) :
    count.toNat = final.toNat + run.length := by
  induction run generalizing count with
  | nil =>
    cases hchain
    rfl
  | cons update rest ih =>
    obtain ⟨hextends, hrest⟩ := hchain
    rw [List.forall_mem_cons] at hrun
    have hexpunge := (vanishedUID_ne_zero hrun.1).1
    have hle := UInt32.le_iff_toNat_le.mp (hextends.expunge_le hexpunge)
    have hpos := Word.ne_zero_iff.mp hexpunge
    have hcount : count ≠ 0 := Word.ne_zero_iff.mpr (by omega)
    have hpred := Word.toNat_pred hcount
    simp only [TrackerUpdate.countAfter, if_pos hexpunge] at hrest
    have htail := ih hrest hrun.2
    simp only [List.length_cons]
    omega

theorem expungedUIDs_run (hrun : ∀ update ∈ run, update.hasVanishedUID = true) :
    expungedUIDs run = run.map TrackerUpdate.expungeUID := by
  rw [expungedUIDs, List.filter_eq_self.mpr hrun]

theorem expungedUIDs_append (first second : List TrackerUpdate) :
    expungedUIDs (first ++ second) = expungedUIDs first ++ expungedUIDs second := by
  simp [expungedUIDs]

theorem flushVanished_replay (hrun : ∀ update ∈ run, update.coalesces qresync = true)
    (hdistinct : (expungedUIDs run).Nodup) (hchain : Chain run count final) :
    replayAll count.toNat (flushVanished (collectRun run)) = final.toNat := by
  have hknown := fun update hupdate =>
    hasVanishedUID_of_coalesces (hrun update hupdate)
  have hlength := chain_run_length hchain hknown
  have hcard : (collectRun run).cardinality.toNat = run.length := by
    rw [expungedUIDs_run hknown] at hdistinct
    rw [collectRun, NumSet.cardinality_addNums (zero_not_mem_uids hrun) hdistinct, List.length_map]
  unfold flushVanished
  split_ifs with hempty
  · rw [(collectRun_eq_nil hrun).mp hempty] at hlength
    simp only [replayAll_nil]
    simp at hlength
    omega
  · simp only [replayAll_cons, replayAll_nil, Response.replay]
    omega

theorem writeLoop_replay (hrun : ∀ update ∈ run, update.coalesces qresync = true)
    (hkinds : ∀ update ∈ updates, update.response.isSome = true)
    (hdistinct : (expungedUIDs (run ++ updates)).Nodup)
    (hchain : Chain (run ++ updates) count final) :
    replayAll count.toNat (writeLoop qresync updates (collectRun run)) = final.toNat := by
  induction updates generalizing run count with
  | nil =>
    rw [List.append_nil] at hdistinct hchain
    exact flushVanished_replay hrun hdistinct hchain
  | cons update rest ih =>
    rw [List.forall_mem_cons] at hkinds
    rw [writeLoop]
    split_ifs with hcoalesce
    · rw [← List.singleton_append, ← List.append_assoc] at hdistinct hchain
      rw [← collectRun_concat]
      exact ih (concat_coalesces hrun hcoalesce) hkinds.2 hdistinct hchain
    · obtain ⟨response, hresponse⟩ := Option.isSome_iff_exists.mp hkinds.1
      obtain ⟨middle, hfirst, hextends, htail⟩ := chain_append.mp hchain
      rw [expungedUIDs_append, List.nodup_append] at hdistinct
      obtain ⟨hrunDistinct, hupdates, -⟩ := hdistinct
      rw [← List.singleton_append, expungedUIDs_append, List.nodup_append] at hupdates
      have hafter : replayAll (update.countAfter middle).toNat
          (writeLoop qresync rest (collectRun [])) = final.toNat :=
        ih (by simp) hkinds.2 hupdates.2.1 htail
      rw [replayAll_append, flushVanished_replay hrun hrunDistinct hfirst, hresponse,
        Option.toList_some, List.singleton_append, replayAll_cons, hextends.replay hresponse]
      exact hafter

theorem writeLoop_batch_replay (hkinds : ∀ update ∈ updates, update.response.isSome = true)
    (hdistinct : (expungedUIDs updates).Nodup) (hchain : Chain updates count final) :
    replayAll count.toNat (writeLoop qresync updates []) = final.toNat :=
  @writeLoop_replay _ _ [] _ _ (by simp) hkinds hdistinct hchain

end GoImap.Tracker
