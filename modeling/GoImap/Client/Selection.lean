import GoImap.NumSet.Concat

/-!
# The client's selected mailbox

What the server says about a mailbox goes to the SELECT that is pending, and
becomes the client's own once the command has succeeded.  From then on the
client keeps the number of messages itself.  The handlers run one after the
other, as the responses are read.
-/

namespace GoImap.Selection

/-! ## Handlers -/

structure SelectData where
  numMessages : UInt32 := 0
  vanished : NumSet := []

structure SelectCommand where
  mailbox : Bytes
  data : SelectData := {}

inductive PendingCmd where
  | select (cmd : SelectCommand)
  | expunge (seqNums : List UInt32)
  | other

structure VanishedData where
  earlier : Bool
  uids : NumSet

inductive UnilateralData where
  | expunge (seqNum : UInt32)
  | numMessages (num : UInt32)
  | vanished (data : VanishedData)

structure SelectedMailbox where
  name : Bytes
  numMessages : UInt32

structure Client where
  state : ConnState
  mailbox : Option SelectedMailbox
  cmdTag : Nat
  pendingCmds : List (Nat × PendingCmd)
  handled : List UnilateralData

def updateSelect (f : SelectData → SelectData) :
    List (Nat × PendingCmd) → Option (List (Nat × PendingCmd))
  | [] => none
  | (tag, .select cmd) :: rest =>
    some ((tag, .select { cmd with data := f cmd.data }) :: rest)
  | entry :: rest => (updateSelect f rest).map (entry :: ·)

def sendExpunge (seqNum : UInt32) : List (Nat × PendingCmd) → Option (List (Nat × PendingCmd))
  | [] => none
  | (tag, .expunge seqNums) :: rest =>
    some ((tag, .expunge (seqNums ++ [seqNum])) :: rest)
  | entry :: rest => (sendExpunge seqNum rest).map (entry :: ·)

def deletePendingCmdByTag (tag : Nat) :
    List (Nat × PendingCmd) → Option (PendingCmd × List (Nat × PendingCmd))
  | [] => none
  | entry :: rest =>
    if entry.1 = tag then some (entry.2, rest)
    else (deletePendingCmdByTag tag rest).map fun (cmd, rest) =>
      (cmd, entry :: rest)

/-- `num -= uint32(min(n, uint64(num)))`. -/
def subtract (num : UInt32) (n : UInt64) : UInt32 :=
  num - (if n ≤ num.toUInt64 then n.toUInt32 else num)

namespace Client

variable (c : Client)

def setNumMessages (f : UInt32 → UInt32) : Client :=
  if c.state = .selected then
    { c with mailbox := c.mailbox.map fun mailbox =>
        { mailbox with numMessages := f mailbox.numMessages } }
  else c

def handle (data : UnilateralData) : Client := { c with handled := c.handled ++ [data] }

def beginCommand (cmd : PendingCmd) : Client := { c with
    cmdTag := c.cmdTag + 1
    pendingCmds := c.pendingCmds ++ [(c.cmdTag + 1, cmd)] }

def select (mailbox : Bytes) : Client := c.beginCommand (.select { mailbox := mailbox })

def handleExists (num : UInt32) : Client :=
  match updateSelect ({ · with numMessages := num }) c.pendingCmds with
  | some cmds => { c with pendingCmds := cmds }
  | none => (c.setNumMessages fun _ => num).handle (.numMessages num)

def handleExpunge (seqNum : UInt32) : Client :=
  let c := c.setNumMessages fun num => if 0 < num then num - 1 else num
  match sendExpunge seqNum c.pendingCmds with
  | some cmds => { c with pendingCmds := cmds }
  | none => c.handle (.expunge seqNum)

def forget (uids : NumSet) : Client :=
  let n := uids.cardinality
  let update := fun data =>
    { data with numMessages := subtract data.numMessages n }
  let c := { c with pendingCmds := (updateSelect update c.pendingCmds).getD c.pendingCmds }
  c.setNumMessages (subtract · n)

def handleVanished (data : VanishedData) : Client :=
  let c := if !data.earlier && !data.uids.isDynamic then c.forget data.uids
    else c
  let update := fun pending : SelectData =>
    { pending with vanished := pending.vanished ++ data.uids }
  match data.earlier, updateSelect update c.pendingCmds with
  | true, some cmds => { c with pendingCmds := cmds }
  | _, _ => c.handle (.vanished data)

inductive Status where
  | ok
  | no
  | bad

def completeCommand (status : Status) : PendingCmd → Client
  | .select cmd =>
    match status with
    | .ok =>
      { c with state := .selected, mailbox := some ⟨cmd.mailbox, cmd.data.numMessages⟩ }
    | .no =>
      if c.state = .selected then
        { c with state := .authenticated, mailbox := none }
      else c
    | .bad => c
  | _ => c

def readResponseTagged (tag : Nat) (status : Status) : Option Client :=
  (deletePendingCmdByTag tag c.pendingCmds).map fun (cmd, cmds) =>
    { c with pendingCmds := cmds }.completeCommand status cmd

end Client

inductive Response where
  | existing (num : UInt32)
  | expunge (seqNum : UInt32)
  | vanished (data : VanishedData)

def Client.receive (c : Client) : Response → Client
  | .existing num => c.handleExists num
  | .expunge seqNum => c.handleExpunge seqNum
  | .vanished data => c.handleVanished data

def Client.receiveAll (c : Client) (responses : List Response) : Client :=
  responses.foldl Client.receive c

/-! ## The pending SELECT -/

def selects (cmds : List (Nat × PendingCmd)) : List (Nat × SelectCommand) :=
  cmds.filterMap fun entry =>
    match entry.2 with
    | .select cmd => some (entry.1, cmd)
    | _ => none

variable {tag : Nat} {cmd : SelectCommand} {c : Client}

section Pending

variable {cmds : List (Nat × PendingCmd)} {f : SelectData → SelectData}

theorem mem_of_mem_selects (h : (tag, cmd) ∈ selects cmds) : (tag, .select cmd) ∈ cmds := by
  obtain ⟨⟨other, pending⟩, hmem, hselect⟩ := List.mem_filterMap.mp h
  cases pending with
  | select pending =>
    cases hselect
    exact hmem
  | expunge seqNums | other => cases hselect

theorem updateSelect_none (h : selects cmds = []) : updateSelect f cmds = none := by
  induction cmds with
  | nil => rfl
  | cons entry cmds ih =>
    obtain ⟨tag, cmd⟩ := entry
    cases cmd with
    | select cmd => simp [selects] at h
    | expunge seqNums | other =>
      rw [updateSelect, ih (by simpa [selects] using h), Option.map_none]
      simp

theorem updateSelect_some {more : List (Nat × SelectCommand)}
    (h : selects cmds = (tag, cmd) :: more) :
    ∃ next, updateSelect f cmds = some next ∧
      selects next = (tag, { cmd with data := f cmd.data }) :: more ∧
      next.map Prod.fst = cmds.map Prod.fst := by
  induction cmds with
  | nil => simp [selects] at h
  | cons entry cmds ih =>
    obtain ⟨first, pending⟩ := entry
    cases pending with
    | select pending =>
      obtain ⟨⟨rfl, rfl⟩, rfl⟩ := h
      exact ⟨_, rfl, rfl, rfl⟩
    | expunge seqNums | other =>
      obtain ⟨next, hnext, hselects, htags⟩ := ih (by simpa [selects] using h)
      refine ⟨_, by rw [updateSelect, hnext, Option.map_some]; simp, ?_, ?_⟩
      · simpa [selects] using hselects
      · simp [htags]

theorem sendExpunge_keeps {seqNum : UInt32} {next : List (Nat × PendingCmd)}
    (h : sendExpunge seqNum cmds = some next) :
    selects next = selects cmds ∧ next.map Prod.fst = cmds.map Prod.fst := by
  induction cmds generalizing next with
  | nil => cases h
  | cons entry cmds ih =>
    obtain ⟨tag, cmd⟩ := entry
    cases cmd with
    | expunge seqNums =>
      cases h
      exact ⟨rfl, rfl⟩
    | select cmd | other =>
      rw [sendExpunge] at h
      · obtain ⟨rest, hrest, rfl⟩ := Option.map_eq_some_iff.mp h
        obtain ⟨hselects, htags⟩ := ih hrest
        exact ⟨by simpa [selects] using hselects, by simp [htags]⟩
      · simp

theorem deletePendingCmdByTag_select (hnodup : (cmds.map Prod.fst).Nodup)
    (h : selects cmds = [(tag, cmd)]) :
    ∃ rest, deletePendingCmdByTag tag cmds = some (.select cmd, rest) ∧ selects rest = [] := by
  induction cmds with
  | nil => simp [selects] at h
  | cons entry cmds ih =>
    obtain ⟨first, pending⟩ := entry
    rw [List.map_cons, List.nodup_cons] at hnodup
    cases pending with
    | select pending =>
      simp only [selects, List.filterMap_cons, List.cons.injEq] at h
      obtain ⟨⟨rfl, rfl⟩, hrest⟩ := h
      exact ⟨cmds, by simp [deletePendingCmdByTag], hrest⟩
    | expunge seqNums | other =>
      have hmore : selects cmds = [(tag, cmd)] := by
        simpa [selects] using h
      obtain ⟨rest, hdelete, hselects⟩ := ih hnodup.2 hmore
      have hne : first ≠ tag := by
        rintro rfl
        have hmem : (first, cmd) ∈ selects cmds := by simp [hmore]
        exact hnodup.1 (List.mem_map.mpr ⟨_, mem_of_mem_selects hmem, rfl⟩)
      rw [deletePendingCmdByTag, if_neg hne, hdelete]
      exact ⟨_, rfl, hselects⟩

end Pending

/-! ## Before the SELECT succeeds -/

structure Awaits (c : Client) (tag : Nat) (cmd : SelectCommand) : Prop where
  selects : selects c.pendingCmds = [(tag, cmd)]
  nodup : (c.pendingCmds.map Prod.fst).Nodup

def SelectData.receive (data : SelectData) : Response → SelectData
  | .existing num => { data with numMessages := num }
  | .expunge _ => data
  | .vanished vanished =>
    if vanished.earlier then
      { data with vanished := data.vanished ++ vanished.uids }
    else if vanished.uids.isDynamic then data
    else { data with numMessages := subtract data.numMessages vanished.uids.cardinality }

section Awaits

variable {c : Client}

theorem Awaits.update (h : Awaits c tag cmd) (f : SelectData → SelectData) :
    ∃ next, updateSelect f c.pendingCmds = some next ∧ Awaits { c with pendingCmds := next } tag
        { cmd with data := f cmd.data } := by
  obtain ⟨next, hnext, hselects, htags⟩ := updateSelect_some h.selects
  exact ⟨next, hnext, hselects, by rw [htags]; exact h.nodup⟩

theorem Awaits.congr {other : Client} (h : Awaits c tag cmd)
    (hsame : other.pendingCmds = c.pendingCmds) : Awaits other tag cmd :=
  ⟨hsame ▸ h.selects, hsame ▸ h.nodup⟩

end Awaits

section Frame

variable (c : Client)

@[simp] theorem setNumMessages_pendingCmds (f : UInt32 → UInt32) :
    (c.setNumMessages f).pendingCmds = c.pendingCmds := by
  rw [Client.setNumMessages]
  split_ifs
  · rfl
  · rfl

@[simp] theorem setNumMessages_state (f : UInt32 → UInt32) :
    (c.setNumMessages f).state = c.state := by
  rw [Client.setNumMessages]
  split_ifs
  · rfl
  · rfl

@[simp] theorem handle_pendingCmds (data : UnilateralData) :
    (c.handle data).pendingCmds = c.pendingCmds := rfl

@[simp] theorem handle_state (data : UnilateralData) : (c.handle data).state = c.state := rfl

@[simp] theorem handle_mailbox (data : UnilateralData) : (c.handle data).mailbox = c.mailbox := rfl

end Frame

section Receive

variable {c : Client}

variable (h : Awaits c tag cmd)

include h

theorem Awaits.handleExpunge (seqNum : UInt32) : Awaits (c.handleExpunge seqNum) tag cmd := by
  rw [Client.handleExpunge]
  simp only [setNumMessages_pendingCmds]
  cases hsend : sendExpunge seqNum c.pendingCmds with
  | none => exact h.congr (by simp)
  | some next =>
    obtain ⟨hselects, htags⟩ := sendExpunge_keeps hsend
    exact ⟨hselects.trans h.selects, by
      simpa [htags] using h.nodup⟩

theorem Awaits.forget (uids : NumSet) :
    Awaits (c.forget uids) tag { cmd with data := { cmd.data with
      numMessages := subtract cmd.data.numMessages uids.cardinality } } := by
  obtain ⟨next, hnext, hawaits⟩ := h.update fun data => { data with
    numMessages := subtract data.numMessages uids.cardinality }
  rw [Client.forget, hnext]
  exact hawaits.congr (by simp)

theorem Awaits.handleVanished (data : VanishedData) :
    Awaits (c.handleVanished data) tag { cmd with data := cmd.data.receive (.vanished data) } := by
  rw [Client.handleVanished, SelectData.receive]
  cases data.earlier with
  | true =>
    obtain ⟨next, hnext, hawaits⟩ := h.update fun pending =>
      { pending with vanished := pending.vanished ++ data.uids }
    simpa [hnext] using hawaits
  | false =>
    cases data.uids.isDynamic with
    | true => exact h.congr (by simp)
    | false => exact (h.forget data.uids).congr (by simp)

theorem Awaits.receive (response : Response) :
    Awaits (c.receive response) tag { cmd with data := cmd.data.receive response } := by
  cases response with
  | existing num =>
    obtain ⟨next, hnext, hawaits⟩ := h.update ({ · with numMessages := num })
    rw [Client.receive, Client.handleExists, hnext]
    exact hawaits
  | expunge seqNum => exact h.handleExpunge seqNum
  | vanished data => exact h.handleVanished data

theorem Awaits.receiveAll (responses : List Response) : Awaits (c.receiveAll responses) tag
      { cmd with data := responses.foldl SelectData.receive cmd.data } := by
  induction responses generalizing c cmd with
  | nil => exact h
  | cons response responses ih => exact ih (h.receive response)

end Receive

structure Client.Tagged (c : Client) : Prop where
  nodup : (c.pendingCmds.map Prod.fst).Nodup
  bounded : ∀ entry ∈ c.pendingCmds, entry.1 ≤ c.cmdTag

theorem awaits_select (htags : c.Tagged) (hnone : selects c.pendingCmds = []) (mailbox : Bytes) :
    Awaits (c.select mailbox) (c.cmdTag + 1) { mailbox := mailbox } := by
  constructor
  · have hnone' := hnone
    simp only [Client.select, Client.beginCommand, selects, List.filterMap_append] at hnone' ⊢
    rw [hnone']
    rfl
  · simp only [Client.select, Client.beginCommand, List.map_append, List.map_cons, List.map_nil]
    refine List.nodup_append.mpr ⟨htags.nodup, List.nodup_singleton _, ?_⟩
    intro tag htag other hother
    obtain ⟨entry, hentry, rfl⟩ := List.mem_map.mp htag
    have hbound := htags.bounded entry hentry
    rw [List.mem_singleton.mp hother]
    omega

/-! ## What has vanished before -/

def earlierSets (responses : List Response) : List NumSet :=
  responses.filterMap fun response =>
    match response with
    | .vanished data => if data.earlier then some data.uids else none
    | _ => none

theorem foldl_vanished (data : SelectData) (responses : List Response) :
    (responses.foldl SelectData.receive data).vanished =
      data.vanished ++ (earlierSets responses).flatten := by
  induction responses generalizing data with
  | nil => simp [earlierSets]
  | cons response responses ih =>
    rw [List.foldl_cons, ih]
    cases response with
    | existing num | expunge seqNum => rfl
    | vanished vanished =>
      simp only [SelectData.receive, earlierSets, List.filterMap_cons]
      split_ifs with hearlier
      · simp
      · rfl
      · rfl

/--
After any responses the pending SELECT knows exactly the UIDs of the VANISHED
(EARLIER) responses among them, and how many they are, with a counter that does
not overflow, if and only if each of them is above the ones before.
-/
theorem vanished_accumulates_iff (c : Client) (htags : c.Tagged)
    (hnone : selects c.pendingCmds = []) (mailbox : Bytes) (responses : List Response)
    (hsets : ∀ set ∈ earlierSets responses, set.Canonical ∧ set.isDynamic = false) :
    ∃ cmd, selects ((c.select mailbox).receiveAll responses).pendingCmds = [(c.cmdTag + 1, cmd)] ∧
      (NumSet.Accumulates cmd.data.vanished (earlierSets responses) ∧
          NumSet.countAll (earlierSets responses) < 2 ^ 64 ↔
        NumSet.Follow (earlierSets responses)) := by
  have hawaits := (awaits_select htags hnone mailbox).receiveAll responses
  refine ⟨_, hawaits.selects, ?_⟩
  rw [foldl_vanished, List.nil_append]
  exact NumSet.flatten_accumulates_iff hsets

def idleClient : Client where
  state := .authenticated
  mailbox := none
  cmdTag := 0
  pendingCmds := []
  handled := []

def vanishedEarlier (ranges : List NumRange) : Response := .vanished ⟨true, ranges⟩

theorem vanished_accumulates_ascending :
    ∃ cmd, selects ((idleClient.select []).receiveAll [vanishedEarlier [⟨1, 2⟩, ⟨5, 5⟩],
          vanishedEarlier [⟨6, 9⟩]]).pendingCmds = [(1, cmd)] ∧
      NumSet.Accumulates cmd.data.vanished [[⟨1, 2⟩, ⟨5, 5⟩], [⟨6, 9⟩]] := by
  have hsets : ∀ set ∈ [[⟨1, 2⟩, ⟨5, 5⟩], [⟨6, 9⟩]],
      NumSet.Canonical set ∧ NumSet.isDynamic set = false := by
    simp only [List.forall_mem_cons, NumSet.canonical_iff_ascending]
    exact ⟨⟨⟨by decide, by decide⟩, rfl⟩, ⟨⟨by decide, by decide⟩, rfl⟩, by simp⟩
  obtain ⟨cmd, hselects, hiff⟩ := vanished_accumulates_iff idleClient
    ⟨List.nodup_nil, by simp [idleClient]⟩ rfl []
    [vanishedEarlier [⟨1, 2⟩, ⟨5, 5⟩], vanishedEarlier [⟨6, 9⟩]] hsets
  refine ⟨cmd, hselects, (hiff.mpr ?_).1⟩
  refine (NumSet.rising_flatten_iff hsets).mp ?_
  rw [NumSet.Rising]
  decide

/-- A UID below the first ones is not found, and a UID that is sent twice is
counted twice. -/
theorem vanished_misses_lower : (∃ cmd, selects ((idleClient.select []).receiveAll
        [vanishedEarlier [⟨10, 10⟩], vanishedEarlier [⟨1, 1⟩]]).pendingCmds = [(1, cmd)] ∧
      cmd.data.vanished.contains 1 = false) ∧
    ∃ cmd, selects ((idleClient.select []).receiveAll
        [vanishedEarlier [⟨1, 2⟩], vanishedEarlier [⟨2, 3⟩]]).pendingCmds = [(1, cmd)] ∧
      cmd.data.vanished.cardinality = 4 :=
  ⟨⟨_, rfl, by decide⟩, ⟨_, rfl, by decide⟩⟩

/-! ## The number of messages -/

theorem toNat_subtract (num : UInt32) (n : UInt64) :
    (subtract num n).toNat = num.toNat - n.toNat := by
  have hnum := num.toNat_lt
  have hwide : num.toUInt64.toNat = num.toNat := by simp
  rw [subtract]
  split_ifs with hle
  · rw [UInt64.le_iff_toNat_le, hwide] at hle
    have hnarrow : n.toUInt32.toNat = n.toNat := by
      rw [UInt64.toNat_toUInt32]
      omega
    rw [UInt32.toNat_sub_of_le, hnarrow]
    rw [UInt32.le_iff_toNat_le, hnarrow]
    exact hle
  · rw [UInt64.le_iff_toNat_le, hwide] at hle
    rw [UInt32.sub_self, UInt32.toNat_zero]
    omega

theorem toNat_decrement (num : UInt32) :
    (if 0 < num then num - 1 else num).toNat = num.toNat - 1 := by
  split_ifs with hpos
  · rw [UInt32.toNat_sub_of_le]
    · rfl
    · rw [UInt32.lt_iff_toNat_lt, UInt32.toNat_zero] at hpos
      exact UInt32.le_iff_toNat_le.mpr hpos
  · rw [UInt32.lt_iff_toNat_lt, UInt32.toNat_zero] at hpos
    omega

def Response.Static : Response → Prop
  | .vanished data => data.uids.Canonical ∧ data.uids.isDynamic = false
  | _ => True

noncomputable def follow (num : Nat) : Response → Nat
  | .existing count => count.toNat
  | .expunge _ => num - 1
  | .vanished data =>
    if data.earlier then num
    else num - {uid : UInt32 | data.uids.contains uid = true}.ncard

noncomputable def replay (responses : List Response) : Nat := responses.foldl follow 0

/-- What was said since the last EXISTS: its number, how many messages are gone
by VANISHED, and how many by EXPUNGE. -/
structure Tally where
  count : Nat := 0
  vanished : Nat := 0
  expunged : Nat := 0

noncomputable def Tally.receive (tally : Tally) : Response → Tally
  | .existing count => ⟨count.toNat, 0, 0⟩
  | .expunge _ => { tally with expunged := tally.expunged + 1 }
  | .vanished data =>
    if data.earlier then tally
    else { tally with vanished := tally.vanished +
      {uid : UInt32 | data.uids.contains uid = true}.ncard }

noncomputable def tally (responses : List Response) : Tally := responses.foldl Tally.receive {}

theorem foldl_follow (responses : List Response) (start : Tally) :
    responses.foldl follow (start.count - (start.vanished + start.expunged)) =
      (responses.foldl Tally.receive start).count -
        ((responses.foldl Tally.receive start).vanished +
          (responses.foldl Tally.receive start).expunged) := by
  induction responses generalizing start with
  | nil => rfl
  | cons response responses ih =>
    rw [List.foldl_cons, List.foldl_cons, ← ih]
    congr 1
    cases response with
    | existing count => rfl
    | expunge seqNum =>
      simp only [follow, Tally.receive]
      omega
    | vanished data =>
      simp only [follow, Tally.receive]
      split_ifs
      · rfl
      · simp only
        omega

theorem foldl_numMessages {responses : List Response}
    (hstatic : ∀ response ∈ responses, response.Static) (data : SelectData) (start : Tally)
    (h : data.numMessages.toNat = start.count - start.vanished) :
    (responses.foldl SelectData.receive data).numMessages.toNat =
      (responses.foldl Tally.receive start).count -
        (responses.foldl Tally.receive start).vanished := by
  induction responses generalizing data start with
  | nil => exact h
  | cons response responses ih =>
    obtain ⟨hfirst, hmore⟩ := List.forall_mem_cons.mp hstatic
    refine ih hmore _ _ ?_
    cases response with
    | existing count => rfl
    | expunge seqNum => exact h
    | vanished vanished =>
      simp only [SelectData.receive, Tally.receive]
      split_ifs with hearlier hdynamic
      · exact h
      · rw [hfirst.2] at hdynamic
        cases hdynamic
      · simp only [toNat_subtract, h, NumSet.toNat_cardinality hfirst.1 hfirst.2]
        omega

/-! ## The selected mailbox -/

structure Settled (c : Client) (num : Nat) : Prop where
  state : c.state = .selected
  none : selects c.pendingCmds = []
  mailbox : c.mailbox.map (·.numMessages.toNat) = some num

section Settled

variable {num : Nat}

variable (h : Settled c num)

include h

theorem Settled.setNumMessages (f : UInt32 → UInt32)
    (g : Nat → Nat) (hf : ∀ num, (f num).toNat = g num.toNat) :
    Settled (c.setNumMessages f) (g num) := by
  refine ⟨by simp [h.state], by simp [h.none], ?_⟩
  obtain ⟨mailbox, hmailbox, hnum⟩ := Option.map_eq_some_iff.mp h.mailbox
  simp [Client.setNumMessages, h.state, hmailbox, hf, hnum]

theorem Settled.handle (data : UnilateralData) : Settled (c.handle data) num :=
  ⟨h.state, h.none, h.mailbox⟩

theorem Settled.handleExpunge (seqNum : UInt32) : Settled (c.handleExpunge seqNum) (num - 1) := by
  have hdone := h.setNumMessages _ (· - 1) toNat_decrement
  rw [Client.handleExpunge]
  simp only [setNumMessages_pendingCmds]
  cases hsend : sendExpunge seqNum c.pendingCmds with
  | none => exact hdone.handle _
  | some next =>
    refine ⟨hdone.state, ?_, hdone.mailbox⟩
    exact (sendExpunge_keeps hsend).1.trans h.none

theorem Settled.forget (uids : NumSet) :
    Settled (c.forget uids) (num - uids.cardinality.toNat) := by
  rw [Client.forget, updateSelect_none h.none, Option.getD_none]
  exact h.setNumMessages _ (· - uids.cardinality.toNat) fun num =>
    toNat_subtract num _

theorem Settled.handleVanished {data : VanishedData} (hcanonical : data.uids.Canonical)
    (hstatic : data.uids.isDynamic = false) :
    Settled (c.handleVanished data) (follow num (.vanished data)) := by
  rw [Client.handleVanished, hstatic, follow, ← NumSet.toNat_cardinality hcanonical hstatic]
  cases data.earlier with
  | true =>
    simp only [Bool.not_true, Bool.false_and, Bool.false_eq_true, ↓reduceIte,
      updateSelect_none h.none]
    exact h.handle _
  | false => exact (h.forget data.uids).handle _

theorem Settled.receive {response : Response} (hstatic : response.Static) :
    Settled (c.receive response) (follow num response) := by
  cases response with
  | existing count =>
    rw [Client.receive, Client.handleExists, updateSelect_none h.none]
    exact (h.setNumMessages _ (fun _ => count.toNat) fun _ => rfl).handle _
  | expunge seqNum => exact h.handleExpunge seqNum
  | vanished data => exact h.handleVanished hstatic.1 hstatic.2

theorem Settled.receiveAll {responses : List Response}
    (hstatic : ∀ response ∈ responses, response.Static) :
    Settled (c.receiveAll responses) (responses.foldl follow num) := by
  induction responses generalizing c num with
  | nil => exact h
  | cons response responses ih =>
    obtain ⟨hfirst, hmore⟩ := List.forall_mem_cons.mp hstatic
    exact ih (h.receive hfirst) hmore

end Settled

theorem Awaits.settles (h : Awaits c tag cmd) :
    ∃ done, c.readResponseTagged tag .ok = some done ∧ Settled done cmd.data.numMessages.toNat := by
  obtain ⟨rest, hdelete, hrest⟩ := deletePendingCmdByTag_select h.nodup h.selects
  rw [Client.readResponseTagged, hdelete]
  exact ⟨_, rfl, rfl, hrest, rfl⟩

def Client.selectedCount (c : Client) (mailbox : Bytes)
    (before after : List Response) : Option Nat := do
  let done ← ((c.select mailbox).receiveAll before).readResponseTagged (c.cmdTag + 1) .ok
  let selected ← (done.receiveAll after).mailbox
  return selected.numMessages.toNat

theorem selectedCount_eq (htags : c.Tagged) (hnone : selects c.pendingCmds = []) (mailbox : Bytes)
    {before after : List Response} (hbefore : ∀ response ∈ before, response.Static)
    (hafter : ∀ response ∈ after, response.Static) :
    c.selectedCount mailbox before after = some
      (after.foldl follow ((tally before).count - (tally before).vanished)) := by
  have hawaits := (awaits_select htags hnone mailbox).receiveAll before
  obtain ⟨done, hdone, hsettled⟩ := hawaits.settles
  rw [foldl_numMessages hbefore _ {} rfl] at hsettled
  obtain ⟨selected, hselected, hnum⟩ := Option.map_eq_some_iff.mp
    (hsettled.receiveAll hafter).mailbox
  simp [Client.selectedCount, hdone, hselected, hnum, tally]

/--
From the tagged OK on the number of messages of the selected mailbox is always
the one that the responses mean, if and only if no EXPUNGE came between the
last EXISTS and the OK, or VANISHED had left no message then.
-/
theorem selectedCount_follows_iff (c : Client) (htags : c.Tagged)
    (hnone : selects c.pendingCmds = []) (mailbox : Bytes) (before after : List Response)
    (hstatic : ∀ response ∈ before ++ after, response.Static) :
    (∀ received ∈ after.inits, c.selectedCount mailbox before received =
        some (replay (before ++ received))) ↔
      (tally before).expunged = 0 ∨ (tally before).count ≤ (tally before).vanished := by
  have hcount : ∀ received ∈ after.inits,
      c.selectedCount mailbox before received = some (received.foldl follow
        ((tally before).count - (tally before).vanished)) := by
    intro received hreceived
    refine selectedCount_eq htags hnone mailbox
      (fun response h => hstatic response (List.mem_append_left _ h))
      fun response h => hstatic response (List.mem_append_right _ ?_)
    exact ((List.mem_inits _ _).mp hreceived).subset h
  have hreplay : ∀ received, replay (before ++ received) =
      received.foldl follow ((tally before).count -
        ((tally before).vanished + (tally before).expunged)) := by
    intro received
    rw [replay, List.foldl_append]
    exact congrArg (received.foldl follow) (foldl_follow before {})
  constructor
  · intro h
    have hnil : [] ∈ after.inits := (List.mem_inits _ _).mpr List.nil_prefix
    have hfirst := h [] hnil
    rw [hcount [] hnil, hreplay, Option.some.injEq, List.foldl_nil, List.foldl_nil] at hfirst
    omega
  · intro h received hreceived
    have hsame : (tally before).count - (tally before).vanished = (tally before).count -
          ((tally before).vanished + (tally before).expunged) := by
      omega
    rw [hcount received hreceived, hreplay, hsame]

theorem selectedCount_follows_expunge :
    idleClient.selectedCount [] [.existing 5] [.expunge 1, .existing 7] =
      some (replay [.existing 5, .expunge 1, .existing 7]) :=
  (selectedCount_follows_iff idleClient ⟨List.nodup_nil, by simp [idleClient]⟩ rfl []
    [.existing 5] [.expunge 1, .existing 7]
    (by simp [Response.Static])).mpr (.inl rfl) [.expunge 1, .existing 7]
    (by simp)

/-- An EXPUNGE before the tagged OK is not counted. -/
theorem selectedCount_misses_expunge :
    idleClient.selectedCount [] [.existing 5, .expunge 1] [] = some 5 ∧
      replay [.existing 5, .expunge 1] = 4 :=
  ⟨rfl, rfl⟩

end GoImap.Selection
