import GoImap.Client.FetchRouting

/-!
# FETCH answers and the command that asked

With one FETCH pending, a message the server's reading of the set denotes
reaches the command as long as the client can tell from the set alone that it
was asked for.  `*`, `n:*` with `n` beyond the largest number, and `$` denote
messages that the client's own test does not find in the set.
-/

namespace GoImap.Client

open MemServer

/-! ## One pending FETCH -/

def namedBy (numSet : MessageSet) (seqNum : SeqNum) (uid : UID) : UInt32 :=
  if isUIDSet numSet then uid else seqNum

variable {cmd : FetchCommand} {set : NumSet} {number : UInt32}
  {response : FetchResponse} {numbers : List UInt32}

namespace FetchCommand

def received (cmd : FetchCommand) : NumSet :=
  if isUIDSet cmd.numSet then cmd.recvUIDSet else cmd.recvSeqSet

theorem contains_zero (set : NumSet) : set.contains 0 = false := by
  simp [NumSet.contains]

variable {seqNum : SeqNum} {uid : UID}

theorem recv_eq_none : cmd.recv seqNum uid = none ↔
      (ranges cmd.numSet).contains (namedBy cmd.numSet seqNum uid) = false ∨
        cmd.received.contains (namedBy cmd.numSet seqNum uid) = true := by
  unfold recv recvUID recvSeqNum received namedBy
  cases isUIDSet cmd.numSet with
  | true =>
    by_cases hzero : uid = 0
    · simp [hzero, contains_zero]
    · cases hset : (ranges cmd.numSet).contains uid <;>
        cases hrecv : cmd.recvUIDSet.contains uid <;>
          simp [hzero, hset, hrecv]
  | false =>
    by_cases hzero : seqNum = 0
    · simp [hzero, contains_zero]
    · cases hset : (ranges cmd.numSet).contains seqNum <;>
        cases hrecv : cmd.recvSeqSet.contains seqNum <;>
          simp [hzero, hset, hrecv]

theorem recv_eq_some {next : FetchCommand} (h : cmd.recv seqNum uid = some next) :
    next.numSet = cmd.numSet ∧ next.received =
      cmd.received.addNum (namedBy cmd.numSet seqNum uid) := by
  unfold recv recvUID recvSeqNum at h
  unfold received namedBy
  split_ifs at h with hkind
  · cases h
    simp [hkind]
  · cases h
    simp [hkind]

structure Awaits (cmd : FetchCommand) (numSet : MessageSet) (number : UInt32) : Prop where
  numSet : cmd.numSet = numSet
  canonical : cmd.received.Canonical
  missing : cmd.received.contains number = false

theorem newFetch_awaits (numSet : MessageSet) (number : UInt32) :
    (newFetch numSet).Awaits numSet number := by
  have hempty : (newFetch numSet).received = [] := by
    unfold received newFetch
    split <;> rfl
  refine ⟨rfl, ?_, ?_⟩
  · rw [hempty]
    exact NumSet.empty_canonical
  · rw [hempty]
    rfl

theorem contains_addNum (h : set.Canonical) {added : UInt32} (hne : number ≠ added) :
    (set.addNum added).contains number = set.contains number := by
  obtain ⟨hcanonical, hcovers⟩ := NumSet.addNum_adds h added
  rw [Bool.eq_iff_iff, NumSet.contains_iff hcanonical, NumSet.contains_iff h, hcovers]
  refine and_congr_right fun _ => or_iff_right ?_
  simp only [NumRange.span, Intervals.Span.Covers]
  intro hcovered
  exact hne (position_inj (by omega))

theorem Awaits.recv {next : FetchCommand} {numSet : MessageSet} (h : cmd.Awaits numSet number)
    (hother : namedBy numSet seqNum uid ≠ number)
    (hnext : cmd.recv seqNum uid = some next) : next.Awaits numSet number := by
  obtain ⟨hset, hreceived⟩ := recv_eq_some hnext
  rw [h.numSet] at hset hreceived
  refine ⟨hset, ?_, ?_⟩
  · rw [hreceived]
    exact (NumSet.addNum_adds h.canonical _).1
  · rw [hreceived, contains_addNum h.canonical hother.symm]
    exact h.missing

end FetchCommand

section Alone

variable {before after : List PendingCmd}

theorem claim_other (seqNum : SeqNum) (uid : UID) (rest : List PendingCmd) (index : Nat) :
    claim seqNum uid (.other :: rest) index = (claim seqNum uid rest (index + 1)).map fun found =>
        (found.1, .other :: found.2) :=
  rfl

theorem claim_others {cmds : List PendingCmd} (h : ∀ cmd ∈ cmds, cmd = .other) (seqNum : SeqNum)
    (uid : UID) (index : Nat) : claim seqNum uid cmds index = none := by
  induction cmds generalizing index with
  | nil => rfl
  | cons first rest ih =>
    rw [h first (by simp), claim_other, ih fun cmd hcmd =>
      h cmd (List.mem_cons_of_mem _ hcmd)]
    rfl

variable (hbefore : ∀ cmd ∈ before, cmd = .other)

include hbefore

theorem claim_alone (hafter : ∀ cmd ∈ after, cmd = .other) (cmd : FetchCommand)
    (seqNum : SeqNum) (uid : UID) (index : Nat) :
    claim seqNum uid (before ++ .fetch cmd :: after) index = (cmd.recv seqNum uid).map fun next =>
        (index + before.length, before ++ .fetch next :: after) := by
  induction before generalizing index with
  | nil =>
    rw [List.nil_append, claim]
    cases cmd.recv seqNum uid with
    | none => simp [claim_others hafter]
    | some next => rfl
  | cons first rest ih =>
    rw [hbefore first (by simp), List.cons_append, claim_other,
      ih fun cmd hcmd => hbefore cmd (List.mem_cons_of_mem _ hcmd)]
    cases cmd.recv seqNum uid with
    | none => rfl
    | some next => simp [Nat.add_assoc, Nat.add_comm 1]

omit hbefore in
theorem scanPending_others {cmds : List PendingCmd} (h : ∀ cmd ∈ cmds, cmd = .other)
    (seqNum : SeqNum) (rest : List PendingCmd) :
    scanPending seqNum (cmds ++ rest) = scanPending seqNum rest := by
  induction cmds with
  | nil => rfl
  | cons first cmds ih =>
    rw [h first (by simp), List.cons_append]
    exact ih fun cmd hcmd => h cmd (List.mem_cons_of_mem _ hcmd)

variable (hafter : ∀ cmd ∈ after, cmd = .other)

include hafter

theorem needsUID_alone (cmd : FetchCommand) (seqNum : SeqNum) :
    needsUID seqNum (before ++ .fetch cmd :: after) = isUIDSet cmd.numSet := by
  have hrest : scanPending seqNum after = (false, false) := by
    have := scanPending_others hafter seqNum []
    simpa [scanPending] using this
  rw [needsUID, scanPending_others hbefore, scanPending]
  cases hkind : isUIDSet cmd.numSet with
  | true => simp
  | false => simp [hrest]

theorem hasSelect_alone (cmd : FetchCommand) :
    (before ++ .fetch cmd :: after).any PendingCmd.isSelect = false := by
  have hothers : ∀ {cmds : List PendingCmd}, (∀ cmd ∈ cmds, cmd = .other) →
      cmds.any PendingCmd.isSelect = false := by
    intro cmds h
    rw [List.any_eq_false]
    intro cmd hcmd
    rw [h cmd hcmd]
    decide
  simp [hothers hbefore, hothers hafter, PendingCmd.isSelect]

theorem handleFetch_alone {maxFetchBufferSize : Nat}
    (hreadable : Readable cmd.numSet maxFetchBufferSize response) {known : UID → Prop}
    (huids : ∀ uid, .uid uid ∈ response.items → known uid)
    (hend : known 0 ∨ isUIDSet cmd.numSet = true ∧ ∃ uid, .uid uid ∈ response.items) :
    ∃ uid, known uid ∧ handleFetch maxFetchBufferSize (before ++ .fetch cmd :: after) response =
        .ok (dispatch (before ++ .fetch cmd :: after) response.seqNum uid) := by
  have hselect := hasSelect_alone hbefore hafter cmd
  have hneeds := needsUID_alone hbefore hafter cmd response.seqNum
  have hroutes : ∃ final, (Reading.start (before ++ .fetch cmd :: after)).readItems
      (readingContext maxFetchBufferSize (before ++ .fetch cmd :: after)
        response.seqNum) response.items = .ok final ∧
      final.Routed (readingContext maxFetchBufferSize
        (before ++ .fetch cmd :: after) response.seqNum)
        (before ++ .fetch cmd :: after) known ∧ final.handled ≠ none := by
    cases hkind : isUIDSet cmd.numSet with
    | true =>
      rw [hkind] at hneeds
      refine Reading.Waiting.readItems ⟨rfl, rfl, rfl⟩ hselect hneeds ?_
        (hend.imp id And.right) ?_ ?_
      · rintro item hitem uid rfl
        exact ⟨huids uid hitem, fun _ => hreadable.uids hkind uid hitem⟩
      · simpa [Reading.start] using hreadable.count hkind
      · simpa [Reading.start, readingContext] using hreadable.bytes hkind
    | false =>
      rw [hkind] at hneeds
      have hzero : known 0 := by simpa [hkind] using hend
      refine Reading.Settled.readItems ⟨?_, hzero, .inl ⟨rfl, rfl⟩⟩ hselect ?_
      · simp [Reading.shouldBuffer, readingContext, hneeds]
      · rintro item hitem uid rfl
        refine ⟨huids uid hitem, fun h => ?_⟩
        simp [readingContext, hneeds] at h
  obtain ⟨final, hfinal, hrouted, hhandled⟩ := hroutes
  rcases hrouted with ⟨hnone, -⟩ | ⟨uid, hknown, hrecipient, hcmds⟩
  · exact absurd hnone hhandled
  · refine ⟨uid, hknown, ?_⟩
    rw [handleFetch, hfinal]
    simp only [hrecipient, hcmds, Option.getD_some]
    rfl

theorem dispatch_alone (cmd : FetchCommand) (seqNum : SeqNum) (uid : UID) :
    dispatch (before ++ .fetch cmd :: after) seqNum uid =
      match cmd.recv seqNum uid with
      | some next =>
        (before ++ .fetch next :: after, .command before.length)
      | none => (before ++ .fetch cmd :: after, .unilateral) := by
  rw [dispatch, claim_alone hbefore hafter]
  cases cmd.recv seqNum uid with
  | none => rfl
  | some next => simp

end Alone

/-! ## The responses for a message -/

def Names (numSet : MessageSet) (number : UInt32) (response : FetchResponse) : Prop :=
  if isUIDSet numSet then .uid number ∈ response.items
  else response.seqNum = number

def IsFor (numSet : MessageSet) (number : UInt32) (response : FetchResponse) : Prop :=
  Names numSet number response ∧ (isUIDSet numSet = true →
      ∀ uid, .uid uid ∈ response.items → uid = number)

def Delivered (maxFetchBufferSize : Nat) (cmds : List PendingCmd) (earlier : List FetchResponse)
    (response : FetchResponse) (index : Nat) : Prop :=
  ∃ next final, receive maxFetchBufferSize cmds earlier = .ok next ∧
    handleFetch maxFetchBufferSize next response = .ok (final, .command index)

section Alone

variable {before after : List PendingCmd} {numSet : MessageSet} {maxFetchBufferSize : Nat}

variable (hbefore : ∀ cmd ∈ before, cmd = .other) (hafter : ∀ cmd ∈ after, cmd = .other)

include hbefore hafter

theorem handleFetch_other (hnumber : number ≠ 0)
    (h : cmd.Awaits numSet number) (hreadable : Readable numSet maxFetchBufferSize response)
    (hother : ¬Names numSet number response) :
    ∃ next recipient, handleFetch maxFetchBufferSize (before ++ .fetch cmd :: after)
        response = .ok (before ++ .fetch next :: after, recipient) ∧
      next.Awaits numSet number := by
  rw [← h.numSet] at hreadable
  have huids : ∀ uid, .uid uid ∈ response.items ∨ uid = 0 →
      namedBy numSet response.seqNum uid ≠ number := by
    intro uid hmem
    unfold Names at hother
    unfold namedBy
    split_ifs at hother ⊢ with hkind
    · rintro rfl
      exact hmem.elim hother hnumber
    · exact hother
  obtain ⟨uid, hknown, hhandled⟩ := handleFetch_alone hbefore hafter hreadable
    (fun uid hmem => huids uid (.inl hmem)) (.inl (huids 0 (.inr rfl)))
  rw [hhandled, dispatch_alone hbefore hafter]
  cases hrecv : cmd.recv response.seqNum uid with
  | none => exact ⟨cmd, _, rfl, h⟩
  | some next => exact ⟨next, _, rfl, h.recv hknown hrecv⟩

theorem receive_others (hnumber : number ≠ 0)
    (h : cmd.Awaits numSet number) {earlier : List FetchResponse}
    (hreadable : ∀ response ∈ earlier, Readable numSet maxFetchBufferSize response)
    (hothers : ∀ response ∈ earlier, ¬Names numSet number response) :
    ∃ next : FetchCommand, receive maxFetchBufferSize (before ++ .fetch cmd :: after) earlier =
        .ok (before ++ .fetch next :: after) ∧
      next.Awaits numSet number := by
  induction earlier generalizing cmd with
  | nil => exact ⟨cmd, rfl, h⟩
  | cons response rest ih =>
    obtain ⟨middle, recipient, hhandled, hmiddle⟩ :=
      handleFetch_other hbefore hafter hnumber h
        (hreadable response (by simp)) (hothers response (by simp))
    obtain ⟨next, hrest, hnext⟩ := ih hmiddle
      (fun other hother => hreadable other (List.mem_cons_of_mem _ hother))
      (fun other hother => hothers other (List.mem_cons_of_mem _ hother))
    refine ⟨next, ?_, hnext⟩
    rw [receive, hhandled]
    exact hrest

/-- The first response for a message is given to the command exactly if the
set contains its number. -/
theorem delivered_iff (hnumber : number ≠ 0) {earlier : List FetchResponse}
    (hreadable : ∀ other ∈ earlier ++ [response], Readable numSet maxFetchBufferSize other)
    (hothers : ∀ other ∈ earlier, ¬Names numSet number other)
    (hfor : IsFor numSet number response) :
    Delivered maxFetchBufferSize (before ++ .fetch (newFetch numSet) :: after) earlier response
        before.length ↔
      (ranges numSet).contains number = true := by
  obtain ⟨cmd, hearlier, hawaits⟩ := receive_others hbefore hafter hnumber
    (FetchCommand.newFetch_awaits numSet number)
    (fun other hother => hreadable other (List.mem_append_left _ hother))
    hothers
  have hread := hreadable response (by simp)
  rw [← hawaits.numSet] at hread
  have huids : ∀ uid, .uid uid ∈ response.items → namedBy numSet response.seqNum uid = number := by
    intro uid hmem
    obtain ⟨hnames, hall⟩ := hfor
    unfold Names at hnames
    unfold namedBy
    split_ifs at hnames ⊢ with hkind
    · exact hall hkind uid hmem
    · exact hnames
  have hend : namedBy numSet response.seqNum 0 = number ∨
      isUIDSet cmd.numSet = true ∧ ∃ uid, .uid uid ∈ response.items := by
    obtain ⟨hnames, -⟩ := hfor
    unfold Names at hnames
    rw [hawaits.numSet]
    unfold namedBy
    split_ifs at hnames ⊢ with hkind
    · exact .inr ⟨hkind, number, hnames⟩
    · exact .inl hnames
  obtain ⟨uid, hknown, hhandled⟩ := handleFetch_alone hbefore hafter hread huids hend
  rw [dispatch_alone hbefore hafter] at hhandled
  have hnone := @FetchCommand.recv_eq_none cmd response.seqNum uid
  rw [hawaits.numSet, hknown, hawaits.missing] at hnone
  constructor
  · rintro ⟨next, final, hreceive, hgiven⟩
    rw [hearlier] at hreceive
    cases hreceive
    rw [hhandled] at hgiven
    cases hrecv : cmd.recv response.seqNum uid with
    | none =>
      rw [hrecv] at hgiven
      cases hgiven
    | some next =>
      rw [hrecv] at hnone
      simpa using hnone
  · intro hcontains
    cases hrecv : cmd.recv response.seqNum uid with
    | none =>
      rw [hrecv, hcontains] at hnone
      simp at hnone
    | some next =>
      rw [hrecv] at hhandled
      exact ⟨_, _, hearlier, hhandled⟩

end Alone

/-! ## The messages a set denotes -/

def largest : List UInt32 → UInt32
  | [] => 0
  | number :: rest => if largest rest < number then number else largest rest

theorem le_largest (h : number ∈ numbers) : number ≤ largest numbers := by
  induction numbers with
  | nil => cases h
  | cons first rest ih =>
    rw [largest]
    rcases List.mem_cons.mp h with rfl | hmem
    · split_ifs with hlt
      · exact UInt32.le_refl _
      · exact UInt32.not_lt.mp hlt
    · split_ifs with hlt
      · exact UInt32.le_trans (ih hmem) (UInt32.le_of_lt hlt)
      · exact ih hmem

theorem largest_mem (h : largest numbers ≠ 0) : largest numbers ∈ numbers := by
  induction numbers with
  | nil => exact absurd rfl h
  | cons first rest ih =>
    rw [largest] at h ⊢
    split_ifs at h ⊢ with hlt
    · simp
    · exact List.mem_cons_of_mem _ (ih h)

/-- The server's reading of a set: `*` is the largest number of the mailbox,
`$` the result saved. -/
def Denoted (numSet : MessageSet) (saved : NumSet) (top number : UInt32) : Prop :=
  match numSet with
  | .seqSet set => set.Denotes top number
  | .uidSet set => set.Denotes top number
  | .searchRes => saved.contains number = true

/-- A range of the set reaches the largest number without `*` standing for
it. -/
def Covers (set : NumSet) (top : UInt32) : Prop :=
  ∃ range ∈ set, range.start ≠ 0 ∧ range.start ≤ top ∧ (top ≤ range.stop ∨ range.stop = 0)

/-- The client can tell from the set which messages it has asked for: the set
has no `*` unless its ranges cover the largest number anyway, and `$` stands
for no message of the mailbox. -/
def Recognisable (numSet : MessageSet) (saved : NumSet) (numbers : List UInt32) : Prop :=
  match numSet with
  | .seqSet set =>
    set.isDynamic = true → numbers ≠ [] → Covers set (largest numbers)
  | .uidSet set =>
    set.isDynamic = true → numbers ≠ [] → Covers set (largest numbers)
  | .searchRes => ∀ number ∈ numbers, saved.contains number = false

theorem covers_iff (h : set.Canonical) {top : UInt32} (hne : top ≠ 0) :
    Covers set top ↔ set.contains top = true := by
  rw [NumSet.contains_iff h, NumSet.covers_spans_iff, Covers]
  simp [NumRange.contains, hne]

theorem contains_of_denotes (h : set.Canonical) {top : UInt32} (hne : number ≠ 0)
    (hle : number ≤ top) (hcovers : set.isDynamic = true → set.contains top = true)
    (hdenotes : set.Denotes top number) : set.contains number = true := by
  cases hdynamic : set.isDynamic with
  | false =>
    exact (denotes_static h (NumSet.isStatic_of_canonical h hdynamic) top hne).mp hdenotes
  | true =>
    have htop := hcovers hdynamic
    obtain ⟨front, last, rfl, hstop, hfront, hstatic, -⟩ := split_dynamic h hdynamic
    rw [denotes_concat hfront hstatic top hne] at hdenotes
    rcases hdenotes with hcontains | hlast
    · exact (set_contains_concat h hstop hne).mpr (.inl hcontains)
    · by_cases hfar : last.start = 0 ∨ number < last.start
      · rw [(denotes_far hstop hle hfar).mp hlast]
        exact htop
      · rw [not_or, UInt32.not_lt] at hfar
        exact (set_contains_concat h hstop hne).mpr (.inr hfar)

/-- All messages a set without `$` denotes are in it exactly if it has no `*`
or covers the largest number. -/
theorem contains_denoted_iff (h : set.Canonical) (hnumbers : 0 ∉ numbers) :
    (∀ number ∈ numbers, set.Denotes (largest numbers) number → set.contains number = true) ↔
      (set.isDynamic = true → numbers ≠ [] → Covers set (largest numbers)) := by
  have hlargest : numbers ≠ [] → largest numbers ≠ 0 := by
    intro hne hzero
    obtain ⟨number, hmem⟩ := List.exists_mem_of_ne_nil numbers hne
    have hle := le_largest hmem
    rw [hzero, UInt32.le_iff_toNat_le] at hle
    have hpos : number ≠ 0 := fun h => hnumbers (h ▸ hmem)
    rw [Word.ne_zero_iff] at hpos
    simp at hle
    omega
  constructor
  · intro hall hdynamic hne
    have htop := hlargest hne
    exact (covers_iff h htop).mpr (hall _ (largest_mem htop) (denotes_top h hdynamic _))
  · intro hcovers number hmem hdenotes
    have hne : number ≠ 0 := fun h => hnumbers (h ▸ hmem)
    have hsome := List.ne_nil_of_mem hmem
    exact contains_of_denotes h hne (le_largest hmem)
      (fun hdynamic => (covers_iff h (hlargest hsome)).mp (hcovers hdynamic hsome)) hdenotes

theorem ranges_denoted_iff {numSet : MessageSet} (hset : (ranges numSet).Canonical) (saved : NumSet)
    (hnumbers : 0 ∉ numbers) :
    (∀ number ∈ numbers, Denoted numSet saved (largest numbers) number →
        (ranges numSet).contains number = true) ↔
      Recognisable numSet saved numbers := by
  cases numSet with
  | seqSet set | uidSet set => exact contains_denoted_iff hset hnumbers
  | searchRes =>
    have hempty : ∀ number, NumSet.contains [] number = false := fun _ => rfl
    simp [Denoted, ranges, Recognisable, hempty]

def answer (numSet : MessageSet) (number : UInt32) : FetchResponse where
  seqNum := number
  items := if isUIDSet numSet then [.uid number] else []

theorem answer_readable (numSet : MessageSet) (hne : number ≠ 0) (maxFetchBufferSize : Nat) :
    Readable numSet maxFetchBufferSize (answer numSet number) := by
  refine ⟨?_, ?_, ?_⟩
  · intro hkind uid hmem
    simp only [answer, hkind, if_true, List.mem_singleton, FetchItem.uid.injEq] at hmem
    rw [hmem]
    exact hne
  · intro hkind
    simp [answer, hkind, keptBack, FetchItem.isUID]
  · intro hkind
    simp [answer, hkind, keptBack, FetchItem.isUID]

theorem answer_isFor (numSet : MessageSet) (number : UInt32) :
    IsFor numSet number (answer numSet number) := by
  unfold IsFor Names answer
  cases hkind : isUIDSet numSet <;> simp

/--
With no other FETCH, STORE or SELECT pending, the first response for each
message that the set denotes reaches the command exactly if the client can tell
from the set what it asked for.
-/
theorem fetch_reaches_command_iff (maxFetchBufferSize : Nat) (before after : List PendingCmd)
    (hbefore : ∀ cmd ∈ before, cmd = .other) (hafter : ∀ cmd ∈ after, cmd = .other)
    (numSet : MessageSet) (hset : (ranges numSet).Canonical) (saved : NumSet)
    (numbers : List UInt32) (hnumbers : 0 ∉ numbers) :
    (∀ number ∈ numbers, Denoted numSet saved (largest numbers) number →
        ∀ earlier response, (∀ other ∈ earlier ++ [response],
            Readable numSet maxFetchBufferSize other) →
          (∀ other ∈ earlier, ¬Names numSet number other) →
          IsFor numSet number response → Delivered maxFetchBufferSize
              (before ++ .fetch (newFetch numSet) :: after) earlier response
              before.length) ↔
      Recognisable numSet saved numbers := by
  rw [← ranges_denoted_iff hset saved hnumbers]
  refine forall₃_congr fun number hmem _ => ?_
  have hne : number ≠ 0 := fun h => hnumbers (h ▸ hmem)
  constructor
  · intro hall
    have hreadable : ∀ other ∈ [] ++ [answer numSet number],
        Readable numSet maxFetchBufferSize other := by
      intro other hother
      rw [List.nil_append, List.mem_singleton] at hother
      rw [hother]
      exact answer_readable numSet hne maxFetchBufferSize
    exact (delivered_iff hbefore hafter hne hreadable (by simp) (answer_isFor numSet number)).mp
        (hall [] _ hreadable (by simp) (answer_isFor numSet number))
  · intro hcontains earlier response hreadable hothers hfor
    exact (delivered_iff hbefore hafter hne hreadable hothers hfor).mpr hcontains

/-- `2:*` in a mailbox with three messages, and a response whose UID comes
behind its text; the flags of another message have been reported before. -/
theorem fetch_reaches_command_fromTwo : Recognisable (.uidSet [⟨2, 0⟩]) [] [1, 2, 3] ∧
      Delivered 100 [.fetch (newFetch (.uidSet [⟨2, 0⟩]))]
        [⟨1, [.flags [], .uid 1]⟩] ⟨3, [.body (some 60), .uid 3]⟩ 0 := by
  have hrecognisable : Recognisable (.uidSet [⟨2, 0⟩]) [] [1, 2, 3] :=
    fun _ _ => ⟨⟨2, 0⟩, by simp, by decide, by decide, .inr rfl⟩
  refine ⟨hrecognisable, (fetch_reaches_command_iff 100 [] [] (by simp) (by simp) (.uidSet [⟨2, 0⟩])
    ((NumSet.canonical_iff_ascending _).mpr ⟨by decide, by decide⟩) []
    [1, 2, 3] (by decide)).mpr hrecognisable 3 (by decide)
    ⟨⟨2, 0⟩, by simp, by decide⟩ _ _ ?_ ?_ ?_⟩
  · intro response hresponse
    simp only [List.cons_append, List.nil_append, List.mem_cons,
      List.not_mem_nil, or_false] at hresponse
    rcases hresponse with rfl | rfl
    · exact ⟨fun _ => by simp, fun _ => by decide, fun _ => by decide⟩
    · exact ⟨fun _ => by simp, fun _ => by decide, fun _ => by decide⟩
  · simp [Names, isUIDSet]
  · simp [IsFor, Names, isUIDSet]

/-- The last of three messages is what `*`, `5:*` and a saved result of just
that message denote.  The response for it goes to the unilateral handler. -/
theorem star_answer_unilateral : Denoted (.uidSet [⟨0, 0⟩]) [] (largest [1, 2, 3]) 3 ∧
      handleFetch 100 [.fetch (newFetch (.uidSet [⟨0, 0⟩]))] (answer (.uidSet [⟨0, 0⟩]) 3) =
        .ok ([.fetch (newFetch (.uidSet [⟨0, 0⟩]))], .unilateral) ∧
      Denoted (.seqSet [⟨5, 0⟩]) [] (largest [1, 2, 3]) 3 ∧
      handleFetch 100 [.fetch (newFetch (.seqSet [⟨5, 0⟩]))] (answer (.seqSet [⟨5, 0⟩]) 3) =
        .ok ([.fetch (newFetch (.seqSet [⟨5, 0⟩]))], .unilateral) ∧
      Denoted .searchRes [⟨3, 3⟩] (largest [1, 2, 3]) 3 ∧
      handleFetch 100 [.fetch (newFetch .searchRes)] (answer .searchRes 3) =
        .ok ([.fetch (newFetch .searchRes)], .unilateral) := by
  refine ⟨⟨⟨0, 0⟩, by simp, by decide⟩, by decide, ⟨⟨5, 0⟩, by simp, by decide⟩,
    by decide, ?_, by decide⟩
  change NumSet.contains [⟨3, 3⟩] 3 = true
  decide

end GoImap.Client
