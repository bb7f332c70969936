import GoImap.Lib.Transition

/-!
# Consuming an EXPUNGE command

The goroutine that reads the responses sends their numbers to the channel of the
command, which has 128 places, and closes it when the command is completed.  The
caller receives from the channel, which gives 0 once it is closed and empty.
-/

namespace GoImap.Draining

open Transition

/-- The caller is in the loop of `Collect` or in that of `Close`, waits for the
result, or is back. -/
inductive Caller where
  | collecting
  | closing
  | waiting
  | returned
  deriving DecidableEq, Repr

def Caller.loops (caller : Caller) : Prop := caller = .collecting ∨ caller = .closing

structure State where
  responses : List UInt32
  caller : Caller
  seqNums : List UInt32 := []
  closed : Bool := false
  done : Bool := false
  collected : List UInt32 := []

inductive Label where
  | handleExpunge
  | completeCommand
  | sendDone
  | next
  | wait

def Enabled (s : State) : Label → Prop
  | .handleExpunge => s.responses ≠ [] ∧ s.seqNums.length < 128
  | .completeCommand => s.responses = [] ∧ s.closed = false
  | .sendDone => s.closed = true ∧ s.done = false
  | .next => s.caller.loops ∧ (s.seqNums ≠ [] ∨ s.closed = true)
  | .wait => s.caller = .waiting ∧ s.done = true

instance decidableEnabled (s : State) : ∀ label, Decidable (Enabled s label)
  | .handleExpunge | .completeCommand | .sendDone | .wait => inferInstanceAs (Decidable (_ ∧ _))
  | .next => inferInstanceAs (Decidable ((_ ∨ _) ∧ _))

def State.receive (s : State) (seqNum : UInt32) : State :=
  match s.caller with
  | .collecting =>
    if seqNum = 0 then { s with caller := .closing }
    else { s with collected := s.collected ++ [seqNum] }
  | .closing => if seqNum = 0 then { s with caller := .waiting } else s
  | .waiting | .returned => s

def next (s : State) : Label → State
  | .handleExpunge =>
    { s with responses := s.responses.tail, seqNums := s.seqNums ++ s.responses.take 1 }
  | .completeCommand => { s with closed := true }
  | .sendDone => { s with done := true }
  | .next => { s with seqNums := s.seqNums.tail }.receive (s.seqNums.headD 0)
  | .wait => { s with caller := .returned }

def Caller.rank : Caller → Nat
  | .collecting => 3
  | .closing => 2
  | .waiting => 1
  | .returned => 0

def State.measure (s : State) : Nat :=
  2 * s.responses.length + s.seqNums.length + s.caller.rank + (!s.closed).toNat + (!s.done).toNat

theorem measure_receive (s : State) (seqNum : UInt32) (h : s.caller.loops) :
    (s.receive seqNum).measure + (if seqNum = 0 then 1 else 0) = s.measure := by
  rcases h with h | h
  all_goals
    by_cases hzero : seqNum = 0
    · simp only [State.receive, h, hzero, if_true, State.measure, Caller.rank]
      omega
    · simp only [State.receive, h, hzero, if_false, State.measure, Nat.add_zero]

theorem measure_next (s : State) (label : Label) (h : Enabled s label) :
    (next s label).measure < s.measure := by
  cases label with
  | handleExpunge =>
    obtain ⟨seqNum, rest, hresponses⟩ := List.exists_cons_of_ne_nil h.1
    simp only [next, State.measure, hresponses, List.tail_cons, List.take_succ_cons,
      List.take_zero, List.length_append, List.length_cons, List.length_nil]
    omega
  | completeCommand | sendDone | wait =>
    simp [next, State.measure, h.1, h.2, Caller.rank]
  | next =>
    have hreceive := measure_receive { s with seqNums := s.seqNums.tail } (s.seqNums.headD 0) h.1
    have htail : { s with seqNums := s.seqNums.tail }.measure + s.seqNums.length =
        s.measure + s.seqNums.tail.length := by
      simp only [State.measure]
      omega
    rw [next]
    cases hnums : s.seqNums with
    | nil =>
      simp only [hnums, List.headD_nil, if_true, List.tail_nil] at hreceive htail ⊢
      omega
    | cons seqNum rest =>
      simp only [hnums, List.tail_cons, List.length_cons] at hreceive htail ⊢
      omega

/-- Without a 0 among them, the caller leaves its first loop when the channel is
closed and empty. -/
structure Orderly (first : Caller) (seqNums : List UInt32) (s : State) : Prop where
  nonzero : 0 ∉ s.seqNums ++ s.responses
  closed : s.closed = true → s.responses = []
  drained : s.caller ≠ first → s.closed = true ∧ s.seqNums = []
  returned : s.caller = .returned → s.done = true
  collected : first = .collecting → s.collected ++ (s.seqNums ++ s.responses) = seqNums

section Orderly

variable {first : Caller} {seqNums : List UInt32} {s : State}

theorem orderly_receive (h : Orderly first seqNums s) (henabled : Enabled s .next) :
    Orderly first seqNums (next s .next) := by
  obtain ⟨hcaller, hready⟩ := henabled
  cases hnums : s.seqNums with
  | nil =>
    have hclosed : s.closed = true := by simpa [hnums] using hready
    rcases hcaller with hcaller | hcaller
    all_goals
      simp only [next, State.receive, hcaller, hnums, List.headD_nil]
      exact ⟨by simpa [hnums] using h.nonzero, h.closed, fun _ => ⟨hclosed, rfl⟩, nofun,
        by simpa [hnums] using h.collected⟩
  | cons seqNum rest =>
    have hsame : s.caller = first := by
      by_contra hne
      exact absurd (h.drained hne).2 (by simp [hnums])
    have hnonzero := h.nonzero
    rw [hnums, List.cons_append, List.mem_cons, not_or] at hnonzero
    subst hsame
    rcases hcaller with hcaller | hcaller
    · have hnext : next s .next =
          { s with seqNums := rest, collected := s.collected ++ [seqNum] } := by
        simp [next, State.receive, hcaller, hnums, Ne.symm hnonzero.1]
      rw [hnext]
      exact ⟨hnonzero.2, h.closed, fun hne => absurd rfl hne, h.returned,
        by simpa [hnums] using h.collected⟩
    · have hnext : next s .next = { s with seqNums := rest } := by
        simp [next, State.receive, hcaller, hnums, Ne.symm hnonzero.1]
      rw [hnext]
      exact ⟨hnonzero.2, h.closed, fun hne => absurd rfl hne, h.returned, by simp [hcaller]⟩

theorem orderly_next (hfirst : first.loops) (label : Label) (h : Orderly first seqNums s)
    (henabled : Enabled s label) : Orderly first seqNums (next s label) := by
  cases label with
  | handleExpunge =>
    obtain ⟨seqNum, rest, hresponses⟩ := List.exists_cons_of_ne_nil henabled.1
    have hopen : s.closed = false := by
      by_contra hclosed
      exact henabled.1 (h.closed (by simpa using hclosed))
    exact ⟨by simpa [next, hresponses] using h.nonzero, by simp [next, hopen],
      fun hne => absurd (h.drained hne).1 (by simp [hopen]), h.returned,
      by simpa [next, hresponses] using h.collected⟩
  | completeCommand =>
    exact ⟨h.nonzero, fun _ => henabled.1, fun hne => ⟨rfl, (h.drained hne).2⟩, h.returned,
      h.collected⟩
  | sendDone => exact ⟨h.nonzero, h.closed, h.drained, fun _ => rfl, h.collected⟩
  | wait =>
    refine ⟨h.nonzero, h.closed, fun _ => h.drained ?_, fun _ => henabled.2, h.collected⟩
    rw [henabled.1]
    rcases hfirst with rfl | rfl <;> decide
  | next => exact orderly_receive h henabled

theorem returned_of_stuck (hfirst : first.loops) (h : Orderly first seqNums s)
    (hstuck : ∀ label, ¬Enabled s label) : s.caller = .returned ∧ s.done = true := by
  have hsend := hstuck .handleExpunge
  have hclose := hstuck .completeCommand
  have hdone := hstuck .sendDone
  have hnext := hstuck .next
  have hwait := hstuck .wait
  cases hcaller : s.caller with
  | collecting | closing => simp_all [Enabled, Caller.loops]
  | waiting =>
    have hclosed := (h.drained (by rcases hfirst with rfl | rfl <;> simp [hcaller])).1
    simp_all [Enabled]
  | returned => exact ⟨rfl, h.returned hcaller⟩

def start (caller : Caller) (seqNums : List UInt32) : State where
  responses := seqNums
  caller := caller

theorem collected_nonzero (s : State) (label : Label) (h : 0 ∉ s.collected) :
    0 ∉ (next s label).collected := by
  cases label with
  | handleExpunge | completeCommand | sendDone | wait => exact h
  | next =>
    simp only [next, State.receive]
    split
    · split_ifs with hzero
      · exact h
      · exact List.not_mem_append h fun hmem => hzero (List.mem_singleton.mp hmem).symm
    · split_ifs
      · exact h
      · exact h
    · exact h
    · exact h

end Orderly

/--
A caller of `Collect` or `Close` returns, the reader completes the command, and
`Collect` returns the numbers received, if and only if none of them is 0.
-/
theorem expunge_consumed_iff (seqNums : List UInt32) :
    (∀ first : Caller, first.loops → Ends next Enabled (start first seqNums) fun s =>
      s.caller = .returned ∧ s.done = true ∧ (first = .collecting → s.collected = seqNums)) ↔
    0 ∉ seqNums := by
  refine ⟨fun h => ?_, fun hzero first hfirst => ?_⟩
  · obtain ⟨labels, hmeets, -, -, hcollected⟩ := (h .collecting (.inl rfl)).exists_last
    rw [← hcollected rfl]
    exact foldl_of_meets (fun s => 0 ∉ s.collected)
      (fun s label h _ => collected_nonzero s label h) (by simp [start]) hmeets
  · refine ends_of_measure State.measure (Orderly first seqNums) (fun s label h henabled =>
      ⟨orderly_next hfirst label h henabled, measure_next s label henabled⟩) (fun s h hstuck => ?_)
      ⟨by simpa [start] using hzero, nofun, fun hne => absurd rfl hne, ?_, by simp [start]⟩
    · obtain ⟨hcaller, hdone⟩ := returned_of_stuck hfirst h hstuck
      have hne : s.caller ≠ first := by
        rw [hcaller]
        rcases hfirst with rfl | rfl <;> decide
      obtain ⟨hclosed, hnums⟩ := h.drained hne
      exact ⟨hcaller, hdone, fun hcollects => by
        simpa [hnums, h.closed hclosed] using h.collected hcollects⟩
    · rcases hfirst with rfl | rfl <;> nofun

/-- `Collect` and the `Close` it calls each stop at a 0, and the reader is left
with a full channel. -/
theorem zeros_block_reader :
    let labels := [.handleExpunge, .handleExpunge, .next, .next] ++
      List.replicate 128 Label.handleExpunge
    let last := labels.foldl next (start .collecting (0 :: 0 :: List.replicate 129 1))
    Meets next Enabled (start .collecting (0 :: 0 :: List.replicate 129 1)) labels ∧
      last.caller = .waiting ∧ last.responses = [1] ∧ last.seqNums.length = 128 ∧
      ∀ label, ¬Enabled last label := by
  refine ⟨by decide +kernel, by decide +kernel, by decide +kernel, by decide +kernel,
    fun label => ?_⟩
  cases label with
  | handleExpunge | completeCommand | sendDone | next | wait => decide +kernel

end GoImap.Draining
