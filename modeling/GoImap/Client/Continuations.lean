import GoImap.Client.Completion

/-!
# Results and continuation requests

The reader finds the command of a result, or of a continuation request, in one
critical section and hands it over after that.  In between another goroutine
may have completed the command.
-/

namespace GoImap.Lifecycle

open Transition

/-! ## Results -/

def State.takesNext (s : State) : Bool := s.writerTodo.head? == some .takePending

def State.delivers (s : State) : Bool :=
  match s.reader with
  | .delivering _ _ => true
  | .running _ _ => false

/-- A writer does not take the pending commands while the reader delivers. -/
def Undisturbed (s : State) : Label → Prop
  | .writerRuns => s.takesNext = true → s.delivers = false
  | _ => True

instance decidableUndisturbed (s : State) : ∀ label, Decidable (Undisturbed s label)
  | .writerRuns => inferInstanceAs (Decidable (_ → _))
  | .register _ | .begin _ | .request | .write _ | .wake | .finish
  | .readerRuns | .tagged _ _ | .continues | .data _ _ | .abandon | .fails
  | .close | .disconnect => inferInstanceAs (Decidable True)

def SendsFirst : List Action → Prop
  | [] => True
  | .sendHeld cmd :: rest => .closeResults cmd ∈ rest ∧ SendsFirst rest
  | _ :: rest => SendsFirst rest

variable {action : Action} {rest : List Action} {cmd : CommandId}
  {phase : Phase} {later : State} {req : RequestId} {label : Label}

section SendsFirst

theorem SendsFirst.tail (h : SendsFirst (action :: rest)) : SendsFirst rest := by
  cases action with
  | sendHeld cmd => exact h.2
  | _ => exact h

theorem SendsFirst.append {first : List Action} (h : SendsFirst first)
    (hrest : SendsFirst rest) : SendsFirst (first ++ rest) := by
  induction first with
  | nil => exact hrest
  | cons action first ih =>
    have hlater := ih h.tail
    cases action with
    | sendHeld cmd => exact ⟨List.mem_append_left _ h.1, hlater⟩
    | _ => exact hlater

variable {kind : CommandId → Kind}

theorem sendsFirst_completeCommand (cmd : CommandId) :
    SendsFirst (completeCommand (kind cmd) cmd) := by
  cases hkind : kind cmd with
  | list => exact ⟨List.mem_cons_self, trivial⟩
  | _ => trivial

theorem sendsFirst_completions (cmds : List CommandId) :
    SendsFirst (State.completions kind cmds) := by
  induction cmds with
  | nil => trivial
  | cons cmd cmds ih => exact (sendsFirst_completeCommand cmd).append ih

theorem sendsFirst_expand (s : State) (action : Action) : SendsFirst (s.expand kind action) := by
  cases action with
  | takePending => exact sendsFirst_completions s.pendingCmds
  | _ => trivial

end SendsFirst

/-- The command whose result is delivered is pending, and nothing was sent to a
closed channel. -/
structure Delivers (kind : CommandId → Kind) (s : State) : Prop where
  sound : Sound kind s
  pending : ∀ cmd how, s.reader = .delivering cmd how → cmd ∈ s.pendingCmds ∧ kind cmd ≠ .other
  reader : SendsFirst s.reader.todo
  writer : SendsFirst s.writerTodo
  panicked : s.panicked = []

section Delivers

variable {kind : CommandId → Kind} {s : State}

theorem resultsClosed_eq_false (h : s.performed.count (.closeResults cmd) = 0) :
    s.resultsClosed cmd = false := by
  rw [State.resultsClosed, ← Bool.not_eq_true, List.contains_iff_mem]
  exact List.count_eq_zero.mp h

theorem Sound.resultsClosed_of_pending (h : Sound kind s)
    (hpending : cmd ∈ s.pendingCmds) (hkind : kind cmd ≠ .other) :
    s.resultsClosed cmd = false := by
  have hle : (State.completions kind s.pendingCmds).count (.closeResults cmd) +
      s.performed.count (.closeResults cmd) ≤ 1 := h.performed_le rfl
  have hleft : 0 < (State.completions kind s.pendingCmds).count (.closeResults cmd) := by
    refine List.count_pos_iff.mpr (List.mem_flatMap.mpr ⟨cmd, hpending, ?_⟩)
    cases hcase : kind cmd with
    | other => exact absurd hcase hkind
    | _ => simp [completeCommand]
  exact resultsClosed_eq_false (by omega)

theorem Sound.resultsClosed_of_todo (h : Sound kind s) (htodo : .closeResults cmd ∈ s.reader.todo ∨
      .closeResults cmd ∈ s.writerTodo) : s.resultsClosed cmd = false := by
  have hcount := h.owned.count (.closeResults cmd) rfl
  have hone := @count_completions_le kind _ h.owned.nodup (.closeResults cmd)
  refine resultsClosed_eq_false ?_
  rcases htodo with hmem | hmem
  · have hpos := List.count_pos_iff.mpr hmem
    omega
  · have hpos := List.count_pos_iff.mpr hmem
    omega

theorem panicked_perform (h : ∀ cmd, action = .sendHeld cmd → s.resultsClosed cmd = false) :
    (s.perform action).panicked = s.panicked := by
  cases action with
  | sendHeld cmd =>
    simp only [State.perform, State.effect, State.send, h cmd rfl, Bool.false_eq_true, ↓reduceIte]
    split_ifs
    · rfl
    · rfl
  | _ => rfl

theorem SendsFirst.mem_of_sendHeld (h : SendsFirst (action :: rest))
    (haction : action = .sendHeld cmd) : .closeResults cmd ∈ rest := by
  subst haction
  exact h.1

theorem Moves.sendsFirst {later : Phase} (h : Moves s phase later) : SendsFirst later.todo := by
  cases h with
  | @write phase ok hwrites _ =>
    cases phase with
    | composing | announcing | early | responding =>
      cases ok with
      | true | false => trivial
    | _ => cases hwrites
  | @wake req flushed _ =>
    cases flushed with
    | true | false => trivial
  | waits | closed => trivial

theorem sendsFirst_registered (h : phase.registers = true) :
    SendsFirst (phase.registered req).todo := by
  cases phase with
  | composing | flushed => trivial
  | _ => cases h

theorem delivers_change (h : Delivers kind s) (hsound : Sound kind later)
    (hchange : Change kind s label later) (hcalm : Undisturbed s label) :
    Delivers kind later := by
  cases hchange with
  | register => exact ⟨hsound, h.pending, h.reader, h.writer, h.panicked⟩
  | @begins cmd hfree hbegun =>
    refine ⟨hsound, fun other how hother => ?_, h.reader, ?_, h.panicked⟩
    · obtain ⟨hpending, hkind⟩ := h.pending other how hother
      exact ⟨List.mem_append_left _ hpending, hkind⟩
    · simp only [State.writerTodo, State.phase, State.beginCommand]
      split
      · trivial
      · trivial
  | request _ hwriter hregisters =>
    exact ⟨hsound, h.pending, h.reader, sendsFirst_registered hregisters, h.panicked⟩
  | moves hwriter hmoves =>
    exact ⟨hsound, h.pending, h.reader, hmoves.sendsFirst, h.panicked⟩
  | @writerPerforms cmd action rest req hlabel hwriter =>
    subst hlabel
    have hwrites := h.writer
    rw [writerTodo_eq hwriter] at hwrites
    refine ⟨hsound, fun other how hother => ?_, ?_, ?_, ?_⟩
    · simp only [perform_reader] at hother
      have hkeeps : action ≠ .takePending := by
        rintro rfl
        have hidle := hcalm (by simp [State.takesNext, writerTodo_eq hwriter, Phase.todo])
        simp [State.delivers, hother] at hidle
      rw [perform_pendingCmds hkeeps]
      exact h.pending other how hother
    · simpa using h.reader
    · exact (sendsFirst_expand s action).append hwrites.tail
    · rw [← h.panicked]
      refine panicked_perform fun held haction =>
        h.sound.resultsClosed_of_todo (.inr ?_)
      rw [writerTodo_eq hwriter]
      exact List.mem_cons_of_mem _ (hwrites.mem_of_sendHeld haction)
  | finish hwriter => exact ⟨hsound, h.pending, h.reader, trivial, h.panicked⟩
  | @readerPerforms action rest exits hreader =>
    have hreads := h.reader
    rw [hreader] at hreads
    refine ⟨hsound, fun other how hother => ?_, ?_, ?_, ?_⟩
    · cases hother
    · exact (sendsFirst_expand s action).append hreads.tail
    · simpa [State.writerTodo, State.phase] using h.writer
    · rw [← h.panicked]
      refine panicked_perform fun held haction =>
        h.sound.resultsClosed_of_todo (.inl ?_)
      rw [hreader]
      exact List.mem_cons_of_mem _ (hreads.mem_of_sendHeld haction)
  | @tagged cmd exits hreader hpending =>
    refine ⟨hsound, fun other how hother => (by cases hother), ?_, h.writer, h.panicked⟩
    refine (sendsFirst_completeCommand cmd).append ?_
    split_ifs
    · trivial
    · trivial
  | granted hreader hreqs =>
    exact ⟨hsound, fun other how hother => (by cases hother), trivial, h.writer, h.panicked⟩
  | data hreader hpending hkind =>
    refine ⟨hsound, fun other how hother => ?_, trivial, h.writer, h.panicked⟩
    cases hother
    exact ⟨hpending, hkind⟩
  | delivered hreader =>
    exact ⟨hsound, fun other how hother => (by cases hother), trivial, h.writer, h.panicked⟩
  | @panics cmd how hreader hclosed =>
    obtain ⟨hpending, hkind⟩ := h.pending cmd how hreader
    rw [h.sound.resultsClosed_of_pending hpending hkind] at hclosed
    cases hclosed
  | fails htodo hexits =>
    exact ⟨hsound, fun other how hother => (by cases hother), trivial, h.writer, h.panicked⟩
  | environment hclosed =>
    exact ⟨hsound, h.pending, h.reader, h.writer, h.panicked⟩

end Delivers

/--
No result is sent to a command whose channel is closed, as long as no writer
takes the pending commands between the lookup of a command and the delivery of
its result.
-/
theorem results_not_late (kind : CommandId → Kind) (labels : List Label)
    (hrun : Meets (next kind) (Enabled kind) {} labels)
    (hcalm : Meets (next kind) Undisturbed {} labels) :
    (labels.foldl (next kind) {}).panicked = [] := by
  have hstart : Delivers kind {} :=
    ⟨sound_initial kind, fun _ _ hreader => (by cases hreader), trivial, trivial, rfl⟩
  refine (foldl_of_meets (Delivers kind) ?_ hstart (meets_and hrun hcalm)).panicked
  intro s label h hguard
  exact delivers_change h (sound_next s label h.sound hguard.1)
    (change_of_enabled hguard.1) hguard.2

def flushFails : List Label :=
  [.begin 0, .write true, .finish, .data 0 .plain, .readerRuns, .begin 1,
    .write false, .writerRuns, .writerRuns, .writerRuns, .writerRuns]

theorem results_not_late_flushFails : Meets (next fun _ => .fetch) Undisturbed {} flushFails ∧
      (flushFails.foldl (next fun _ => .fetch) {}).panicked = [] := by
  have hcalm : Meets (next fun _ => .fetch) Undisturbed {} flushFails := by
    decide +kernel
  exact ⟨hcalm, results_not_late _ _ (by decide +kernel) hcalm⟩

/-- The flush of a second command fails after the reader has found the first
one, and the channel is closed before the reader sends the result. -/
def flushFailsBetween : List Label :=
  [.begin 0, .write true, .finish, .begin 1, .data 0 .plain, .write false,
    .writerRuns, .writerRuns, .writerRuns, .writerRuns, .readerRuns]

theorem results_late_flushFailsBetween :
    Meets (next fun _ => .fetch) (Enabled fun _ => .fetch) {} flushFailsBetween ∧
      (flushFailsBetween.foldl (next fun _ => .fetch) {}).panicked = [0] := by
  decide +kernel

/-! ## Each request is resolved once -/

/-- A request waits in the list, is about to be granted, or is resolved. -/
def Accounted (s : State) : Prop := ∀ req, (s.contReqs.map Prod.fst).count req +
      s.reader.todo.count (.grant req) + s.writerTodo.count (.grant req) +
      s.performed.count (.grant req) + s.cancelled.count req =
    if req < s.requests then 1 else 0

section Accounted

variable {kind : CommandId → Kind} {s : State}

theorem accounted_change (h : Accounted s) (hchange : Change kind s label later) :
    Accounted later := by
  intro req
  have hcount := h req
  have hbalanced : Balanced kind (.grant req) s later := balanced_change hchange rfl
  have hnone : ∀ cmds, (State.completions kind cmds).count (.grant req) = 0 := by
    refine fun cmds => List.count_eq_zero.mpr fun hmem => ?_
    obtain ⟨cmd, -, hcompletes⟩ := mem_completions hmem
    cases hcompletes
  simp only [Balanced, hnone, State.waitingReqs, State.issuedReqs] at hbalanced
  omega

end Accounted

/-! ## No writer waits for good -/

/-- A request is registered while its command is pending, or the connection is
closed. -/
def Prompt (s : State) : Label → Prop
  | .request =>
    s.closed = true ∨ s.writer.all fun writer => s.pendingCmds.contains writer.cmd
  | _ => True

instance decidablePrompt (s : State) : ∀ label, Decidable (Prompt s label)
  | .request => inferInstanceAs (Decidable (_ ∨ _))
  | .register _ | .begin _ | .write _ | .writerRuns | .wake | .finish
  | .readerRuns | .tagged _ _ | .continues | .data _ _ | .abandon | .fails
  | .close | .disconnect => inferInstanceAs (Decidable True)

def Phase.request : Phase → Option RequestId
  | .announcing req | .early req | .waiting req _ | .responding req => some req
  | .closing _ req => req
  | .composing | .flushed => none

def Phase.writesFirst : Phase → Bool
  | .announcing _ | .responding _ => true
  | .composing | .early _ | .closing _ _ | .waiting _ _ | .flushed => false

def State.Cancels (s : State) (cmd : CommandId) : Prop :=
  cmd ∈ s.pendingCmds ∨ .cancelReqs cmd ∈ s.reader.todo ∨ .cancelReqs cmd ∈ s.writerTodo

def State.Belongs (s : State) (req : RequestId) (cmd : CommandId) : Prop :=
  req < s.requests ∧ ∀ other, (req, other) ∈ s.contReqs → other = cmd

structure Awaited (s : State) : Prop where
  early : ∀ cmd req, (cmd, req) ∈ s.early → s.Belongs req cmd
  belongs : ∀ cmd phase req, s.writer = some ⟨cmd, phase⟩ →
    phase.request = some req → s.Belongs req cmd
  cancels : ∀ cmd phase req, s.writer = some ⟨cmd, phase⟩ →
    phase.request = some req → (req, cmd) ∈ s.contReqs →
    s.Cancels cmd ∨ phase.writesFirst = true ∧ s.closed = true

section Awaited

variable {kind : CommandId → Kind} {s : State}

theorem Accounted.lt_of_mem (h : Accounted s) (hmem : (req, cmd) ∈ s.contReqs) :
    req < s.requests := by
  have hcount := h req
  have hpos : 0 < (s.contReqs.map Prod.fst).count req :=
    List.count_pos_iff.mpr (List.mem_map_of_mem hmem)
  by_contra hge
  rw [if_neg hge] at hcount
  omega

theorem State.Belongs.mono (h : s.Belongs req cmd) (hrequests : later.requests = s.requests)
    (hreqs : ∀ entry ∈ later.contReqs, entry ∈ s.contReqs) :
    later.Belongs req cmd :=
  ⟨hrequests ▸ h.1, fun other hother => h.2 other (hreqs _ hother)⟩

theorem State.Belongs.register {newer : CommandId} (h : s.Belongs req cmd)
    (hrequests : later.requests = s.requests + 1)
    (hreqs : later.contReqs = s.contReqs ++ [(s.requests, newer)]) :
    later.Belongs req cmd := by
  refine ⟨hrequests ▸ Nat.lt_succ_of_lt h.1, fun other hother => ?_⟩
  rw [hreqs, List.mem_append, List.mem_singleton, Prod.mk.injEq] at hother
  rcases hother with hold | ⟨rfl, -⟩
  · exact h.2 other hold
  · exact absurd h.1 (Nat.lt_irrefl _)

theorem belongs_new (h : Accounted s) (hrequests : later.requests = s.requests + 1)
    (hreqs : later.contReqs = s.contReqs ++ [(s.requests, cmd)]) :
    later.Belongs s.requests cmd := by
  refine ⟨hrequests ▸ Nat.lt_succ_self _, fun other hother => ?_⟩
  rw [hreqs, List.mem_append, List.mem_singleton, Prod.mk.injEq] at hother
  rcases hother with hold | ⟨-, rfl⟩
  · exact absurd (h.lt_of_mem hold) (Nat.lt_irrefl _)
  · rfl

theorem mem_contReqs_perform {entry : RequestId × CommandId}
    (h : entry ∈ (s.perform action).contReqs) :
    entry ∈ s.contReqs ∧ action ≠ .cancelReqs entry.2 := by
  cases action with
  | cancelReqs cmd =>
    simp only [State.perform, State.effect, List.mem_filter, ne_eq,
      decide_not, Bool.not_eq_true', decide_eq_false_iff_not] at h
    refine ⟨h.1, fun heq => h.2 ?_⟩
    exact (Action.cancelReqs.inj heq).symm
  | sendHeld cmd =>
    simp only [State.perform, State.effect, State.send] at h
    split_ifs at h
    · exact ⟨h, by simp⟩
    · exact ⟨h, by simp⟩
    · exact ⟨h, by simp⟩
  | _ => exact ⟨h, by simp⟩

theorem mem_pendingCmds_perform (h : cmd ∈ s.pendingCmds) :
    cmd ∈ (s.perform action).pendingCmds ∨ .cancelReqs cmd ∈ s.expand kind action := by
  by_cases htake : action = .takePending
  · subst htake
    exact .inr (List.mem_flatMap.mpr ⟨cmd, h, List.mem_cons_self⟩)
  · rw [perform_pendingCmds htake]
    exact .inl h

theorem Moves.request {later : Phase} (h : Moves s phase later) (hreq : later.request = some req) :
    phase.request = some req ∧ (phase.writesFirst = true ∧ s.closed = true → False) := by
  cases h with
  | @write phase ok hwrites hopen =>
    cases ok with
    | true =>
      have hopen := hopen rfl
      cases phase with
      | announcing | early | responding =>
        exact ⟨hreq, fun hclosed => by simp [hopen] at hclosed⟩
      | composing => cases hreq
      | _ => cases hwrites
    | false =>
      cases phase with
      | early => exact ⟨hreq, fun hclosed => by cases hclosed.1⟩
      | announcing | responding | composing => cases hreq
      | _ => cases hwrites
  | @wake _ flushed _ =>
    cases flushed with
    | true | false => cases hreq
  | waits => exact ⟨hreq, fun hclosed => by cases hclosed.1⟩
  | closed => cases hreq

theorem Moves.mem_todo {later : Phase} (h : Moves s phase later)
    (hmem : .cancelReqs cmd ∈ phase.todo) : .cancelReqs cmd ∈ later.todo := by
  have hsame : later.todo.count (.cancelReqs cmd) =
      phase.todo.count (.cancelReqs cmd) := h.count_todo rfl
  have hpos := List.count_pos_iff.mpr hmem
  exact List.count_pos_iff.mp (by omega)

variable (h : Awaited s)

include h

theorem Awaited.congr (hrequests : later.requests = s.requests)
    (hreqs : ∀ entry ∈ later.contReqs, entry ∈ s.contReqs) (hearly : later.early = s.early)
    (hwriter : later.writer = s.writer) (hclosed : s.closed = true → later.closed = true)
    (hcancels : ∀ req cmd, (req, cmd) ∈ later.contReqs → s.Cancels cmd → later.Cancels cmd)
    : Awaited later := by
  constructor
  · intro cmd req hmem
    rw [hearly] at hmem
    exact (h.early cmd req hmem).mono hrequests hreqs
  · intro cmd phase req hphase hreq
    rw [hwriter] at hphase
    exact (h.belongs cmd phase req hphase hreq).mono hrequests hreqs
  · intro cmd phase req hphase hreq hmem
    rw [hwriter] at hphase
    rcases h.cancels cmd phase req hphase hreq (hreqs _ hmem) with
      hlive | ⟨hwrites, hconn⟩
    · exact .inl (hcancels req cmd hmem hlive)
    · exact .inr ⟨hwrites, hclosed hconn⟩

theorem awaited_begins : Awaited (s.beginCommand cmd) := by
  have hpending : cmd ∈ (s.beginCommand cmd).pendingCmds := by
    simp [State.beginCommand]
  refine ⟨h.early, fun other phase req hphase hreq => ?_, fun other phase req hphase hreq _ => ?_⟩
  · simp only [State.beginCommand, Option.some.injEq, Writer.mk.injEq] at hphase
    obtain ⟨rfl, rfl⟩ := hphase
    cases hlookup : s.early.lookup cmd with
    | none => simp [hlookup, Phase.request] at hreq
    | some first =>
      simp only [hlookup, Phase.request, Option.some.injEq] at hreq
      subst hreq
      obtain ⟨before, after, hsplit, -⟩ := List.lookup_eq_some_iff.mp hlookup
      exact h.early cmd first (by simp [hsplit])
  · simp only [State.beginCommand, Option.some.injEq, Writer.mk.injEq] at hphase
    obtain ⟨rfl, -⟩ := hphase
    exact .inl (.inl hpending)

theorem awaited_request (haccounted : Accounted s) (hwriter : s.writer = some ⟨cmd, phase⟩)
    (hregisters : phase.registers = true) (hprompt : Prompt s .request) :
    Awaited { s.registerContReq cmd with
      writer := some ⟨cmd, phase.registered s.requests⟩ } := by
  have hnew : (phase.registered s.requests).request = some s.requests ∧
      (phase.registered s.requests).writesFirst = true := by
    cases phase with
    | composing | flushed => exact ⟨rfl, rfl⟩
    | _ => cases hregisters
  refine ⟨fun other req hmem => ?_, fun other later req hphase hreq => ?_,
    fun other later req hphase hreq _ => ?_⟩
  · exact (h.early other req hmem).register rfl rfl
  · cases hphase
    cases hnew.1.symm.trans hreq
    exact belongs_new haccounted rfl rfl
  · cases hphase
    rcases hprompt with hclosed | hpending
    · exact .inr ⟨hnew.2, hclosed⟩
    · rw [hwriter] at hpending
      exact .inl (.inl (List.contains_iff_mem.mp hpending))

theorem awaited_moves {later : Phase}
    (hwriter : s.writer = some ⟨cmd, phase⟩) (hmoves : Moves s phase later) :
    Awaited { s with writer := some ⟨cmd, later⟩ } := by
  refine ⟨h.early, fun other found req hphase hreq => ?_,
    fun other found req hphase hreq hmem => ?_⟩
  · cases hphase
    exact h.belongs cmd phase req hwriter (hmoves.request hreq).1
  · cases hphase
    obtain ⟨hsame, hopen⟩ := hmoves.request hreq
    rcases (h.cancels cmd phase req hwriter hsame hmem).resolve_right
      hopen with hpending | hreader | htodo
    · exact .inl (.inl hpending)
    · exact .inl (.inr (.inl hreader))
    · rw [writerTodo_eq hwriter] at htodo
      exact .inl (.inr (.inr (hmoves.mem_todo htodo)))

theorem awaited_writerPerforms {first : Option RequestId}
    (hwriter : s.writer = some ⟨cmd, .closing (action :: rest) first⟩) :
    Awaited { s.perform action with
      writer := some ⟨cmd, .closing (s.expand kind action ++ rest) first⟩ } := by
  have hreqs : ∀ entry ∈ (s.perform action).contReqs, entry ∈ s.contReqs :=
    fun _ hmem => (mem_contReqs_perform hmem).1
  refine ⟨fun other req hmem => ?_, fun other found req hphase hreq => ?_,
    fun other found req hphase hreq hmem => ?_⟩
  · rw [show State.early _ = s.early from perform_early] at hmem
    exact (h.early other req hmem).mono perform_requests hreqs
  · cases hphase
    exact (h.belongs cmd _ req hwriter hreq).mono perform_requests hreqs
  · cases hphase
    obtain ⟨hold, hother⟩ := mem_contReqs_perform hmem
    rcases h.cancels cmd _ req hwriter hreq hold with
      (hpending | hreader | htodo) | ⟨hwrites, -⟩
    · rcases mem_pendingCmds_perform hpending with hstill | htaken
      · exact .inl (.inl hstill)
      · exact .inl (.inr (.inr (List.mem_append_left _ htaken)))
    · exact .inl (.inr (.inl (by simpa using hreader)))
    · rw [writerTodo_eq hwriter] at htodo
      refine .inl (.inr (.inr (List.mem_append_right _ ?_)))
      exact (List.mem_cons.mp htodo).resolve_left fun heq => hother heq.symm
    · cases hwrites

theorem awaited_readerPerforms {exits : Bool}
    (hreader : s.reader = .running (action :: rest) exits) :
    Awaited { s.perform action with
      reader := .running (s.expand kind action ++ rest) exits } := by
  refine h.congr perform_requests (fun _ hmem => (mem_contReqs_perform hmem).1) perform_early
    perform_writer closed_of_perform ?_
  rintro req cmd hmem (hpending | htodo | hwrites)
  · rcases mem_pendingCmds_perform hpending with hstill | htaken
    · exact .inl hstill
    · exact .inr (.inl (List.mem_append_left _ htaken))
  · rw [hreader] at htodo
    refine .inr (.inl (List.mem_append_right _ ?_))
    exact (List.mem_cons.mp htodo).resolve_left fun heq => (mem_contReqs_perform hmem).2 heq.symm
  · exact .inr (.inr (by simpa [State.writerTodo, State.phase] using hwrites))

theorem Awaited.reads (hidle : s.reader.todo = []) (hrequests : later.requests = s.requests)
    (hreqs : ∀ entry ∈ later.contReqs, entry ∈ s.contReqs)
    (hearly : later.early = s.early) (hwriter : later.writer = s.writer)
    (hclosed : later.closed = s.closed) (hpending : ∀ cmd ∈ s.pendingCmds, cmd ∈ later.pendingCmds ∨
      .cancelReqs cmd ∈ later.reader.todo) : Awaited later := by
  refine h.congr hrequests hreqs hearly hwriter (fun hconn => hclosed ▸ hconn) ?_
  rintro req cmd - (hmem | htodo | hwrites)
  · rcases hpending cmd hmem with hstill | htaken
    · exact .inl hstill
    · exact .inr (.inl htaken)
  · rw [hidle] at htodo
    cases htodo
  · refine .inr (.inr ?_)
    rw [State.writerTodo, State.phase, hwriter]
    exact hwrites

theorem awaited_change (haccounted : Accounted s)
    (hchange : Change kind s label later) (hprompt : Prompt s label) :
    Awaited later := by
  cases hchange with
  | @register cmd hbegun hearly =>
    refine ⟨fun other req hmem => ?_, fun other phase req hphase hreq => ?_,
      fun other phase req hphase hreq hmem => ?_⟩
    · rcases List.mem_append.mp hmem with hold | hnew
      · exact (h.early other req hold).register rfl rfl
      · cases List.mem_singleton.mp hnew
        exact belongs_new haccounted rfl rfl
    · exact (h.belongs other phase req hphase hreq).register rfl rfl
    · refine h.cancels other phase req hphase hreq ?_
      rcases List.mem_append.mp hmem with hold | hnew
      · exact hold
      · have hlt := (h.belongs other phase req hphase hreq).1
        cases List.mem_singleton.mp hnew
        exact absurd hlt (Nat.lt_irrefl _)
  | begins hfree hbegun => exact awaited_begins h
  | request hlabel hwriter hregisters =>
    subst hlabel
    exact awaited_request h haccounted hwriter hregisters hprompt
  | moves hwriter hmoves => exact awaited_moves h hwriter hmoves
  | writerPerforms hlabel hwriter => exact awaited_writerPerforms h hwriter
  | finish hwriter =>
    exact ⟨h.early, fun _ _ _ hphase => (by cases hphase), fun _ _ _ hphase => (by cases hphase)⟩
  | readerPerforms hreader => exact awaited_readerPerforms h hreader
  | @tagged cmd exits hreader hpending =>
    refine h.reads (by rw [hreader]; rfl) rfl (fun _ => id) rfl rfl rfl ?_
    intro other hother
    by_cases hsame : other = cmd
    · subst hsame
      exact .inr (List.mem_append_left _ List.mem_cons_self)
    · exact .inl ((List.mem_erase_of_ne hsame).mpr hother)
  | granted hreader hreqs =>
    refine h.reads (by rw [hreader]; rfl) rfl (fun entry hmem => ?_) rfl rfl rfl fun _ => .inl
    rw [hreqs]
    exact List.mem_cons_of_mem _ hmem
  | data hreader hpending hkind =>
    exact h.reads (by rw [hreader]; rfl) rfl (fun _ => id) rfl rfl rfl fun _ => .inl
  | delivered hreader =>
    exact h.reads (by rw [hreader]; rfl) rfl (fun _ => id) rfl rfl rfl fun _ => .inl
  | panics hreader hclosed =>
    exact h.reads (by rw [hreader]; rfl) rfl (fun _ => id) rfl rfl rfl fun _ => .inl
  | fails htodo hexits =>
    exact h.reads htodo rfl (fun _ => id) rfl rfl rfl fun _ => .inl
  | environment hclosed =>
    exact h.congr rfl (fun _ => id) rfl rfl hclosed fun _ _ _ => id

end Awaited

def State.blocked (s : State) : Bool := s.phase.any fun phase =>
    match phase with
    | .waiting req _ => !s.resolved req
    | _ => false

section Blocked

variable {kind : CommandId → Kind} {s : State}

theorem not_blocked (hsound : Sound kind s) (haccounted : Accounted s)
    (h : Awaited s) (hreader : s.reader = .terminated) :
    s.blocked = false := by
  rw [← Bool.not_eq_true]
  intro hblocked
  obtain ⟨cmd, phase, hwriter, hwaits⟩ := exists_phase hblocked
  cases phase with
  | waiting req flushed =>
    have hidle : s.writerTodo = [] := writerTodo_eq hwriter
    obtain ⟨hlt, hbelongs⟩ := h.belongs cmd _ req hwriter rfl
    have hcount := haccounted req
    simp only [State.resolved, Bool.not_or, Bool.and_eq_true, Bool.not_eq_true',
      List.contains_eq_mem, decide_eq_false_iff_not] at hwaits
    rw [hreader, hidle, List.count_eq_zero.mpr hwaits.1,
      List.count_eq_zero.mpr hwaits.2, if_pos hlt] at hcount
    simp only [Reader.terminated, Reader.todo, List.count_nil] at hcount
    have hmem : req ∈ s.contReqs.map Prod.fst := List.count_pos_iff.mp (by omega)
    obtain ⟨⟨found, other⟩, hentry, rfl⟩ := List.mem_map.mp hmem
    have hother := hbelongs other hentry
    subst hother
    rcases h.cancels other _ found hwriter rfl hentry with
      (hpending | htodo | htodo) | ⟨hwrites, -⟩
    · obtain ⟨later, hlater, hunsent⟩ := hsound.drained.pending
        (by rw [hreader]; rfl) (by rw [hreader]; exact List.not_mem_nil)
        other hpending
      cases hwriter.symm.trans hlater
      cases hunsent
    · rw [hreader] at htodo
      cases htodo
    · rw [hidle] at htodo
      cases htodo
    · cases hwrites
  | _ => cases hwaits

end Blocked

/--
No continuation request is resolved twice.  Once the reader has ended no writer
is blocked, if each request was registered while its command was pending or the
connection was closed.
-/
theorem no_writer_stranded (kind : CommandId → Kind) (labels : List Label)
    (hrun : Meets (next kind) (Enabled kind) {} labels) :
    (∀ req, (labels.foldl (next kind) {}).performed.count (.grant req) +
        (labels.foldl (next kind) {}).cancelled.count req ≤ 1) ∧
    (Meets (next kind) Prompt {} labels → (labels.foldl (next kind) {}).reader = .terminated →
      (labels.foldl (next kind) {}).blocked = false) := by
  have hinitial : Accounted {} := fun _ => rfl
  constructor
  · have haccounted : Accounted (labels.foldl (next kind) {}) :=
      foldl_of_meets Accounted (fun s label h henabled =>
        accounted_change h (change_of_enabled henabled)) hinitial hrun
    intro req
    have hcount := haccounted req
    split_ifs at hcount
    · omega
    · omega
  · intro hprompt hreader
    have hstart : Awaited {} :=
      ⟨fun _ _ hmem => (by cases hmem), fun _ _ _ hphase => (by cases hphase),
        fun _ _ _ hphase => (by cases hphase)⟩
    obtain ⟨hsound, haccounted, hawaited⟩ := foldl_of_meets
      (fun s => Sound kind s ∧ Accounted s ∧ Awaited s)
      (fun s label h hguard => ⟨sound_next s label h.1 hguard.1,
        accounted_change h.2.1 (change_of_enabled hguard.1),
        awaited_change h.2.2 h.2.1 (change_of_enabled hguard.1) hguard.2⟩)
      ⟨sound_initial kind, hinitial, hstart⟩ (meets_and hrun hprompt)
    exact not_blocked hsound haccounted hawaited hreader

def literalUnanswered : List Label :=
  [.begin 0, .request, .write true, .fails] ++ List.replicate 5 .readerRuns

theorem literalUnanswered_not_blocked :
    Meets (next fun _ => .other) (Enabled fun _ => .other) {} literalUnanswered ∧
      (literalUnanswered.foldl (next fun _ => .other) {}).blocked = false := by
  have hrun : Meets (next fun _ => .other) (Enabled fun _ => .other) {}
    literalUnanswered := by decide +kernel
  exact ⟨hrun, (no_writer_stranded _ _ hrun).2 (by decide +kernel) (by decide +kernel)⟩

/-- The tagged response comes before the literal is announced. -/
def answeredTooSoon : List Label :=
  [.begin 0, .tagged 0 false] ++ List.replicate 3 .readerRuns ++
    [.request, .write true, .fails] ++ List.replicate 2 .readerRuns

theorem answeredTooSoon_blocked :
    Meets (next fun _ => .other) (Enabled fun _ => .other) {} answeredTooSoon ∧
      (answeredTooSoon.foldl (next fun _ => .other) {}).reader = .terminated ∧
      (answeredTooSoon.foldl (next fun _ => .other) {}).blocked = true := by
  decide +kernel

end GoImap.Lifecycle
