import GoImap.Client.Lifecycle
import GoImap.Lib.Transition
import Mathlib.Data.List.Count
import Mathlib.Data.List.Nodup
import Mathlib.Data.List.Perm.Basic

/-!
# Every command is completed once

A command that is pending belongs to whoever takes it from the list first: the
reader of its tagged response, or a goroutine that closes the connection.  From
then on that goroutine alone completes it.  Nothing is lost when the reader
ends: a command that begins later cannot be written, and its writer completes
it.
-/

namespace GoImap.Lifecycle

open Transition

/-! ## Ownership -/

def Action.completes : Action → Option CommandId
  | .cancelReqs cmd | .sendHeld cmd | .closeResults cmd | .sendDone cmd
  | .closeDone cmd => some cmd
  | .closeConn | .takePending | .grant _ => none

def State.writerTodo (s : State) : List Action := s.phase.elim [] Phase.todo

variable {cmd : CommandId} {action : Action}

section Completions

variable {kind : CommandId → Kind}

theorem completes_of_mem (h : action ∈ completeCommand (kind cmd) cmd) :
    action.completes = some cmd := by
  cases hkind : kind cmd with
  | _ =>
    simp only [completeCommand, hkind, List.mem_cons, List.mem_append, List.not_mem_nil] at h
    aesop

theorem count_completeCommand_le (cmd : CommandId) (action : Action) :
    (completeCommand (kind cmd) cmd).count action ≤ 1 := by
  refine List.nodup_iff_count_le_one.mp ?_ action
  cases kind cmd with
  | _ => simp [completeCommand]

variable {cmds : List CommandId}

theorem mem_completions (h : action ∈ State.completions kind cmds) :
    ∃ cmd ∈ cmds, action.completes = some cmd := by
  obtain ⟨cmd, hcmd, hmem⟩ := List.mem_flatMap.mp h
  exact ⟨cmd, hcmd, completes_of_mem hmem⟩

theorem count_completions_le (hnodup : cmds.Nodup) (action : Action) :
    (State.completions kind cmds).count action ≤ 1 := by
  induction cmds with
  | nil => simp [State.completions]
  | cons cmd cmds ih =>
    obtain ⟨hnew, hrest⟩ := List.nodup_cons.mp hnodup
    rw [State.completions, List.flatMap_cons, List.count_append]
    by_cases hmem : action ∈ completeCommand (kind cmd) cmd
    · have hzero : (State.completions kind cmds).count action = 0 := by
        refine List.count_eq_zero.mpr fun hlater => hnew ?_
        obtain ⟨other, hother, hcompletes⟩ := mem_completions hlater
        rw [completes_of_mem hmem, Option.some.injEq] at hcompletes
        exact hcompletes ▸ hother
      have hone := @count_completeCommand_le kind cmd action
      rw [State.completions] at hzero
      omega
    · have hlater := ih hrest
      rw [State.completions] at hlater
      rw [List.count_eq_zero.mpr hmem]
      omega

theorem completions_append (cmds : List CommandId) (cmd : CommandId) :
    State.completions kind (cmds ++ [cmd]) =
      State.completions kind cmds ++ completeCommand (kind cmd) cmd := by
  simp [State.completions]

theorem count_completions_erase (h : cmd ∈ cmds) (action : Action) :
    (State.completions kind (cmds.erase cmd)).count action +
        (completeCommand (kind cmd) cmd).count action =
      (State.completions kind cmds).count action := by
  have hperm := (List.perm_cons_erase h).flatMap_right fun cmd => completeCommand (kind cmd) cmd
  rw [State.completions, State.completions, hperm.count_eq,
    List.flatMap_cons, List.count_append, Nat.add_comm]

end Completions

section Perform

variable {kind : CommandId → Kind} {s : State} {action : Action}

theorem perform_eq : s.perform action = { s with
      pendingCmds := (s.perform action).pendingCmds
      contReqs := (s.perform action).contReqs
      closed := (s.perform action).closed
      performed := s.performed ++ [action]
      cancelled := (s.perform action).cancelled
      panicked := (s.perform action).panicked } := by
  cases action with
  | sendHeld cmd =>
    simp only [State.perform, State.effect]
    split_ifs
    · rw [State.send]
      split_ifs
      · rfl
      · rfl
    · rfl
  | _ => rfl

@[simp] theorem perform_reader : (s.perform action).reader = s.reader := by
  rw [perform_eq]

@[simp] theorem perform_writer : (s.perform action).writer = s.writer := by
  rw [perform_eq]

@[simp] theorem perform_begun : (s.perform action).begun = s.begun := by
  rw [perform_eq]

@[simp] theorem perform_early : (s.perform action).early = s.early := by
  rw [perform_eq]

@[simp] theorem perform_requests : (s.perform action).requests = s.requests := by
  rw [perform_eq]

theorem perform_pendingCmds (h : action ≠ .takePending) :
    (s.perform action).pendingCmds = s.pendingCmds := by
  cases action with
  | takePending => exact absurd rfl h
  | sendHeld cmd =>
    simp only [State.perform, State.effect, State.send]
    split_ifs
    · rfl
    · rfl
    · rfl
  | _ => rfl

theorem count_perform (other : Action) :
    (State.completions kind (s.perform action).pendingCmds).count other +
        (s.expand kind action).count other =
      (State.completions kind s.pendingCmds).count other := by
  by_cases htake : action = .takePending
  · subst htake
    simp [State.perform, State.effect, State.expand, State.completions]
  · rw [perform_pendingCmds htake]
    cases action with
    | takePending => exact absurd rfl htake
    | _ => simp [State.expand]

end Perform

/--
Each action that completes a command that was begun is left to one who takes
the pending commands, is to be performed by one of the goroutines, or has been
performed.
-/
structure Owned (kind : CommandId → Kind) (s : State) : Prop where
  nodup : s.begun.Nodup
  count : ∀ action : Action, action.completes.isSome = true →
    (State.completions kind s.pendingCmds).count action +
        s.reader.todo.count action + s.writerTodo.count action +
        s.performed.count action =
      (State.completions kind s.begun).count action

variable {phase : Phase} {later : State}

section Owned

variable {kind : CommandId → Kind} {s : State}

theorem writerTodo_eq (hwriter : s.writer = some ⟨cmd, phase⟩) : s.writerTodo = phase.todo := by
  simp [State.writerTodo, State.phase, hwriter]

/-! ### The balance of a step -/

def Action.counted : Action → Bool
  | .closeConn | .takePending => false
  | _ => true

def State.waitingReqs (s : State) : Action → Nat
  | .grant req => (s.contReqs.map Prod.fst).count req + s.cancelled.count req
  | _ => 0

def State.issuedReqs (s : State) : Action → Nat
  | .grant req => if req < s.requests then 1 else 0
  | _ => 0

def Balanced (kind : CommandId → Kind) (action : Action) (s later : State) : Prop :=
  (State.completions kind later.pendingCmds).count action + later.waitingReqs action +
      (later.reader.todo.count action + later.writerTodo.count action) +
      later.performed.count action +
      ((State.completions kind s.begun).count action + s.issuedReqs action) =
    (State.completions kind s.pendingCmds).count action + s.waitingReqs action +
      (s.reader.todo.count action + s.writerTodo.count action) + s.performed.count action +
      ((State.completions kind later.begun).count action + later.issuedReqs action)

theorem counted_of_completes (h : action.completes.isSome = true) : action.counted = true := by
  cases action with
  | closeConn | takePending => cases h
  | _ => rfl

theorem count_closeWithError (h : action.counted = true) : closeWithError.count action = 0 := by
  refine List.count_eq_zero.mpr ?_
  rintro hmem
  simp only [closeWithError, List.mem_cons, List.not_mem_nil, or_false] at hmem
  rcases hmem with rfl | rfl
  · cases h
  · cases h

theorem Moves.count_todo {later : Phase} (h : Moves s phase later)
    (haction : action.counted = true) :
    later.todo.count action = phase.todo.count action := by
  cases h with
  | @write phase ok hwrites _ =>
    cases phase with
    | composing | early | announcing | responding =>
      cases ok with
      | true => rfl
      | false => first | rfl | exact count_closeWithError haction
    | _ => cases hwrites
  | @wake req flushed _ =>
    cases flushed with
    | true | false => rfl
  | waits | closed => rfl

theorem waitingReqs_register (cmd : CommandId) (action : Action) :
    (s.registerContReq cmd).waitingReqs action + s.issuedReqs action =
      s.waitingReqs action + (s.registerContReq cmd).issuedReqs action := by
  cases action with
  | grant req =>
    simp only [State.registerContReq, State.waitingReqs, State.issuedReqs, List.map_append,
      List.count_append, List.map_singleton, List.count_singleton, beq_iff_eq]
    grind
  | _ => rfl

theorem waitingReqs_perform (other : Action) :
    (s.perform action).waitingReqs other = s.waitingReqs other := by
  cases other with
  | grant req =>
    cases action with
    | cancelReqs cmd =>
      have hperm := (List.filter_append_perm (fun entry : RequestId × CommandId => entry.2 = cmd)
        s.contReqs).map Prod.fst
      have hcount := hperm.count_eq req
      simp only [List.map_append, List.count_append] at hcount
      simp only [State.waitingReqs, State.perform, State.effect, List.count_append, ne_eq,
        decide_not]
      omega
    | sendHeld cmd =>
      simp only [State.waitingReqs, State.perform, State.effect, State.send]
      split_ifs
      · rfl
      · rfl
      · rfl
    | _ => rfl
  | _ => rfl

theorem issuedReqs_perform (other : Action) :
    (s.perform action).issuedReqs other = s.issuedReqs other := by
  cases other with
  | grant req => simp [State.issuedReqs]
  | _ => rfl

theorem Balanced.congr (hpending : later.pendingCmds = s.pendingCmds)
    (hbegun : later.begun = s.begun) (hperformed : later.performed = s.performed)
    (hreqs : later.waitingReqs action + s.issuedReqs action =
      s.waitingReqs action + later.issuedReqs action)
    (htodo : later.reader.todo.count action + later.writerTodo.count action =
      s.reader.todo.count action + s.writerTodo.count action) : Balanced kind action s later := by
  rw [Balanced, hpending, hbegun, hperformed]
  omega

theorem Balanced.perform {first : Action}
    (hpending : later.pendingCmds = (s.perform first).pendingCmds)
    (hbegun : later.begun = s.begun) (hperformed : later.performed = s.performed ++ [first])
    (hwaiting : later.waitingReqs action = (s.perform first).waitingReqs action)
    (hissued : later.issuedReqs action = s.issuedReqs action)
    (htodo : later.reader.todo.count action + later.writerTodo.count action +
        [first].count action = (s.expand kind first).count action +
          (s.reader.todo.count action + s.writerTodo.count action)) :
    Balanced kind action s later := by
  have hexpand := @count_perform kind s first action
  rw [Balanced, hpending, hbegun, hperformed, hwaiting, hissued, waitingReqs_perform,
    List.count_append]
  omega

theorem balanced_change {label : Label} (hchange : Change kind s label later)
    (haction : action.counted = true) : Balanced kind action s later := by
  cases hchange with
  | register => exact .congr rfl rfl rfl (waitingReqs_register _ action) rfl
  | @begins cmd hfree hbegun =>
    have hidle : s.writerTodo = [] := by
      simp [State.writerTodo, State.phase, hfree]
    have hbegins : (s.beginCommand cmd).writerTodo = [] := by
      simp only [State.writerTodo, State.phase, State.beginCommand]
      split
      · rfl
      · rfl
    have hreqs : (s.beginCommand cmd).waitingReqs action = s.waitingReqs action ∧
        (s.beginCommand cmd).issuedReqs action = s.issuedReqs action := ⟨rfl, rfl⟩
    rw [Balanced, hidle, hbegins, hreqs.1, hreqs.2]
    simp only [State.beginCommand, completions_append, List.count_append]
    omega
  | @request cmd phase _ hwriter hregisters =>
    refine .congr rfl rfl rfl (waitingReqs_register cmd action) ?_
    rw [writerTodo_eq hwriter]
    cases phase with
    | composing | flushed => rfl
    | _ => cases hregisters
  | @moves cmd phase later hwriter hmoves =>
    refine .congr rfl rfl rfl rfl ?_
    rw [writerTodo_eq hwriter]
    exact congrArg (_ + ·) (hmoves.count_todo haction)
  | @writerPerforms cmd first rest req _ hwriter =>
    refine .perform rfl perform_begun rfl rfl (issuedReqs_perform action) ?_
    rw [writerTodo_eq hwriter]
    simp only [State.writerTodo, State.phase, Option.map_some, Option.elim_some, Phase.todo,
      perform_reader, List.count_append, List.count_cons, List.count_nil]
    omega
  | finish hwriter =>
    refine .congr rfl rfl rfl rfl ?_
    rw [writerTodo_eq hwriter]
    rfl
  | @readerPerforms first rest exits hreader =>
    refine .perform rfl perform_begun rfl rfl (issuedReqs_perform action) ?_
    simp only [hreader, State.writerTodo, State.phase, perform_writer, Reader.todo,
      List.count_append, List.count_cons, List.count_nil]
    omega
  | @tagged cmd exits hreader hpending =>
    have herase := @count_completions_erase _ kind _ hpending action
    have hrest : List.count action (if exits then closeWithError else []) = 0 := by
      split_ifs
      · exact count_closeWithError haction
      · rfl
    have hsame : (s.readResponseTagged kind cmd exits).writerTodo = s.writerTodo := rfl
    have hreqs : (s.readResponseTagged kind cmd exits).waitingReqs action = s.waitingReqs action ∧
        (s.readResponseTagged kind cmd exits).issuedReqs action = s.issuedReqs action := ⟨rfl, rfl⟩
    rw [Balanced, hsame, hreqs.1, hreqs.2, hreader]
    simp only [State.readResponseTagged, Reader.waiting, Reader.todo, List.count_append,
      List.count_nil]
    omega
  | @granted req cmd rest hreader hreqs =>
    cases action with
    | grant other =>
      simp only [Balanced, State.waitingReqs, State.issuedReqs, hreader, hreqs, Reader.waiting,
        Reader.todo, List.map_cons, List.count_cons, List.count_nil, beq_iff_eq,
        Action.grant.injEq, State.writerTodo, State.phase]
      omega
    | _ =>
      refine .congr rfl rfl rfl rfl ?_
      simp [hreader, Reader.waiting, Reader.todo, State.writerTodo, State.phase]
  | data hreader | delivered hreader =>
    refine .congr rfl rfl rfl rfl ?_
    rw [hreader]
    rfl
  | panics hreader =>
    refine .congr rfl rfl rfl rfl ?_
    rw [hreader]
    exact congrArg (· + _) (count_closeWithError haction)
  | fails htodo hexits =>
    refine .congr rfl rfl rfl rfl ?_
    rw [htodo]
    exact congrArg (· + _) (count_closeWithError haction)
  | environment hclosed => exact .congr rfl rfl rfl rfl rfl

theorem owned_change {label : Label} (h : Owned kind s)
    (hchange : Change kind s label later) : Owned kind later := by
  have hnodup : later.begun.Nodup := by
    cases hchange with
    | begins _ hbegun => simpa [State.beginCommand] using h.nodup.concat hbegun
    | writerPerforms | readerPerforms => simpa using h.nodup
    | _ => exact h.nodup
  refine ⟨hnodup, fun action haction => ?_⟩
  have hcount := h.count action haction
  have hbalanced := balanced_change hchange (counted_of_completes haction)
  have hnone : ∀ s : State, s.waitingReqs action = 0 ∧ s.issuedReqs action = 0 := by
    intro s
    cases action with
    | grant => cases haction
    | _ => exact ⟨rfl, rfl⟩
  rw [Balanced, (hnone s).1, (hnone s).2, (hnone later).1, (hnone later).2] at hbalanced
  omega

end Owned

/-! ## Nothing is left when the reader has ended -/

def Phase.unsent : Phase → Bool
  | .composing | .announcing _ | .early _ => true
  | .closing todo _ => todo.contains .takePending
  | .waiting _ _ | .flushed | .responding _ => false

def ClosesFirst (closed : Bool) : List Action → Prop
  | [] => True
  | .closeConn :: _ => True
  | .takePending :: rest => closed = true ∧ ClosesFirst closed rest
  | _ :: rest => ClosesFirst closed rest

variable {rest : List Action}

section ClosesFirst

variable {closed : Bool}

theorem ClosesFirst.of_closed {todo : List Action} : ClosesFirst true todo := by
  induction todo with
  | nil => trivial
  | cons action todo ih =>
    cases action with
    | closeConn => trivial
    | takePending => exact ⟨rfl, ih⟩
    | _ => exact ih

theorem ClosesFirst.mono {later : Bool} {todo : List Action}
    (h : ClosesFirst closed todo) (hle : closed = true → later = true) :
    ClosesFirst later todo := by
  cases later with
  | true => exact .of_closed
  | false =>
    cases closed with
    | true => cases hle rfl
    | false => exact h

theorem ClosesFirst.cons (h : ClosesFirst closed (action :: rest))
    (hne : action ≠ .closeConn) : ClosesFirst closed rest := by
  cases action with
  | closeConn => exact absurd rfl hne
  | takePending => exact h.2
  | _ => exact h

theorem ClosesFirst.append {first : List Action}
    (hnone : ∀ action ∈ first, action.completes.isSome = true)
    (h : ClosesFirst closed rest) : ClosesFirst closed (first ++ rest) := by
  induction first with
  | nil => exact h
  | cons action first ih =>
    obtain ⟨hfirst, hmore⟩ := List.forall_mem_cons.mp hnone
    cases action with
    | closeConn | takePending | grant => cases hfirst
    | _ => exact ih hmore

end ClosesFirst

/-- Once the reader has taken the pending commands on its way out, the only
command that can be pending is one whose write cannot succeed any more. -/
structure Drained (s : State) : Prop where
  order : ClosesFirst s.closed s.reader.todo
  closed : s.reader.exits = true → .takePending ∉ s.reader.todo → s.closed = true
  pending : s.reader.exits = true → .takePending ∉ s.reader.todo →
    ∀ cmd ∈ s.pendingCmds, ∃ phase, s.writer = some ⟨cmd, phase⟩ ∧ phase.unsent = true

section Drained

variable {kind : CommandId → Kind} {s : State}

theorem closed_of_perform (h : s.closed = true) : (s.perform action).closed = true := by
  cases action with
  | sendHeld cmd =>
    simp only [State.perform, State.effect, State.send]
    split_ifs
    · exact h
    · exact h
    · exact h
  | closeConn => rfl
  | _ => exact h

theorem completes_of_mem_expand {other : Action}
    (h : other ∈ s.expand kind action) : other.completes.isSome = true := by
  cases action with
  | takePending =>
    obtain ⟨cmd, -, hcompletes⟩ := mem_completions h
    simp [hcompletes]
  | _ => cases h

theorem Drained.fails (later : State) (hreader : later.reader = .failing) : Drained later := by
  refine ⟨by rw [hreader]; trivial, fun _ htaken => ?_, fun _ htaken => ?_⟩
  · exact absurd (by rw [hreader]; decide) htaken
  · exact absurd (by rw [hreader]; decide) htaken

theorem Drained.reads (horder : ClosesFirst later.closed later.reader.todo)
    (hexits : later.reader.exits = false) : Drained later := by
  refine ⟨horder, fun hends => ?_, fun hends => ?_⟩
  · rw [hexits] at hends
    cases hends
  · rw [hexits] at hends
    cases hends

theorem Drained.writer (h : Drained s) (hreader : later.reader = s.reader)
    (hclosed : later.closed = s.closed)
    (hpending : s.closed = true → (∀ cmd ∈ s.pendingCmds, ∃ phase,
        s.writer = some ⟨cmd, phase⟩ ∧ phase.unsent = true) →
      ∀ cmd ∈ later.pendingCmds, ∃ phase, later.writer = some ⟨cmd, phase⟩ ∧ phase.unsent = true) :
    Drained later := by
  refine ⟨by rw [hreader, hclosed]; exact h.order, ?_, ?_⟩
  · rw [hreader, hclosed]
    exact h.closed
  · rw [hreader]
    intro hexits htaken
    exact hpending (h.closed hexits htaken) (h.pending hexits htaken)

theorem Moves.unsent {later : Phase} (h : Moves s phase later)
    (hclosed : s.closed = true) (hunsent : phase.unsent = true) :
    later.unsent = true := by
  cases h with
  | @write phase ok hwrites hopen =>
    have hfailed : ok = false := by
      cases ok with
      | false => rfl
      | true => rw [hopen rfl] at hclosed; cases hclosed
    subst hfailed
    cases phase with
    | composing | announcing | early => rfl
    | responding => cases hunsent
    | _ => cases hwrites
  | _ => cases hunsent

theorem drained_writerPerforms (h : Drained s) {req : Option RequestId}
    (hwriter : s.writer = some ⟨cmd, .closing (action :: rest) req⟩) :
    Drained { s.perform action with
      writer := some ⟨cmd, .closing (s.expand kind action ++ rest) req⟩ } := by
  refine ⟨?_, fun hexits htaken => ?_, fun hexits htaken => ?_⟩
  · simp only [perform_reader]
    exact h.order.mono closed_of_perform
  · simp only [perform_reader] at hexits htaken
    exact closed_of_perform (h.closed hexits htaken)
  · simp only [perform_reader] at hexits htaken
    by_cases htake : action = .takePending
    · subst htake
      simp [State.perform, State.effect]
    · rw [perform_pendingCmds htake]
      intro other hother
      obtain ⟨phase, hphase, hunsent⟩ := h.pending hexits htaken other hother
      cases hwriter.symm.trans hphase
      refine ⟨_, rfl, ?_⟩
      simp only [Phase.unsent, List.contains_iff_mem, List.mem_cons, List.mem_append] at hunsent ⊢
      exact .inr (hunsent.resolve_left fun heq => htake heq.symm)

theorem drained_readerPerforms (h : Drained s) {exits : Bool}
    (hreader : s.reader = .running (action :: rest) exits) :
    Drained { s.perform action with
      reader := .running (s.expand kind action ++ rest) exits } := by
  have horder := h.order
  rw [hreader] at horder
  have hexpand : ∀ other ∈ s.expand kind action,
      other.completes.isSome = true := fun _ => completes_of_mem_expand
  have hnotaken : .takePending ∉ s.expand kind action := fun hmem => by cases hexpand _ hmem
  by_cases htake : action = .takePending
  · subst htake
    refine ⟨.append hexpand horder.2, fun _ _ => horder.1, fun _ _ => ?_⟩
    simp [State.perform, State.effect]
  · have hfind : .takePending ∉ s.expand kind action ++ rest → .takePending ∉ s.reader.todo := by
      rw [hreader]
      intro hmem hleft
      simp only [Reader.todo, List.mem_cons] at hleft
      exact hmem (List.mem_append_right _ (hleft.resolve_left fun heq => htake heq.symm))
    have hends : exits = true → s.reader.exits = true := by
      rw [hreader]
      exact id
    refine ⟨?_, fun hexits htaken => ?_, fun hexits htaken => ?_⟩
    · refine .append hexpand ?_
      by_cases hconn : action = .closeConn
      · subst hconn
        exact .of_closed
      · exact (horder.cons hconn).mono closed_of_perform
    · exact closed_of_perform (h.closed (hends hexits) (hfind htaken))
    · simp only [perform_pendingCmds htake, perform_writer]
      exact h.pending (hends hexits) (hfind htaken)

theorem drained_change {label : Label} (h : Drained s)
    (hchange : Change kind s label later) : Drained later := by
  cases hchange with
  | register => exact ⟨h.order, h.closed, h.pending⟩
  | @begins cmd hfree hbegun =>
    refine h.writer rfl rfl fun _ hpending other hother => ?_
    have hnone : s.pendingCmds = [] := by
      refine List.eq_nil_iff_forall_not_mem.mpr fun first hfirst => ?_
      obtain ⟨phase, hphase, -⟩ := hpending first hfirst
      rw [hfree] at hphase
      cases hphase
    simp only [State.beginCommand, hnone, List.nil_append, List.mem_singleton] at hother ⊢
    subst hother
    refine ⟨_, rfl, ?_⟩
    split
    · rfl
    · rfl
  | @request cmd phase _ hwriter hregisters =>
    refine h.writer rfl rfl fun _ hpending other hother => ?_
    obtain ⟨found, hfound, hunsent⟩ := hpending other hother
    cases hwriter.symm.trans hfound
    refine ⟨_, rfl, ?_⟩
    cases phase with
    | composing => rfl
    | flushed => cases hunsent
    | _ => cases hregisters
  | @moves cmd phase later hwriter hmoves =>
    refine h.writer rfl rfl fun hclosed hpending other hother => ?_
    obtain ⟨found, hfound, hunsent⟩ := hpending other hother
    cases hwriter.symm.trans hfound
    exact ⟨_, rfl, hmoves.unsent hclosed hunsent⟩
  | writerPerforms _ hwriter => exact drained_writerPerforms h hwriter
  | finish hwriter =>
    refine h.writer rfl rfl fun _ hpending other hother => ?_
    obtain ⟨found, hfound, hunsent⟩ := hpending other hother
    cases hwriter.symm.trans hfound
    cases hunsent
  | readerPerforms hreader => exact drained_readerPerforms h hreader
  | @tagged cmd exits hreader hpending =>
    have hcomplete : ∀ action ∈ completeCommand (kind cmd) cmd, action.completes.isSome = true := by
      intro action haction
      simp [completes_of_mem haction]
    cases exits with
    | false => exact .reads (.append hcomplete trivial) rfl
    | true =>
      have htodo : .takePending ∈ (s.readResponseTagged kind cmd true).reader.todo :=
        List.mem_append_right _ (by decide)
      exact ⟨.append hcomplete trivial, fun _ htaken => absurd htodo htaken,
        fun _ htaken => absurd htodo htaken⟩
  | granted hreader hreqs | data hreader hpending hkind
  | delivered hreader => exact .reads trivial rfl
  | panics hreader hclosed | fails htodo hexits => exact .fails _ rfl
  | @environment closed closeCh hclosed =>
    exact ⟨h.order.mono hclosed, fun hexits htaken => hclosed (h.closed hexits htaken), h.pending⟩

end Drained

/-! ## Completion -/

structure Sound (kind : CommandId → Kind) (s : State) : Prop where
  owned : Owned kind s
  drained : Drained s

theorem sound_initial (kind : CommandId → Kind) : Sound kind {} :=
  ⟨⟨List.nodup_nil, fun _ _ => rfl⟩, .reads trivial rfl⟩

theorem sound_next {kind : CommandId → Kind} (s : State) (label : Label)
    (h : Sound kind s) (henabled : Enabled kind s label) :
    Sound kind (next kind s label) := by
  have hchange := change_of_enabled henabled
  exact ⟨owned_change h.owned hchange, drained_change h.drained hchange⟩

section Sound

variable {kind : CommandId → Kind} {s : State} (h : Sound kind s)

include h

theorem Sound.performed_le (haction : action.completes.isSome = true) :
    (State.completions kind s.pendingCmds).count action + s.performed.count action ≤ 1 := by
  have hcount := h.owned.count action haction
  have hone := @count_completions_le kind _ h.owned.nodup action
  omega

theorem Sound.pendingCmds_eq_nil (hreader : s.reader = .terminated)
    (hwriter : s.writer = none) : s.pendingCmds = [] := by
  refine List.eq_nil_iff_forall_not_mem.mpr fun cmd hcmd => ?_
  obtain ⟨phase, hphase, -⟩ := h.drained.pending (by rw [hreader]; rfl)
    (by rw [hreader]; exact List.not_mem_nil) cmd hcmd
  rw [hwriter] at hphase
  cases hphase

theorem Sound.done_of_terminated (hreader : s.reader = .terminated)
    (hwriter : s.writer = none) (hcmd : cmd ∈ s.begun) :
    s.performed.count (.sendDone cmd) = 1 := by
  have hcount := h.owned.count (.sendDone cmd) rfl
  have hone := @count_completions_le kind _ h.owned.nodup (.sendDone cmd)
  have hsome : 0 < (State.completions kind s.begun).count (.sendDone cmd) := by
    refine List.count_pos_iff.mpr (List.mem_flatMap.mpr ⟨cmd, hcmd, ?_⟩)
    simp [completeCommand]
  have hidle : s.writerTodo = [] := by
    simp [State.writerTodo, State.phase, hwriter]
  rw [h.pendingCmds_eq_nil hreader hwriter, hreader, hidle] at hcount
  simp only [State.completions, List.flatMap_nil, Reader.terminated,
    Reader.todo, List.count_nil] at hcount hsome hone
  omega

end Sound

/--
Whatever the goroutines do and the server sends, no command is completed twice
and none of its channels is closed twice; when the reader has ended and nobody
holds the lock of the encoder, each command that was begun is completed.
-/
theorem commands_complete_once (kind : CommandId → Kind)
    (labels : List Label) (hrun : Meets (next kind) (Enabled kind) {} labels) :
    (∀ cmd, (labels.foldl (next kind) {}).performed.count (.sendDone cmd) ≤ 1 ∧
      (labels.foldl (next kind) {}).performed.count (.closeDone cmd) ≤ 1 ∧
      (labels.foldl (next kind) {}).performed.count (.closeResults cmd) ≤ 1) ∧
    ((labels.foldl (next kind) {}).reader = .terminated →
      (labels.foldl (next kind) {}).writer = none →
      ∀ cmd ∈ (labels.foldl (next kind) {}).begun,
        (labels.foldl (next kind) {}).performed.count (.sendDone cmd) = 1) := by
  have h := foldl_of_meets (Sound kind) sound_next (sound_initial kind) hrun
  refine ⟨fun cmd => ⟨?_, ?_, ?_⟩, fun hreader hwriter cmd hcmd =>
    h.done_of_terminated hreader hwriter hcmd⟩
  · exact Nat.le_trans (Nat.le_add_left _ _) (h.performed_le rfl)
  · exact Nat.le_trans (Nat.le_add_left _ _) (h.performed_le rfl)
  · exact Nat.le_trans (Nat.le_add_left _ _) (h.performed_le rfl)

def threeCommands : List Label :=
  [.begin 0, .write true, .finish, .tagged 0 false] ++ List.replicate 4 .readerRuns ++
    [.begin 1, .write true, .finish, .begin 2, .write false] ++
    List.replicate 11 .writerRuns ++
    [.finish, .fails] ++ List.replicate 2 .readerRuns

theorem threeCommands_complete :
    Meets (next fun _ => .fetch) (Enabled fun _ => .fetch) {} threeCommands ∧
      ∀ cmd ∈ [0, 1, 2], (threeCommands.foldl (next fun _ => .fetch)
        {}).performed.count (.sendDone cmd) = 1 := by
  have hrun : Meets (next fun _ => .fetch) (Enabled fun _ => .fetch) {}
    threeCommands := by decide +kernel
  exact ⟨hrun, (commands_complete_once (fun _ => .fetch) threeCommands
    hrun).2 (by decide +kernel) (by decide +kernel)⟩

end GoImap.Lifecycle
