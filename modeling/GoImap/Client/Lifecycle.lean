import Mathlib.Data.List.Basic
import Mathlib.Tactic.Common

/-!
# The life of a command

The client writes a command while it holds the lock of the encoder, and one
goroutine reads the responses.  Both complete commands: the reader when it has
read the tagged response, and whoever closes the connection all those that are
pending then.  What a goroutine does in one critical section, or with one
channel, is one action, and the actions of the goroutines are interleaved at
will.
-/

namespace GoImap.Lifecycle

abbrev CommandId := Nat

abbrev RequestId := Nat

inductive Kind where
  | list
  | fetch
  | expunge
  | other
  deriving DecidableEq, Repr

inductive Action where
  | closeConn
  | takePending
  | cancelReqs (cmd : CommandId)
  | sendHeld (cmd : CommandId)
  | closeResults (cmd : CommandId)
  | sendDone (cmd : CommandId)
  | closeDone (cmd : CommandId)
  | grant (req : RequestId)
  deriving DecidableEq, Repr

def completeCommand (kind : Kind) (cmd : CommandId) : List Action :=
  let results := match kind with
    | .list => [.sendHeld cmd, .closeResults cmd]
    | .fetch | .expunge => [.closeResults cmd]
    | .other => []
  .cancelReqs cmd :: (results ++ [.sendDone cmd, .closeDone cmd])

def closeWithError : List Action := [.closeConn, .takePending]

/-- A result is sent as it comes.  LIST with STATUS or METADATA holds the last
mailbox back until it has the rest. -/
inductive Delivery where
  | plain
  | hold
  | status
  deriving DecidableEq, Repr

namespace Delivery

def sends (held : Bool) : Delivery → Bool
  | .hold => held
  | .plain | .status => true

def keeps (held : List CommandId) (cmd : CommandId) : Delivery → List CommandId
  | .plain => held
  | .hold => cmd :: held
  | .status => held.filter (· ≠ cmd)

def suits (kind : Kind) (held : Bool) : Delivery → Bool
  | .plain => kind ≠ .other
  | .hold => kind = .list
  | .status => kind = .list && held

end Delivery

/-- The reader has found the command for a result and is about to send it, or
has actions left; then it reads on, or ends. -/
inductive Reader where
  | delivering (cmd : CommandId) (how : Delivery)
  | running (todo : List Action) (exits : Bool)
  deriving DecidableEq, Repr

namespace Reader

def waiting : Reader := .running [] false

def terminated : Reader := .running [] true

def failing : Reader := .running closeWithError true

def todo : Reader → List Action
  | .delivering _ _ => []
  | .running todo _ => todo

def exits : Reader → Bool
  | .delivering _ _ => false
  | .running _ exits => exits

/-- The message of a FETCH waits for the consumer or for `Close`. -/
def fetches (kind : CommandId → Kind) : Reader → Bool
  | .delivering cmd _ => kind cmd = .fetch
  | .running _ _ => false

end Reader

/--
The goroutine that holds the lock of the encoder.

It composes the command, announces a literal and waits for the continuation
request, and flushes the command.  IDLE and AUTHENTICATE register the first
request before the command begins, wait for it after the flush, and
AUTHENTICATE registers the next one before it responds.  A flush that fails
closes the connection.
-/
inductive Phase where
  | composing
  | announcing (req : RequestId)
  | early (req : RequestId)
  | closing (todo : List Action) (req : Option RequestId)
  | waiting (req : RequestId) (flushed : Bool)
  | flushed
  | responding (req : RequestId)
  deriving DecidableEq, Repr

namespace Phase

def todo : Phase → List Action
  | .closing todo _ => todo
  | _ => []

def registers : Phase → Bool
  | .composing | .flushed => true
  | _ => false

def registered (req : RequestId) : Phase → Phase
  | .composing => .announcing req
  | .flushed => .responding req
  | phase => phase

def writes : Phase → Bool
  | .composing | .announcing _ | .early _ | .responding _ => true
  | _ => false

def written (ok : Bool) : Phase → Phase
  | .composing => if ok then .flushed else .closing closeWithError none
  | .announcing req => if ok then .waiting req false else .composing
  | .early req =>
    if ok then .waiting req true else .closing closeWithError (some req)
  | .responding req => if ok then .waiting req true else .flushed
  | phase => phase

def isClosing : Phase → Bool
  | .closing _ _ => true
  | _ => false

end Phase

structure Writer where
  cmd : CommandId
  phase : Phase
  deriving DecidableEq, Repr

/-- The actions that were performed are kept, with the requests that were
cancelled and the commands for which a value was sent to a closed channel. -/
structure State where
  pendingCmds : List CommandId := []
  contReqs : List (RequestId × CommandId) := []
  held : List CommandId := []
  closed : Bool := false
  closeCh : Bool := false
  reader : Reader := .waiting
  writer : Option Writer := none
  early : List (CommandId × RequestId) := []
  begun : List CommandId := []
  requests : Nat := 0
  performed : List Action := []
  cancelled : List RequestId := []
  panicked : List CommandId := []

inductive Label where
  | register (cmd : CommandId)
  | begin (cmd : CommandId)
  | request
  | write (ok : Bool)
  | writerRuns
  | wake
  | finish
  | readerRuns
  | tagged (cmd : CommandId) (exits : Bool)
  | continues
  | data (cmd : CommandId) (how : Delivery)
  | abandon
  | fails
  | close
  | disconnect
  deriving DecidableEq, Repr

namespace State

variable (kind : CommandId → Kind) (s : State)

def completions (cmds : List CommandId) : List Action :=
  cmds.flatMap fun cmd => completeCommand (kind cmd) cmd

def resultsClosed (cmd : CommandId) : Bool := s.performed.contains (.closeResults cmd)

def send (cmd : CommandId) : State :=
  if s.resultsClosed cmd then { s with panicked := s.panicked ++ [cmd] } else s

def effect : Action → State
  | .closeConn => { s with closed := true }
  | .takePending => { s with pendingCmds := [] }
  | .cancelReqs cmd =>
    { s with
      contReqs := s.contReqs.filter (·.2 ≠ cmd)
      cancelled := s.cancelled ++ (s.contReqs.filter (·.2 = cmd)).map Prod.fst }
  | .sendHeld cmd => if cmd ∈ s.held then s.send cmd else s
  | _ => s

def perform (action : Action) : State :=
  { s.effect action with performed := s.performed ++ [action] }

def expand : Action → List Action
  | .takePending => completions kind s.pendingCmds
  | _ => []

def phase : Option Phase := s.writer.map Writer.phase

def setPhase (f : Phase → Phase) : State := { s with
    writer := s.writer.map fun writer =>
      { writer with phase := f writer.phase } }

def resolved (req : RequestId) : Bool :=
  s.performed.contains (.grant req) || s.cancelled.contains req

def deliver (cmd : CommandId) (how : Delivery) : State :=
  if how.sends (s.held.contains cmd) && s.resultsClosed cmd then
    { s with panicked := s.panicked ++ [cmd], reader := .failing }
  else
    { s with held := how.keeps s.held cmd, reader := .waiting }

def readerRuns : State :=
  match s.reader with
  | .delivering cmd how => s.deliver cmd how
  | .running (action :: rest) exits =>
    { s.perform action with
      reader := .running (s.expand kind action ++ rest) exits }
  | .running [] _ => s

def writerRuns : State :=
  match s.writer with
  | some ⟨cmd, .closing (action :: rest) req⟩ =>
    { s.perform action with
      writer := some ⟨cmd, .closing (s.expand kind action ++ rest) req⟩ }
  | some ⟨cmd, .closing [] (some req)⟩ =>
    { s with writer := some ⟨cmd, .waiting req true⟩ }
  | some ⟨cmd, .closing [] none⟩ => { s with writer := some ⟨cmd, .flushed⟩ }
  | _ => s

def registerContReq (cmd : CommandId) : State := { s with
    contReqs := s.contReqs ++ [(s.requests, cmd)]
    requests := s.requests + 1 }

def beginCommand (cmd : CommandId) : State := { s with
    pendingCmds := s.pendingCmds ++ [cmd]
    begun := s.begun ++ [cmd]
    writer := some ⟨cmd, match s.early.lookup cmd with
      | some req => .early req
      | none => .composing⟩ }

def readResponseTagged (cmd : CommandId) (exits : Bool) : State := { s with
    pendingCmds := s.pendingCmds.erase cmd
    reader := .running (completeCommand (kind cmd) cmd ++
      if exits then closeWithError else []) exits }

def readContinueReq : State :=
  match s.contReqs with
  | (req, _) :: rest =>
    { s with contReqs := rest, reader := .running [.grant req] false }
  | [] => { s with reader := .failing }

end State

/-- Writes to a closed connection fail.  A result goes to a pending command
that has a channel for it. -/
def Enabled (kind : CommandId → Kind) (s : State) : Label → Prop
  | .register cmd => cmd ∉ s.begun ∧ s.early.lookup cmd = none
  | .begin cmd => s.writer = none ∧ cmd ∉ s.begun
  | .request => s.phase.any Phase.registers
  | .write ok =>
    s.phase.any Phase.writes ∧ (ok = true → s.closed = false)
  | .writerRuns => s.phase.any Phase.isClosing
  | .wake => s.phase.any fun phase =>
    match phase with
    | .waiting req _ => s.resolved req
    | _ => false
  | .finish => s.phase = some .flushed
  | .readerRuns => s.reader ≠ .waiting ∧ s.reader ≠ .terminated
  | .tagged cmd _ => s.reader = .waiting ∧ cmd ∈ s.pendingCmds
  | .continues => s.reader = .waiting
  | .data cmd how =>
    s.reader = .waiting ∧ cmd ∈ s.pendingCmds ∧ how.suits (kind cmd) (s.held.contains cmd)
  | .abandon => s.closeCh = true ∧ s.reader.fetches kind
  | .fails => s.reader = .waiting
  | .close => True
  | .disconnect => True

instance decidableEnabled (kind : CommandId → Kind) (s : State) :
    ∀ label, Decidable (Enabled kind s label)
  | .register _ | .begin _ | .write _ | .readerRuns | .tagged _ _
  | .data _ _ | .abandon => inferInstanceAs (Decidable (_ ∧ _))
  | .request | .writerRuns | .wake | .finish | .continues | .fails =>
    inferInstanceAs (Decidable (_ = _))
  | .close | .disconnect => inferInstanceAs (Decidable True)

def next (kind : CommandId → Kind) (s : State) : Label → State
  | .register cmd =>
    { s.registerContReq cmd with
      early := s.early ++ [(cmd, s.requests)] }
  | .begin cmd => s.beginCommand cmd
  | .request =>
    match s.writer with
    | some writer =>
      (s.registerContReq writer.cmd).setPhase (Phase.registered s.requests)
    | none => s
  | .write ok => s.setPhase (Phase.written ok)
  | .writerRuns => s.writerRuns kind
  | .wake => s.setPhase fun phase =>
    match phase with
    | .waiting _ true => .flushed
    | .waiting _ false => .composing
    | phase => phase
  | .finish => { s with writer := none }
  | .readerRuns => s.readerRuns kind
  | .tagged cmd exits => s.readResponseTagged kind cmd exits
  | .continues => s.readContinueReq
  | .data cmd how => { s with reader := .delivering cmd how }
  | .abandon => { s with reader := .failing }
  | .fails => { s with reader := .failing }
  | .close => { s with closeCh := true }
  | .disconnect => { s with closed := true }

/-! ## What a step does -/

inductive Moves (s : State) : Phase → Phase → Prop where
  | write {phase : Phase} {ok : Bool} (hwrites : phase.writes = true)
      (hopen : ok = true → s.closed = false) :
      Moves s phase (phase.written ok)
  | wake {req : RequestId} {flushed : Bool} (hresolved : s.resolved req = true) :
      Moves s (.waiting req flushed) (if flushed then .flushed else .composing)
  | waits {req : RequestId} : Moves s (.closing [] (some req)) (.waiting req true)
  | closed : Moves s (.closing [] none) .flushed

inductive Change (kind : CommandId → Kind) (s : State) (label : Label) : State → Prop where
  | register {cmd : CommandId} (hbegun : cmd ∉ s.begun) (hearly : s.early.lookup cmd = none) :
      Change kind s label { s.registerContReq cmd with
        early := s.early ++ [(cmd, s.requests)] }
  | begins {cmd : CommandId} (hfree : s.writer = none)
      (hbegun : cmd ∉ s.begun) : Change kind s label (s.beginCommand cmd)
  | request {cmd : CommandId} {phase : Phase}
      (hlabel : label = .request) (hwriter : s.writer = some ⟨cmd, phase⟩)
      (hregisters : phase.registers = true) :
      Change kind s label { s.registerContReq cmd with
        writer := some ⟨cmd, phase.registered s.requests⟩ }
  | moves {cmd : CommandId} {phase later : Phase} (hwriter : s.writer = some ⟨cmd, phase⟩)
      (hmoves : Moves s phase later) :
      Change kind s label { s with writer := some ⟨cmd, later⟩ }
  | writerPerforms {cmd : CommandId} {action : Action} {rest : List Action}
      {req : Option RequestId} (hlabel : label = .writerRuns)
      (hwriter : s.writer = some ⟨cmd, .closing (action :: rest) req⟩) :
      Change kind s label { s.perform action with
        writer := some ⟨cmd, .closing (s.expand kind action ++ rest) req⟩ }
  | finish {cmd : CommandId} (hwriter : s.writer = some ⟨cmd, .flushed⟩) :
      Change kind s label { s with writer := none }
  | readerPerforms {action : Action} {rest : List Action} {exits : Bool}
      (hreader : s.reader = .running (action :: rest) exits) :
      Change kind s label { s.perform action with
        reader := .running (s.expand kind action ++ rest) exits }
  | tagged {cmd : CommandId} {exits : Bool} (hreader : s.reader = .waiting)
      (hpending : cmd ∈ s.pendingCmds) :
      Change kind s label (s.readResponseTagged kind cmd exits)
  | granted {req : RequestId} {cmd : CommandId}
      {rest : List (RequestId × CommandId)} (hreader : s.reader = .waiting)
      (hreqs : s.contReqs = (req, cmd) :: rest) :
      Change kind s label { s with contReqs := rest, reader := .running [.grant req] false }
  | data {cmd : CommandId} {how : Delivery} (hreader : s.reader = .waiting)
      (hpending : cmd ∈ s.pendingCmds) (hkind : kind cmd ≠ .other) :
      Change kind s label { s with reader := .delivering cmd how }
  | delivered {cmd : CommandId} {how : Delivery} {held : List CommandId}
      (hreader : s.reader = .delivering cmd how) :
      Change kind s label { s with held := held, reader := .waiting }
  | panics {cmd : CommandId} {how : Delivery} (hreader : s.reader = .delivering cmd how)
      (hclosed : s.resultsClosed cmd = true) :
      Change kind s label { s with panicked := s.panicked ++ [cmd], reader := .failing }
  | fails (htodo : s.reader.todo = []) (hexits : s.reader.exits = false) :
      Change kind s label { s with reader := .failing }
  | environment {closed closeCh : Bool} (hclosed : s.closed = true → closed = true) :
      Change kind s label { s with closed := closed, closeCh := closeCh }

section Change

variable {kind : CommandId → Kind} {s : State}

theorem exists_phase {p : Phase → Bool} (h : s.phase.any p = true) :
    ∃ cmd phase, s.writer = some ⟨cmd, phase⟩ ∧ p phase = true := by
  cases hwriter : s.writer with
  | none => simp [State.phase, hwriter] at h
  | some writer =>
    exact ⟨writer.cmd, writer.phase, rfl, by
      simpa [State.phase, hwriter] using h⟩

theorem setPhase_eq {cmd : CommandId} {phase : Phase}
    (hwriter : s.writer = some ⟨cmd, phase⟩) (f : Phase → Phase) :
    s.setPhase f = { s with writer := some ⟨cmd, f phase⟩ } := by
  rw [State.setPhase, hwriter]
  rfl

theorem change_readerRuns (hwaiting : s.reader ≠ .waiting) (hterminated : s.reader ≠ .terminated) :
    Change kind s .readerRuns (s.readerRuns kind) := by
  rw [State.readerRuns]
  cases hreader : s.reader with
  | delivering cmd how =>
    simp only [State.deliver]
    split_ifs with hpanics
    · exact .panics hreader (Bool.and_eq_true_iff.mp hpanics).2
    · exact .delivered hreader
  | running todo exits =>
    cases todo with
    | nil =>
      cases exits with
      | false => exact absurd hreader hwaiting
      | true => exact absurd hreader hterminated
    | cons action rest => exact .readerPerforms hreader

theorem change_writerRuns (h : s.phase.any Phase.isClosing = true) :
    Change kind s .writerRuns (s.writerRuns kind) := by
  obtain ⟨cmd, phase, hwriter, hclosing⟩ := exists_phase h
  rw [State.writerRuns, hwriter]
  cases phase with
  | closing todo req =>
    cases todo with
    | cons action rest => exact .writerPerforms rfl hwriter
    | nil =>
      cases req with
      | some req => exact .moves hwriter .waits
      | none => exact .moves hwriter .closed
  | _ => cases hclosing

theorem change_wake (h : Enabled kind s .wake) : Change kind s .wake (next kind s .wake) := by
  obtain ⟨cmd, phase, hwriter, hresolved⟩ := exists_phase h
  rw [next, setPhase_eq hwriter]
  cases phase with
  | waiting req flushed =>
    cases flushed with
    | false =>
      have hwake : Moves s (.waiting req false) .composing := .wake hresolved
      exact .moves hwriter hwake
    | true =>
      have hwake : Moves s (.waiting req true) .flushed := .wake hresolved
      exact .moves hwriter hwake
  | _ => cases hresolved

theorem change_of_enabled {label : Label} (h : Enabled kind s label) :
    Change kind s label (next kind s label) := by
  cases label with
  | register cmd => exact .register h.1 h.2
  | begin cmd => exact .begins h.1 h.2
  | request =>
    obtain ⟨cmd, phase, hwriter, hregisters⟩ := exists_phase h
    have hnext : next kind s .request = { s.registerContReq cmd with
        writer := some ⟨cmd, phase.registered s.requests⟩ } := by
      rw [next]
      simp only [hwriter]
      have hsame : (s.registerContReq cmd).writer = some ⟨cmd, phase⟩ := hwriter
      exact setPhase_eq hsame _
    rw [hnext]
    exact .request rfl hwriter hregisters
  | write ok =>
    obtain ⟨cmd, phase, hwriter, hwrites⟩ := exists_phase h.1
    rw [next, setPhase_eq hwriter]
    exact .moves hwriter (.write hwrites h.2)
  | writerRuns => exact change_writerRuns h
  | wake => exact change_wake h
  | finish =>
    obtain ⟨writer, hwriter, hphase⟩ := Option.map_eq_some_iff.mp h
    cases writer with
    | mk cmd phase =>
      cases hphase
      exact .finish hwriter
  | readerRuns => exact change_readerRuns h.1 h.2
  | tagged cmd exits => exact .tagged h.1 h.2
  | continues =>
    have hwaiting := h
    rw [next, State.readContinueReq]
    split
    · next hreqs => exact .granted hwaiting hreqs
    · exact .fails (by rw [hwaiting]; rfl) (by rw [hwaiting]; rfl)
  | data cmd how =>
    refine .data h.1 h.2.1 ?_
    have hsuits := h.2.2
    intro hother
    rw [hother] at hsuits
    cases how with
    | _ => cases hsuits
  | abandon =>
    have hfetches := h.2
    cases hreader : s.reader with
    | delivering cmd how =>
      exact .fails (by rw [hreader]; rfl) (by rw [hreader]; rfl)
    | running todo exits =>
      rw [hreader] at hfetches
      cases hfetches
  | fails =>
    have hwaiting := h
    exact .fails (by rw [hwaiting]; rfl) (by rw [hwaiting]; rfl)
  | close => exact .environment id
  | disconnect => exact .environment fun _ => rfl

end Change

end GoImap.Lifecycle
