import GoImap.Client.Selection
import GoImap.Lib.Transition

/-!
# The snapshot of the selected mailbox

One mutex guards the state of the connection and the snapshot.  They are
changed by the goroutine that reads the responses and by a goroutine whose write
has failed.  A command is taken from the pending ones before it is completed, so
the other goroutine may come in between.
-/

namespace GoImap.Selection

open Transition

inductive Kind where
  | authenticate
  | unauthenticate
  | unselect
  | logout
  | other

/-- The commands that were taken have their status, or none if the response was
malformed or the connection has failed. -/
structure Connection where
  client : Client
  taken : List (Nat × PendingCmd × Option Client.Status) := []
  greetingRecv : Bool := false

inductive Greeting where
  | ok
  | preauth
  | other

/-- What happens under the mutex.  FLAGS, PERMANENTFLAGS and READ-ONLY change
the other fields of the snapshot. -/
inductive Event where
  | begin (cmd : PendingCmd)
  | greeting (typ : Greeting)
  | receive (response : Response)
  | flags
  | closed
  | take (tag : Nat) (status : Option Client.Status)
  | complete (index : Nat)
  | closeWithError

def Greeting.state : Greeting → ConnState
  | .ok => .notAuthenticated
  | .preauth => .authenticated
  | .other => .logout

namespace Client

variable (kind : Nat → Kind) (c : Client)

def setState (state : ConnState) : Client := { c with
    state := state
    mailbox := if state ≠ .selected then none else c.mailbox }

def complete : Nat × PendingCmd × Option Status → Client
  | (tag, .other, some .ok) =>
    match kind tag with
    | .authenticate | .unselect => c.setState .authenticated
    | .unauthenticate =>
      { c with state := .notAuthenticated, mailbox := none }
    | .logout => c.setState .logout
    | .other => c
  | (_, cmd, some status) => c.completeCommand status cmd
  | (_, _, none) => c

def shape : ConnState × Bool := (c.state, c.mailbox.isSome)

end Client

def Exact (shape : ConnState × Bool) : Prop := shape.2 = true ↔ shape.1 = .selected

def Connection.Safe (s : Connection) : Prop :=
  s.client.shape.1 = .selected → s.client.shape.2 = true

def Connection.Exact (s : Connection) : Prop := Selection.Exact s.client.shape

def next (kind : Nat → Kind) (s : Connection) : Event → Connection
  | .begin cmd => { s with client := s.client.beginCommand cmd }
  | .greeting typ =>
    if s.greetingRecv then s
    else { s with client := s.client.setState typ.state, greetingRecv := true }
  | .receive response => { s with client := s.client.receive response }
  | .flags => { s with client := s.client.setNumMessages id }
  | .closed => { s with client := s.client.setState .authenticated }
  | .take tag status =>
    match deletePendingCmdByTag tag s.client.pendingCmds with
    | some (cmd, cmds) =>
      { s with
        client := { s.client with pendingCmds := cmds }
        taken := s.taken ++ [(tag, cmd, status)] }
    | none => s
  | .complete index =>
    match s.taken[index]? with
    | some entry =>
      { s with client := s.client.complete kind entry, taken := s.taken.eraseIdx index }
    | none => s
  | .closeWithError =>
    { s with
      client := { s.client with state := .logout, pendingCmds := [] }
      taken := s.taken ++ s.client.pendingCmds.map fun (tag, cmd) => (tag, cmd, none) }

section Shape

variable {kind : Nat → Kind} {c : Client}

theorem exact_setState {state : ConnState} (h : state ≠ .selected) :
    Exact (c.setState state).shape := by
  simp [Exact, Client.shape, Client.setState, h]

theorem shape_setNumMessages (c : Client) (f : UInt32 → UInt32) :
    (c.setNumMessages f).shape = c.shape := by
  rw [Client.setNumMessages]
  split_ifs
  · simp [Client.shape]
  · rfl

theorem shape_handleVanished (c : Client) (data : VanishedData) :
    (c.handleVanished data).shape = c.shape := by
  have hforget : ∀ uids, (c.forget uids).shape = c.shape := fun _ => shape_setNumMessages _ _
  rw [Client.handleVanished]
  split_ifs
  · split
    · exact hforget _
    · exact hforget _
  · split
    · rfl
    · rfl

theorem shape_receive (c : Client) (response : Response) :
    (c.receive response).shape = c.shape := by
  cases response with
  | existing num =>
    rw [Client.receive, Client.handleExists]
    split
    · rfl
    · exact shape_setNumMessages c _
  | expunge seqNum =>
    rw [Client.receive, Client.handleExpunge]
    split
    · exact shape_setNumMessages c _
    · exact shape_setNumMessages c _
  | vanished data => exact shape_handleVanished c data

theorem complete_cases (c : Client) (entry : Nat × PendingCmd × Option Client.Status) :
    (c.complete kind entry).shape = c.shape ∨ Exact (c.complete kind entry).shape := by
  unfold Client.complete
  split
  · split
    · exact .inr (exact_setState (by decide))
    · exact .inr (exact_setState (by decide))
    · exact .inr (by simp [Exact, Client.shape])
    · exact .inr (exact_setState (by decide))
    · exact .inl rfl
  · rename_i cmd status _
    cases cmd with
    | select cmd =>
      cases status with
      | ok => exact .inr (by simp [Exact, Client.shape, Client.completeCommand])
      | no =>
        rw [Client.completeCommand]
        split_ifs
        · exact .inr (by simp [Exact, Client.shape])
        · exact .inl rfl
      | bad => exact .inl rfl
    | expunge seqNums | other => exact .inl rfl
  · exact .inl rfl

end Shape

section Steps

variable {kind : Nat → Kind} {s : Connection} {event : Event}

theorem next_cases (h : event ≠ .closeWithError) :
    (next kind s event).client.shape = s.client.shape ∨ Exact (next kind s event).client.shape := by
  cases event with
  | begin cmd => exact .inl rfl
  | greeting typ =>
    rw [next]
    split_ifs
    · exact .inl rfl
    · exact .inr (exact_setState (by cases typ <;> decide))
  | receive response => exact .inl (shape_receive _ _)
  | flags => exact .inl (shape_setNumMessages _ _)
  | closed => exact .inr (exact_setState (by decide))
  | take tag status =>
    rw [next]
    split
    · exact .inl rfl
    · exact .inl rfl
  | complete index =>
    rw [next]
    split
    · exact complete_cases _ _
    · exact .inl rfl
  | closeWithError => exact absurd rfl h

theorem exact_next_iff (h : s.Exact) : (next kind s event).Exact ↔
      (event = .closeWithError → s.client.state ≠ .selected) := by
  by_cases hclose : event = .closeWithError
  · subst hclose
    simpa [Connection.Exact, Exact, next, Client.shape] using h.not
  · refine iff_of_true ?_ fun heq => absurd heq hclose
    rcases next_cases hclose with hshape | hexact
    · rw [Connection.Exact, hshape]
      exact h
    · exact hexact

theorem safe_next (h : s.Safe) : (next kind s event).Safe := by
  by_cases hclose : event = .closeWithError
  · subst hclose
    simp [next, Connection.Safe, Client.shape]
  · rcases next_cases hclose with hshape | hexact
    · rw [Connection.Safe, hshape]
      exact h
    · exact hexact.mpr

end Steps

def newConnection : Connection where
  client :=
    { state := .none, mailbox := none, cmdTag := 0, pendingCmds := [], handled := [] }

/--
In every run a handler that finds the Selected state finds a snapshot.  The
snapshot is gone in all other states of the run if and only if the connection is
not closed by an error while a mailbox is selected.
-/
theorem snapshot_iff_selected (kind : Nat → Kind) (events : List Event) :
    (∀ s ∈ events.scanl (next kind) newConnection,
      s.client.state = .selected → s.client.mailbox.isSome = true) ∧
    ((∀ s ∈ events.scanl (next kind) newConnection,
        s.client.mailbox.isSome = true ↔ s.client.state = .selected) ↔
      Meets (next kind) (fun s event => event = .closeWithError → s.client.state ≠ .selected)
        newConnection events) := by
  have hstart : newConnection.Exact := by
    simp [newConnection, Connection.Exact, Exact, Client.shape]
  have hsafe := hstart.mpr
  constructor
  · exact (forall_scanl_iff hsafe).mpr (meets_of_invariant Connection.Safe
      (fun s event h => ⟨safe_next h, safe_next h⟩) hsafe events)
  · exact (forall_scanl_iff hstart).trans (meets_iff_of_invariant Connection.Exact
      (fun s event => exact_next_iff) (fun s event h => (exact_next_iff h).mpr) hstart events)

/-- A SELECT succeeds, and the connection is lost. -/
theorem snapshot_outlives_connection :
    ([.greeting .preauth, .begin (.select ⟨[], {}⟩), .take 1 (some .ok), .complete 0,
      .closeWithError].foldl (next fun _ => .other) newConnection).client.shape = (.logout, true) :=
  rfl

end GoImap.Selection
