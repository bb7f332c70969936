import GoImap.Lib.Locks
import GoImap.Lib.Transition
import GoImap.MemServer.MultiSearch

/-!
# The mutexes of the mailboxes

Each mailbox has a mutex.  The calls of a session are programs that take and
release it; `Copy` and `Move` hold the mutex of the selected mailbox while they
take the one of the destination for each message.  Run alone a program does
what the sequential model does.  Sessions running at the same time never block
one another for good as long as the pairs of selected mailbox and destination
of the calls in progress have no cycle, and they can as soon as there is one.

The lookup of a destination, which takes no mutex of a mailbox, is the first
thing a call does and is made as the call starts.
-/

namespace GoImap.MemServer

open Tracker Locks

/-- The mailboxes, and the result that each session has saved for `$`. -/
structure Shared extends Backend where
  searchRes : MailboxId → SessionId → NumSet

namespace Shared

variable (shared : Shared) (id : MailboxId) (session : SessionId)

def view : View where
  session := session
  searchRes := shared.searchRes id session

abbrev setBox (mbox : Mailbox) : Shared :=
  { shared with toBackend := shared.toBackend.setBox id mbox }

def modify (change : Mailbox → Mailbox) : Shared := shared.setBox id (change (shared.boxes id))

def save (set : NumSet) : Shared where
  toBackend := shared.toBackend
  searchRes := Function.update shared.searchRes id
    (Function.update (shared.searchRes id) session set)

end Shared

abbrev MailboxProgram := Program MailboxId Shared

/-- The calls of a session.  Those on the selected mailbox carry it and the
session of its tracker. -/
inductive Call where
  | append (destName : Bytes) (buf : Bytes) (options : AppendOptions) (now : Time)
  | copy (selected : MailboxId) (session : SessionId) (numSet : MessageSet) (destName : Bytes)
      (now : Time)
  | move (selected : MailboxId) (session : SessionId) (numSet : MessageSet) (destName : Bytes)
      (now : Time)
  | fetch (selected : MailboxId) (session : SessionId) (numSet : MessageSet)
      (options : FetchOptions) (writeFails : Nat → Bool)
  | store (selected : MailboxId) (session : SessionId) (numSet : MessageSet)
      (flags : StoreFlags) (options : StoreOptions)
  | search (selected : MailboxId) (session : SessionId) (numKind : NumKind)
      (criteria : SearchCriteria) (options : SearchOptions)
  | expunge (selected : MailboxId) (uids : Option NumSet)

/-- What a loop does with a message at an index, before it goes on. -/
abbrev Visit (σ : Type) :=
  Shared → Nat → Message → σ → (σ → MailboxProgram) → MailboxProgram

namespace MailboxProgram

def modify (id : MailboxId) (change : Mailbox → Mailbox)
    (next : Mailbox → MailboxProgram) : MailboxProgram :=
  .access (·.modify id change) fun shared => next (shared.boxes id)

/-- A loop that reads what is shared for each message. -/
def loop {σ : Type} (picks : Shared → Nat → Message → Bool) (visit : Visit σ)
    (next : σ → MailboxProgram) : List Message → Nat → σ → MailboxProgram
  | [], _, state => next state
  | msg :: rest, index, state =>
    .access id fun shared =>
      if picks shared index msg then
        visit shared index msg state (loop picks visit next rest (index + 1))
      else loop picks visit next rest (index + 1) state

def notifyEvent (id : MailboxId) : MailboxProgram := .lock id <| .unlock id .done

variable [CaseMapping]

def appendBytes (dest : MailboxId) (buf : Bytes) (options : AppendOptions)
    (now : Time) (next : AppendData → MailboxProgram) : MailboxProgram :=
  .lock dest <| modify dest (fun mbox => (mbox.appendBytes buf options now).1)
    fun mbox => .unlock dest <| next (mbox.appendBytes buf options now).2

def copyMsg (dest : MailboxId) (msg : Message) (now : Time)
    (next : AppendData → MailboxProgram) : MailboxProgram :=
  appendBytes dest msg.buf
    { time := some msg.t, flags := msg.flagList } now next

section Selected

variable (selected dest : MailboxId) (session : SessionId) (numSet : MessageSet) (now : Time)

def selectsAt (shared : Shared) (index : Nat) (msg : Message) : Bool :=
  selects (sessionOf (shared.boxes selected).tracker session) numSet (Mailbox.seqNumAt index) msg

def forEachLocked {σ : Type} (visit : Visit σ) (start : Mailbox → σ)
    (next : σ → MailboxProgram) : MailboxProgram :=
  .access id fun shared =>
    loop (selectsAt selected session
        (staticNumSet (shared.boxes selected) (shared.view selected session) numSet)) visit next
      (shared.boxes selected).l 0 (start (shared.boxes selected))

/-- The messages of `Copy` and `Move`.  The result is their addresses. -/
def forEachCopy (next : List Nat → MailboxProgram) : MailboxProgram :=
  forEachLocked selected session numSet (fun _ _ msg copied next =>
    copyMsg dest msg now fun _ => next (copied ++ [msg.address])) (fun _ => []) next

def copy : MailboxProgram :=
  .lock selected <| forEachCopy selected dest session numSet now fun _ => .unlock selected .done

def move : MailboxProgram :=
  .lock selected <| forEachCopy selected dest session numSet now fun copied =>
    modify selected (fun mbox => (mbox.expungeLocked copied).1) fun _ =>
      .unlock selected .done

def fetch (options : FetchOptions) (writeFails : Nat → Bool) : MailboxProgram :=
  .lock selected <| forEachLocked selected session numSet (fun shared index msg state next =>
      let visited := fetchVisit session options writeFails (state.load (shared.boxes selected))
        (Mailbox.seqNumAt index) msg
      modify selected (fun mbox => visited.1.store mbox (mbox.l.set index visited.2))
        fun _ => next visited.1)
    .start fun state => .unlock selected <|
      if state.flagsChanged then notifyEvent selected else .done

def store (flags : StoreFlags) (options : StoreOptions) : MailboxProgram :=
  .lock selected <| forEachLocked selected session numSet (fun shared index msg state next =>
      let visited := storeVisit session flags options (uidSpace numSet options)
        (state.load (shared.boxes selected)) (Mailbox.seqNumAt index) msg
      modify selected (fun mbox => visited.1.store mbox (mbox.l.set index visited.2))
        fun _ => next visited.1)
    .start fun state => .unlock selected <|
      if state.changedAny then notifyEvent selected else .done

def searchVisit (numKind : NumKind) (found : SeqNum → Message → Bool) : Visit SearchState :=
  fun shared index msg state next =>
    let seqNum := (sessionOf (shared.boxes selected).tracker session).encodeSeqNum
      (Mailbox.seqNumAt index)
    next (if found seqNum msg then MemServer.searchVisit numKind state seqNum msg else state)

def search (content : Content) (numKind : NumKind) (criteria : SearchCriteria)
    (options : SearchOptions) : MailboxProgram :=
  .lock selected <| .access id fun shared =>
    let criteria := staticSearchCriteria (shared.boxes selected) (shared.view selected session)
      criteria
    loop (fun _ _ _ => true)
      (searchVisit selected session numKind fun seqNum msg => msg.search content seqNum criteria)
      (fun state => .access (fun shared =>
          if options.returnSave then shared.save selected session (savedSearch options state)
          else shared) fun _ => .unlock selected .done)
      (shared.boxes selected).l 0 {}

end Selected

def expunge (selected : MailboxId) (uids : Option NumSet) : MailboxProgram :=
  .lock selected <| .access id fun shared =>
    .unlock selected <|
      if (shared.boxes selected).deletedMessages uids = [] then .done
      else
        .lock selected <| modify selected (fun mbox => (mbox.expungeLocked
              ((shared.boxes selected).deletedMessages uids)).1)
            fun _ => .unlock selected .done

end MailboxProgram

namespace Call

variable [CaseMapping] (content : Content)

def program (shared : Shared) : Call → MailboxProgram
  | .append destName buf options now =>
    match shared.names destName with
    | none => .done
    | some dest =>
      MailboxProgram.appendBytes dest buf options now fun _ => .done
  | .copy selected session numSet destName now =>
    match shared.destination selected destName with
    | .error _ => .done
    | .ok dest => MailboxProgram.copy selected dest session numSet now
  | .move selected session numSet destName now =>
    match shared.destination selected destName with
    | .error _ => .done
    | .ok dest => MailboxProgram.move selected dest session numSet now
  | .fetch selected session numSet options writeFails =>
    MailboxProgram.fetch selected session numSet options writeFails
  | .store selected session numSet flags options =>
    MailboxProgram.store selected session numSet flags options
  | .search selected session numKind criteria options =>
    MailboxProgram.search selected session content numKind criteria options
  | .expunge selected uids => MailboxProgram.expunge selected uids

def perform (shared : Shared) : Call → Shared
  | .append destName buf options now =>
    match shared.names destName with
    | none => shared
    | some dest =>
      shared.modify dest fun mbox => (mbox.appendBytes buf options now).1
  | .copy selected session numSet destName now =>
    match shared.copy selected (shared.view selected session) numSet destName now with
    | .error _ => shared
    | .ok result => { shared with toBackend := result.1 }
  | .move selected session numSet destName now =>
    match shared.move selected (shared.view selected session) numSet destName now with
    | .error _ => shared
    | .ok result => { shared with toBackend := result.1 }
  | .fetch selected session numSet options writeFails =>
    shared.modify selected fun mbox =>
      ((shared.view selected session).fetch mbox numSet options writeFails).1
  | .store selected session numSet flags options =>
    shared.modify selected fun mbox =>
      ((shared.view selected session).store mbox numSet flags options).1
  | .search selected session numKind criteria options =>
    shared.save selected session ((shared.view selected session).searchCriteria content
      (shared.boxes selected) numKind criteria options).1.searchRes
  | .expunge selected uids => shared.modify selected (·.expunge uids)

/-- `Copy` and `Move` nest the destination in the selected mailbox. -/
def Nested (shared : Shared) (call : Call) (outer inner : MailboxId) : Prop :=
  match call with
  | .copy selected _ _ destName _ | .move selected _ _ destName _ =>
    outer = selected ∧ shared.destination selected destName = .ok inner
  | _ => False

def task (shared : Shared) (call : Call) : Task MailboxId Shared where
  pairs := call.Nested shared
  program := call.program content shared

end Call

/-! ## Programs run alone -/

@[simp] theorem setBox_setBox (shared : Shared) (id : MailboxId) (first second : Mailbox) :
    (shared.setBox id first).setBox id second = shared.setBox id second := by
  simp [Shared.setBox, Backend.setBox]

@[simp] theorem setBox_self (shared : Shared) (id : MailboxId) :
    shared.setBox id (shared.boxes id) = shared := by
  simp [Shared.setBox, Backend.setBox]

variable {selected dest : MailboxId} {count : Nat}

namespace MailboxProgram

section Loop

variable {σ τ : Type} {session : SessionId} {visit : Visit σ} {next : σ → MailboxProgram}
  (tracker : τ → SessionTracker) (step : τ → SeqNum → Message → τ × Message) (own : τ → σ)
  (put : τ → List Message → Shared)
  (hsession : ∀ t l, sessionOf ((put t l).boxes selected).tracker session = tracker t)
  (hvisit : ∀ t before msg rest next,
    (visit (put t (before ++ msg :: rest)) before.length msg (own t) next).run
        (put t (before ++ msg :: rest)) =
      let visited := step t (Mailbox.seqNumAt before.length) msg
      (next (own visited.1)).run (put visited.1 (before ++ visited.2 :: rest)))

include hsession hvisit

/-- A loop whose visits do to `put t l` what `step` does to `t` and to a message
of `l` is the sequential loop. -/
theorem run_loop (numSet : MessageSet) (before rest : List Message) (t : τ) :
    let result := forEachLoop tracker numSet step rest before.length t
    (loop (selectsAt selected session numSet) visit next rest before.length (own t)).run
        (put t (before ++ rest)) =
      (next (own result.1)).run (put result.1 (before ++ result.2)) := by
  induction rest generalizing before t with
  | nil => rfl
  | cons msg rest ih =>
    simp only [loop, Program.run, selectsAt, hsession, forEachLoop, id_eq]
    split_ifs with hselects
    · rw [hvisit]
      simpa using ih (before ++ [(step t (Mailbox.seqNumAt before.length) msg).2])
        (step t (Mailbox.seqNumAt before.length) msg).1
    · simpa using ih (before ++ [msg]) t

theorem run_forEachLocked {start : Mailbox → σ} {shared : Shared} (numSet : MessageSet) (first : τ)
    (hfirst : put first (shared.boxes selected).l = shared)
    (hown : own first = start (shared.boxes selected)) :
    let result := forEachLoop tracker
      (staticNumSet (shared.boxes selected) (shared.view selected session) numSet) step
      (shared.boxes selected).l 0 first
    (forEachLocked selected session numSet visit start next).run shared =
      (next (own result.1)).run (put result.1 result.2) := by
  have hrun := @run_loop selected σ τ session visit next tracker step own put hsession hvisit
    (staticNumSet (shared.boxes selected) (shared.view selected session) numSet) []
    (shared.boxes selected).l first
  rw [List.nil_append, hfirst, hown] at hrun
  exact hrun

end Loop

theorem run_searchLoop {session : SessionId} {numKind : NumKind} {found : SeqNum → Message → Bool}
    {next : SearchState → MailboxProgram} (shared : Shared) (l : List Message) (index : Nat)
    (state : SearchState) :
    (loop (fun _ _ _ => true) (searchVisit selected session numKind found) next l index state).run
        shared =
      (next (searchLoop (sessionOf (shared.boxes selected).tracker session) numKind
        found l index state)).run shared := by
  induction l generalizing index state with
  | nil => rfl
  | cons msg rest ih => exact ih _ _

variable [CaseMapping] (session : SessionId) (numSet : MessageSet) (shared : Shared)

theorem run_copyMsg (dest : MailboxId) (msg : Message) (now : Time)
    (next : AppendData → MailboxProgram) :
    (copyMsg dest msg now next).run shared = (next ((shared.boxes dest).copyMsg msg now).2).run
        (shared.setBox dest ((shared.boxes dest).copyMsg msg now).1) :=
  rfl

theorem run_forEachCopy (hne : selected ≠ dest) (now : Time) (next : List Nat → MailboxProgram) :
    let result := copyEach (shared.boxes selected) (shared.boxes dest)
      (shared.view selected session) numSet now
    (forEachCopy selected dest session numSet now next).run shared =
      (next result.copied).run (shared.setBox dest result.dest) := by
  refine run_forEachLocked (fun _ => sessionOf (shared.boxes selected).tracker session)
    (copyVisit now) CopyState.copied (fun t _ => shared.setBox dest t.dest) ?_ ?_ numSet ⟨_, [], []⟩
    (by simp) rfl
  · simp [setBox_boxes_of_ne hne]
  · simp [run_copyMsg, copyVisit]

end MailboxProgram

/-- A call that runs alone has the effect the sequential model gives it. -/
theorem Call.run_program [CaseMapping] (content : Content) (call : Call) (shared : Shared) :
    (call.program content shared).run shared = call.perform content shared := by
  cases call with
  | append destName buf options now =>
    cases hname : shared.names destName with
    | none => simp only [Call.program, Call.perform, hname, Program.run]
    | some dest =>
      simp only [Call.program, Call.perform, hname]
      rfl
  | copy selected session numSet destName now =>
    cases hdest : shared.destination selected destName with
    | error err =>
      simp [Call.program, Call.perform, Backend.copy, hdest, Program.run]
    | ok dest =>
      simp [Call.program, Call.perform, Backend.copy, hdest, MailboxProgram.copy, Program.run,
        MailboxProgram.run_forEachCopy _ _ _ (destination_ne hdest).symm]
  | move selected session numSet destName now =>
    cases hdest : shared.destination selected destName with
    | error err =>
      simp [Call.program, Call.perform, Backend.move, hdest, Program.run]
    | ok dest =>
      have hne := (destination_ne hdest).symm
      simp [Call.program, Call.perform, Backend.move, hdest, MailboxProgram.move, Program.run,
        MailboxProgram.run_forEachCopy _ _ _ hne, MailboxProgram.modify, Shared.modify,
        setBox_boxes_of_ne hne, moveMessages]
  | fetch selected session numSet options writeFails =>
    -- After each visit the mailbox is what the state of the sequential loop stands for.
    refine Eq.trans (MailboxProgram.run_forEachLocked
      (fun t : FetchState => sessionOf t.tracker session)
      (fetchVisit session options writeFails) (fun t => t)
      (fun t l => shared.setBox selected (t.store (shared.boxes selected) l)) ?_ ?_ numSet _ ?_ rfl)
      ?_
    · simp [FetchState.store]
    · simp [MailboxProgram.modify, Program.run, Shared.modify, FetchState.load, FetchState.store]
    · exact setBox_self shared selected
    · simp only [Program.run]
      split_ifs <;> rfl
  | store selected session numSet flags options =>
    refine Eq.trans (MailboxProgram.run_forEachLocked
      (fun t : StoreState => sessionOf t.tracker session)
      (storeVisit session flags options (uidSpace numSet options)) (fun t => t)
      (fun t l => shared.setBox selected (t.store (shared.boxes selected) l)) ?_ ?_ numSet _ ?_ rfl)
      ?_
    · simp [StoreState.store]
    · simp [MailboxProgram.modify, Program.run, Shared.modify, StoreState.load, StoreState.store]
    · exact setBox_self shared selected
    · simp only [Program.run]
      split_ifs <;> rfl
  | search selected session numKind criteria options =>
    simp only [Call.program, MailboxProgram.search, Program.run, id_eq,
      MailboxProgram.run_searchLoop, Call.perform, View.searchCriteria, View.search]
    split_ifs
    · rfl
    · simp [Shared.save, Shared.view]
  | expunge selected uids =>
    simp only [Call.program, Call.perform, MailboxProgram.expunge,
      Program.run, id_eq, Shared.modify, Mailbox.expunge]
    split_ifs with hnone
    · simp [Program.run]
    · rfl

/-! ## The pairs a program nests -/

namespace MailboxProgram

variable {pairs : MailboxId → MailboxId → Prop} {held : Set MailboxId}
  {now : Time} {numSet : MessageSet} {session : SessionId}

theorem nests_unlock {id : MailboxId} {next : MailboxProgram}
    (hfree : id ∉ held) (hnext : next.Nests pairs held) :
    Program.Nests pairs (.unlock id next) (insert id held) := by
  refine ⟨Set.mem_insert id held, ?_⟩
  rwa [Set.insert_sdiff_self_of_notMem hfree]

theorem nests_notifyEvent (id : MailboxId) (changed : Bool) :
    Program.Nests pairs (if changed then notifyEvent id else .done) ∅ := by
  split_ifs
  · exact ⟨by simp, nests_unlock (Set.notMem_empty id) rfl⟩
  · rfl

theorem nests_loop {σ : Type} {picks : Shared → Nat → Message → Bool} {visit : Visit σ}
    {next : σ → MailboxProgram} (hvisit : ∀ shared index msg state next,
      (∀ state, Program.Nests pairs (next state) held) →
        (visit shared index msg state next).Nests pairs held)
    (hnext : ∀ state, (next state).Nests pairs held) (l : List Message) (index : Nat) (state : σ) :
    (loop picks visit next l index state).Nests pairs held := by
  induction l generalizing index state with
  | nil => exact hnext state
  | cons msg rest ih =>
    intro shared
    dsimp only
    split_ifs
    · exact hvisit _ _ _ _ _ fun state => ih _ state
    · exact ih _ state

variable [CaseMapping]

theorem nests_appendBytes {buf : Bytes} {options : AppendOptions}
    {next : AppendData → MailboxProgram} (hfree : dest ∉ held)
    (hpairs : ∀ outer ∈ held, pairs outer dest) (hnext : ∀ data, (next data).Nests pairs held) :
    (appendBytes dest buf options now next).Nests pairs held :=
  ⟨hpairs, fun _ => nests_unlock hfree (hnext _)⟩

theorem nests_forEachCopy {next : List Nat → MailboxProgram} (hne : selected ≠ dest)
    (hpair : pairs selected dest)
    (hnext : ∀ copied, (next copied).Nests pairs (insert selected ∅)) :
    (forEachCopy selected dest session numSet now next).Nests pairs (insert selected ∅) := by
  refine fun _ => nests_loop (fun _ _ _ _ _ h => nests_appendBytes ?_ ?_ fun _ => h _) hnext _ _ _
  · simpa using hne.symm
  · simpa using hpair

theorem nests_copy (hne : selected ≠ dest) (hpair : pairs selected dest) :
    (copy selected dest session numSet now).Nests pairs ∅ :=
  ⟨by simp, nests_forEachCopy hne hpair fun _ => nests_unlock (Set.notMem_empty selected) rfl⟩

theorem nests_move (hne : selected ≠ dest) (hpair : pairs selected dest) :
    (move selected dest session numSet now).Nests pairs ∅ :=
  ⟨by simp, nests_forEachCopy hne hpair fun _ _ => nests_unlock (Set.notMem_empty selected) rfl⟩

theorem nests_search {content : Content} {numKind : NumKind} {criteria : SearchCriteria}
    {options : SearchOptions} :
    (search selected session content numKind criteria options).Nests pairs ∅ := by
  refine ⟨by simp, fun _ => nests_loop (fun _ _ _ _ _ h => h _) (fun _ => ?_) _ _ _⟩
  exact fun _ => nests_unlock (Set.notMem_empty _) rfl

theorem nests_expunge {uids : Option NumSet} : (expunge selected uids).Nests pairs ∅ := by
  refine ⟨by simp, fun shared => nests_unlock (Set.notMem_empty _) ?_⟩
  split_ifs
  · rfl
  · exact ⟨by simp, fun _ => nests_unlock (Set.notMem_empty _) rfl⟩

end MailboxProgram

theorem Call.task_nests [CaseMapping] (content : Content) (call : Call) (shared : Shared) :
    (call.task content shared).program.Nests (call.task content shared).pairs ∅ := by
  cases call with
  | append destName buf options now =>
    simp only [Call.task, Call.program]
    cases shared.names destName with
    | none => rfl
    | some dest =>
      exact MailboxProgram.nests_appendBytes (Set.notMem_empty dest) (by simp) fun _ => rfl
  | copy selected session numSet destName now =>
    simp only [Call.task, Call.program]
    cases hdest : shared.destination selected destName with
    | error err => rfl
    | ok dest =>
      exact MailboxProgram.nests_copy (destination_ne hdest).symm ⟨rfl, hdest⟩
  | move selected session numSet destName now =>
    simp only [Call.task, Call.program]
    cases hdest : shared.destination selected destName with
    | error err => rfl
    | ok dest =>
      exact MailboxProgram.nests_move (destination_ne hdest).symm ⟨rfl, hdest⟩
  | fetch | store =>
    refine ⟨by simp, fun _ => MailboxProgram.nests_loop ?_ (fun _ => ?_) _ _ _⟩
    · exact fun _ _ _ _ _ h _ => h _
    · exact MailboxProgram.nests_unlock (Set.notMem_empty _) (MailboxProgram.nests_notifyEvent _ _)
  | search => exact MailboxProgram.nests_search
  | expunge => exact MailboxProgram.nests_expunge

/-! ## Sessions that run at the same time -/

inductive SessionStep (count : Nat) where
  | start (session : Fin count) (call : Call)
  | advance (session : Fin count)

abbrev Sessions (count : Nat) := System (Fin count) MailboxId Shared

/-- A session starts a call, or goes on with the one it has started. -/
def Sessions.step [CaseMapping] (content : Content) (sessions : Sessions count) :
    SessionStep count → Sessions count
  | .start session call =>
    System.start sessions session (call.task content sessions.shared)
  | .advance session => System.advance sessions session

/-- A `Copy` or `Move` that is started closes no cycle of selected mailboxes
and destinations with those in progress. -/
def ClosesNoCycle (sessions : Sessions count) : SessionStep count → Prop
  | .start _ call => Acyclic fun outer inner =>
    sessions.Pairs outer inner ∨ call.Nested sessions.shared outer inner
  | .advance _ => True

theorem Sessions.step_disciplined [CaseMapping] (content : Content) (sessions : Sessions count)
    (step : SessionStep count) (h : sessions.Disciplined) (hguard : ClosesNoCycle sessions step) :
    (sessions.step content step).Disciplined := by
  cases step with
  | start session call =>
    exact h.start session (call.task_nests content sessions.shared) hguard
  | advance session => exact h.advance session

/--
In a run in which no `Copy` or `Move` closes a cycle when it starts, no state
has a set of sessions blocked on mailboxes held by one another.
-/
theorem sessions_never_deadlock [CaseMapping] (content : Content) (count : Nat)
    (shared : Shared) (schedule : List (SessionStep count))
    (h : Transition.Meets (Sessions.step content) ClosesNoCycle (System.initial shared) schedule) :
    ∀ sessions ∈ schedule.scanl (Sessions.step content) (System.initial shared),
      ∀ blocked : Set (Fin count), ¬System.Deadlocked sessions blocked := by
  intro sessions hsessions blocked
  have hdisciplined := Transition.invariant_of_meets System.Disciplined
    (Sessions.step_disciplined content) (initial_disciplined shared) h
  exact (hdisciplined sessions hsessions).not_deadlocked blocked

def twoMailboxes : Shared where
  names := fun name =>
    if name = ascii "A" then some 0 else if name = ascii "B" then some 1
    else none
  boxes := fun id =>
    (@Mailbox.appendBytes asciiCaseMapping (newMailbox (UInt32.ofNat (id + 1))) [] {} 0).1
  searchRes := fun _ _ => []

def copyFirst (selected : MailboxId) (destName : Bytes) : Call :=
  .copy selected 0 (.uidSet [⟨1, 1⟩]) destName 0

theorem acyclic_of_up {pairs : MailboxId → MailboxId → Prop}
    (h : ∀ outer inner, pairs outer inner → outer = 0 ∧ inner = 1) :
    Acyclic pairs := by
  intro id hcycle
  obtain ⟨next, hfirst, -⟩ := Relation.TransGen.head'_iff.mp hcycle
  obtain ⟨last, -, hlast⟩ := Relation.TransGen.tail'_iff.mp hcycle
  have hzero := (h _ _ hfirst).1
  have hone := (h _ _ hlast).2
  rw [hzero] at hone
  cases hone

theorem copyFirst_nested {outer inner : MailboxId}
    (h : (copyFirst 0 (ascii "B")).Nested twoMailboxes outer inner) :
    outer = 0 ∧ inner = 1 := by
  obtain ⟨houter, hdest⟩ := h
  have hname : twoMailboxes.destination 0 (ascii "B") = .ok 1 := rfl
  rw [hname] at hdest
  cases hdest
  exact ⟨houter, rfl⟩

def parallelCopies : List (SessionStep 2) :=
  [.start 0 (copyFirst 0 (ascii "B")), .start 1 (copyFirst 0 (ascii "B")), .advance 0, .advance 1]

theorem sessions_never_deadlock_parallelCopies :
    Transition.Meets (@Sessions.step 2 asciiCaseMapping noContent) ClosesNoCycle
        (System.initial twoMailboxes) parallelCopies ∧
      ∀ sessions ∈ parallelCopies.scanl (@Sessions.step 2 asciiCaseMapping noContent)
        (System.initial twoMailboxes),
        ∀ blocked : Set (Fin 2), ¬System.Deadlocked sessions blocked := by
  have hmeets : Transition.Meets (@Sessions.step 2 asciiCaseMapping noContent)
      ClosesNoCycle (System.initial twoMailboxes) parallelCopies := by
    refine ⟨acyclic_of_up ?_, acyclic_of_up ?_, trivial, trivial, trivial⟩
    · rintro outer inner (⟨session, hbusy, -⟩ | hpair)
      · cases hbusy
      · exact copyFirst_nested hpair
    · rintro outer inner (⟨session, hbusy, hpair⟩ | hpair)
      · match session with
        | 0 => exact copyFirst_nested hpair
        | 1 => cases hbusy
      · exact copyFirst_nested hpair
  exact ⟨hmeets, @sessions_never_deadlock asciiCaseMapping noContent 2 _ _ hmeets⟩

def crossingCopies : List (SessionStep 2) :=
  [.start 0 (copyFirst 0 (ascii "B")), .start 1 (copyFirst 1 (ascii "A")),
    .advance 0, .advance 1, .advance 0, .advance 1, .advance 0, .advance 1]

theorem crossingCopies_deadlock : System.Deadlocked
      (crossingCopies.foldl (@Sessions.step 2 asciiCaseMapping noContent)
        (System.initial twoMailboxes)) {0, 1} := by
  refine ⟨⟨0, by simp⟩, ?_⟩
  rintro session (rfl | rfl)
  · exact ⟨1, by decide, 1, by simp, by decide, by decide⟩
  · exact ⟨0, by decide, 0, by simp, by decide, by decide⟩

end GoImap.MemServer
