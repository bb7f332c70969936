import Mathlib.Data.Fintype.Order
import Mathlib.Data.Set.Basic
import Mathlib.Logic.Relation
import Mathlib.Order.WellFounded

/-!
# Threads that share locks

A program takes and releases mutexes and works on a shared state in between.
Threads run one task at a time and are interleaved at will.  A task comes with
the pairs of locks it may nest: it takes the second of a pair while it holds
the first.  As long as the pairs of the tasks in progress have no cycle, no set
of threads can wait for one another.
-/

namespace Locks

universe u v w

variable {Thread : Type u} {Lock : Type v} {State : Type w}

inductive Program (Lock : Type v) (State : Type w) where
  | done
  | lock (id : Lock) (next : Program Lock State)
  | unlock (id : Lock) (next : Program Lock State)
  | access (effect : State → State) (next : State → Program Lock State)

namespace Program

def wants : Program Lock State → Option Lock
  | .lock id _ => some id
  | _ => none

def finished : Program Lock State → Bool
  | .done => true
  | _ => false

def run : Program Lock State → State → State
  | .done, state => state
  | .lock _ next, state => next.run state
  | .unlock _ next, state => next.run state
  | .access effect next, state => (next state).run (effect state)

/-- Holding `held`, the program nests only the given pairs, releases only what
it holds, and ends with nothing held. -/
def Nests (pairs : Lock → Lock → Prop) : Program Lock State → Set Lock → Prop
  | .done, held => held = ∅
  | .lock id next, held =>
    (∀ outer ∈ held, pairs outer id) ∧ next.Nests pairs (insert id held)
  | .unlock id next, held => id ∈ held ∧ next.Nests pairs (held \ {id})
  | .access _ next, held => ∀ state, (next state).Nests pairs held

end Program

structure Task (Lock : Type v) (State : Type w) where
  pairs : Lock → Lock → Prop
  program : Program Lock State

structure System (Thread : Type u) (Lock : Type v) (State : Type w) where
  task : Thread → Task Lock State
  owner : Lock → Option Thread
  shared : State

namespace System

def initial (shared : State) : System Thread Lock State where
  task := fun _ =>
    { pairs := fun _ _ => False
      program := .done }
  owner := fun _ => none
  shared := shared

variable [DecidableEq Thread]

def proceed (system : System Thread Lock State) (thread : Thread) (program : Program Lock State)
    (owner : Lock → Option Thread) (shared : State) : System Thread Lock State where
  task := Function.update system.task thread { system.task thread with program := program }
  owner := owner
  shared := shared

def start (system : System Thread Lock State) (thread : Thread)
    (task : Task Lock State) : System Thread Lock State :=
  if (system.task thread).program.finished then
    { system with task := Function.update system.task thread task }
  else system

/-- One step of a thread; it stays where it is while its lock is taken. -/
def advance [DecidableEq Lock] (system : System Thread Lock State)
    (thread : Thread) : System Thread Lock State :=
  match (system.task thread).program with
  | .done => system
  | .lock id next =>
    match system.owner id with
    | some _ => system
    | none =>
      system.proceed thread next (Function.update system.owner id (some thread)) system.shared
  | .unlock id next =>
    system.proceed thread next (Function.update system.owner id none) system.shared
  | .access effect next =>
    system.proceed thread (next system.shared) system.owner (effect system.shared)

end System

def System.Pairs (system : System Thread Lock State) (outer inner : Lock) : Prop :=
  ∃ thread, (system.task thread).program.finished = false ∧ (system.task thread).pairs outer inner

def Acyclic (pairs : Lock → Lock → Prop) : Prop := ∀ id, ¬Relation.TransGen pairs id id

/-- Each of the threads waits for a lock another of them holds. -/
def System.Deadlocked (system : System Thread Lock State) (threads : Set Thread) : Prop :=
  threads.Nonempty ∧ ∀ thread ∈ threads, ∃ id, (system.task thread).program.wants = some id ∧
      ∃ holder ∈ threads, holder ≠ thread ∧ system.owner id = some holder

def System.held (system : System Thread Lock State) (thread : Thread) : Set Lock :=
  { id | system.owner id = some thread }

/-- Every thread keeps to the pairs of its task, and they have no cycle. -/
structure System.Disciplined (system : System Thread Lock State) : Prop where
  nests : ∀ thread, (system.task thread).program.Nests
    (system.task thread).pairs (system.held thread)
  acyclic : Acyclic system.Pairs

theorem Acyclic.mono {larger smaller : Lock → Lock → Prop} (h : Acyclic larger)
    (hle : ∀ outer inner, smaller outer inner → larger outer inner) :
    Acyclic smaller :=
  fun id hcycle => h id (Relation.TransGen.mono hle _ _ hcycle)

theorem finished_of_wants {program : Program Lock State} {id : Lock}
    (h : program.wants = some id) : program.finished = false := by
  cases program with
  | done => cases h
  | _ => rfl

theorem Program.Nests.wants {pairs : Lock → Lock → Prop} {program : Program Lock State}
    {held : Set Lock} {outer inner : Lock} (h : program.Nests pairs held)
    (hwants : program.wants = some inner) (hheld : outer ∈ held) : pairs outer inner := by
  cases program with
  | done => cases hwants
  | lock id next =>
    cases hwants
    exact h.1 outer hheld
  | unlock | access => cases hwants

/-! ## No deadlock under discipline -/

theorem System.Disciplined.not_deadlocked [Finite Thread] {system : System Thread Lock State}
    (h : system.Disciplined) (threads : Set Thread) : ¬system.Deadlocked threads := by
  rintro ⟨hsome, hblocked⟩
  -- A thread is below another if the lock it waits for is nested further in.
  let below : Thread → Thread → Prop := fun first second =>
    ∃ inner outer, (system.task first).program.wants = some inner ∧
      (system.task second).program.wants = some outer ∧
      Relation.TransGen system.Pairs outer inner
  have htrans : IsTrans Thread below := by
    constructor
    rintro first second third ⟨inner, middle, hinner, hmiddle, hfirst⟩
      ⟨middle', outer, hmiddle', houter, hsecond⟩
    rw [hmiddle] at hmiddle'
    cases hmiddle'
    exact ⟨inner, outer, hinner, houter, hsecond.trans hfirst⟩
  have hirrefl : Std.Irrefl below := by
    constructor
    rintro thread ⟨inner, outer, hinner, houter, hcycle⟩
    rw [hinner] at houter
    cases houter
    exact h.acyclic inner hcycle
  have hfounded := Finite.wellFounded_of_trans_of_irrefl below
  obtain ⟨thread, hthread, hleast⟩ := hfounded.has_min threads hsome
  obtain ⟨outer, houter, holder, hholder, -, howner⟩ := hblocked thread hthread
  obtain ⟨inner, hinner, -⟩ := hblocked holder hholder
  have hpair := (h.nests holder).wants hinner howner
  exact hleast holder hholder ⟨inner, outer, hinner, houter,
    .single ⟨holder, finished_of_wants hinner, hpair⟩⟩

/-! ## Discipline is kept -/

theorem initial_disciplined (shared : State) :
    (System.initial shared : System Thread Lock State).Disciplined := by
  constructor
  · intro thread
    simp [System.initial, System.held, Program.Nests]
  · intro id hcycle
    obtain ⟨next, ⟨thread, hbusy, -⟩, -⟩ := Relation.TransGen.head'_iff.mp hcycle
    cases hbusy

section

variable [DecidableEq Thread] {system : System Thread Lock State}

theorem System.Disciplined.start (h : system.Disciplined) (thread : Thread) {task : Task Lock State}
    (hnests : task.program.Nests task.pairs ∅)
    (hacyclic : Acyclic fun outer inner => system.Pairs outer inner ∨ task.pairs outer inner) :
    (system.start thread task).Disciplined := by
  unfold System.start
  split_ifs with hidle
  · have hfree : system.held thread = ∅ := by
      have hdone := h.nests thread
      cases hprogram : (system.task thread).program with
      | done =>
        rw [hprogram] at hdone
        exact hdone
      | _ => simp [hprogram, Program.finished] at hidle
    constructor
    · intro other
      by_cases hsame : other = thread
      · subst hsame
        simp only [Function.update_self]
        change task.program.Nests task.pairs (system.held other)
        rw [hfree]
        exact hnests
      · simp only [Function.update_of_ne hsame]
        exact h.nests other
    · refine hacyclic.mono ?_
      rintro outer inner ⟨other, hbusy, hpair⟩
      by_cases hsame : other = thread
      · subst hsame
        simp only [Function.update_self] at hpair
        exact .inr hpair
      · simp only [Function.update_of_ne hsame] at hbusy hpair
        exact .inl ⟨other, hbusy, hpair⟩
  · exact h

theorem System.Disciplined.proceed (h : system.Disciplined) {thread : Thread}
    {program : Program Lock State} {owner : Lock → Option Thread} {shared : State}
    (hbusy : (system.task thread).program.finished = false)
    (hnests : program.Nests (system.task thread).pairs { id | owner id = some thread })
    (hothers : ∀ other ≠ thread, ∀ id, owner id = some other ↔ system.owner id = some other) :
    (system.proceed thread program owner shared).Disciplined := by
  constructor
  · intro other
    by_cases hsame : other = thread
    · subst hsame
      simp only [System.proceed, Function.update_self]
      exact hnests
    · have hheld := Set.ext (hothers other hsame)
      simp only [System.proceed, Function.update_of_ne hsame]
      change Program.Nests _ _ { id | owner id = some other }
      rw [hheld]
      exact h.nests other
  · refine h.acyclic.mono ?_
    rintro outer inner ⟨other, hother, hpair⟩
    by_cases hsame : other = thread
    · subst hsame
      simp only [System.proceed, Function.update_self] at hpair
      exact ⟨other, hbusy, hpair⟩
    · simp only [System.proceed, Function.update_of_ne hsame] at hother hpair
      exact ⟨other, hother, hpair⟩

theorem System.Disciplined.advance [DecidableEq Lock] (h : system.Disciplined)
    (thread : Thread) : (system.advance thread).Disciplined := by
  have hthread := h.nests thread
  unfold System.advance
  cases hprogram : (system.task thread).program with
  | done => exact h
  | lock id next =>
    rw [hprogram] at hthread
    simp only
    cases howner : system.owner id with
    | some holder => exact h
    | none =>
      refine h.proceed (by rw [hprogram]; rfl) ?_ ?_
      · have hheld : { other | Function.update system.owner id
            (some thread) other = some thread } =
            insert id (system.held thread) := by
          ext other
          by_cases hsame : other = id
          · simp [hsame]
          · simp [hsame, System.held]
        rw [hheld]
        exact hthread.2
      · intro other hne free
        by_cases hsame : free = id
        · subst hsame
          simp [howner, hne.symm]
        · simp [hsame]
  | unlock id next =>
    rw [hprogram] at hthread
    refine h.proceed (by rw [hprogram]; rfl) ?_ ?_
    · have hheld : { other | Function.update system.owner id none other =
          some thread } = system.held thread \ {id} := by
        ext other
        by_cases hsame : other = id
        · simp [hsame]
        · simp [hsame, System.held]
      rw [hheld]
      exact hthread.2
    · intro other hne freed
      by_cases hsame : freed = id
      · subst hsame
        have howner : system.owner freed = some thread := hthread.1
        simp [howner, hne.symm]
      · simp [hsame]
  | access effect next =>
    rw [hprogram] at hthread
    refine h.proceed (by rw [hprogram]; rfl) (hthread _) ?_
    intro other _ id
    rfl

end

end Locks
