import Mathlib.Data.List.Basic
import Mathlib.Logic.Relation
import Mathlib.Tactic.Common

/-!
# Invariants of transition systems

A system is either a relation between states or a function that performs one
labelled step.  An invariant is proved for one step and then holds in every
state a run reaches.  For labelled systems the steps may be guarded: the run
is followed only while each label meets its guard in the state it is taken
from.
-/

namespace Transition

universe u v

variable {State : Type u} {Label : Type v} {start : State}
  {step : State → Label → State} {labels : List Label}
  {guard : State → Label → Prop}

theorem invariant_of_step {Step : State → State → Prop} (Inv : State → Prop)
    (hstep : ∀ first second, Step first second → Inv first → Inv second) {finish : State}
    (hrun : Relation.ReflTransGen Step start finish) (hstart : Inv start) : Inv finish := by
  induction hrun with
  | refl => exact hstart
  | tail _ hlast ih => exact hstep _ _ hlast ih

def Meets (step : State → Label → State) (guard : State → Label → Prop) : State → List Label → Prop
  | _, [] => True
  | state, label :: rest =>
    guard state label ∧ Meets step guard (step state label) rest

instance decidableMeets (step : State → Label → State) (guard : State → Label → Prop)
    [∀ state label, Decidable (guard state label)] :
    ∀ start labels, Decidable (Meets step guard start labels)
  | _, [] => isTrue trivial
  | start, label :: rest =>
    have := decidableMeets step guard (step start label) rest
    inferInstanceAs (Decidable (_ ∧ _))

theorem meets_and {first second : State → Label → Prop} (hfirst : Meets step first start labels)
    (hsecond : Meets step second start labels) :
    Meets step (fun state label => first state label ∧ second state label)
      start labels := by
  induction labels generalizing start with
  | nil => trivial
  | cons label rest ih =>
    exact ⟨⟨hfirst.1, hsecond.1⟩, ih hfirst.2 hsecond.2⟩

theorem invariant_of_meets (Inv : State → Prop)
    (hstep : ∀ state label, Inv state → guard state label → Inv (step state label))
    (hstart : Inv start) (hmeets : Meets step guard start labels) :
    ∀ state ∈ labels.scanl step start, Inv state := by
  induction labels generalizing start with
  | nil => simpa using hstart
  | cons label rest ih =>
    obtain ⟨hguard, hrest⟩ := hmeets
    intro state hstate
    rw [List.scanl_cons, List.mem_cons] at hstate
    rcases hstate with rfl | hstate
    · exact hstart
    · exact ih (hstep _ _ hstart hguard) hrest state hstate

theorem forall_scanl_iff {Inv : State → Prop} (hstart : Inv start) :
    (∀ state ∈ labels.scanl step start, Inv state) ↔
      Meets step (fun state label => Inv (step state label)) start labels := by
  induction labels generalizing start with
  | nil => simpa [Meets] using hstart
  | cons label rest ih =>
    rw [List.scanl_cons, List.forall_mem_cons, Meets]
    constructor
    · rintro ⟨-, hrest⟩
      have hnext : Inv (step start label) := hrest _ (by cases rest <;> simp)
      exact ⟨hnext, (ih hnext).mp hrest⟩
    · exact fun ⟨hnext, hrest⟩ => ⟨hstart, (ih hnext).mpr hrest⟩

theorem meets_of_invariant (Inv : State → Prop)
    (hstep : ∀ state label, Inv state → guard state label ∧ Inv (step state label))
    (hstart : Inv start) (labels : List Label) : Meets step guard start labels := by
  induction labels generalizing start with
  | nil => trivial
  | cons label rest ih =>
    obtain ⟨hguard, hnext⟩ := hstep start label hstart
    exact ⟨hguard, ih hnext⟩

theorem foldl_of_meets (Inv : State → Prop)
    (hstep : ∀ state label, Inv state → guard state label → Inv (step state label))
    (hstart : Inv start) (hmeets : Meets step guard start labels) :
    Inv (labels.foldl step start) := by
  refine invariant_of_meets Inv hstep hstart hmeets _ ?_
  rw [← List.getLast_scanl List.scanl_ne_nil]
  exact List.getLast_mem _

/-- A preorder that relates the two states of each step relates every state of
a run to the last one. -/
theorem related_of_meets (Inv : State → Prop) (Before : State → State → Prop)
    (hrefl : ∀ state, Before state state)
    (htrans : ∀ first second third, Before first second → Before second third → Before first third)
    (hstep : ∀ state label, Inv state → guard state label →
      Inv (step state label) ∧ Before state (step state label))
    (hstart : Inv start) (hmeets : Meets step guard start labels) :
    ∀ state ∈ labels.scanl step start, Before state (labels.foldl step start) := by
  induction labels generalizing start with
  | nil =>
    intro state hstate
    rw [List.scanl_nil, List.mem_singleton] at hstate
    exact hstate ▸ hrefl start
  | cons label rest ih =>
    obtain ⟨hguard, hrest⟩ := hmeets
    obtain ⟨hnext, hbefore⟩ := hstep start label hstart hguard
    have hlater := ih hnext hrest
    intro state hstate
    rw [List.scanl_cons, List.mem_cons] at hstate
    rcases hstate with rfl | hstate
    · refine htrans _ _ _ hbefore (hlater _ ?_)
      cases rest <;> simp
    · exact hlater state hstate

theorem meets_concat {label : Label} :
    Meets step guard start (labels ++ [label]) ↔ Meets step guard start labels ∧
        guard (labels.foldl step start) label := by
  induction labels generalizing start with
  | nil => simp [Meets]
  | cons first rest ih =>
    rw [List.cons_append, Meets, Meets, ih, List.foldl_cons, and_assoc]

theorem meets_iff_of_invariant {first second : State → Label → Prop} (Inv : State → Prop)
    (hagree : ∀ state label, Inv state → (first state label ↔ second state label))
    (hstep : ∀ state label, Inv state → second state label → Inv (step state label))
    (hstart : Inv start) (labels : List Label) :
    Meets step first start labels ↔ Meets step second start labels := by
  induction labels generalizing start with
  | nil => exact Iff.rfl
  | cons label rest ih =>
    rw [Meets, Meets, hagree start label hstart]
    constructor
    · rintro ⟨hguard, hrest⟩
      exact ⟨hguard, (ih (hstep _ _ hstart hguard)).mp hrest⟩
    · rintro ⟨hguard, hrest⟩
      exact ⟨hguard, (ih (hstep _ _ hstart hguard)).mpr hrest⟩

/-- Every run is bounded, and ends in such a state. -/
def Ends (step : State → Label → State) (guard : State → Label → Prop) (start : State)
    (P : State → Prop) : Prop :=
  (∃ bound, ∀ labels, Meets step guard start labels → labels.length ≤ bound) ∧
    ∀ labels, Meets step guard start labels →
      (∀ label, ¬guard (labels.foldl step start) label) → P (labels.foldl step start)

theorem ends_of_measure {P : State → Prop} (measure : State → Nat) (Inv : State → Prop)
    (hstep : ∀ state label, Inv state → guard state label →
      Inv (step state label) ∧ measure (step state label) < measure state)
    (hend : ∀ state, Inv state → (∀ label, ¬guard state label) → P state) (hstart : Inv start) :
    Ends step guard start P := by
  refine ⟨⟨measure start, fun labels hmeets => ?_⟩, fun labels hmeets => hend _ ?_⟩
  · induction labels generalizing start with
    | nil => exact Nat.zero_le _
    | cons label rest ih =>
      obtain ⟨hnext, hless⟩ := hstep _ _ hstart hmeets.1
      exact Nat.lt_of_le_of_lt (ih hnext hmeets.2) hless
  · exact foldl_of_meets Inv (fun state label h hguard => (hstep state label h hguard).1)
      hstart hmeets

theorem Ends.exists_last {P : State → Prop} (h : Ends step guard start P) :
    ∃ labels, Meets step guard start labels ∧ P (labels.foldl step start) := by
  obtain ⟨⟨bound, hbound⟩, hlast⟩ := h
  by_contra hnone
  have hlonger : ∀ n, ∃ labels, Meets step guard start labels ∧ labels.length = n := by
    intro n
    induction n with
    | zero => exact ⟨[], trivial, rfl⟩
    | succ n ih =>
      obtain ⟨labels, hmeets, hlength⟩ := ih
      by_cases hstuck : ∀ label, ¬guard (labels.foldl step start) label
      · exact absurd ⟨labels, hmeets, hlast labels hmeets hstuck⟩ hnone
      · obtain ⟨label, hguard⟩ := not_forall_not.mp hstuck
        exact ⟨labels ++ [label], meets_concat.mpr ⟨hmeets, hguard⟩, by simp [hlength]⟩
  obtain ⟨labels, hmeets, hlength⟩ := hlonger (bound + 1)
  have hle := hbound labels hmeets
  omega

end Transition
