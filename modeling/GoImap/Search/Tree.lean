import GoImap.Search.Criteria
import Mathlib.Data.List.Basic
import Mathlib.Order.MinMax

/-!
# Criteria as trees

Criteria have criteria under `Not` and `Or`.  What is done to the fields at
every place of this tree, and what is asked of them, is said once for the
fields of one place.
-/

namespace GoImap.SearchCriteria

theorem tree_induction {P : SearchCriteria → Prop}
    (h : ∀ fields not or, (∀ criteria ∈ not, P criteria) →
      (∀ pair ∈ or, P pair.1 ∧ P pair.2) → P (mk fields not or))
    (criteria : SearchCriteria) : P criteria :=
  @SearchCriteria.rec P (fun not => ∀ criteria ∈ not, P criteria)
    (fun or => ∀ pair ∈ or, P pair.1 ∧ P pair.2) (fun pair => P pair.1 ∧ P pair.2) h
    (List.forall_mem_nil _) (fun _ _ hfirst hrest => List.forall_mem_cons.mpr ⟨hfirst, hrest⟩)
    (List.forall_mem_nil _) (fun _ _ hfirst hrest => List.forall_mem_cons.mpr ⟨hfirst, hrest⟩)
    (fun _ _ => And.intro) criteria

/-! ## Changing all fields -/

section MapFields

variable (f g : SearchFields → SearchFields)

mutual

def mapFields : SearchCriteria → SearchCriteria
  | mk fields not or => mk (f fields) (mapNot not) (mapOr or)

def mapNot : List SearchCriteria → List SearchCriteria
  | [] => []
  | first :: rest => mapFields first :: mapNot rest

def mapOr : List (SearchCriteria × SearchCriteria) → List (SearchCriteria × SearchCriteria)
  | [] => []
  | first :: rest => mapPair first :: mapOr rest

def mapPair : SearchCriteria × SearchCriteria → SearchCriteria × SearchCriteria
  | (left, right) => (mapFields left, mapFields right)

end

theorem mapNot_eq (not : List SearchCriteria) : mapNot f not = not.map (mapFields f) := by
  induction not with
  | nil => rfl
  | cons first rest ih => rw [mapNot, ih, List.map_cons]

theorem mapOr_eq (or : List (SearchCriteria × SearchCriteria)) : mapOr f or =
      or.map fun pair => (mapFields f pair.1, mapFields f pair.2) := by
  induction or with
  | nil => rfl
  | cons first rest ih => rw [mapOr, ih, List.map_cons, mapPair]

theorem mapFields_mk (fields : SearchFields) (not : List SearchCriteria)
    (or : List (SearchCriteria × SearchCriteria)) :
    mapFields f (mk fields not or) = mk (f fields) (not.map (mapFields f))
        (or.map fun pair => (mapFields f pair.1, mapFields f pair.2)) := by
  rw [mapFields, mapNot_eq, mapOr_eq]

theorem mapFields_mapFields (criteria : SearchCriteria) :
    mapFields g (mapFields f criteria) = mapFields (g ∘ f) criteria := by
  induction criteria using tree_induction with
  | h fields not or hnot hor =>
    have hpairs : ∀ pair ∈ or,
        (mapFields g (mapFields f pair.1), mapFields g (mapFields f pair.2)) =
          (mapFields (g ∘ f) pair.1, mapFields (g ∘ f) pair.2) :=
      fun pair hpair => Prod.ext (hor pair hpair).1 (hor pair hpair).2
    simp only [mapFields_mk, List.map_map]
    exact congrArg₂ (mk _) (List.map_congr_left hnot) (List.map_congr_left hpairs)

end MapFields

/-! ## Asking something of all fields -/

mutual

def allFields : SearchCriteria → List SearchFields
  | mk fields not or => fields :: (fieldsNot not ++ fieldsOr or)

def fieldsNot : List SearchCriteria → List SearchFields
  | [] => []
  | first :: rest => allFields first ++ fieldsNot rest

def fieldsOr : List (SearchCriteria × SearchCriteria) → List SearchFields
  | [] => []
  | first :: rest => fieldsPair first ++ fieldsOr rest

def fieldsPair : SearchCriteria × SearchCriteria → List SearchFields
  | (left, right) => allFields left ++ allFields right

end

section AllFields

variable {P : SearchFields → Prop}

theorem forall_mem_fieldsNot {not : List SearchCriteria} : (∀ fields ∈ fieldsNot not, P fields) ↔
      ∀ criteria ∈ not, ∀ fields ∈ criteria.allFields, P fields := by
  induction not with
  | nil => simp [fieldsNot]
  | cons first rest ih =>
    rw [fieldsNot, List.forall_mem_append, ih, List.forall_mem_cons]

theorem forall_mem_fieldsOr {or : List (SearchCriteria × SearchCriteria)} :
    (∀ fields ∈ fieldsOr or, P fields) ↔ ∀ pair ∈ or, (∀ fields ∈ pair.1.allFields, P fields) ∧
        ∀ fields ∈ pair.2.allFields, P fields := by
  induction or with
  | nil => simp [fieldsOr]
  | cons first rest ih =>
    rw [fieldsOr, List.forall_mem_append, ih, List.forall_mem_cons,
      fieldsPair, List.forall_mem_append]

theorem forall_mem_allFields {fields : SearchFields} {not : List SearchCriteria}
    {or : List (SearchCriteria × SearchCriteria)} :
    (∀ other ∈ (mk fields not or).allFields, P other) ↔ P fields ∧
        (∀ criteria ∈ not, ∀ other ∈ criteria.allFields, P other) ∧
        ∀ pair ∈ or, (∀ other ∈ pair.1.allFields, P other) ∧
          ∀ other ∈ pair.2.allFields, P other := by
  rw [allFields, List.forall_mem_cons, List.forall_mem_append,
    forall_mem_fieldsNot, forall_mem_fieldsOr]

end AllFields

theorem mapFields_eq_self {f : SearchFields → SearchFields} {criteria : SearchCriteria}
    (h : ∀ fields ∈ criteria.allFields, f fields = fields) :
    mapFields f criteria = criteria := by
  induction criteria using tree_induction with
  | h fields not or hnot hor =>
    obtain ⟨hfields, hbelow, hpairs⟩ := forall_mem_allFields.mp h
    have hnots := (List.map_congr_left fun criteria hmem =>
        hnot criteria hmem (hbelow criteria hmem)).trans (List.map_id not)
    have hors : (or.map fun pair =>
        (mapFields f pair.1, mapFields f pair.2)) = or :=
      (List.map_congr_left fun pair hmem => Prod.ext ((hor pair hmem).1 (hpairs pair hmem).1)
        ((hor pair hmem).2 (hpairs pair hmem).2)).trans (List.map_id or)
    rw [mapFields_mk, hfields, hnots, hors]

/-! ## Depth -/

mutual

def depth : SearchCriteria → Nat
  | mk _ not or => max (depthNot not) (depthOr or)

def depthNot : List SearchCriteria → Nat
  | [] => 0
  | first :: rest => max (depth first + 1) (depthNot rest)

def depthOr : List (SearchCriteria × SearchCriteria) → Nat
  | [] => 0
  | first :: rest => max (depthPair first + 1) (depthOr rest)

def depthPair : SearchCriteria × SearchCriteria → Nat
  | (left, right) => max (depth left) (depth right)

end

variable {n : Nat}

theorem depthNot_le_iff {not : List SearchCriteria} :
    depthNot not ≤ n ↔ ∀ criteria ∈ not, criteria.depth + 1 ≤ n := by
  induction not with
  | nil => simp [depthNot]
  | cons first rest ih => rw [depthNot, max_le_iff, ih, List.forall_mem_cons]

theorem depthOr_le_iff {or : List (SearchCriteria × SearchCriteria)} :
    depthOr or ≤ n ↔ ∀ pair ∈ or, pair.1.depth + 1 ≤ n ∧ pair.2.depth + 1 ≤ n := by
  induction or with
  | nil => simp [depthOr]
  | cons first rest ih =>
    rw [depthOr, max_le_iff, ih, List.forall_mem_cons, depthPair]
    refine and_congr ?_ Iff.rfl
    omega

theorem depth_le_iff {fields : SearchFields} {not : List SearchCriteria}
    {or : List (SearchCriteria × SearchCriteria)} :
    (mk fields not or).depth ≤ n ↔ (∀ criteria ∈ not, criteria.depth + 1 ≤ n) ∧
        ∀ pair ∈ or, pair.1.depth + 1 ≤ n ∧ pair.2.depth + 1 ≤ n := by
  rw [depth, max_le_iff, depthNot_le_iff, depthOr_le_iff]

end GoImap.SearchCriteria
