import Mathlib.Data.List.Basic
import Mathlib.Order.RelClasses

/-!
# Finite maps

A finite map is the list of its entries in the order of their keys, so two maps
with the same entries are equal.
-/

/-- The order is strict, so no key comes twice. -/
@[ext] structure SortedMap (κ α : Type) [LT κ] where
  entries : List (κ × α)
  sorted : entries.Pairwise (·.1 < ·.1)

namespace SortedMap

variable {κ α : Type} [LT κ]

def empty : SortedMap κ α := ⟨[], .nil⟩

section Insert

variable [DecidableLT κ] [DecidableEq κ] (key : κ) (value : α)

def insertEntry : List (κ × α) → List (κ × α)
  | [] => [(key, value)]
  | (other, old) :: rest =>
    if key < other then (key, value) :: (other, old) :: rest
    else if key = other then (key, value) :: rest
    else (other, old) :: insertEntry rest

theorem mem_insertEntry {entry : κ × α} {entries : List (κ × α)}
    (h : entry ∈ insertEntry key value entries) :
    entry = (key, value) ∨ entry ∈ entries := by
  induction entries with
  | nil => exact .inl (List.mem_singleton.mp h)
  | cons first rest ih =>
    rw [insertEntry] at h
    split_ifs at h with hlt heq
    · exact List.mem_cons.mp h
    · exact (List.mem_cons.mp h).imp id (List.mem_cons_of_mem _)
    · rcases List.mem_cons.mp h with rfl | h
      · exact .inr List.mem_cons_self
      · exact (ih h).imp id (List.mem_cons_of_mem _)

theorem insertEntry_last {entries : List (κ × α)} [Std.Asymm (· < · : κ → κ → Prop)]
    (h : ∀ entry ∈ entries, entry.1 < key) :
    insertEntry key value entries = entries ++ [(key, value)] := by
  induction entries with
  | nil => rfl
  | cons first rest ih =>
    obtain ⟨hfirst, hrest⟩ := List.forall_mem_cons.mp h
    have hnot := Std.Asymm.asymm _ _ hfirst
    have hne : key ≠ first.1 := by
      rintro rfl
      exact hnot hfirst
    rw [insertEntry, if_neg hnot, if_neg hne, ih hrest, List.cons_append]

variable [Trans (· < · : κ → κ → Prop) (· < · : κ → κ → Prop) (· < · : κ → κ → Prop)]
  [Std.Trichotomous (· < · : κ → κ → Prop)]

theorem insertEntry_sorted {entries : List (κ × α)} (h : entries.Pairwise (·.1 < ·.1)) :
    (insertEntry key value entries).Pairwise (·.1 < ·.1) := by
  induction entries with
  | nil => simp [insertEntry]
  | cons first rest ih =>
    obtain ⟨hfirst, hrest⟩ := List.pairwise_cons.mp h
    rw [insertEntry]
    split_ifs with hlt heq
    · refine List.pairwise_cons.mpr ⟨?_, h⟩
      exact List.forall_mem_cons.mpr
        ⟨hlt, fun entry hentry => Trans.trans hlt (hfirst entry hentry)⟩
    · subst heq
      exact List.pairwise_cons.mpr ⟨hfirst, hrest⟩
    · refine List.pairwise_cons.mpr ⟨fun entry hentry => ?_, ih hrest⟩
      rcases mem_insertEntry key value hentry with rfl | hentry
      · by_contra hge
        exact heq (Std.Trichotomous.trichotomous _ _ hlt hge)
      · exact hfirst entry hentry

def insert (map : SortedMap κ α) : SortedMap κ α :=
  ⟨insertEntry key value map.entries, insertEntry_sorted key value map.sorted⟩

end Insert

theorem foldl_insert [DecidableLT κ] [DecidableEq κ]
    [Trans (· < · : κ → κ → Prop) (· < · : κ → κ → Prop) (· < · : κ → κ → Prop)]
    [Std.Asymm (· < · : κ → κ → Prop)] [Std.Trichotomous (· < · : κ → κ → Prop)]
    (map : SortedMap κ α) :
    map.entries.foldl (fun (made : SortedMap κ α) entry =>
      made.insert entry.1 entry.2) empty = map := by
  have hfold : ∀ (more : List (κ × α)) (made : SortedMap κ α),
      (made.entries ++ more).Pairwise (·.1 < ·.1) →
      (more.foldl (fun (made : SortedMap κ α) entry =>
        made.insert entry.1 entry.2) made).entries = made.entries ++ more := by
    intro more
    induction more with
    | nil => simp
    | cons entry more ih =>
      intro made hsorted
      have hlast : (made.insert entry.1 entry.2).entries = made.entries ++ [entry] :=
        insertEntry_last _ _ fun other hother =>
          (List.pairwise_append.mp hsorted).2.2 other hother entry List.mem_cons_self
      rw [List.foldl_cons, ih, hlast, List.append_assoc]
      · rfl
      · rw [hlast, List.append_assoc]
        exact hsorted
  exact SortedMap.ext (hfold map.entries empty map.sorted)

end SortedMap
