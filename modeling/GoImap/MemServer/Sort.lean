import GoImap.MemServer.Intersection
import Mathlib.Data.List.Sort

/-!
# SORT

`Less` compares two messages by the criteria, one after the other, and by their
UIDs where the criteria do not tell them apart.  `sort.Sort` may use any
algorithm; the order is total, so all of them come to the same list.
-/

namespace GoImap.MemServer

open Std

inductive SortKey where
  | arrival
  | cc
  | date
  | displayFrom
  | displayTo
  | fromAddress
  | size
  | subject
  | to
  deriving DecidableEq, Repr

structure SortCriterion where
  key : SortKey
  reverse : Bool
  deriving DecidableEq, Repr

/-- What is found in the header of a message: a field, the subject, and name
and address at the front of a list that can be read and is not empty. -/
structure SortHeader where
  get : Bytes → Bytes → Bytes
  subject : Bytes → Bytes
  firstAddress : Bytes → Bytes → Option (Bytes × Bytes)

namespace SortHeader

variable (header : SortHeader) (field : Bytes) (msg : Message)

def address : Bytes :=
  match header.firstAddress msg.buf field with
  | some (_, address) => address
  | none => []

def display : Bytes :=
  match header.firstAddress msg.buf field with
  | some (name, address) => if name ≠ [] then name else address
  | none => []

end SortHeader

section

variable (content : Content) (header : SortHeader)

def SortKey.compare : SortKey → Message → Message → Ordering
  | .arrival => compareOn Message.t
  | .cc => compareOn fun msg => header.get msg.buf (ascii "Cc")
  | .date => compareOn fun msg => (content.date msg.buf).getD 0
  | .displayFrom => compareOn (header.display (ascii "From"))
  | .displayTo => compareOn (header.display (ascii "To"))
  | .fromAddress => compareOn (header.address (ascii "From"))
  | .size => compareOn Message.size
  | .subject => compareOn fun msg => header.subject msg.buf
  | .to => compareOn fun msg => header.get msg.buf (ascii "To")

def less : List SortCriterion → Message → Message → Bool
  | [], first, second => first.uid < second.uid
  | criterion :: rest, first, second =>
    match criterion.key.compare content header first second with
    | .lt => !criterion.reverse
    | .gt => criterion.reverse
    | .eq => less rest first second

def sortMessages (criteria : List SortCriterion) (msgs : List Message) : List Message :=
  msgs.mergeSort fun first second => !less content header criteria second first

/-! ## The order -/

def SortCriterion.compare (criterion : SortCriterion) (first second : Message) : Ordering :=
  if criterion.reverse then criterion.key.compare content header second first
  else criterion.key.compare content header first second

def order : List SortCriterion → Message → Message → Ordering
  | [] => compareOn Message.uid
  | criterion :: rest => compareLex (criterion.compare content header) (order rest)

end

variable {content : Content} {header : SortHeader}

instance (key : SortKey) : TransCmp (key.compare content header) := by
  cases key <;> exact inferInstanceAs (TransCmp (compareOn _))

instance (criterion : SortCriterion) : TransCmp (criterion.compare content header) := by
  unfold SortCriterion.compare
  cases criterion.reverse with
  | true => exact inferInstanceAs (TransCmp fun first second =>
      criterion.key.compare content header second first)
  | false => exact inferInstanceAs (TransCmp (criterion.key.compare content header))

instance order_trans : (criteria : List SortCriterion) → TransCmp (order content header criteria)
  | [] => inferInstanceAs (TransCmp (compareOn Message.uid))
  | _ :: rest =>
    have := order_trans rest
    inferInstanceAs (TransCmp (compareLex _ _))

theorem less_iff (criteria : List SortCriterion) (first second : Message) :
    less content header criteria first second = true ↔
      order content header criteria first second = .lt := by
  induction criteria with
  | nil => simp [less, order, compareOn, Std.compare_eq_lt]
  | cons criterion rest ih =>
    have hswap := @OrientedCmp.eq_swap _ (criterion.key.compare content header) _ second first
    rw [less, order, compareLex, SortCriterion.compare, hswap]
    cases criterion.key.compare content header first second <;>
      cases criterion.reverse <;> simp [ih]

theorem not_less (criteria : List SortCriterion) (first second : Message) :
    (!less content header criteria second first) =
      (order content header criteria first second).isLE := by
  have hswap := @OrientedCmp.eq_swap _ (order content header criteria) _ second first
  rw [Bool.eq_iff_iff, Bool.not_eq_true', ← Bool.not_eq_true, less_iff, hswap]
  cases order content header criteria first second <;> simp

theorem uid_eq_of_order (criteria : List SortCriterion) {first second : Message}
    (h : order content header criteria first second = .eq) : first.uid = second.uid := by
  induction criteria with
  | nil => exact compare_eq_iff_eq.mp h
  | cons criterion rest ih => exact ih (compareLex_eq_eq.mp h).2

theorem isLE_total (criteria : List SortCriterion) (first second : Message) :
    ((order content header criteria first second).isLE ||
      (order content header criteria second first).isLE) = true := by
  rw [@OrientedCmp.eq_swap _ (order content header criteria) _ second first]
  cases order content header criteria first second <;> rfl

/-- Whatever way the messages are sorted, the list is that of `sortMessages`. -/
theorem sortMessages_unique (content : Content) (header : SortHeader)
    (criteria : List SortCriterion) (msgs : List Message)
    (hdistinct : (msgs.map Message.uid).Nodup) (sorted : List Message) :
    sorted.Perm msgs ∧ sorted.Pairwise (fun first second =>
        less content header criteria second first = false) ↔
      sorted = sortMessages content header criteria msgs := by
  simp only [sortMessages, ← Bool.not_eq_true', not_less]
  have hperm := List.mergeSort_perm msgs fun first second =>
    (order content header criteria first second).isLE
  have hle := List.pairwise_mergeSort (fun _ _ _ => TransCmp.isLE_trans)
    (@isLE_total content header criteria) msgs
  constructor
  · rintro ⟨hsorted, hordered⟩
    refine List.Perm.eq_of_pairwise ?_ hordered hle (hsorted.trans hperm.symm)
    intro first second hfirst hsecond hlt hgt
    exact List.inj_on_of_nodup_map hdistinct (hsorted.mem_iff.mp hfirst)
      (hperm.mem_iff.mp hsecond) (uid_eq_of_order criteria (OrientedCmp.isLE_antisymm hlt hgt))
  · rintro rfl
    exact ⟨hperm, hle⟩

def emptyAndTen : List Message := [{ tenOctets with uid := 2, buf := [] }, tenOctets]

theorem sortMessages_unique_largestFirst :
    (emptyAndTen.map Message.uid).Nodup ∧ emptyAndTen.reverse =
      sortMessages noContent ⟨fun _ _ => [], fun _ => [], fun _ _ => none⟩ [⟨.size, true⟩]
        emptyAndTen := by
  have hdistinct : (emptyAndTen.map Message.uid).Nodup := by decide
  exact ⟨hdistinct, (sortMessages_unique _ _ _ _ hdistinct _).mp
    ⟨List.reverse_perm _, by decide +kernel⟩⟩

end GoImap.MemServer
