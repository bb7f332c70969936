import GoImap.Lib.Calendar
import GoImap.Search.Criteria

/-!
# Search keys

A search program is a list of keys, which hold together.  The server enters
them into one set of criteria, those of a parenthesized list included, in the
order they are given; a key under `NOT` and the two of an `OR` have criteria of
their own.
-/

namespace GoImap

def flagRecent : Flag := ascii "\\Recent"

inductive DateKey where
  | since
  | before
  | on
  | sentSince
  | sentBefore
  | sentOn
  deriving DecidableEq, Repr

inductive SearchKey where
  | all
  | seqNum (seqSet : NumSet)
  | uid (uidSet : UIDSet)
  | flag (flag : Flag)
  | notFlag (flag : Flag)
  | new
  | header (key value : Bytes)
  | body (body : Bytes)
  | text (text : Bytes)
  | date (key : DateKey) (date : Calendar.Date)
  | larger (n : Nat)
  | smaller (n : Nat)
  | modSeq (modSeq : SearchCriteriaModSeq)
  | not (key : SearchKey)
  | or (left right : SearchKey)
  | list (keys : List SearchKey)

def oneDay : Int := 24 * 60 * 60 * 1000000000

def dateTime (date : Calendar.Date) : Int := date.number * oneDay

def DateKey.fields (t : Int) : DateKey → SearchFields
  | .since => { since := t }
  | .before => { before := t }
  | .on => { since := t, before := t + oneDay }
  | .sentSince => { sentSince := t }
  | .sentBefore => { sentBefore := t }
  | .sentOn => { sentSince := t, sentBefore := t + oneDay }

namespace SearchCriteria

def not : SearchCriteria → List SearchCriteria
  | mk _ not _ => not

def or : SearchCriteria → List (SearchCriteria × SearchCriteria)
  | mk _ _ or => or

def addNot (criteria not : SearchCriteria) : SearchCriteria :=
  mk criteria.fields (criteria.not ++ [not]) criteria.or

def addOr (criteria left right : SearchCriteria) : SearchCriteria :=
  mk criteria.fields criteria.not (criteria.or ++ [(left, right)])

end SearchCriteria

/-- A key without other keys in it.  A modification sequence is kept only if
the server supports `CONDSTORE`. -/
def SearchFields.enter (condStore : Bool) (fields : SearchFields) : SearchKey → SearchFields
  | .seqNum seqSet => { fields with seqNum := fields.seqNum ++ [seqSet] }
  | .uid uidSet => { fields with uid := fields.uid ++ [uidSet] }
  | .flag flag => { fields with flag := fields.flag ++ [flag] }
  | .notFlag flag => { fields with notFlag := fields.notFlag ++ [flag] }
  | .new =>
    { fields with flag := fields.flag ++ [flagRecent], notFlag := fields.notFlag ++ [flagSeen] }
  | .header key value =>
    { fields with header := fields.header ++ [⟨key, value⟩] }
  | .body body => { fields with body := fields.body ++ [body] }
  | .text text => { fields with text := fields.text ++ [text] }
  | .date key date => fields.and (key.fields (dateTime date))
  | .larger n => fields.and { larger := n }
  | .smaller n => fields.and { smaller := n }
  | .modSeq modSeq =>
    if condStore then { fields with modSeq := some modSeq } else fields
  | .all | .not _ | .or _ _ | .list _ => fields

namespace SearchKey

variable (condStore : Bool)

mutual

def enter (criteria : SearchCriteria) : SearchKey → SearchCriteria
  | .not key => criteria.addNot (enter .empty key)
  | .or left right => criteria.addOr (enter .empty left) (enter .empty right)
  | .list keys => enterAll criteria keys
  | key => criteria.withFields (·.enter condStore key)

def enterAll (criteria : SearchCriteria) : List SearchKey → SearchCriteria
  | [] => criteria
  | key :: rest => enterAll (enter criteria key) rest

end

def criteria (keys : List SearchKey) : SearchCriteria := enterAll condStore .empty keys

/-! ## Programs and their parts -/

mutual

def flatten : SearchKey → List SearchKey
  | .list keys => flattenAll keys
  | key => [key]

def flattenAll : List SearchKey → List SearchKey
  | [] => []
  | key :: rest => flatten key ++ flattenAll rest

end

mutual

def operands : SearchKey → List (List SearchKey)
  | .not key => [key] :: operands key
  | .or left right => [left] :: [right] :: (operands left ++ operands right)
  | .list keys => operandsAll keys
  | _ => []

def operandsAll : List SearchKey → List (List SearchKey)
  | [] => []
  | key :: rest => operands key ++ operandsAll rest

end

def parts (keys : List SearchKey) : List (List SearchKey) := keys :: operandsAll keys

mutual

def sets : SearchKey → List UIDSet
  | .seqNum seqSet => [.nums seqSet]
  | .uid uidSet => [uidSet]
  | .not key => sets key
  | .or left right => sets left ++ sets right
  | .list keys => setsAll keys
  | _ => []

def setsAll : List SearchKey → List UIDSet
  | [] => []
  | key :: rest => sets key ++ setsAll rest

end

def isList : SearchKey → Bool
  | .list _ => true
  | _ => false

mutual

theorem enter_flatten (criteria : SearchCriteria) (key : SearchKey) :
    (flatten key).foldl (enter condStore) criteria = enter condStore criteria key := by
  cases key with
  | list keys => exact enterAll_flatten criteria keys
  | _ => rfl

theorem enterAll_flatten (criteria : SearchCriteria) (keys : List SearchKey) :
    (flattenAll keys).foldl (enter condStore) criteria = enterAll condStore criteria keys := by
  cases keys with
  | nil => rfl
  | cons key rest =>
    rw [flattenAll, List.foldl_append, enter_flatten criteria key, enterAll_flatten _ rest]
    rfl

end

mutual

theorem isList_flatten (key : SearchKey) : ∀ other ∈ flatten key, isList other = false := by
  cases key with
  | list keys => exact isList_flattenAll keys
  | _ => simp [flatten, isList]

theorem isList_flattenAll (keys : List SearchKey) :
    ∀ other ∈ flattenAll keys, isList other = false := by
  cases keys with
  | nil => simp [flattenAll]
  | cons key rest =>
    rw [flattenAll, List.forall_mem_append]
    exact ⟨isList_flatten key, isList_flattenAll rest⟩

end

structure Descends (P : SearchKey → Prop) : Prop where
  list : ∀ keys, P (.list keys) → ∀ key ∈ keys, P key

mutual

theorem Descends.flatten {P : SearchKey → Prop} (hP : Descends P)
    (key : SearchKey) (h : P key) : ∀ other ∈ flatten key, P other := by
  cases key with
  | list keys => exact hP.flattenAll keys (hP.list keys h)
  | _ => simpa [SearchKey.flatten] using h

theorem Descends.flattenAll {P : SearchKey → Prop} (hP : Descends P)
    (keys : List SearchKey) (h : ∀ key ∈ keys, P key) :
    ∀ other ∈ flattenAll keys, P other := by
  cases keys with
  | nil => simp [SearchKey.flattenAll]
  | cons key rest =>
    obtain ⟨hkey, hrest⟩ := List.forall_mem_cons.mp h
    rw [SearchKey.flattenAll, List.forall_mem_append]
    exact ⟨hP.flatten key hkey, hP.flattenAll rest hrest⟩

end

theorem forall_mem_operandsAll {P : List SearchKey → Prop} {keys : List SearchKey} :
    (∀ part ∈ operandsAll keys, P part) ↔ ∀ key ∈ keys, ∀ part ∈ operands key, P part := by
  induction keys with
  | nil => simp [operandsAll]
  | cons key rest ih =>
    rw [operandsAll, List.forall_mem_append, ih, List.forall_mem_cons]

theorem forall_mem_setsAll {P : UIDSet → Prop} {keys : List SearchKey} :
    (∀ set ∈ setsAll keys, P set) ↔ ∀ key ∈ keys, ∀ set ∈ sets key, P set := by
  induction keys with
  | nil => simp [setsAll]
  | cons key rest ih =>
    rw [setsAll, List.forall_mem_append, ih, List.forall_mem_cons]

theorem descends_operands (P : List SearchKey → Prop) :
    Descends fun key => ∀ part ∈ operands key, P part :=
  ⟨fun _ => forall_mem_operandsAll.mp⟩

theorem descends_sets (P : UIDSet → Prop) : Descends fun key => ∀ set ∈ sets key, P set :=
  ⟨fun _ => forall_mem_setsAll.mp⟩

end SearchKey

end GoImap
