import GoImap.NumSet.Model

/-!
# Search criteria

The criteria of a search are lists of constraints and bounds, and a bound of
zero is none.  `And` adds the constraints of other criteria.  It does not look
at their modification sequence, and where they have no upper bound on the size
it takes that for the smaller one.
-/

namespace GoImap

/-- The marker for the last result is an empty set. -/
inductive UIDSet where
  | nums (set : NumSet)
  | searchRes
  deriving DecidableEq, Repr

def UIDSet.contains : UIDSet → UID → Bool
  | nums set, uid => set.contains uid
  | searchRes, _ => false

structure SearchCriteriaHeaderField where
  key : Bytes
  value : Bytes
  deriving DecidableEq, Repr

structure SearchCriteriaModSeq where
  modSeq : ModSeq
  metadataName : Bytes := []
  metadataType : Bytes := []
  deriving DecidableEq, Repr

/-- The fields of `SearchCriteria` but for `Not` and `Or`.  A time is given in
nanoseconds since the zero time. -/
structure SearchFields where
  seqNum : List NumSet := []
  uid : List UIDSet := []
  since : Int := 0
  before : Int := 0
  sentSince : Int := 0
  sentBefore : Int := 0
  header : List SearchCriteriaHeaderField := []
  body : List Bytes := []
  text : List Bytes := []
  flag : List Flag := []
  notFlag : List Flag := []
  larger : Int := 0
  smaller : Int := 0
  modSeq : Option SearchCriteriaModSeq := none
  deriving DecidableEq, Repr

inductive SearchCriteria where
  | mk (fields : SearchFields) (not : List SearchCriteria)
      (or : List (SearchCriteria × SearchCriteria))

def intersectSince (t₁ t₂ : Int) : Int :=
  if t₁ = 0 then t₂
  else if t₂ = 0 then t₁
  else if t₁ > t₂ then t₁
  else t₂

def intersectBefore (t₁ t₂ : Int) : Int :=
  if t₁ = 0 then t₂
  else if t₂ = 0 then t₁
  else if t₁ < t₂ then t₁
  else t₂

/-- The rules of `And` for the bounds on the size. -/
def intersectLarger (larger other : Int) : Int :=
  if larger = 0 ∨ other > larger then other else larger

def intersectSmaller (smaller other : Int) : Int :=
  if smaller = 0 ∨ other < smaller then other else smaller

def SearchFields.and (criteria other : SearchFields) : SearchFields where
  seqNum := criteria.seqNum ++ other.seqNum
  uid := criteria.uid ++ other.uid
  since := intersectSince criteria.since other.since
  before := intersectBefore criteria.before other.before
  sentSince := intersectSince criteria.sentSince other.sentSince
  sentBefore := intersectBefore criteria.sentBefore other.sentBefore
  header := criteria.header ++ other.header
  body := criteria.body ++ other.body
  text := criteria.text ++ other.text
  flag := criteria.flag ++ other.flag
  notFlag := criteria.notFlag ++ other.notFlag
  larger := intersectLarger criteria.larger other.larger
  smaller := intersectSmaller criteria.smaller other.smaller
  modSeq := criteria.modSeq

namespace SearchCriteria

def fields : SearchCriteria → SearchFields
  | mk fields _ _ => fields

def empty : SearchCriteria := mk {} [] []

def withFields (f : SearchFields → SearchFields) : SearchCriteria → SearchCriteria
  | mk fields not or => mk (f fields) not or

def and : SearchCriteria → SearchCriteria → SearchCriteria
  | mk fields not or, mk other otherNot otherOr =>
    mk (fields.and other) (not ++ otherNot) (or ++ otherOr)

end SearchCriteria

/-! ## Bounds -/

def Since (bound t : Int) : Prop := bound = 0 ∨ bound ≤ t

def Before (bound t : Int) : Prop := bound = 0 ∨ t < bound

def Larger (bound size : Int) : Prop := bound = 0 ∨ bound < size

def Smaller (bound size : Int) : Prop := bound = 0 ∨ size < bound

theorem since_intersect (t₁ t₂ t : Int) :
    Since (intersectSince t₁ t₂) t ↔ Since t₁ t ∧ Since t₂ t := by
  unfold intersectSince Since
  split_ifs <;> omega

theorem before_intersect (t₁ t₂ t : Int) :
    Before (intersectBefore t₁ t₂) t ↔ Before t₁ t ∧ Before t₂ t := by
  unfold intersectBefore Before
  split_ifs <;> omega

theorem intersectSince_eq_zero (t₁ t₂ : Int) : intersectSince t₁ t₂ = 0 ↔ t₁ = 0 ∧ t₂ = 0 := by
  unfold intersectSince
  split_ifs <;> omega

theorem intersectBefore_eq_zero (t₁ t₂ : Int) : intersectBefore t₁ t₂ = 0 ↔ t₁ = 0 ∧ t₂ = 0 := by
  unfold intersectBefore
  split_ifs <;> omega

theorem larger_intersect (larger other : Int) (size : Nat) :
    Larger (intersectLarger larger other) size ↔ Larger larger size ∧ Larger other size := by
  unfold intersectLarger Larger
  split_ifs <;> omega

theorem smaller_intersect (smaller other : Int) (size : Nat) :
    Smaller (intersectSmaller smaller other) size ↔
      (0 < smaller ∧ other = 0 ∨ Smaller smaller size) ∧ Smaller other size := by
  unfold intersectSmaller Smaller
  split_ifs <;> omega

end GoImap
