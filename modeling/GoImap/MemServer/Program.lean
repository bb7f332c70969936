import GoImap.MemServer.Intersection
import GoImap.NumSet.Build
import GoImap.Search.Keys

/-!
# What a search program means

A message satisfies a program if it satisfies its keys.  The criteria the
program is entered into do not ask for all of that: an upper bound on the size
is lost to a lower bound or a date behind it, the last modification sequence
replaces the others, and a bound that happens to be the zero value is none.
The message is found if it satisfies what is in force.
-/

namespace GoImap

namespace SearchKey

/-- An upper bound on the size in front of the key is lost. -/
def resetsSmaller : SearchKey → Bool
  | .larger _ => true
  | .smaller n => n = 0
  | .date _ _ => true
  | _ => false

def isPlain : SearchKey → Bool
  | .date _ _ | .larger _ | .smaller _ | .modSeq _ => false
  | .not _ | .or _ _ | .list _ => false
  | _ => true

def isBound : SearchKey → Bool
  | .date _ _ | .larger _ | .smaller _ | .modSeq _ => true
  | _ => false

def isModSeq : SearchKey → Bool
  | .modSeq _ => true
  | _ => false

end SearchKey

namespace DateKey

def isSent : DateKey → Bool
  | .since | .before | .on => false
  | .sentSince | .sentBefore | .sentOn => true

def Compares (date day : Int) : DateKey → Prop
  | .since | .sentSince => date ≤ day
  | .before | .sentBefore => day < date
  | .on | .sentOn => day = date

/-- The first day, and the day behind the last one.  Zero is none. -/
def lower (date : Int) : DateKey → Int
  | .since | .sentSince | .on | .sentOn => date
  | .before | .sentBefore => 0

def upper (date : Int) : DateKey → Int
  | .since | .sentSince => 0
  | .before | .sentBefore => date
  | .on | .sentOn => date + 1

end DateKey

namespace MemServer.Message

/-! ## Meaning -/

section

variable (content : Content) (msg : Message)

def dayOf (key : DateKey) : Option Int :=
  if key.isSent then (content.date msg.buf).map content.civilDay
  else some (content.civilDay msg.t)

end

section Meaning

variable [CaseMapping] (content : Content) (msg : Message) (seqNum : SeqNum)

def InSet (number : UInt32) : UIDSet → Prop
  | .nums set => ∃ range ∈ set, range.start ≤ number ∧ number ≤ range.stop
  | .searchRes => False

mutual

def Satisfies : SearchKey → Prop
  | .all => True
  | .seqNum seqSet => InSet seqNum (.nums seqSet)
  | .uid uidSet => InSet msg.uid uidSet
  | .flag flag => msg.flags.contains (canonicalFlag flag) = true
  | .notFlag flag => msg.flags.contains (canonicalFlag flag) = false
  | .new =>
    msg.flags.contains (canonicalFlag flagRecent) = true ∧
      msg.flags.contains (canonicalFlag flagSeen) = false
  | .header key value => content.matchHeaderFields msg.buf key value = true
  | .body body => content.matchEntity msg.buf body false = true
  | .text text => content.matchEntity msg.buf text true = true
  | .date key date =>
    ∃ day ∈ msg.dayOf content key, key.Compares date.number day
  | .larger n => n < msg.buf.length
  | .smaller n => msg.buf.length < n
  | .modSeq modSeq => modSeq.modSeq ≤ msg.modSeq
  | .not key => ¬Satisfies key
  | .or left right => Satisfies left ∨ Satisfies right
  | .list keys => SatisfiesAll keys

def SatisfiesAll : List SearchKey → Prop
  | [] => True
  | key :: rest => Satisfies key ∧ SatisfiesAll rest

end

/-! ## What is in force -/

variable (condStore : Bool)

/-- What is asked for of a key, given the keys that are entered behind it. -/
def Enforced (later : List SearchKey) : SearchKey → Prop
  | .date key date =>
    (key.lower date.number ≠ 0 → ∃ day ∈ msg.dayOf content key, key.lower date.number ≤ day) ∧
    (key.upper date.number ≠ 0 → ∃ day ∈ msg.dayOf content key, day < key.upper date.number)
  | .larger n => n ≠ 0 → n < msg.buf.length
  | .smaller n =>
    n ≠ 0 ∧ later.any SearchKey.resetsSmaller = false → msg.buf.length < n
  | .modSeq modSeq =>
    condStore = true ∧ later.any SearchKey.isModSeq = false → modSeq.modSeq ≤ msg.modSeq
  | key => msg.Satisfies content seqNum key

def EnforcedAll : List SearchKey → Prop
  | [] => True
  | key :: later =>
    msg.Enforced content seqNum condStore later key ∧ EnforcedAll later

def Honoured (keys : List SearchKey) : Prop :=
  msg.EnforcedAll content seqNum condStore (SearchKey.flattenAll keys) →
    msg.SatisfiesAll content seqNum keys

def Right (keys : List SearchKey) : Prop :=
  msg.search content seqNum (SearchKey.criteria condStore keys) = true ↔
    msg.SatisfiesAll content seqNum keys

end Meaning

end MemServer.Message

/-! ## One key -/

def SearchFields.weaken (condStore : Bool) (later : List SearchKey)
    (fields : SearchFields) : SearchFields :=
  { fields with
    smaller :=
      if later.any SearchKey.resetsSmaller then 0 else fields.smaller
    modSeq :=
      if condStore && later.any SearchKey.isModSeq then none
      else fields.modSeq }

namespace MemServer.Message

section Fields

variable [CaseMapping] {content : Content} {msg : Message} {seqNum : SeqNum} (f : SearchFields)

def SetFits : UIDSet → Prop
  | .nums set => set.Canonical ∧ set.isDynamic = false
  | .searchRes => False

omit [CaseMapping] in
theorem contains_iff_inSet {set : NumSet} (h : SetFits (.nums set)) (number : UInt32) :
    set.contains number = true ↔ InSet number (.nums set) := by
  obtain ⟨hcanonical, hstatic⟩ := h
  have hends : ∀ range ∈ set, range.stop ≠ 0 ∧ range.start ≠ 0 := by
    intro range hrange
    have hstop : range.stop ≠ 0 := fun hzero => by
      rw [(NumSet.isDynamic_iff hcanonical).mpr ⟨range, hrange, hzero⟩] at hstatic
      cases hstatic
    exact ⟨hstop, ((NumRange.valid_iff range).mp (hcanonical.valid hrange) hstop).1⟩
  rw [NumSet.contains_iff hcanonical, NumSet.covers_spans_iff, InSet]
  constructor
  · rintro ⟨hne, range, hrange, hcontains⟩
    rw [NumRange.contains, if_neg hne, decide_eq_true_eq] at hcontains
    exact ⟨range, hrange, hcontains.2.1, hcontains.2.2.resolve_right (hends range hrange).1⟩
  · rintro ⟨range, hrange, hstart, hstop⟩
    have hne : number ≠ 0 := by
      rintro rfl
      exact (hends range hrange).2 (UInt32.le_zero_iff.mp hstart)
    refine ⟨hne, range, hrange, ?_⟩
    rw [NumRange.contains, if_neg hne, decide_eq_true_eq]
    exact ⟨(hends range hrange).2, hstart, .inl hstop⟩

omit [CaseMapping] in
theorem contains_ne_zero {set : NumSet} {number : UInt32}
    (h : set.contains number = true) : number ≠ 0 := by
  rw [NumSet.contains, Bool.and_eq_true, bne_iff_ne] at h
  exact h.2

theorem fieldsMatch_enter_plain (condStore : Bool) {key : SearchKey}
    (hplain : key.isPlain = true) (hsets : ∀ set ∈ key.sets, SetFits set) :
    FieldsMatch content msg seqNum (f.enter condStore key) ↔
      FieldsMatch content msg seqNum f ∧ msg.Satisfies content seqNum key := by
  rw [← searchFields_iff, ← searchFields_iff]
  cases key with
  | seqNum seqSet =>
    have hset := contains_iff_inSet (hsets _ List.mem_cons_self) seqNum
    have hne := @contains_ne_zero seqSet seqNum
    simp only [SearchFields.enter, searchFields, Satisfies, ← hset, List.all_append, List.all_cons,
      List.all_nil, Bool.and_true, Bool.and_eq_true, decide_eq_true_eq]
    tauto
  | uid uidSet =>
    cases uidSet with
    | searchRes => exact (hsets .searchRes List.mem_cons_self).elim
    | nums set =>
      have hset : (UIDSet.nums set).contains msg.uid = true ↔ InSet msg.uid (.nums set) :=
        contains_iff_inSet (hsets _ List.mem_cons_self) msg.uid
      simp only [SearchFields.enter, searchFields, Satisfies, ← hset, List.all_append,
        List.all_cons, List.all_nil, Bool.and_true, Bool.and_eq_true, decide_eq_true_eq]
      tauto
  | date | larger | smaller | modSeq | not | or | list => cases hplain
  | all => simp [SearchFields.enter, Satisfies]
  | _ =>
    simp only [SearchFields.enter, searchFields, Satisfies, List.all_append, List.all_cons,
      List.all_nil, Bool.and_true, Bool.and_eq_true, decide_eq_true_eq, Bool.not_eq_true']
    tauto

theorem fieldsMatch_modSeq (bound : SearchCriteriaModSeq) :
    FieldsMatch content msg seqNum { f with modSeq := some bound } ↔
      FieldsMatch content msg seqNum { f with modSeq := none } ∧ bound.modSeq ≤ msg.modSeq := by
  constructor
  · intro h
    exact ⟨{ h with modSeq := by rintro _ ⟨⟩ }, h.modSeq bound rfl⟩
  · rintro ⟨h, hbound⟩
    exact { h with
      modSeq := fun _ hsome => by cases hsome; exact hbound }

theorem fieldsMatch_bounds (since before sentSince sentBefore larger smaller : Int) :
    FieldsMatch content msg seqNum
        { since := since
          before := before
          sentSince := sentSince
          sentBefore := sentBefore
          larger := larger
          smaller := smaller } ↔
      (Since since (content.midnight msg.t) ∧ Before before (content.midnight msg.t)) ∧
      msg.Sent content sentSince sentBefore ∧
      Larger larger msg.buf.length ∧ Smaller smaller msg.buf.length := by
  constructor
  · intro h
    exact ⟨⟨h.since, h.before⟩, h.sent, h.larger, h.smaller⟩
  · rintro ⟨⟨hsince, hbefore⟩, hsent, hlarger, hsmaller⟩
    constructor
    case since => exact hsince
    case before => exact hbefore
    case sent => exact hsent
    case larger => exact hlarger
    case smaller => exact hsmaller
    all_goals simp

theorem fieldsMatch_and_of_kept {a b : SearchFields}
    (hkept : ¬a.losesSmaller b) (hmodSeq : b.modSeq = none) :
    FieldsMatch content msg seqNum (a.and b) ↔
      FieldsMatch content msg seqNum a ∧ FieldsMatch content msg seqNum b := by
  have hfirst : a.withoutLost b = a := by
    rw [SearchFields.withoutLost, if_neg hkept]
  have hsecond : b.withoutModSeq = b := by
    rw [SearchFields.withoutModSeq, ← hmodSeq]
  rw [fieldsMatch_and, hfirst, hsecond]

/-! ## Dates -/

omit [CaseMapping] in
theorem mul_day_eq_zero (bound : Int) : bound * oneDay = 0 ↔ bound = 0 := by
  rw [oneDay]
  omega

omit [CaseMapping] in
theorem since_day (bound : Int) (t : Time) :
    Since (bound * oneDay) (content.midnight t) ↔ (bound ≠ 0 → bound ≤ content.civilDay t) := by
  rw [Since, mul_day_eq_zero, Content.midnight, oneDay, day]
  omega

omit [CaseMapping] in
theorem before_day (bound : Int) (t : Time) :
    Before (bound * oneDay) (content.midnight t) ↔ (bound ≠ 0 → content.civilDay t < bound) := by
  rw [Before, mul_day_eq_zero, Content.midnight, oneDay, day]
  omega

omit [CaseMapping] in
theorem sent_day (since before : Int) : msg.Sent content (since * oneDay) (before * oneDay) ↔
      (since ≠ 0 → ∃ day ∈ (content.date msg.buf).map content.civilDay, since ≤ day) ∧
      (before ≠ 0 → ∃ day ∈ (content.date msg.buf).map content.civilDay, day < before) := by
  rw [Sent, mul_day_eq_zero, mul_day_eq_zero]
  cases content.date msg.buf with
  | none => simp
  | some date =>
    simp only [Option.some.injEq, exists_eq_left', since_day, before_day,
      Option.map_some, Option.mem_def]
    constructor
    · rintro (⟨rfl, rfl⟩ | hbounds)
      · simp
      · exact hbounds
    · exact .inr

theorem fieldsMatch_received (lower upper : Int) : FieldsMatch content msg seqNum
        { since := lower * oneDay, before := upper * oneDay } ↔
      (lower ≠ 0 → lower ≤ content.civilDay msg.t) ∧
        (upper ≠ 0 → content.civilDay msg.t < upper) := by
  rw [← since_day, ← before_day]
  refine (fieldsMatch_bounds _ _ 0 0 0 0).trans ?_
  simp [Sent, Larger, Smaller]

theorem fieldsMatch_sent (lower upper : Int) : FieldsMatch content msg seqNum
        { sentSince := lower * oneDay, sentBefore := upper * oneDay } ↔
      msg.Sent content (lower * oneDay) (upper * oneDay) := by
  refine (fieldsMatch_bounds 0 0 _ _ 0 0).trans ?_
  simp [Since, Before, Larger, Smaller]

omit [CaseMapping] in
theorem dateFields_eq (key : DateKey) (date : Calendar.Date) : key.fields (dateTime date) =
      if key.isSent then
        { sentSince := key.lower date.number * oneDay
          sentBefore := key.upper date.number * oneDay }
      else
        { since := key.lower date.number * oneDay
          before := key.upper date.number * oneDay } := by
  have hnext : dateTime date + oneDay = (date.number + 1) * oneDay := by
    rw [dateTime, oneDay]
    omega
  cases key <;>
    simp [DateKey.fields, DateKey.isSent, DateKey.lower, DateKey.upper, hnext] <;> rfl

theorem fieldsMatch_date (key : DateKey) (date : Calendar.Date) :
    FieldsMatch content msg seqNum (key.fields (dateTime date)) ↔ (key.lower date.number ≠ 0 →
        ∃ day ∈ msg.dayOf content key, key.lower date.number ≤ day) ∧
      (key.upper date.number ≠ 0 → ∃ day ∈ msg.dayOf content key, day < key.upper date.number) := by
  rw [dateFields_eq, dayOf]
  cases key.isSent with
  | true =>
    simp only [if_true]
    rw [fieldsMatch_sent, sent_day]
  | false =>
    simp only [Bool.false_eq_true, if_false]
    rw [fieldsMatch_received]
    simp

/-! ## What a key adds -/

section Step

variable {condStore : Bool} {later : List SearchKey} {key : SearchKey}

omit [CaseMapping] in
theorem weaken_enter_plain (hplain : key.isPlain = true) :
    (f.enter condStore key).weaken condStore later =
        (f.weaken condStore later).enter condStore key ∧
      f.weaken condStore (key :: later) = f.weaken condStore later := by
  cases key with
  | date | larger | smaller | modSeq | not | or | list => cases hplain
  | _ => exact ⟨rfl, rfl⟩

omit [CaseMapping] in
theorem weaken_and_reset {b : SearchFields} (hresets : key.resetsSmaller = true)
    (hmodSeq : key.isModSeq = false) (hb : b.smaller = 0) (hsmaller : 0 ≤ f.smaller) :
    (f.and b).weaken condStore later = (f.weaken condStore (key :: later)).and b ∧
      ¬(f.weaken condStore (key :: later)).losesSmaller b := by
  have hlost : intersectSmaller f.smaller 0 = 0 := by
    rw [intersectSmaller]
    split_ifs <;> omega
  have hzero : intersectSmaller 0 0 = 0 := rfl
  simp [SearchFields.weaken, SearchFields.and, SearchFields.losesSmaller,
    hresets, hmodSeq, hb, hlost, hzero]

theorem fieldsMatch_sizes (larger smaller : Int) :
    FieldsMatch content msg seqNum { larger := larger, smaller := smaller } ↔
      Larger larger msg.buf.length ∧ Smaller smaller msg.buf.length := by
  refine (fieldsMatch_bounds 0 0 0 0 _ _).trans ?_
  simp [Since, Before, Sent]

theorem fieldsMatch_enter_date (date : DateKey) (t : Calendar.Date) (hsmaller : 0 ≤ f.smaller) :
    FieldsMatch content msg seqNum ((f.enter condStore (.date date t)).weaken condStore later) ↔
      FieldsMatch content msg seqNum (f.weaken condStore (.date date t :: later)) ∧
        msg.Enforced content seqNum condStore later (.date date t) := by
  have hnone : (date.fields (dateTime t)).smaller = 0 ∧
      (date.fields (dateTime t)).modSeq = none := by
    cases date <;> exact ⟨rfl, rfl⟩
  obtain ⟨heq, hkept⟩ := @weaken_and_reset f condStore later (.date date t) _
    rfl rfl hnone.1 hsmaller
  rw [SearchFields.enter, heq, fieldsMatch_and_of_kept hkept hnone.2, fieldsMatch_date]
  rfl

theorem fieldsMatch_enter_larger (n : Nat) (hsmaller : 0 ≤ f.smaller) :
    FieldsMatch content msg seqNum ((f.enter condStore (.larger n)).weaken condStore later) ↔
      FieldsMatch content msg seqNum (f.weaken condStore (.larger n :: later)) ∧
        msg.Enforced content seqNum condStore later (.larger n) := by
  obtain ⟨heq, hkept⟩ := @weaken_and_reset f condStore later (.larger n)
    { larger := n } rfl rfl rfl hsmaller
  have hbound : Larger n msg.buf.length ∧ Smaller 0 msg.buf.length ↔
      (n ≠ 0 → n < msg.buf.length) := by
    rw [Larger, Smaller]
    omega
  rw [SearchFields.enter, heq, fieldsMatch_and_of_kept hkept rfl, fieldsMatch_sizes, hbound]
  rfl

theorem fieldsMatch_enter_smaller (n : Nat) (hsmaller : 0 ≤ f.smaller) :
    FieldsMatch content msg seqNum ((f.enter condStore (.smaller n)).weaken condStore later) ↔
      FieldsMatch content msg seqNum (f.weaken condStore (.smaller n :: later)) ∧
        msg.Enforced content seqNum condStore later (.smaller n) := by
  by_cases hzero : n = 0
  · subst hzero
    obtain ⟨heq, hkept⟩ := @weaken_and_reset f condStore later (.smaller 0)
      { smaller := (0 : Nat) } rfl rfl rfl hsmaller
    rw [SearchFields.enter, heq, fieldsMatch_and_of_kept hkept rfl, fieldsMatch_sizes]
    simp [Larger, Smaller, Enforced]
  · cases hlater : later.any SearchKey.resetsSmaller with
    | true =>
      have heq : (f.enter condStore (.smaller n)).weaken condStore later =
          (f.weaken condStore (.smaller n :: later)).and { larger := 0, smaller := 0 } := by
        simp [SearchFields.enter, SearchFields.weaken, SearchFields.and,
          SearchKey.isModSeq, hlater, intersectSmaller]
      have hkept : ¬(f.weaken condStore (.smaller n :: later)).losesSmaller
          { larger := 0, smaller := 0 } := by
        simp [SearchFields.weaken, SearchFields.losesSmaller, hlater]
      rw [heq, fieldsMatch_and_of_kept hkept rfl, fieldsMatch_sizes]
      simp [Larger, Smaller, Enforced, hlater]
    | false =>
      have heq : (f.enter condStore (.smaller n)).weaken condStore later =
          (f.weaken condStore (.smaller n :: later)).and { smaller := n } := by
        simp [SearchFields.enter, SearchFields.weaken, SearchFields.and,
          SearchKey.isModSeq, SearchKey.resetsSmaller, hzero, hlater]
      have hkept : ¬(f.weaken condStore (.smaller n :: later)).losesSmaller { smaller := n } := by
        simp [SearchFields.losesSmaller, hzero]
      rw [heq, fieldsMatch_and_of_kept hkept rfl, fieldsMatch_sizes]
      simp [Larger, Smaller, Enforced, hlater, hzero]

theorem fieldsMatch_enter_modSeq (bound : SearchCriteriaModSeq) :
    FieldsMatch content msg seqNum ((f.enter condStore (.modSeq bound)).weaken condStore later) ↔
      FieldsMatch content msg seqNum (f.weaken condStore (.modSeq bound :: later)) ∧
        msg.Enforced content seqNum condStore later (.modSeq bound) := by
  cases condStore with
  | false => simp [SearchFields.enter, SearchFields.weaken, Enforced, SearchKey.resetsSmaller]
  | true =>
    by_cases hlater : later.any SearchKey.isModSeq = true
    · simp [SearchFields.enter, SearchFields.weaken, Enforced,
        SearchKey.resetsSmaller, SearchKey.isModSeq, hlater]
    · have hbound := @fieldsMatch_modSeq _ content msg seqNum (f.weaken true later) bound
      simpa [SearchFields.enter, SearchFields.weaken, Enforced,
        SearchKey.resetsSmaller, SearchKey.isModSeq, hlater] using hbound

theorem fieldsMatch_enter (hkey : key.isPlain = true ∨ key.isBound = true)
    (hsets : ∀ set ∈ key.sets, SetFits set) (hsmaller : 0 ≤ f.smaller) :
    FieldsMatch content msg seqNum ((f.enter condStore key).weaken condStore later) ↔
      FieldsMatch content msg seqNum (f.weaken condStore (key :: later)) ∧
        msg.Enforced content seqNum condStore later key := by
  rcases hkey with hplain | hbound
  · obtain ⟨hcommute, hsame⟩ := weaken_enter_plain f hplain
    rw [hcommute, hsame, fieldsMatch_enter_plain _ condStore hplain hsets]
    cases key with
    | date | larger | smaller | modSeq | not | or | list => cases hplain
    | _ => rfl
  · cases key with
    | date date t => exact fieldsMatch_enter_date f date t hsmaller
    | larger n => exact fieldsMatch_enter_larger f n hsmaller
    | smaller n => exact fieldsMatch_enter_smaller f n hsmaller
    | modSeq bound => exact fieldsMatch_enter_modSeq f bound
    | _ => cases hbound

end Step

end Fields

end MemServer.Message

end GoImap
