import GoImap.MemServer.Mailbox
import GoImap.Search.Criteria

/-!
# Matching a message

`search` checks one constraint of the criteria after the other.  The calendar
and the contents of a message come from outside: the date a time shows in its
zone, the date of the header, and whether a header field or a text occurs.
-/

namespace GoImap.MemServer

/-- `date` is none for the zero time. -/
structure Content where
  civilDay : Time → Int
  date : Bytes → Option Time
  matchHeaderFields : Bytes → Bytes → Bytes → Bool
  matchEntity : Bytes → Bytes → Bool → Bool

def day : Int := 24 * 60 * 60 * 1000000000

namespace Content

def midnight (content : Content) (t : Time) : Int := content.civilDay t * day

def matchDate (content : Content) (t : Time) (since before : Int) : Bool :=
  !(since ≠ 0 ∧ content.midnight t < since) ∧ !(before ≠ 0 ∧ ¬content.midnight t < before)

end Content

namespace Message

variable [CaseMapping] (content : Content) (msg : Message) (seqNum : SeqNum)

def size : Int := msg.buf.length

def matchSent (sentSince sentBefore : Int) : Bool :=
  if sentSince ≠ 0 ∨ sentBefore ≠ 0 then
    match content.date msg.buf with
    | none => false
    | some date => content.matchDate date sentSince sentBefore
  else true

def searchFields (criteria : SearchFields) : Bool :=
  criteria.seqNum.all (fun seqSet => seqNum ≠ 0 ∧ seqSet.contains seqNum) ∧
  criteria.uid.all (·.contains msg.uid) ∧
  content.matchDate msg.t criteria.since criteria.before ∧
  criteria.modSeq.all (fun modSeq => !(msg.modSeq < modSeq.modSeq)) ∧
  criteria.flag.all (fun flag => msg.flags.contains (canonicalFlag flag)) ∧
  criteria.notFlag.all (fun flag =>
    !msg.flags.contains (canonicalFlag flag)) ∧
  !(criteria.larger ≠ 0 ∧ msg.size ≤ criteria.larger) ∧
  !(criteria.smaller ≠ 0 ∧ msg.size ≥ criteria.smaller) ∧
  criteria.header.all (fun field =>
    content.matchHeaderFields msg.buf field.key field.value) ∧
  msg.matchSent content criteria.sentSince criteria.sentBefore ∧
  criteria.text.all (content.matchEntity msg.buf · true) ∧
  criteria.body.all (content.matchEntity msg.buf · false)

mutual

def search : SearchCriteria → Bool
  | .mk fields not or =>
    msg.searchFields content seqNum fields && searchNot not && searchOr or

def searchNot : List SearchCriteria → Bool
  | [] => true
  | not :: rest => !search not && searchNot rest

def searchOr : List (SearchCriteria × SearchCriteria) → Bool
  | [] => true
  | or :: rest => searchEither or && searchOr rest

def searchEither : SearchCriteria × SearchCriteria → Bool
  | (left, right) => search left || search right

end

/-! ## What the fields ask for -/

def Sent (sentSince sentBefore : Int) : Prop := sentSince = 0 ∧ sentBefore = 0 ∨
    ∃ date, content.date msg.buf = some date ∧ Since sentSince (content.midnight date) ∧
      Before sentBefore (content.midnight date)

structure FieldsMatch (criteria : SearchFields) : Prop where
  seqNum : ∀ seqSet ∈ criteria.seqNum, seqNum ≠ 0 ∧ seqSet.contains seqNum = true
  uid : ∀ uidSet ∈ criteria.uid, uidSet.contains msg.uid = true
  since : Since criteria.since (content.midnight msg.t)
  before : Before criteria.before (content.midnight msg.t)
  modSeq : ∀ bound, criteria.modSeq = some bound → bound.modSeq ≤ msg.modSeq
  flag : ∀ flag ∈ criteria.flag, msg.flags.contains (canonicalFlag flag) = true
  notFlag : ∀ flag ∈ criteria.notFlag, msg.flags.contains (canonicalFlag flag) = false
  larger : Larger criteria.larger msg.buf.length
  smaller : Smaller criteria.smaller msg.buf.length
  header : ∀ field ∈ criteria.header, content.matchHeaderFields msg.buf field.key field.value = true
  sent : msg.Sent content criteria.sentSince criteria.sentBefore
  text : ∀ text ∈ criteria.text, content.matchEntity msg.buf text true = true
  body : ∀ body ∈ criteria.body, content.matchEntity msg.buf body false = true

omit [CaseMapping] in
theorem matchDate_iff (t : Time) (since before : Int) : content.matchDate t since before = true ↔
      Since since (content.midnight t) ∧ Before before (content.midnight t) := by
  simp [Content.matchDate, Since, Before]

omit [CaseMapping] in
theorem matchSent_iff (sentSince sentBefore : Int) :
    msg.matchSent content sentSince sentBefore = true ↔ msg.Sent content sentSince sentBefore := by
  rw [matchSent, Sent]
  by_cases hset : sentSince ≠ 0 ∨ sentBefore ≠ 0
  · have hunset : ¬(sentSince = 0 ∧ sentBefore = 0) := by omega
    rw [if_pos hset]
    cases hdate : content.date msg.buf with
    | none => simp [hunset]
    | some date => simp [hunset, matchDate_iff]
  · have hunset : sentSince = 0 ∧ sentBefore = 0 := by omega
    rw [if_neg hset]
    simp [hunset]

theorem searchFields_iff (criteria : SearchFields) :
    msg.searchFields content seqNum criteria = true ↔ FieldsMatch content msg seqNum criteria := by
  rw [searchFields, decide_eq_true_eq]
  constructor
  · rintro ⟨hseq, huid, hdate, hmod, hflag, hnot, hlarger, hsmaller, hheader, hsent, htext, hbody⟩
    rw [matchDate_iff] at hdate
    rw [matchSent_iff] at hsent
    refine ⟨by simpa using hseq, by simpa using huid, hdate.1, hdate.2, ?_,
      by simpa using hflag, by simpa using hnot, ?_, ?_, by simpa using hheader,
      hsent, by simpa using htext, by simpa using hbody⟩
    · rintro bound hbound
      simpa [hbound] using hmod
    · rw [Bool.not_eq_true', decide_eq_false_iff_not, size] at hlarger
      rw [Larger]
      omega
    · rw [Bool.not_eq_true', decide_eq_false_iff_not, size] at hsmaller
      rw [Smaller]
      omega
  · intro h
    refine ⟨by simpa using h.seqNum, by simpa using h.uid,
      (matchDate_iff content _ _ _).mpr ⟨h.since, h.before⟩, ?_,
      by simpa using h.flag, by simpa using h.notFlag, ?_, ?_,
      by simpa using h.header, (matchSent_iff content msg _ _).mpr h.sent,
      by simpa using h.text, by simpa using h.body⟩
    · cases hbound : criteria.modSeq with
      | none => rfl
      | some bound => simpa using h.modSeq bound hbound
    · have hlarger := h.larger
      rw [Larger] at hlarger
      rw [Bool.not_eq_true', decide_eq_false_iff_not, size]
      omega
    · have hsmaller := h.smaller
      rw [Smaller] at hsmaller
      rw [Bool.not_eq_true', decide_eq_false_iff_not, size]
      omega

theorem searchNot_iff (not : List SearchCriteria) : msg.searchNot content seqNum not = true ↔
      ∀ criteria ∈ not, msg.search content seqNum criteria = false := by
  induction not with
  | nil => simp [searchNot]
  | cons first rest ih => simp [searchNot, ih]

theorem searchOr_iff (or : List (SearchCriteria × SearchCriteria)) :
    msg.searchOr content seqNum or = true ↔ ∀ pair ∈ or, msg.search content seqNum pair.1 = true ∨
        msg.search content seqNum pair.2 = true := by
  induction or with
  | nil => simp [searchOr]
  | cons first rest ih =>
    rw [searchOr, searchEither, Bool.and_eq_true, Bool.or_eq_true, ih, List.forall_mem_cons]

theorem search_iff (fields : SearchFields) (not : List SearchCriteria)
    (or : List (SearchCriteria × SearchCriteria)) :
    msg.search content seqNum (.mk fields not or) = true ↔ FieldsMatch content msg seqNum fields ∧
        (∀ criteria ∈ not, msg.search content seqNum criteria = false) ∧
        ∀ pair ∈ or, msg.search content seqNum pair.1 = true ∨
          msg.search content seqNum pair.2 = true := by
  rw [search, Bool.and_eq_true, Bool.and_eq_true, searchFields_iff,
    searchNot_iff, searchOr_iff, and_assoc]

end Message

end GoImap.MemServer
