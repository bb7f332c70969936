import GoImap.MemServer.Search

/-!
# Intersecting criteria

`And` gives exactly the intersection of what it keeps of the two criteria: the
first without an upper bound on the size that the second does not have, and the
second without its modification sequence.  Whether it is an intersection of the
criteria themselves depends on these two bounds alone.
-/

namespace GoImap

namespace SearchFields

def losesSmaller (criteria other : SearchFields) : Prop := 0 < criteria.smaller ∧ other.smaller = 0

instance (criteria other : SearchFields) : Decidable (criteria.losesSmaller other) :=
  inferInstanceAs (Decidable (_ ∧ _))

def withoutLost (criteria other : SearchFields) : SearchFields :=
  { criteria with
    smaller := if criteria.losesSmaller other then 0 else criteria.smaller }

def withoutModSeq (other : SearchFields) : SearchFields := { other with modSeq := none }

end SearchFields

namespace SearchCriteria

def withoutLost (criteria other : SearchCriteria) : SearchCriteria :=
  criteria.withFields (·.withoutLost other.fields)

def withoutModSeq (other : SearchCriteria) : SearchCriteria := other.withFields (·.withoutModSeq)

/-- `And` loses no bound: an upper bound on the size meets another one, and a
modification sequence of the second is implied by that of the first. -/
structure Mergeable (criteria other : SearchCriteria) : Prop where
  smaller : ¬criteria.fields.losesSmaller other.fields
  modSeq : ∀ bound, other.fields.modSeq = some bound → bound.modSeq = 0 ∨
    ∃ first, criteria.fields.modSeq = some first ∧ bound.modSeq ≤ first.modSeq

end SearchCriteria

namespace MemServer.Message

variable [CaseMapping] {content : Content} {msg : Message} {seqNum : SeqNum}

omit [CaseMapping] in
theorem sent_intersect (a b c d : Int) :
    msg.Sent content (intersectSince a b) (intersectBefore c d) ↔
      msg.Sent content a c ∧ msg.Sent content b d := by
  simp only [Sent, intersectSince_eq_zero, intersectBefore_eq_zero,
    since_intersect, before_intersect]
  constructor
  · rintro (hunset | ⟨date, hdate, hsince, hbefore⟩)
    · exact ⟨.inl ⟨hunset.1.1, hunset.2.1⟩, .inl ⟨hunset.1.2, hunset.2.2⟩⟩
    · exact ⟨.inr ⟨date, hdate, hsince.1, hbefore.1⟩, .inr ⟨date, hdate, hsince.2, hbefore.2⟩⟩
  · rintro ⟨⟨rfl, rfl⟩ | ⟨date, hdate, hsince, hbefore⟩,
      ⟨rfl, rfl⟩ | ⟨date', hdate', hsince', hbefore'⟩⟩
    · exact .inl ⟨⟨rfl, rfl⟩, rfl, rfl⟩
    · exact .inr ⟨date', hdate', ⟨.inl rfl, hsince'⟩, .inl rfl, hbefore'⟩
    · exact .inr ⟨date, hdate, ⟨hsince, .inl rfl⟩, hbefore, .inl rfl⟩
    · obtain rfl := Option.some.inj (hdate.symm.trans hdate')
      exact .inr ⟨date, hdate, ⟨hsince, hsince'⟩, hbefore, hbefore'⟩

omit [CaseMapping] in
theorem smaller_withoutLost (a b : SearchFields) :
    Smaller (a.withoutLost b).smaller msg.buf.length ↔
      a.losesSmaller b ∨ Smaller a.smaller msg.buf.length := by
  by_cases hloses : a.losesSmaller b
  · simp [SearchFields.withoutLost, hloses, Smaller]
  · simp [SearchFields.withoutLost, hloses]

theorem fieldsMatch_and (a b : SearchFields) : FieldsMatch content msg seqNum (a.and b) ↔
      FieldsMatch content msg seqNum (a.withoutLost b) ∧
        FieldsMatch content msg seqNum b.withoutModSeq := by
  have hsmaller : Smaller (a.and b).smaller msg.buf.length ↔
      Smaller (a.withoutLost b).smaller msg.buf.length ∧ Smaller b.smaller msg.buf.length := by
    rw [smaller_withoutLost]
    exact smaller_intersect a.smaller b.smaller msg.buf.length
  constructor
  · intro h
    have hseqNum := List.forall_mem_append.mp h.seqNum
    have huid := List.forall_mem_append.mp h.uid
    have hsince := (since_intersect _ _ _).mp h.since
    have hbefore := (before_intersect _ _ _).mp h.before
    have hflag := List.forall_mem_append.mp h.flag
    have hnotFlag := List.forall_mem_append.mp h.notFlag
    have hlarger := (larger_intersect _ _ _).mp h.larger
    have hbound := hsmaller.mp h.smaller
    have hheader := List.forall_mem_append.mp h.header
    have hsent := (sent_intersect _ _ _ _).mp h.sent
    have htext := List.forall_mem_append.mp h.text
    have hbody := List.forall_mem_append.mp h.body
    exact ⟨⟨hseqNum.1, huid.1, hsince.1, hbefore.1, h.modSeq, hflag.1,
        hnotFlag.1, hlarger.1, hbound.1, hheader.1, hsent.1, htext.1, hbody.1⟩,
      ⟨hseqNum.2, huid.2, hsince.2, hbefore.2, (by rintro _ ⟨⟩), hflag.2,
        hnotFlag.2, hlarger.2, hbound.2, hheader.2, hsent.2, htext.2, hbody.2⟩⟩
  · rintro ⟨ha, hb⟩
    exact
      { seqNum := List.forall_mem_append.mpr ⟨ha.seqNum, hb.seqNum⟩
        uid := List.forall_mem_append.mpr ⟨ha.uid, hb.uid⟩
        since := (since_intersect _ _ _).mpr ⟨ha.since, hb.since⟩
        before := (before_intersect _ _ _).mpr ⟨ha.before, hb.before⟩
        modSeq := ha.modSeq
        flag := List.forall_mem_append.mpr ⟨ha.flag, hb.flag⟩
        notFlag := List.forall_mem_append.mpr ⟨ha.notFlag, hb.notFlag⟩
        larger := (larger_intersect _ _ _).mpr ⟨ha.larger, hb.larger⟩
        smaller := hsmaller.mpr ⟨ha.smaller, hb.smaller⟩
        header := List.forall_mem_append.mpr ⟨ha.header, hb.header⟩
        sent := (sent_intersect _ _ _ _).mpr ⟨ha.sent, hb.sent⟩
        text := List.forall_mem_append.mpr ⟨ha.text, hb.text⟩
        body := List.forall_mem_append.mpr ⟨ha.body, hb.body⟩ }

theorem fieldsMatch_withoutLost (a b : SearchFields) :
    FieldsMatch content msg seqNum a ↔ FieldsMatch content msg seqNum (a.withoutLost b) ∧
        (a.losesSmaller b → msg.buf.length < a.smaller) := by
  constructor
  · intro h
    refine ⟨{ h with smaller := (smaller_withoutLost a b).mpr (.inr h.smaller) }, fun hloses => ?_⟩
    have hsmaller := h.smaller
    have hpos := hloses.1
    rw [Smaller] at hsmaller
    omega
  · rintro ⟨h, hbound⟩
    refine { h with smaller := ?_ }
    rcases (smaller_withoutLost a b).mp h.smaller with hloses | hsmaller
    · exact .inr (hbound hloses)
    · exact hsmaller

theorem fieldsMatch_withoutModSeq (b : SearchFields) :
    FieldsMatch content msg seqNum b ↔ FieldsMatch content msg seqNum b.withoutModSeq ∧
        ∀ bound, b.modSeq = some bound → bound.modSeq ≤ msg.modSeq := by
  constructor
  · intro h
    exact ⟨{ h with modSeq := by rintro _ ⟨⟩ }, h.modSeq⟩
  · rintro ⟨h, hbound⟩
    exact { h with modSeq := hbound }

theorem search_and (a b : SearchCriteria) : msg.search content seqNum (a.and b) = true ↔
      msg.search content seqNum (a.withoutLost b) = true ∧
        msg.search content seqNum b.withoutModSeq = true := by
  obtain ⟨fields, not, or⟩ := a
  obtain ⟨otherFields, otherNot, otherOr⟩ := b
  simp only [SearchCriteria.and, SearchCriteria.withoutLost, SearchCriteria.withoutModSeq,
    SearchCriteria.withFields, search_iff, fieldsMatch_and, List.forall_mem_append]
  tauto

theorem search_withoutLost (a b : SearchCriteria) :
    msg.search content seqNum a = true ↔ msg.search content seqNum (a.withoutLost b) = true ∧
        (a.fields.losesSmaller b.fields → msg.buf.length < a.fields.smaller) := by
  obtain ⟨fields, not, or⟩ := a
  simp only [SearchCriteria.withoutLost, SearchCriteria.withFields, search_iff]
  rw [fieldsMatch_withoutLost fields b.fields]
  tauto

theorem search_withoutModSeq (b : SearchCriteria) :
    msg.search content seqNum b = true ↔ msg.search content seqNum b.withoutModSeq = true ∧
        ∀ bound, b.fields.modSeq = some bound → bound.modSeq ≤ msg.modSeq := by
  obtain ⟨fields, not, or⟩ := b
  simp only [SearchCriteria.withoutModSeq, SearchCriteria.withFields, search_iff]
  rw [fieldsMatch_withoutModSeq fields]
  tauto

/-- A message that meets what `And` keeps of the criteria meets the bounds that
it loses. -/
def KeepsBounds (content : Content) (msg : Message) (seqNum : SeqNum)
    (a b : SearchCriteria) : Prop :=
  msg.search content seqNum (a.withoutLost b) = true →
  msg.search content seqNum b.withoutModSeq = true →
    (a.fields.losesSmaller b.fields → msg.buf.length < a.fields.smaller) ∧
      ∀ bound, b.fields.modSeq = some bound → bound.modSeq ≤ msg.modSeq

theorem search_and_iff (a b : SearchCriteria) :
    (msg.search content seqNum (a.and b) = true ↔ msg.search content seqNum a = true ∧
          msg.search content seqNum b = true) ↔
      KeepsBounds content msg seqNum a b := by
  rw [search_and, search_withoutLost a b, search_withoutModSeq b, KeepsBounds]
  tauto

theorem modSeq_le_of_search {a : SearchCriteria}
    (h : msg.search content seqNum a = true) {bound : SearchCriteriaModSeq}
    (hbound : a.fields.modSeq = some bound) : bound.modSeq ≤ msg.modSeq :=
  ((search_withoutModSeq a).mp h).2 bound hbound

theorem keepsBounds_of_mergeable {a b : SearchCriteria}
    (h : a.Mergeable b) : KeepsBounds content msg seqNum a b := by
  intro ha hb
  refine ⟨fun hloses => absurd hloses h.smaller, fun bound hbound => ?_⟩
  rcases h.modSeq bound hbound with hzero | ⟨first, hfirst, hle⟩
  · rw [hzero]
    exact UInt64.zero_le
  · have hsearch := (search_withoutLost a b).mpr ⟨ha, fun hloses => absurd hloses h.smaller⟩
    exact UInt64.le_trans hle (modSeq_le_of_search hsearch hfirst)

theorem search_and_of_mergeable {a b : SearchCriteria} (h : a.Mergeable b) :
    msg.search content seqNum (a.and b) = true ↔ msg.search content seqNum a = true ∧
        msg.search content seqNum b = true :=
  (search_and_iff a b).mpr (keepsBounds_of_mergeable h)

end MemServer.Message

namespace SearchCriteria.Mergeable

variable {a b c : SearchCriteria}

theorem fields_and (a b : SearchCriteria) : (a.and b).fields = a.fields.and b.fields := by
  obtain ⟨fields, not, or⟩ := a
  obtain ⟨otherFields, otherNot, otherOr⟩ := b
  rfl

theorem refl (a : SearchCriteria) : a.Mergeable a where
  smaller := by
    rintro ⟨hpos, hzero⟩
    omega
  modSeq := fun bound hbound => .inr ⟨bound, hbound, UInt64.le_refl _⟩

theorem and_left (hac : a.Mergeable c) (hbc : b.Mergeable c) : (a.and b).Mergeable c where
  smaller := by
    have hb := hbc.smaller
    rw [fields_and]
    unfold SearchFields.losesSmaller at *
    simp only [SearchFields.and, intersectSmaller]
    split_ifs <;> omega
  modSeq := by
    rw [fields_and]
    exact hac.modSeq

theorem and_right (hab : a.Mergeable b) (hac : a.Mergeable c) : a.Mergeable (b.and c) where
  smaller := by
    have hc := hac.smaller
    rw [fields_and]
    unfold SearchFields.losesSmaller at *
    simp only [SearchFields.and, intersectSmaller]
    split_ifs <;> omega
  modSeq := by
    rw [fields_and]
    exact hab.modSeq

end SearchCriteria.Mergeable

namespace MemServer.Message

variable [CaseMapping] {content : Content} {msg : Message} {seqNum : SeqNum}

theorem search_empty : msg.search content seqNum .empty = true := by
  rw [SearchCriteria.empty, search_iff]
  refine ⟨?_, by simp, by simp⟩
  constructor <;> simp [Since, Before, Larger, Smaller, Sent]

end MemServer.Message

namespace MemServer

/--
`And` is intersection on a message exactly if the message meets the bounds that
`And` loses or fails one that it keeps.  Where no bound is lost it is
commutative, associative and has the empty criteria as unit; it is idempotent
in any case.
-/
theorem and_is_intersection [CaseMapping] (content : Content) (msg : Message)
    (seqNum : SeqNum) (a b c : SearchCriteria) :
    ((msg.search content seqNum (a.and b) = true ↔ msg.search content seqNum a = true ∧
          msg.search content seqNum b = true) ↔
      Message.KeepsBounds content msg seqNum a b) ∧
    (a.Mergeable b → Message.KeepsBounds content msg seqNum a b) ∧
    (a.Mergeable b → b.Mergeable a → msg.search content seqNum (a.and b) =
        msg.search content seqNum (b.and a)) ∧
    (a.Mergeable b → a.Mergeable c → b.Mergeable c → msg.search content seqNum ((a.and b).and c) =
        msg.search content seqNum (a.and (b.and c))) ∧
    msg.search content seqNum (a.and a) = msg.search content seqNum a ∧
    (a.Mergeable .empty → msg.search content seqNum (a.and .empty) = msg.search content seqNum a) ∧
    (SearchCriteria.empty.Mergeable a → msg.search content seqNum (SearchCriteria.empty.and a) =
        msg.search content seqNum a) := by
  refine ⟨Message.search_and_iff a b, Message.keepsBounds_of_mergeable, ?_, ?_, ?_, ?_, ?_⟩
  · intro hab hba
    rw [Bool.eq_iff_iff, Message.search_and_of_mergeable hab,
      Message.search_and_of_mergeable hba, and_comm]
  · intro hab hac hbc
    rw [Bool.eq_iff_iff, Message.search_and_of_mergeable (hac.and_left hbc),
      Message.search_and_of_mergeable hab, Message.search_and_of_mergeable (hab.and_right hac),
      Message.search_and_of_mergeable hbc, and_assoc]
  · rw [Bool.eq_iff_iff, Message.search_and_of_mergeable (SearchCriteria.Mergeable.refl a),
      and_self_iff]
  · intro h
    rw [Bool.eq_iff_iff, Message.search_and_of_mergeable h]
    simp [Message.search_empty]
  · intro h
    rw [Bool.eq_iff_iff, Message.search_and_of_mergeable h]
    simp [Message.search_empty]

def noContent : Content where
  civilDay := fun _ => 0
  date := fun _ => none
  matchHeaderFields := fun _ _ _ => false
  matchEntity := fun _ _ _ => false

def tenOctets : Message where
  address := 0
  uid := 1
  buf := List.replicate 10 0
  t := 0
  flags := .empty
  modSeq := 1

theorem and_is_intersection_sizes :
    (SearchCriteria.mk { larger := 5 } [] []).Mergeable (.mk { smaller := 20 } [] []) ∧
      (@Message.search asciiCaseMapping noContent tenOctets 1
          ((SearchCriteria.mk { larger := 5 } [] []).and (.mk { smaller := 20 } [] [])) = true ↔
        @Message.search asciiCaseMapping noContent tenOctets 1 (.mk { larger := 5 } [] []) = true ∧
          @Message.search asciiCaseMapping noContent tenOctets 1
            (.mk { smaller := 20 } [] []) = true) := by
  have hmergeable : (SearchCriteria.mk { larger := 5 } [] []).Mergeable
      (.mk { smaller := 20 } [] []) := ⟨by decide, by rintro _ ⟨⟩⟩
  have hlaws := @and_is_intersection asciiCaseMapping noContent tenOctets 1
    (.mk { larger := 5 } [] []) (.mk { smaller := 20 } [] []) .empty
  exact ⟨hmergeable, hlaws.1.mpr (hlaws.2.1 hmergeable)⟩

/-- With `Smaller` ten on the one side only, and with a `ModSeq` on the other
side only, a message matches although it does not match both. -/
theorem and_loses_bounds : (@Message.search asciiCaseMapping noContent tenOctets 1
        ((SearchCriteria.mk { smaller := 10 } [] []).and .empty) = true ∧
      @Message.search asciiCaseMapping noContent tenOctets 1
        (.mk { smaller := 10 } [] []) = false) ∧
    @Message.search asciiCaseMapping noContent tenOctets 1 (SearchCriteria.empty.and
          (.mk { modSeq := some { modSeq := 2 } } [] [])) = true ∧
      @Message.search asciiCaseMapping noContent tenOctets 1
        (.mk { modSeq := some { modSeq := 2 } } [] []) = false := by
  decide

end MemServer

end GoImap
