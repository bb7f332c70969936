import GoImap.Client.SearchWriter

/-!
# Entering what was written

The keys of the criteria are in an order in which nothing is lost when they are
entered one after the other: the dates come before the bounds on the size, and
the lower bound before the upper one.
-/

namespace GoImap

namespace SearchKey

variable (condStore : Bool)

theorem enterAll_append (criteria : SearchCriteria) (first second : List SearchKey) :
    enterAll condStore criteria (first ++ second) =
      enterAll condStore (enterAll condStore criteria first) second := by
  induction first generalizing criteria with
  | nil => rfl
  | cons key rest ih => exact ih (enter condStore criteria key)

theorem enterAll_not (fields : SearchFields) (not : List SearchCriteria)
    (or : List (SearchCriteria × SearchCriteria)) (programs : List (List SearchKey)) :
    enterAll condStore (.mk fields not or) (programs.map fun keys => .not (.list keys)) =
      .mk fields (not ++ programs.map (criteria condStore)) or := by
  induction programs generalizing not with
  | nil => simp [enterAll]
  | cons keys rest ih =>
    refine (ih (not ++ [criteria condStore keys])).trans ?_
    simp

theorem enterAll_or (fields : SearchFields) (not : List SearchCriteria)
    (or : List (SearchCriteria × SearchCriteria))
    (programs : List (List SearchKey × List SearchKey)) :
    enterAll condStore (.mk fields not or)
        (programs.map fun pair => .or (.list pair.1) (.list pair.2)) =
      .mk fields not (or ++ programs.map fun pair =>
        (criteria condStore pair.1, criteria condStore pair.2)) := by
  induction programs generalizing or with
  | nil => simp [enterAll]
  | cons pair rest ih =>
    refine (ih (or ++ [(criteria condStore pair.1, criteria condStore pair.2)])).trans ?_
    simp

def EntersFields (key : SearchKey) : Prop :=
  ∀ criteria, enter condStore criteria key = criteria.withFields (·.enter condStore key)

theorem enterAll_fields {keys : List SearchKey} (h : ∀ key ∈ keys, key.EntersFields condStore)
    (fields : SearchFields) (not : List SearchCriteria)
    (or : List (SearchCriteria × SearchCriteria)) :
    enterAll condStore (.mk fields not or) keys =
      .mk (keys.foldl (SearchFields.enter condStore) fields) not or := by
  induction keys generalizing fields with
  | nil => rfl
  | cons key rest ih =>
    obtain ⟨hkey, hrest⟩ := List.forall_mem_cons.mp h
    rw [enterAll, hkey, List.foldl_cons]
    exact ih hrest _

end SearchKey

/-! ## One field after the other -/

theorem intersectSince_zero (t : Int) : intersectSince t 0 = t := by
  unfold intersectSince
  split_ifs <;> omega

theorem zero_intersectSince (t : Int) : intersectSince 0 t = t := rfl

theorem intersectBefore_zero (t : Int) : intersectBefore t 0 = t := by
  unfold intersectBefore
  split_ifs <;> omega

theorem zero_intersectBefore (t : Int) : intersectBefore 0 t = t := rfl

namespace SearchFields

variable {condStore : Bool} (fields : SearchFields)

theorem foldl_seqNum (entries : List NumSet) :
    (entries.map SearchKey.seqNum).foldl (enter condStore) fields =
      { fields with seqNum := fields.seqNum ++ entries } := by
  induction entries generalizing fields with
  | nil => simp
  | cons _ _ ih => simp [ih, enter]

theorem foldl_uid (entries : List UIDSet) :
    (entries.map SearchKey.uid).foldl (enter condStore) fields =
      { fields with uid := fields.uid ++ entries } := by
  induction entries generalizing fields with
  | nil => simp
  | cons _ _ ih => simp [ih, enter]

theorem foldl_header (spell : Bytes → Bytes) (entries : List SearchCriteriaHeaderField) :
    (entries.map fun field => .header (spell field.key) field.value).foldl (enter condStore)
        fields =
      { fields with
        header := fields.header ++ entries.map fun field => ⟨spell field.key, field.value⟩ } := by
  induction entries generalizing fields with
  | nil => simp
  | cons _ _ ih => simp [ih, enter]

theorem foldl_body (entries : List Bytes) :
    (entries.map SearchKey.body).foldl (enter condStore) fields =
      { fields with body := fields.body ++ entries } := by
  induction entries generalizing fields with
  | nil => simp
  | cons _ _ ih => simp [ih, enter]

theorem foldl_text (entries : List Bytes) :
    (entries.map SearchKey.text).foldl (enter condStore) fields =
      { fields with text := fields.text ++ entries } := by
  induction entries generalizing fields with
  | nil => simp
  | cons _ _ ih => simp [ih, enter]

theorem foldl_flag (spell : Flag → Flag) (entries : List Flag) :
    (entries.map fun flag => .flag (spell flag)).foldl (enter condStore) fields =
      { fields with flag := fields.flag ++ entries.map spell } := by
  induction entries generalizing fields with
  | nil => simp
  | cons _ _ ih => simp [ih, enter]

theorem foldl_notFlag (spell : Flag → Flag) (entries : List Flag) :
    (entries.map fun flag => .notFlag (spell flag)).foldl (enter condStore) fields =
      { fields with notFlag := fields.notFlag ++ entries.map spell } := by
  induction entries generalizing fields with
  | nil => simp
  | cons _ _ ih => simp [ih, enter]

structure NoSizes : Prop where
  larger : fields.larger = 0
  smaller : fields.smaller = 0

variable {fields}

theorem and_date (h : NoSizes fields) (key : DateKey) (t : Int) :
    fields.and (key.fields t) = { fields with
        since := intersectSince fields.since (key.fields t).since
        before := intersectBefore fields.before (key.fields t).before
        sentSince := intersectSince fields.sentSince (key.fields t).sentSince
        sentBefore :=
          intersectBefore fields.sentBefore (key.fields t).sentBefore } := by
  cases key <;> simp [and, DateKey.fields, h.larger, h.smaller, intersectLarger, intersectSmaller]

theorem and_larger (h : NoSizes fields) (n : Int) :
    fields.and { larger := n } = { fields with larger := n } := by
  simp [and, h.larger, h.smaller, intersectLarger, intersectSmaller,
    intersectSince_zero, intersectBefore_zero]

theorem and_smaller (h : 0 ≤ fields.larger) (hsmaller : fields.smaller = 0) (n : Int) :
    fields.and { smaller := n } = { fields with smaller := n } := by
  have hlarger : intersectLarger fields.larger 0 = fields.larger := by
    unfold intersectLarger
    split_ifs <;> omega
  simp [and, hlarger, hsmaller, intersectSmaller, intersectSince_zero, intersectBefore_zero]

end SearchFields

namespace Client

open Wire Utf8 Internal

structure IsDate (t : Int) : Prop where
  nonneg : 0 ≤ t
  midnight : t % oneDay = 0
  bounded : t < Calendar.daysBeforeYear 10000 * oneDay

theorem IsDate.dateTime {t : Int} (h : IsDate t) : dateTime (dateOfTime t) = t := by
  have hnonneg := h.nonneg
  have hmidnight := h.midnight
  rw [GoImap.dateTime, dateOfTime, Calendar.number_dateOf]
  rw [oneDay] at *
  omega

theorem IsDate.year {t : Int} (h : IsDate t) : (dateOfTime t).year < 10000 := by
  have hnonneg := h.nonneg
  have hbounded := h.bounded
  refine Calendar.year_dateOf_lt ?_
  rw [oneDay] at *
  omega

section Fields

variable {fields : SearchFields} {condStore : Bool} {t t₁ t₂ : Int}

def putDate (t : Int) (fields : SearchFields) : DateKey → SearchFields
  | .since => { fields with since := t }
  | .before => { fields with before := t }
  | .on => { fields with since := t, before := t + oneDay }
  | .sentSince => { fields with sentSince := t }
  | .sentBefore => { fields with sentBefore := t }
  | .sentOn => { fields with sentSince := t, sentBefore := t + oneDay }

def isUnset (fields : SearchFields) : DateKey → Prop
  | .since => fields.since = 0
  | .before => fields.before = 0
  | .on => fields.since = 0 ∧ fields.before = 0
  | .sentSince => fields.sentSince = 0
  | .sentBefore => fields.sentBefore = 0
  | .sentOn => fields.sentSince = 0 ∧ fields.sentBefore = 0

section

variable (hsizes : fields.NoSizes)

include hsizes

theorem enter_date (ht : IsDate t) {key : DateKey} (hunset : isUnset fields key) :
    fields.enter condStore (.date key (dateOfTime t)) = putDate t fields key := by
  rw [SearchFields.enter, ht.dateTime, SearchFields.and_date hsizes]
  cases key <;> simp only [isUnset] at hunset <;>
    simp [DateKey.fields, putDate, hunset, intersectSince_zero,
      zero_intersectSince, intersectBefore_zero, zero_intersectBefore]

theorem foldl_bound (ht : IsDate t) {key : DateKey}
    (hunset : isUnset fields key) (hsame : putDate 0 fields key = fields) :
    (if t ≠ 0 then [SearchKey.date key (dateOfTime t)] else []).foldl
        (SearchFields.enter condStore) fields = putDate t fields key := by
  split_ifs with hset
  · rw [List.foldl_cons, enter_date hsizes ht hunset]
    rfl
  · rw [not_not.mp hset, hsame]
    rfl

theorem foldl_dateKeys {day lower upper : DateKey}
    (hday : isUnset fields day) (hlower : isUnset fields lower)
    (hupper : isUnset (putDate t₁ fields lower) upper) (hnoLower : putDate 0 fields lower = fields)
    (hnoUpper : putDate 0 (putDate t₁ fields lower) upper = putDate t₁ fields lower)
    (hboth : putDate t₁ fields day = putDate (t₁ + oneDay) (putDate t₁ fields lower) upper)
    (ht₁ : IsDate t₁) (ht₂ : IsDate t₂) :
    (dateKeys day lower upper t₁ t₂).foldl (SearchFields.enter condStore)
        fields = putDate t₂ (putDate t₁ fields lower) upper := by
  have hstill : (putDate t₁ fields lower).NoSizes := by
    cases lower <;> exact ⟨hsizes.larger, hsizes.smaller⟩
  rw [dateKeys]
  by_cases hset : t₁ ≠ 0 ∧ t₂ ≠ 0 ∧ t₂ - t₁ = oneDay
  · rw [if_pos hset, List.foldl_cons, enter_date hsizes ht₁ hday, hboth,
      show t₁ + oneDay = t₂ by omega]
    rfl
  · rw [if_neg hset, List.foldl_append, foldl_bound hsizes ht₁ hlower hnoLower,
      foldl_bound hstill ht₂ hupper hnoUpper]

theorem foldl_received (hsince : fields.since = 0)
    (hbefore : fields.before = 0) (ht₁ : IsDate t₁) (ht₂ : IsDate t₂) :
    (dateKeys .on .since .before t₁ t₂).foldl (SearchFields.enter condStore)
        fields = { fields with since := t₁, before := t₂ } :=
  foldl_dateKeys hsizes ⟨hsince, hbefore⟩ hsince hbefore
    (by rw [putDate, ← hsince]) (by simp only [putDate, ← hbefore]) rfl ht₁ ht₂

theorem foldl_sent (hsince : fields.sentSince = 0)
    (hbefore : fields.sentBefore = 0) (ht₁ : IsDate t₁) (ht₂ : IsDate t₂) :
    (dateKeys .sentOn .sentSince .sentBefore t₁ t₂).foldl (SearchFields.enter condStore) fields =
      { fields with sentSince := t₁, sentBefore := t₂ } :=
  foldl_dateKeys hsizes ⟨hsince, hbefore⟩ hsince hbefore
    (by rw [putDate, ← hsince]) (by simp only [putDate, ← hbefore]) rfl ht₁ ht₂

omit hsizes in
theorem foldl_sizeKeys {make : Nat → SearchKey} {later : SearchFields} {size : Int} (h : 0 ≤ size)
    (henter : fields.enter condStore (make size.toNat) = later)
    (hzero : size = 0 → fields = later) :
    (sizeKeys make size).foldl (SearchFields.enter condStore) fields = later := by
  rw [sizeKeys]
  split_ifs with hpos
  · exact henter
  · exact hzero (by omega)

theorem foldl_larger {size : Int} (h : 0 ≤ size) :
    (sizeKeys .larger size).foldl (SearchFields.enter condStore) fields =
      { fields with larger := size } := by
  refine foldl_sizeKeys h ?_ fun hzero => by rw [hzero, ← hsizes.larger]
  rw [SearchFields.enter, SearchFields.and_larger hsizes, Int.toNat_of_nonneg h]

end

theorem foldl_smaller (hlarger : 0 ≤ fields.larger)
    (hsmaller : fields.smaller = 0) {size : Int} (h : 0 ≤ size) :
    (sizeKeys .smaller size).foldl (SearchFields.enter condStore) fields =
      { fields with smaller := size } := by
  refine foldl_sizeKeys h ?_ fun hzero => by rw [hzero, ← hsmaller]
  rw [SearchFields.enter, SearchFields.and_smaller hlarger hsmaller, Int.toNat_of_nonneg h]

theorem foldl_modSeq (hnone : fields.modSeq = none) (bound : Option SearchCriteriaModSeq) :
    (bound.toList.map SearchKey.modSeq).foldl (SearchFields.enter true)
        fields = { fields with modSeq := bound } := by
  cases bound with
  | none =>
    change fields = _
    rw [← hnone]
  | some bound => rfl

end Fields

/-! ## The criteria -/

section Rebuild

variable [LowerCase] [UpperCase]

def respell (fields : SearchFields) : SearchFields := { fields with
    header := fields.header.map fun field =>
      ⟨headerKey field.key, field.value⟩
    flag := fields.flag.map flagName
    notFlag := fields.notFlag.map flagName }

structure BoundsFit (fields : SearchFields) : Prop where
  since : IsDate fields.since
  before : IsDate fields.before
  sentSince : IsDate fields.sentSince
  sentBefore : IsDate fields.sentBefore
  larger : 0 ≤ fields.larger
  smaller : 0 ≤ fields.smaller

theorem foldl_fieldKeys {fields : SearchFields} (h : BoundsFit fields) :
    (fieldKeys fields).foldl (SearchFields.enter true) {} = respell fields := by
  rw [fieldKeys]
  simp only [List.foldl_append]
  rw [SearchFields.foldl_seqNum, SearchFields.foldl_uid, foldl_received ?_ ?_ ?_ h.since h.before,
    foldl_sent ?_ ?_ ?_ h.sentSince h.sentBefore, SearchFields.foldl_header,
    SearchFields.foldl_body, SearchFields.foldl_text, SearchFields.foldl_flag,
    SearchFields.foldl_notFlag, foldl_larger ?_ h.larger, foldl_smaller ?_ ?_ h.smaller,
    foldl_modSeq ?_]
  · rfl
  · rfl
  · exact h.larger
  · rfl
  · exact ⟨rfl, rfl⟩
  · exact ⟨rfl, rfl⟩
  · rfl
  · rfl
  · exact ⟨rfl, rfl⟩
  · rfl
  · rfl

omit [LowerCase] [UpperCase] in
theorem criteria_program (keys : List SearchKey) :
    SearchKey.criteria true (program keys) = SearchKey.criteria true keys := by
  rw [program]
  split_ifs with hempty
  · rw [hempty]
    rfl
  · rfl

theorem entersFields_fieldKeys (fields : SearchFields) :
    ∀ key ∈ fieldKeys fields, key.EntersFields true := by
  have hdates : ∀ day lower upper t₁ t₂,
      ∀ key ∈ dateKeys day lower upper t₁ t₂, key.EntersFields true := by
    intro day lower upper t₁ t₂
    rw [dateKeys]
    split_ifs <;> simp [SearchKey.EntersFields, SearchKey.enter]
  have hsizes : ∀ make size, (∀ n, SearchKey.EntersFields true (make n)) →
      ∀ key ∈ sizeKeys make size, key.EntersFields true := by
    intro make size hmake
    rw [sizeKeys]
    split_ifs <;> simp [hmake]
  simp only [fieldKeys, List.forall_mem_append, List.forall_mem_map]
  refine ⟨⟨⟨⟨⟨⟨⟨⟨⟨⟨⟨?_, ?_⟩, hdates _ _ _ _ _⟩, hdates _ _ _ _ _⟩, ?_⟩, ?_⟩,
    ?_⟩, ?_⟩, ?_⟩, hsizes _ _ fun _ _ => rfl⟩, hsizes _ _ fun _ _ => rfl⟩, ?_⟩
  all_goals exact fun _ _ _ => rfl

theorem criteria_searchKeys (criteria : SearchCriteria)
    (h : ∀ fields ∈ criteria.allFields, BoundsFit fields) :
    SearchKey.criteria true (searchKeys criteria) = criteria.mapFields respell := by
  induction criteria using SearchCriteria.tree_induction with
  | h fields not or hnot hor =>
    obtain ⟨hfields, hbelow, hpairs⟩ := SearchCriteria.forall_mem_allFields.mp h
    have hnots := List.map_congr_left fun criteria hmem =>
        (criteria_program _).trans (hnot criteria hmem (hbelow criteria hmem))
    have hors : or.map (fun pair =>
        (SearchKey.criteria true (program (searchKeys pair.1)),
          SearchKey.criteria true (program (searchKeys pair.2)))) =
          or.map fun pair =>
            (pair.1.mapFields respell, pair.2.mapFields respell) :=
      List.map_congr_left fun pair hmem => Prod.ext ((criteria_program _).trans
          ((hor pair hmem).1 (hpairs pair hmem).1))
        ((criteria_program _).trans ((hor pair hmem).2 (hpairs pair hmem).2))
    have hnotKeys : notKeys not = (not.map fun criteria => program (searchKeys criteria)).map
          fun keys => .not (.list keys) := by
      rw [notKeys_eq, List.map_map]
      rfl
    have horKeys : orKeys or = (or.map fun pair => (program (searchKeys pair.1),
          program (searchKeys pair.2))).map
          fun pair => .or (.list pair.1) (.list pair.2) := by
      rw [orKeys_eq, List.map_map]
      rfl
    rw [SearchKey.criteria, searchKeys, SearchKey.enterAll_append, SearchKey.enterAll_append,
      SearchCriteria.empty, SearchKey.enterAll_fields true (entersFields_fieldKeys fields),
      foldl_fieldKeys hfields, hnotKeys, SearchKey.enterAll_not, horKeys, SearchKey.enterAll_or,
      SearchCriteria.mapFields_mk, List.map_map, List.map_map, List.nil_append, List.nil_append]
    exact congrArg₂ (SearchCriteria.mk _) hnots hors

end Rebuild

end Client

end GoImap
