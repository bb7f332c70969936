import GoImap.MemServer.Program
import GoImap.Server.SearchText

/-!
# Searching with a program

One key after the other is entered into the criteria, and each adds what is in
force of it given the keys behind it.  So a message is found by the criteria of
a program exactly if it satisfies what is in force, and that is the meaning of
the program if it implies the rest.
-/

namespace GoImap

variable {keys : List SearchKey}

namespace MemServer.Message

variable {key : SearchKey}

section Run

variable [CaseMapping] {content : Content} {msg : Message} {seqNum : SeqNum}
  {condStore : Bool} {criteria : SearchCriteria}

structure Ready (content : Content) (msg : Message) (seqNum : SeqNum)
    (condStore : Bool) (key : SearchKey) : Prop where
  single : key.isList = false
  sets : ∀ set ∈ key.sets, SetFits set
  right : ∀ part ∈ key.operands, msg.Right content seqNum condStore part

theorem right_singleton (key : SearchKey) :
    msg.Right content seqNum condStore [key] ↔ (msg.search content seqNum
          (SearchKey.enter condStore .empty key) = true ↔
        msg.Satisfies content seqNum key) := by
  rw [Right, SatisfiesAll, SatisfiesAll, and_true]
  rfl

theorem satisfies_not (key : SearchKey) :
    msg.Satisfies content seqNum (.not key) ↔ ¬msg.Satisfies content seqNum key := by
  rw [Satisfies]

theorem satisfies_or (left right : SearchKey) :
    msg.Satisfies content seqNum (.or left right) ↔ msg.Satisfies content seqNum left ∨
        msg.Satisfies content seqNum right := by
  rw [Satisfies]

theorem enforced_iff_satisfies (h : key.isBound = false) (later : List SearchKey) :
    msg.Enforced content seqNum condStore later key ↔ msg.Satisfies content seqNum key := by
  cases key with
  | date | larger | smaller | modSeq => cases h
  | _ => rfl

theorem search_enter (later : List SearchKey) (hkey : Ready content msg seqNum condStore key)
    (hsmaller : 0 ≤ criteria.fields.smaller) :
    msg.search content seqNum ((SearchKey.enter condStore criteria key).withFields
          (·.weaken condStore later)) = true ↔
      msg.search content seqNum (criteria.withFields (·.weaken condStore (key :: later))) = true ∧
        msg.Enforced content seqNum condStore later key := by
  obtain ⟨fields, not, or⟩ := criteria
  cases key with
  | list keys => cases hkey.single
  | not key =>
    have hright := (right_singleton key).mp (hkey.right [key] List.mem_cons_self)
    have hnot : msg.Enforced content seqNum condStore later (.not key) ↔ msg.search content seqNum
          (SearchKey.enter condStore .empty key) = false := by
      rw [enforced_iff_satisfies rfl, satisfies_not, ← hright, Bool.not_eq_true]
    rw [hnot]
    simp only [SearchKey.enter, SearchCriteria.addNot, SearchCriteria.withFields,
      SearchCriteria.fields, SearchCriteria.not, SearchCriteria.or, search_iff,
      List.forall_mem_append, List.forall_mem_singleton]
    tauto
  | or left right =>
    have hleft := (right_singleton left).mp (hkey.right [left] List.mem_cons_self)
    have hright := (right_singleton right).mp
      (hkey.right [right] (List.mem_cons_of_mem _ List.mem_cons_self))
    have hor : msg.Enforced content seqNum condStore later (.or left right) ↔
        msg.search content seqNum (SearchKey.enter condStore .empty left) = true ∨
          msg.search content seqNum (SearchKey.enter condStore .empty right) = true := by
      rw [enforced_iff_satisfies rfl, satisfies_or, hleft, hright]
    rw [hor]
    simp only [SearchKey.enter, SearchCriteria.addOr, SearchCriteria.withFields,
      SearchCriteria.fields, SearchCriteria.not, SearchCriteria.or, search_iff,
      List.forall_mem_append, List.forall_mem_singleton]
    tauto
  | _ =>
    have hstep := @fieldsMatch_enter _ content msg seqNum fields condStore
      later _ (by simp [SearchKey.isPlain, SearchKey.isBound]) hkey.sets
      hsmaller
    simp only [SearchKey.enter, SearchCriteria.withFields, search_iff]
    rw [hstep, and_right_comm]

omit [CaseMapping] in
theorem intersectSmaller_nonneg {smaller other : Int} (h : 0 ≤ smaller)
    (hother : 0 ≤ other) : 0 ≤ intersectSmaller smaller other := by
  rw [intersectSmaller]
  split_ifs
  · exact hother
  · exact h

omit [CaseMapping] in
theorem enter_smaller (hsingle : key.isList = false) (h : 0 ≤ criteria.fields.smaller) :
    0 ≤ (SearchKey.enter condStore criteria key).fields.smaller := by
  obtain ⟨fields, not, or⟩ := criteria
  cases key with
  | list keys => cases hsingle
  | date key date =>
    exact intersectSmaller_nonneg h (by cases key <;> exact le_refl 0)
  | larger n => exact intersectSmaller_nonneg h (le_refl 0)
  | smaller n => exact intersectSmaller_nonneg h (Int.natCast_nonneg n)
  | modSeq bound => cases condStore <;> exact h
  | _ => exact h

theorem search_enterAll (hkeys : ∀ key ∈ keys, Ready content msg seqNum condStore key)
    (hsmaller : 0 ≤ criteria.fields.smaller) :
    msg.search content seqNum (keys.foldl (SearchKey.enter condStore) criteria) = true ↔
      msg.search content seqNum (criteria.withFields (·.weaken condStore keys)) = true ∧
        msg.EnforcedAll content seqNum condStore keys := by
  induction keys generalizing criteria with
  | nil =>
    have hsame : criteria.withFields (·.weaken condStore []) = criteria := by
      obtain ⟨fields, not, or⟩ := criteria
      simp [SearchCriteria.withFields, SearchFields.weaken]
    rw [hsame, EnforcedAll, and_true]
    rfl
  | cons key later ih =>
    obtain ⟨hkey, hlater⟩ := List.forall_mem_cons.mp hkeys
    rw [List.foldl_cons, ih hlater (enter_smaller hkey.single hsmaller),
      search_enter later hkey hsmaller, EnforcedAll, and_assoc]

mutual

theorem satisfies_flatten (key : SearchKey) :
    (∀ other ∈ SearchKey.flatten key, msg.Satisfies content seqNum other) ↔
      msg.Satisfies content seqNum key := by
  cases key with
  | list keys =>
    rw [SearchKey.flatten, satisfiesAll_flatten keys, Satisfies]
  | _ => simp [SearchKey.flatten]

theorem satisfiesAll_flatten (keys : List SearchKey) :
    (∀ other ∈ SearchKey.flattenAll keys, msg.Satisfies content seqNum other) ↔
      msg.SatisfiesAll content seqNum keys := by
  cases keys with
  | nil => simp [SearchKey.flattenAll, SatisfiesAll]
  | cons key rest =>
    rw [SearchKey.flattenAll, List.forall_mem_append, satisfies_flatten key,
      satisfiesAll_flatten rest, SatisfiesAll]

end

theorem enforced_of_satisfies (later : List SearchKey) (h : msg.Satisfies content seqNum key) :
    msg.Enforced content seqNum condStore later key := by
  cases key with
  | date key date =>
    rw [Satisfies] at h
    obtain ⟨day, hday, hcompares⟩ := h
    have hbounds : (key.lower date.number ≠ 0 → key.lower date.number ≤ day) ∧
        (key.upper date.number ≠ 0 → day < key.upper date.number) := by
      cases key <;>
        simp only [DateKey.Compares, DateKey.lower, DateKey.upper] at hcompares ⊢ <;> omega
    exact ⟨fun hlower => ⟨day, hday, hbounds.1 hlower⟩, fun hupper => ⟨day, hday, hbounds.2 hupper⟩⟩
  | larger n | smaller n
  | modSeq bound => exact fun _ => by rwa [Satisfies] at h
  | _ => exact h

theorem enforcedAll_of_satisfies (h : ∀ key ∈ keys, msg.Satisfies content seqNum key) :
    msg.EnforcedAll content seqNum condStore keys := by
  induction keys with
  | nil => trivial
  | cons key later ih =>
    obtain ⟨hkey, hlater⟩ := List.forall_mem_cons.mp h
    exact ⟨enforced_of_satisfies later hkey, ih hlater⟩

theorem right_iff_honoured (hsets : ∀ set ∈ SearchKey.setsAll keys, SetFits set)
    (hright : ∀ part ∈ SearchKey.operandsAll keys, msg.Right content seqNum condStore part) :
    msg.Right content seqNum condStore keys ↔ msg.Honoured content seqNum condStore keys := by
  have hready : ∀ key ∈ SearchKey.flattenAll keys,
      Ready content msg seqNum condStore key := fun key hkey =>
    { single := SearchKey.isList_flattenAll keys key hkey
      sets := (SearchKey.descends_sets SetFits).flattenAll keys
        (SearchKey.forall_mem_setsAll.mp hsets) key hkey
      right := (SearchKey.descends_operands (msg.Right content seqNum condStore)).flattenAll keys
        (SearchKey.forall_mem_operandsAll.mp hright) key hkey }
  have hempty : SearchCriteria.empty.withFields
      (·.weaken condStore (SearchKey.flattenAll keys)) = .empty := by
    simp [SearchCriteria.empty, SearchCriteria.withFields, SearchFields.weaken]
  have hrun := @search_enterAll _ _ content msg seqNum condStore .empty hready (le_refl 0)
  rw [SearchKey.enterAll_flatten, hempty] at hrun
  have hforced : msg.SatisfiesAll content seqNum keys → msg.EnforcedAll content seqNum condStore
        (SearchKey.flattenAll keys) := fun h =>
    enforcedAll_of_satisfies ((satisfiesAll_flatten keys).mpr h)
  rw [Right, SearchKey.criteria, hrun, Honoured]
  simp only [search_empty, true_and]
  exact ⟨Iff.mp, fun h => ⟨h, hforced⟩⟩

theorem singleton_right_iff (hsets : ∀ set ∈ key.sets, SetFits set)
    (hright : ∀ part ∈ key.operands, msg.Right content seqNum condStore part) :
    msg.Right content seqNum condStore [key] ↔ msg.Honoured content seqNum condStore [key] := by
  refine right_iff_honoured (SearchKey.forall_mem_setsAll.mpr ?_)
    (SearchKey.forall_mem_operandsAll.mpr ?_)
  · simpa using hsets
  · simpa using hright

mutual

theorem operands_right_iff (key : SearchKey) (hsets : ∀ set ∈ key.sets, SetFits set) :
    (∀ part ∈ key.operands, msg.Right content seqNum condStore part) ↔
      ∀ part ∈ key.operands, msg.Honoured content seqNum condStore part := by
  cases key with
  | not key =>
    have hkey := operands_right_iff key hsets
    rw [SearchKey.operands, List.forall_mem_cons, List.forall_mem_cons, ← hkey]
    exact and_congr_left fun hright => singleton_right_iff hsets hright
  | or left right =>
    rw [SearchKey.sets, List.forall_mem_append] at hsets
    have hleft := operands_right_iff left hsets.1
    have hright := operands_right_iff right hsets.2
    simp only [SearchKey.operands, List.forall_mem_cons, List.forall_mem_append]
    rw [← hleft, ← hright]
    constructor
    · rintro ⟨hfirst, hsecond, hl, hr⟩
      exact ⟨(singleton_right_iff hsets.1 hl).mp hfirst,
        (singleton_right_iff hsets.2 hr).mp hsecond, hl, hr⟩
    · rintro ⟨hfirst, hsecond, hl, hr⟩
      exact ⟨(singleton_right_iff hsets.1 hl).mpr hfirst,
        (singleton_right_iff hsets.2 hr).mpr hsecond, hl, hr⟩
  | list keys => exact operandsAll_right_iff keys hsets
  | _ => simp [SearchKey.operands]

theorem operandsAll_right_iff (keys : List SearchKey)
    (hsets : ∀ set ∈ SearchKey.setsAll keys, SetFits set) :
    (∀ part ∈ SearchKey.operandsAll keys, msg.Right content seqNum condStore part) ↔
      ∀ part ∈ SearchKey.operandsAll keys, msg.Honoured content seqNum condStore part := by
  cases keys with
  | nil => simp [SearchKey.operandsAll]
  | cons key rest =>
    rw [SearchKey.setsAll, List.forall_mem_append] at hsets
    rw [SearchKey.operandsAll, List.forall_mem_append, List.forall_mem_append,
      operands_right_iff key hsets.1, operandsAll_right_iff rest hsets.2]

end

theorem parts_right_iff (hsets : ∀ set ∈ SearchKey.setsAll keys, SetFits set) :
    (∀ part ∈ SearchKey.parts keys, msg.Right content seqNum condStore part) ↔
      ∀ part ∈ SearchKey.parts keys, msg.Honoured content seqNum condStore part := by
  rw [SearchKey.parts, List.forall_mem_cons, List.forall_mem_cons,
    ← operandsAll_right_iff keys hsets]
  exact and_congr_left (right_iff_honoured hsets)

end Run

end MemServer.Message

namespace MemServer

open Wire Server Utf8

def isStatic : UIDSet → Bool
  | .nums set => !set.isDynamic
  | .searchRes => false

/--
For a program that was read, the message is found exactly if it satisfies the
program, and likewise for the operands of `NOT` and `OR` in it, if and only if
what is in force of each of them implies the rest on this message.

Not in force are an upper bound on the size with a lower one, a date or a zero
upper bound behind it, a zero bound on the size, a modification sequence with
another one behind it or without `CONDSTORE`, and a bound of a date that is the
zero time.
-/
theorem search_means_program [CaseMapping] [LowerCase] [UpperCase] (options : Options)
    (dec next : Decoder) (keys : List SearchKey)
    (hread : (readSearchKeys options).Returns dec keys next)
    (hstatic : ∀ set ∈ SearchKey.setsAll keys, isStatic set = true) (condStore : Bool)
    (content : Content) (msg : Message) (seqNum : SeqNum) :
    (∀ part ∈ SearchKey.parts keys,
        (msg.search content seqNum (SearchKey.criteria condStore part) = true ↔
          msg.SatisfiesAll content seqNum part)) ↔
      ∀ part ∈ SearchKey.parts keys, msg.Honoured content seqNum condStore part := by
  refine Message.parts_right_iff fun set hset => ?_
  have horder := readSearchKeys_inOrder hread set hset
  have hgiven := hstatic set hset
  cases set with
  | nums set => exact ⟨horder, by simpa [isStatic] using hgiven⟩
  | searchRes => cases hgiven

theorem facing_newDecoder (stream : Bytes) (count : Nat) :
    Decoder.Facing plainServer (newDecoder stream) count stream :=
  ⟨⟨rfl, rfl, fun hlimit => absurd hlimit (by decide)⟩, rfl⟩

/-- A lower bound on the size, and then an upper one. -/
theorem search_means_program_sizes :
    ∃ next, (@readSearchKeys plainServer unicode asciiUpper).Returns
        (newDecoder (ascii "LARGER 5 SMALLER 20\r\n"))
        [.larger 5, .smaller 20] next ∧
      ∀ part ∈ SearchKey.parts [.larger 5, .smaller 20],
        (@Message.search asciiCaseMapping noContent tenOctets 1
            (SearchKey.criteria true part) = true ↔
          @Message.SatisfiesAll asciiCaseMapping noContent tenOctets 1 part) := by
  let _ := asciiCaseMapping
  let _ := unicode
  let _ := asciiUpper
  have hconsumes : Consumes plainServer (readSearchKeys plainServer) _
      [.larger 5, .smaller 20] [] :=
    consumes_program (.cons (item_larger (show 5 < 2 ^ 63 by decide))
      (.cons (item_smaller (show 20 < 2 ^ 63 by decide)) .nil)) (by simp)
  obtain ⟨next, hread, -⟩ := hconsumes _ 0 (facing_newDecoder _ _)
  refine ⟨next, hread, (search_means_program plainServer _ next _ hread
    (by simp [SearchKey.setsAll, SearchKey.sets]) true noContent tenOctets
    1).mpr ?_⟩
  simp [SearchKey.parts, SearchKey.operandsAll, SearchKey.operands,
    Message.Honoured, Message.SatisfiesAll, Message.Satisfies, tenOctets]

/-- The upper bound in front is lost: a message of ten octets is found among
those that are smaller than ten. -/
theorem search_loses_smaller : (∃ next, (@readSearchKeys plainServer unicode asciiUpper).Returns
        (newDecoder (ascii "SMALLER 10 LARGER 5\r\n"))
        [.smaller 10, .larger 5] next) ∧
      @Message.search asciiCaseMapping noContent tenOctets 1
        (SearchKey.criteria true [.smaller 10, .larger 5]) = true ∧
      ¬@Message.SatisfiesAll asciiCaseMapping noContent tenOctets 1 [.smaller 10, .larger 5] := by
  let _ := asciiCaseMapping
  let _ := unicode
  let _ := asciiUpper
  have hconsumes : Consumes plainServer (readSearchKeys plainServer) _
      [.smaller 10, .larger 5] [] :=
    consumes_program (.cons (item_smaller (show 10 < 2 ^ 63 by decide))
      (.cons (item_larger (show 5 < 2 ^ 63 by decide)) .nil)) (by simp)
  obtain ⟨next, hread, -⟩ := hconsumes _ 0 (facing_newDecoder _ _)
  refine ⟨⟨next, hread⟩, by decide, ?_⟩
  simp [Message.SatisfiesAll, Message.Satisfies, tenOctets]

end MemServer

end GoImap
