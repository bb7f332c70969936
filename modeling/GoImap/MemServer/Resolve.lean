import GoImap.MemServer.Agreement
import GoImap.MemServer.View
import GoImap.NumSet.Expand

/-!
# The messages a set names

`forEachLocked` replaces `*` by a number and then searches the ranges.  The last
range may so come to lie in front of others, where the search does not look for
it.  For UIDs the number is that of the last arrival, which need not be present
any more.
-/

namespace GoImap

open Intervals

namespace NumRange

/-- The number lies between the ends, in either order, where `*` is `top`. -/
def Denotes (range : NumRange) (top number : UInt32) : Prop :=
  let start := if range.start = 0 then top else range.start
  let stop := if range.stop = 0 then top else range.stop
  (start ≤ number ∧ number ≤ stop) ∨ (stop ≤ number ∧ number ≤ start)

instance (range : NumRange) (top number : UInt32) : Decidable (range.Denotes top number) :=
  inferInstanceAs (Decidable (_ ∨ _))

end NumRange

def NumSet.Denotes (set : NumSet) (top number : UInt32) : Prop :=
  ∃ range ∈ set, range.Denotes top number

instance (set : NumSet) (top number : UInt32) : Decidable (set.Denotes top number) :=
  inferInstanceAs (Decidable (∃ _ ∈ _, _))

namespace MemServer

open Tracker

def View.visited (mbox : Mailbox) (view : View) (numSet : MessageSet) : List (SeqNum × Message) :=
  (forEachLoop (fun _ => sessionOf mbox.tracker view.session) (staticNumSet mbox view numSet)
    (fun calls seqNum msg => (calls ++ [(seqNum, msg)], msg)) mbox.l 0 []).1

def picked (l : List Message) (test : SeqNum → Message → Bool) : List (SeqNum × Message) :=
  (l.zipIdx.filter fun entry => test (Mailbox.seqNumAt entry.2) entry.1).map
    fun entry => (Mailbox.seqNumAt entry.2, entry.1)

theorem forEachLoop_recorded (session : SessionTracker) (numSet : MessageSet)
    (l : List Message) (index : Nat) (calls : List (SeqNum × Message)) :
    (forEachLoop (fun _ => session) numSet
      (fun calls seqNum msg => (calls ++ [(seqNum, msg)], msg)) l index calls).1 =
      calls ++ ((l.zipIdx index).filter fun entry =>
        selects session numSet (Mailbox.seqNumAt entry.2) entry.1).map
          fun entry => (Mailbox.seqNumAt entry.2, entry.1) := by
  induction l generalizing index calls with
  | nil => simp [forEachLoop]
  | cons msg rest ih =>
    rw [forEachLoop, List.zipIdx_cons]
    cases hselects : selects session numSet (Mailbox.seqNumAt index) msg with
    | true | false => simp [hselects, ih]

theorem visited_eq_picked (mbox : Mailbox) (view : View) (numSet : MessageSet) :
    view.visited mbox numSet = picked mbox.l (selects (sessionOf mbox.tracker view.session)
        (staticNumSet mbox view numSet)) := by
  rw [View.visited, forEachLoop_recorded]
  rfl

theorem filter_eq_of_length {α : Type} {l : List α} {p q : α → Bool}
    (himp : ∀ a ∈ l, p a = true → q a = true)
    (hlength : (l.filter p).length = (l.filter q).length) : l.filter p = l.filter q := by
  have hfilter : l.filter p = (l.filter q).filter p := by
    rw [List.filter_filter]
    refine List.filter_congr fun a ha => ?_
    cases hp : p a with
    | true => simp [himp a ha hp]
    | false => rfl
  refine List.Sublist.eq_of_length ?_ hlength
  rw [hfilter]
  exact List.filter_sublist

theorem picked_eq_iff {l : List Message} {first second : SeqNum → Message → Bool}
    (himp : ∀ index msg, (msg, index) ∈ l.zipIdx →
      first (Mailbox.seqNumAt index) msg = true → second (Mailbox.seqNumAt index) msg = true) :
    picked l first = picked l second ↔ ∀ index msg, (msg, index) ∈ l.zipIdx →
        second (Mailbox.seqNumAt index) msg = true → first (Mailbox.seqNumAt index) msg = true := by
  constructor
  · intro h index msg hmem hsecond
    have hlength := congrArg List.length h
    simp only [picked, List.length_map] at hlength
    have hsame := filter_eq_of_length (fun entry hentry => himp entry.2 entry.1 hentry) hlength
    simpa [hmem, hsecond] using congrArg ((msg, index) ∈ ·) hsame
  · intro h
    unfold picked
    congr 1
    apply List.filter_congr
    rintro ⟨msg, index⟩ hentry
    exact Bool.eq_iff_iff.mpr ⟨himp index msg hentry, h index msg hentry⟩

/-! ## Resolving `*` -/

variable {range : NumRange} {number : UInt32} {set : NumSet} {mbox : Mailbox}

theorem staticNumRange_of_static (h : range.isStatic = true) (max : UInt32) :
    staticNumRange range max = range := by
  simp only [NumRange.isStatic, decide_eq_true_eq] at h
  simp [staticNumRange, h.1, h.2]

theorem contains_of_ne_zero (hstart : range.start ≠ 0) (hstop : range.stop ≠ 0) (hne : number ≠ 0) :
    range.contains number = true ↔ range.start.toNat ≤ number.toNat ∧
        number.toNat ≤ range.stop.toNat := by
  simp [NumRange.contains, hne, hstart, hstop, UInt32.le_iff_toNat_le]

theorem not_less_of_le (hne : number ≠ 0)
    (hle : number.toNat ≤ range.stop.toNat) : range.less number = false := by
  simp only [NumRange.less, hne, or_false, decide_eq_false_iff_not, UInt32.lt_iff_toNat_lt, not_and]
  omega

theorem denotes_of_static (h : range.isStatic = true) (hvalid : range.Valid)
    (top : UInt32) (hne : number ≠ 0) :
    range.Denotes top number ↔ range.contains number = true := by
  have hvalid := (NumRange.valid_iff range).mp hvalid
  simp only [NumRange.isStatic, decide_eq_true_eq] at h
  have hle := UInt32.le_iff_toNat_le.mp (hvalid h.2).2
  rw [contains_of_ne_zero h.1 h.2 hne]
  simp only [NumRange.Denotes, h.1, h.2, if_false, UInt32.le_iff_toNat_le]
  omega

theorem staticNumRange_contains (h : range.stop = 0) {max : UInt32}
    (hmax : max ≠ 0) (hne : number ≠ 0) :
    (staticNumRange range max).contains number = true ↔ range.Denotes max number := by
  simp only [staticNumRange, NumRange.Denotes, h, if_true, or_true, true_and]
  by_cases hstart : range.start = 0
  · simp only [hstart, if_true]
    rw [if_neg (UInt32.lt_irrefl max)]
    simp [NumRange.contains, hne, hmax]
  · simp only [hstart, if_false]
    split_ifs with hgt
    · rw [gt_iff_lt, UInt32.lt_iff_toNat_lt] at hgt
      rw [contains_of_ne_zero hmax hstart hne]
      simp only [UInt32.le_iff_toNat_le]
      omega
    · rw [gt_iff_lt, UInt32.lt_iff_toNat_lt] at hgt
      rw [@contains_of_ne_zero ⟨range.start, max⟩ _ hstart hmax hne]
      simp only [UInt32.le_iff_toNat_le]
      omega

theorem staticNumRange_not_less (h : range.stop = 0) {max : UInt32}
    (hle : number ≤ max) (hne : number ≠ 0) :
    (staticNumRange range max).less number = false := by
  refine not_less_of_le hne (UInt32.le_iff_toNat_le.mp (UInt32.le_trans hle ?_))
  simp only [staticNumRange, h, if_true, or_true, true_and]
  split_ifs with hstart hgt hgt
  · exact UInt32.le_refl _
  · exact UInt32.le_refl _
  · exact UInt32.le_of_lt hgt
  · exact UInt32.le_refl _

theorem split_dynamic (h : set.Canonical) (hdynamic : set.isDynamic = true) :
    ∃ front last, set = front ++ [last] ∧ last.stop = 0 ∧ NumSet.Canonical front ∧
      (∀ range ∈ front, range.isStatic = true) ∧
      ∀ range ∈ front, last.start = 0 ∨ range.stop.toNat + 1 < last.start.toNat := by
  rcases List.eq_nil_or_concat set with rfl | ⟨front, last, rfl⟩
  · cases hdynamic
  · rw [List.concat_eq_append] at h hdynamic ⊢
    have hlast : last.stop = 0 := by
      simpa [NumSet.isDynamic] using hdynamic
    have hfront := (NumSet.canonical_append.mp h).1
    have hascending := (NumSet.canonical_iff_ascending _).mp h
    have hapart : ∀ range ∈ front, range.stop ≠ 0 ∧ (last.start = 0 ∨
        range.stop.toNat + 1 < last.start.toNat) := by
      intro range hrange
      exact (List.pairwise_append.mp hascending.apart).2.2 range hrange last (by simp)
    refine ⟨front, last, rfl, hlast, hfront, ?_, fun range hrange =>
      (hapart range hrange).2⟩
    intro range hrange
    have hstop := (hapart range hrange).1
    have hstart := (hascending.ends range (by simp [hrange]) hstop).1
    simp [NumRange.isStatic, hstart, hstop]

theorem map_staticNumRange (h : ∀ range ∈ set, range.isStatic = true)
    (max : UInt32) : set.map (staticNumRange · max) = set := by
  conv_rhs => rw [← List.map_id set]
  apply List.map_congr_left
  intro range hrange
  exact staticNumRange_of_static (h range hrange) max

section Dynamic

variable {front : NumSet} {last : NumRange} {max top : UInt32}

theorem contains_concat (hfront : NumSet.Canonical front)
    (hne : number ≠ 0) (hless : last.less number = false) :
    NumSet.contains (front ++ [last]) number = true ↔ NumSet.contains front number = true ∨
        (∀ range ∈ front, range.less number = true) ∧ last.contains number = true := by
  have hstepped : NumSet.Stepped (front ++ [last]) number := by
    refine List.pairwise_append.mpr ⟨hfront.stepped number, by simp, ?_⟩
    intro range _ other hother hother'
    rw [List.mem_singleton.mp hother, hless] at hother'
    cases hother'
  simp only [NumSet.contains, NumSet.search_eq hstepped,
    NumSet.search_eq (hfront.stepped number), List.find?_append]
  cases hfind : front.find? fun range => !range.less number with
  | none =>
    have hall := List.find?_eq_none.mp hfind
    simp only [Bool.not_eq_true', Bool.not_eq_false] at hall
    simpa [hless, hne] using fun _ => hall
  | some range =>
    have hrange := List.find?_some hfind
    have hmem := List.mem_of_find?_eq_some hfind
    simp only [Bool.not_eq_true'] at hrange
    have hsome : ¬∀ range ∈ front, range.less number = true := by
      intro hall
      rw [hall range hmem] at hrange
      cases hrange
    simp [hne, hsome]

theorem denotes_far (hstop : last.stop = 0) (hle : number ≤ top)
    (hfar : last.start = 0 ∨ number < last.start) :
    last.Denotes top number ↔ number = top := by
  rw [← UInt32.toNat_inj]
  rw [UInt32.le_iff_toNat_le] at hle
  simp only [NumRange.Denotes, hstop, if_true]
  rcases hfar with hzero | hlt
  · simp only [hzero, if_true, UInt32.le_iff_toNat_le]
    omega
  · have hstart : last.start ≠ 0 := by
      rintro hzero
      rw [hzero, UInt32.lt_iff_toNat_lt] at hlt
      simp at hlt
    rw [UInt32.lt_iff_toNat_lt] at hlt
    simp only [hstart, if_false, UInt32.le_iff_toNat_le]
    omega

theorem denotes_near (hstop : last.stop = 0) (hle : number ≤ top)
    (hstart : last.start ≠ 0) (hnear : last.start ≤ number) :
    last.Denotes top number := by
  simp only [NumRange.Denotes, hstop, hstart, if_true, if_false]
  exact .inl ⟨hnear, hle⟩

end Dynamic

/--
With `max` put in the place of `*`, the set still names `top` as `*` does: it
holds `top` anyway, or `max` is `top` and no other range starts beyond it.
-/
def Resolvable (set : NumSet) (max top : UInt32) : Prop :=
  set.isDynamic = true → set.contains top = true ∨
    max = top ∧ ∀ range ∈ set, range.stop ≠ 0 → range.start ≤ top

instance (set : NumSet) (max top : UInt32) : Decidable (Resolvable set max top) :=
  inferInstanceAs (Decidable (_ → _ ∨ _ ∧ _))

section Resolution

variable {front : NumSet} {last : NumRange} {max top : UInt32}

theorem contains_last_iff (hstop : last.stop = 0) (hne : number ≠ 0) :
    last.contains number = true ↔ last.start ≠ 0 ∧ last.start ≤ number := by
  simp [NumRange.contains, hne, hstop]

theorem set_contains_concat (h : NumSet.Canonical (front ++ [last]))
    (hstop : last.stop = 0) (hne : number ≠ 0) :
    NumSet.contains (front ++ [last]) number = true ↔ NumSet.contains front number = true ∨
        last.start ≠ 0 ∧ last.start ≤ number := by
  have hfront := (NumSet.canonical_append.mp h).1
  rw [NumSet.contains_iff h, NumSet.contains_iff hfront, NumSet.spans_append,
    covers_append, NumSet.covers_spans_iff [last]]
  simp [hne, contains_last_iff hstop hne]

theorem denotes_static (h : set.Canonical) (hstatic : ∀ range ∈ set, range.isStatic = true)
    (top : UInt32) (hne : number ≠ 0) :
    set.Denotes top number ↔ set.contains number = true := by
  rw [NumSet.contains_iff h, NumSet.covers_spans_iff]
  simp only [NumSet.Denotes, hne, ne_eq, not_false_eq_true, true_and]
  apply exists_congr
  intro range
  apply and_congr_right
  intro hrange
  exact denotes_of_static (hstatic range hrange) (h.valid hrange) top hne

theorem denotes_concat (hfront : NumSet.Canonical front)
    (hstatic : ∀ range ∈ front, range.isStatic = true) (top : UInt32) (hne : number ≠ 0) :
    NumSet.Denotes (front ++ [last]) top number ↔
      NumSet.contains front number = true ∨ last.Denotes top number := by
  rw [← denotes_static hfront hstatic top hne]
  simp [NumSet.Denotes, or_and_right, exists_or]

theorem resolved_contains (hfront : NumSet.Canonical front)
    (hstatic : ∀ range ∈ front, range.isStatic = true)
    (hstop : last.stop = 0) (hne : number ≠ 0) (hle : number ≤ max) :
    NumSet.contains ((front ++ [last]).map (staticNumRange · max)) number = true ↔
      NumSet.contains front number = true ∨ (∀ range ∈ front, range.less number = true) ∧
          last.Denotes max number := by
  have hmax : max ≠ 0 := by
    rw [UInt32.le_iff_toNat_le] at hle
    have hpos := Word.ne_zero_iff.mp hne
    exact Word.ne_zero_iff.mpr (by omega)
  rw [List.map_append, map_staticNumRange hstatic, List.map_singleton,
    contains_concat hfront hne (staticNumRange_not_less hstop hle hne),
    staticNumRange_contains hstop hmax hne]

theorem contains_front_of_mem (hfront : NumSet.Canonical front) (hne : number ≠ 0)
    (hrange : range ∈ front) (hcontains : range.contains number = true) :
    NumSet.contains front number = true :=
  (NumSet.contains_iff hfront number).mpr ⟨hne,
    (NumSet.covers_spans_iff front number).mpr ⟨range, hrange, hcontains⟩⟩

theorem less_iff_of_not_contains (h : range.isStatic = true) (hvalid : range.Valid)
    (hne : number ≠ 0) (hcontains : ¬range.contains number = true) :
    range.less number = true ↔ range.start ≤ number := by
  simp only [NumRange.isStatic, decide_eq_true_eq] at h
  have hle := UInt32.le_iff_toNat_le.mp ((NumRange.valid_iff range).mp hvalid h.2).2
  rw [contains_of_ne_zero h.1 h.2 hne] at hcontains
  simp only [NumRange.less, h.2, hne, decide_eq_true_eq, ne_eq, not_false_eq_true, and_true,
    or_false, UInt32.lt_iff_toNat_lt, UInt32.le_iff_toNat_le]
  omega

theorem resolved_iff (h : set.Canonical) (htop : top ≤ max) (hne : number ≠ 0)
    (hle : number ≤ top) :
    NumSet.contains (set.map (staticNumRange · max)) number = true ↔
      set.Denotes top number ∧ (number = top → Resolvable set max top) := by
  cases hdynamic : set.isDynamic with
  | false =>
    have hstatic := NumSet.isStatic_of_canonical h hdynamic
    rw [map_staticNumRange hstatic, denotes_static h hstatic top hne]
    simp [Resolvable, hdynamic]
  | true =>
    obtain ⟨front, last, rfl, hstop, hfront, hstatic, hgap⟩ := split_dynamic h hdynamic
    have hmax := UInt32.le_trans hle htop
    have hheld := @set_contains_concat _ front last h hstop hne
    rw [resolved_contains hfront hstatic hstop hne hmax, denotes_concat hfront hstatic top hne]
    by_cases hfound : NumSet.contains front number = true
    · refine iff_of_true (.inl hfound) ⟨.inl hfound, ?_⟩
      rintro rfl -
      exact .inl (hheld.mpr (.inl hfound))
    simp only [hfound, Bool.false_eq_true, false_or] at hheld ⊢
    by_cases hfar : last.start = 0 ∨ number < last.start
    · -- Only `top` itself can be in the last range.
      have hnear : ¬(last.start ≠ 0 ∧ last.start ≤ number) := by
        rw [← UInt32.not_le] at hfar
        tauto
      have hless : (∀ range ∈ front, range.less number = true) ↔
          ∀ range ∈ front ++ [last], range.stop ≠ 0 → range.start ≤ number := by
        simp only [List.forall_mem_append, List.forall_mem_singleton, hstop, ne_eq,
          not_true_eq_false, false_imp_iff, and_true]
        refine forall₂_congr fun range hrange => ?_
        have hends := of_decide_eq_true (hstatic range hrange)
        have hmissing := mt (contains_front_of_mem hfront hne hrange) hfound
        rw [less_iff_of_not_contains (hstatic range hrange) (hfront.valid hrange) hne hmissing]
        simp [hends.2]
      rw [denotes_far hstop hmax hfar, denotes_far hstop hle hfar, hless]
      constructor
      · rintro ⟨hstarts, rfl⟩
        obtain rfl := UInt32.le_antisymm hle htop
        exact ⟨rfl, fun _ _ => .inr ⟨rfl, hstarts⟩⟩
      · rintro ⟨rfl, hresolvable⟩
        obtain ⟨rfl, hstarts⟩ := (hresolvable rfl hdynamic).resolve_left (mt hheld.mp hnear)
        exact ⟨hstarts, rfl⟩
    · simp only [not_or, UInt32.not_lt] at hfar
      refine iff_of_true ⟨?_, denotes_near hstop hmax hfar.1 hfar.2⟩
        ⟨denotes_near hstop hle hfar.1 hfar.2, ?_⟩
      · intro range hrange
        have hends := of_decide_eq_true (hstatic range hrange)
        have hlt := (hgap range hrange).resolve_left hfar.1
        have hnear := UInt32.le_iff_toNat_le.mp hfar.2
        simp only [NumRange.less, hends.2, ne_eq, not_false_eq_true, and_true, decide_eq_true_eq,
          UInt32.lt_iff_toNat_lt]
        omega
      · rintro rfl -
        exact .inl (hheld.mpr hfar)

theorem denotes_top (h : set.Canonical) (hdynamic : set.isDynamic = true)
    (top : UInt32) : set.Denotes top top := by
  obtain ⟨front, last, rfl, hstop, -⟩ := split_dynamic h hdynamic
  refine ⟨last, by simp, ?_⟩
  simp only [NumRange.Denotes, hstop, if_true]
  by_cases hstart : last.start = 0
  · simp [hstart]
  · rcases UInt32.le_total last.start top with hle | hle
    · simp [hstart, hle]
    · simp [hstart, hle]

end Resolution

/-! ## Sequence numbers -/

def NamedBySeqNum (session : SessionTracker) (set : NumSet) (seqNum : SeqNum) : Prop :=
  session.encodeSeqNum seqNum ≠ 0 ∧
    set.Denotes session.encodeNumMessages (session.encodeSeqNum seqNum)

instance (session : SessionTracker) (set : NumSet) (seqNum : SeqNum) :
    Decidable (NamedBySeqNum session set seqNum) :=
  inferInstanceAs (Decidable (_ ∧ _))

theorem encodeSeqNum_le {tracker : MailboxTracker} (hreach : Reachable tracker) {id : SessionId}
    {session : SessionTracker} (hsession : tracker.sessions id = some session)
    (hopen : session.closed = false) {seqNum : SeqNum} (hne : session.encodeSeqNum seqNum ≠ 0) :
    session.encodeSeqNum seqNum ≤ session.encodeNumMessages :=
  (SessionTracker.decode_encode (hreach.consistent id session hsession hopen) hopen hne).1

/--
`forEachLocked` visits the messages a sequence set denotes exactly if the set
can be resolved, or nobody has the number `*` stands for.
-/
theorem seqSet_visits_denoted_iff (mbox : Mailbox) (view : View) (session : SessionTracker)
    (set : NumSet) (hreach : Reachable mbox.tracker)
    (hsession : mbox.tracker.sessions view.session = some session) (hopen : session.closed = false)
    (hcount : 1 ≤ session.encodeNumMessages) (hset : set.Canonical) :
    view.visited mbox (.seqSet set) =
        picked mbox.l (fun seqNum _ => NamedBySeqNum session set seqNum) ↔
      ((∃ index < mbox.l.length, session.encodeSeqNum (Mailbox.seqNumAt index) =
            session.encodeNumMessages) →
        Resolvable set session.encodeNumMessages session.encodeNumMessages) := by
  have hselects : ∀ seqNum msg, selects (sessionOf mbox.tracker view.session)
          (staticNumSet mbox view (.seqSet set)) seqNum msg = true ↔
        session.encodeSeqNum seqNum ≠ 0 ∧ NumSet.contains
          (set.map (staticNumRange · session.encodeNumMessages))
          (session.encodeSeqNum seqNum) = true := by
    intro seqNum msg
    simp [selects, staticNumSet, sessionOf, hsession]
  have htop : session.encodeNumMessages ≠ 0 := by
    rw [UInt32.le_iff_toNat_le] at hcount
    exact Word.ne_zero_iff.mpr hcount
  rw [visited_eq_picked, picked_eq_iff]
  · constructor
    · rintro hvisited ⟨index, hindex, hclient⟩ hdynamic
      have hmem : (mbox.l[index], index) ∈ mbox.l.zipIdx := by
        rw [List.mk_mem_zipIdx_iff_getElem?]
        exact List.getElem?_eq_getElem hindex
      have hnamed : NamedBySeqNum session set (Mailbox.seqNumAt index) := by
        rw [NamedBySeqNum, hclient]
        exact ⟨htop, denotes_top hset hdynamic _⟩
      have hfound := (hselects _ _).mp (hvisited index _ hmem (decide_eq_true hnamed))
      rw [hclient] at hfound
      exact ((resolved_iff hset (UInt32.le_refl _) htop (UInt32.le_refl _)).mp hfound.2).2 rfl
        hdynamic
    · intro hresolvable index msg hmem hnamed
      obtain ⟨hne, hdenotes⟩ := of_decide_eq_true hnamed
      have hle := encodeSeqNum_le hreach hsession hopen hne
      rw [List.mk_mem_zipIdx_iff_getElem?] at hmem
      have hindex := (List.getElem?_eq_some_iff.mp hmem).1
      exact (hselects _ _).mpr ⟨hne, (resolved_iff hset (UInt32.le_refl _) hne hle).mpr
        ⟨hdenotes, fun hlast => hresolvable ⟨index, hindex, hlast⟩⟩⟩
  · intro index msg _ hfound
    obtain ⟨hne, hcontains⟩ := (hselects _ _).mp hfound
    have hle := encodeSeqNum_le hreach hsession hopen hne
    exact decide_eq_true ⟨hne, ((resolved_iff hset (UInt32.le_refl _) hne hle).mp hcontains).1⟩

def threeMessages : Mailbox :=
  ([emptyAppend, emptyAppend, emptyAppend, .newView].foldl
    (@MailboxState.perform asciiCaseMapping) (MailboxState.initial 1)).mbox

theorem threeMessages_reachable : Reachable threeMessages.tracker := by
  have hrun : performAll (newMailboxTracker 0)
      [.queueNumMessages 1, .queueNumMessages 2, .queueNumMessages 3,
        .newSession] = .ok threeMessages.tracker := rfl
  exact reachable_of_performAll hrun

theorem seqSet_visits_denoted_iff_last :
    firstView.visited threeMessages (.seqSet [⟨2, 2⟩, ⟨0, 0⟩]) =
        picked threeMessages.l (fun seqNum _ => NamedBySeqNum
          (sessionOf threeMessages.tracker 0) [⟨2, 2⟩, ⟨0, 0⟩] seqNum) :=
  (seqSet_visits_denoted_iff threeMessages firstView
    (sessionOf threeMessages.tracker 0) [⟨2, 2⟩, ⟨0, 0⟩]
    threeMessages_reachable rfl rfl (by decide)
    ((NumSet.canonical_iff_ascending _).mpr ⟨by decide, by decide⟩)).mpr fun _ => by decide

/-- `5,*` denotes the last of three messages, which is not visited: the search
for 3 ends at 5. -/
theorem star_behind_larger_number_missed : NumSet.Canonical [⟨5, 5⟩, ⟨0, 0⟩] ∧
      (sessionOf threeMessages.tracker 0).encodeNumMessages = 3 ∧
      (sessionOf threeMessages.tracker 0).encodeSeqNum 3 = 3 ∧
      NumSet.Denotes [⟨5, 5⟩, ⟨0, 0⟩] 3 3 ∧
      firstView.visited threeMessages (.seqSet [⟨5, 5⟩, ⟨0, 0⟩]) = [] := by
  refine ⟨(NumSet.canonical_iff_ascending _).mpr ⟨by decide, by decide⟩, ?_⟩
  decide

/-! ## UIDs -/

def largestUID (l : List Message) : UID := l.foldl (fun largest msg =>
    if largest < msg.uid then msg.uid else largest) 0

structure OrderedUIDs (mbox : Mailbox) : Prop where
  next : mbox.uidNext ≠ 0
  below : ∀ msg ∈ mbox.l, msg.uid ≠ 0 ∧ msg.uid < mbox.uidNext
  ascending : mbox.l.Pairwise fun first second => first.uid < second.uid

def MailboxState.KeepsUIDs (state : MailboxState) : MailboxOp → Prop
  | .append _ _ _ => state.mbox.uidNext.toNat + 1 < 2 ^ 32
  | .copy _ _ => state.mbox.uidNext.toNat + 1 < 2 ^ 32
  | _ => True

namespace OrderedUIDs

theorem initial (uidValidity : UInt32) : OrderedUIDs (newMailbox uidValidity) :=
  ⟨show (1 : UInt32) ≠ 0 by decide, by simp [newMailbox], .nil⟩

theorem appendBytes [CaseMapping] (h : OrderedUIDs mbox) (buf : Bytes) (options : AppendOptions)
    (now : Time) (hkeeps : mbox.uidNext.toNat + 1 < 2 ^ 32) :
    OrderedUIDs (mbox.appendBytes buf options now).1 := by
  have hnext : (mbox.uidNext + 1).toNat = mbox.uidNext.toNat + 1 := by
    rw [UInt32.toNat_add]
    simp
    omega
  obtain ⟨new, -, hnew, hl, huid, -⟩ := appendBytes_appends mbox buf options now
  constructor
  · rw [huid]
    exact Word.ne_zero_iff.mpr (by rw [hnext]; omega)
  · rw [hl, huid]
    intro msg hmsg
    rw [UInt32.lt_iff_toNat_lt, hnext]
    rcases List.mem_append.mp hmsg with hmem | hmem
    · have hbelow := h.below msg hmem
      rw [UInt32.lt_iff_toNat_lt] at hbelow
      exact ⟨hbelow.1, by omega⟩
    · rw [List.mem_singleton.mp hmem, hnew]
      exact ⟨h.next, Nat.lt_succ_self _⟩
  · rw [hl]
    refine List.pairwise_append.mpr ⟨h.ascending, by simp, ?_⟩
    intro msg hmsg last hlast
    rw [List.mem_singleton.mp hlast, hnew]
    exact (h.below msg hmsg).2

theorem expungeLocked (h : OrderedUIDs mbox) (expunged : List Nat) :
    OrderedUIDs (mbox.expungeLocked expunged).1 := by
  rw [expungeLocked_eq]
  have huid := (reportAll_keeps (mbox.highestModSeq + 1)
    { mbox with highestModSeq := mbox.highestModSeq + 1 }
    (removedFrom expunged mbox.l 0)).2.1
  constructor
  · simp only [huid]
    exact h.next
  · simp only [huid]
    exact fun msg hmsg => h.below msg (List.mem_of_mem_filter hmsg)
  · exact h.ascending.filter _

theorem perform [CaseMapping] {state : MailboxState} (h : OrderedUIDs state.mbox) {op : MailboxOp}
    (hkeeps : state.KeepsUIDs op) : OrderedUIDs (state.perform op).mbox := by
  cases op with
  | append buf options now => exact h.appendBytes buf options now hkeeps
  | copy msg now => exact h.appendBytes _ _ now hkeeps
  | expunge marked =>
    rw [MailboxState.perform]
    split_ifs
    · exact h
    · exact h.expungeLocked marked
  | move moved => exact h.expungeLocked moved
  | newView => exact ⟨h.next, h.below, h.ascending⟩
  | poll id allowExpunge =>
    simp only [MailboxState.perform]
    cases state.mbox.tracker.sessions id with
    | none => exact h
    | some session => exact ⟨h.next, h.below, h.ascending⟩
  | closeView id => exact ⟨h.next, h.below, h.ascending⟩

end OrderedUIDs

theorem largest_lt {l : List Message} {bound largest : UID}
    (hlargest : largest < bound) (h : ∀ msg ∈ l, msg.uid < bound) :
    l.foldl (fun largest msg =>
      if largest < msg.uid then msg.uid else largest) largest < bound := by
  induction l generalizing largest with
  | nil => exact hlargest
  | cons msg rest ih =>
    rw [List.foldl_cons]
    refine ih ?_ fun other hother => h other (List.mem_cons_of_mem _ hother)
    split_ifs
    · exact h msg (by simp)
    · exact hlargest

theorem OrderedUIDs.largest (h : OrderedUIDs mbox) {front : List Message}
    {last : Message} (hl : mbox.l = front ++ [last]) :
    largestUID mbox.l = last.uid ∧ ∀ msg ∈ mbox.l, msg.uid ≤ last.uid := by
  have hascending := h.ascending
  rw [hl] at hascending
  have hfront : ∀ msg ∈ front, msg.uid < last.uid := fun msg hmsg =>
    (List.pairwise_append.mp hascending).2.2 msg hmsg last (by simp)
  have hpos : 0 < last.uid := by
    rw [UInt32.lt_iff_toNat_lt]
    exact Word.ne_zero_iff.mp (h.below last (by simp [hl])).1
  constructor
  · rw [hl, largestUID, List.foldl_append]
    simp [largest_lt hpos hfront]
  · intro msg hmsg
    rw [hl] at hmsg
    rcases List.mem_append.mp hmsg with hmem | hmem
    · exact UInt32.le_of_lt (hfront msg hmem)
    · rw [List.mem_singleton.mp hmem]
      exact UInt32.le_refl _

/-- The messages with the UIDs the set denotes are visited, among them the last
one if the set is dynamic. -/
def VisitsUIDs (mbox : Mailbox) (view : View) (set : NumSet) : Prop :=
  view.visited mbox (.uidSet set) =
      picked mbox.l (fun _ msg => set.Denotes (largestUID mbox.l) msg.uid) ∧
    (set.isDynamic = true → ∃ last, mbox.l.getLast? = some last ∧
      last ∈ (view.visited mbox (.uidSet set)).map Prod.snd)

theorem OrderedUIDs.uid_le (h : OrderedUIDs mbox) {msg : Message}
    (hmem : msg ∈ mbox.l) : msg.uid ≤ mbox.uidNext - 1 := by
  have hlt := UInt32.lt_iff_toNat_lt.mp (h.below msg hmem).2
  rw [UInt32.le_iff_toNat_le, Word.toNat_pred h.next]
  omega

theorem OrderedUIDs.visited_iff (h : OrderedUIDs mbox) {front : List Message} {last : Message}
    (hl : mbox.l = front ++ [last]) (view : View) (hset : set.Canonical) :
    view.visited mbox (.uidSet set) = picked mbox.l (fun _ msg => set.Denotes last.uid msg.uid) ↔
      ∀ msg ∈ mbox.l, set.Denotes last.uid msg.uid →
        NumSet.contains (set.map (staticNumRange · (mbox.uidNext - 1))) msg.uid = true := by
  have hupper := (h.largest hl).2
  have hmax := h.uid_le (show last ∈ mbox.l by simp [hl])
  have hselects : ∀ seqNum msg, selects (sessionOf mbox.tracker view.session)
          (staticNumSet mbox view (.uidSet set)) seqNum msg =
        NumSet.contains (set.map (staticNumRange · (mbox.uidNext - 1))) msg.uid := fun _ _ => rfl
  rw [visited_eq_picked, picked_eq_iff]
  · constructor
    · intro hall msg hmsg hdenotes
      obtain ⟨index, hindex⟩ := List.mem_iff_getElem?.mp hmsg
      exact hall index msg (List.mk_mem_zipIdx_iff_getElem?.mpr hindex) (decide_eq_true hdenotes)
    · intro hall index msg hentry hdenotes
      exact hall msg (List.fst_mem_of_mem_zipIdx hentry) (of_decide_eq_true hdenotes)
  · intro index msg hentry hfound
    rw [hselects] at hfound
    have hmsg := List.fst_mem_of_mem_zipIdx hentry
    exact decide_eq_true
      ((resolved_iff hset hmax (h.below msg hmsg).1 (hupper msg hmsg)).mp hfound).1

theorem OrderedUIDs.visitsUIDs_iff (h : OrderedUIDs mbox) (hne : mbox.l ≠ [])
    (view : View) (hset : set.Canonical) :
    VisitsUIDs mbox view set ↔ Resolvable set (mbox.uidNext - 1) (largestUID mbox.l) := by
  obtain ⟨front, last, hl⟩ : ∃ front last, mbox.l = front ++ [last] :=
    ⟨_, _, (List.dropLast_append_getLast hne).symm⟩
  obtain ⟨hlargest, hupper⟩ := h.largest hl
  have hmem : last ∈ mbox.l := by simp [hl]
  have htop := (h.below last hmem).1
  have hmax := h.uid_le hmem
  have hvisited := h.visited_iff hl view hset
  rw [VisitsUIDs, hlargest, hvisited]
  constructor
  · rintro ⟨hall, -⟩ hdynamic
    have hfound := hall last hmem (denotes_top hset hdynamic _)
    exact ((resolved_iff hset hmax htop (UInt32.le_refl _)).mp hfound).2 rfl hdynamic
  · intro hresolvable
    have hall : ∀ msg ∈ mbox.l, set.Denotes last.uid msg.uid →
        NumSet.contains (set.map (staticNumRange · (mbox.uidNext - 1)))
          msg.uid = true := fun msg hmsg hdenotes =>
      (resolved_iff hset hmax (h.below msg hmsg).1 (hupper msg hmsg)).mpr
        ⟨hdenotes, fun _ => hresolvable⟩
    refine ⟨hall, fun hdynamic => ⟨last, by simp [hl], ?_⟩⟩
    rw [hvisited.mpr hall]
    obtain ⟨index, hindex⟩ := List.mem_iff_getElem?.mp hmem
    simp only [picked, List.map_map, List.mem_map, List.mem_filter]
    exact ⟨(last, index), ⟨List.mk_mem_zipIdx_iff_getElem?.mpr hindex,
      decide_eq_true (denotes_top hset hdynamic _)⟩, rfl⟩

/--
In a mailbox whose UIDs have not run out, the messages a UID set denotes are
visited exactly if the set can be resolved.
-/
theorem uidSet_visits_denoted_iff [CaseMapping] (uidValidity : UInt32) (ops : List MailboxOp)
    (hops : Transition.Meets MailboxState.perform MailboxState.KeepsUIDs
      (MailboxState.initial uidValidity) ops)
    (hne : (ops.foldl MailboxState.perform (MailboxState.initial uidValidity)).mbox.l ≠ [])
    (view : View) (set : NumSet) (hset : set.Canonical) :
    let mbox := (ops.foldl MailboxState.perform (MailboxState.initial uidValidity)).mbox
    VisitsUIDs mbox view set ↔ Resolvable set (mbox.uidNext - 1) (largestUID mbox.l) := by
  have hordered := Transition.foldl_of_meets (fun state : MailboxState => OrderedUIDs state.mbox)
    (fun _ _ h hguard => h.perform hguard)
    (OrderedUIDs.initial uidValidity) hops
  exact hordered.visitsUIDs_iff hne view hset

def laterRemains : List MailboxOp := [emptyAppend, emptyAppend, .expunge [0]]

theorem uidSet_visits_denoted_iff_later :
    VisitsUIDs (laterRemains.foldl (@MailboxState.perform asciiCaseMapping)
        (MailboxState.initial 1)).mbox firstView [⟨1, 0⟩] :=
  (@uidSet_visits_denoted_iff asciiCaseMapping 1 laterRemains
    ⟨by change _ + 1 < 2 ^ 32; decide, by change _ + 1 < 2 ^ 32; decide,
      trivial, trivial⟩ (by decide) firstView [⟨1, 0⟩]
    ((NumSet.canonical_iff_ascending _).mpr ⟨by decide, by decide⟩)).mpr (by decide)

/-- The last of two messages is removed: `*` stands for its UID and selects
nothing. -/
def earlierRemains : List MailboxOp := [emptyAppend, emptyAppend, .expunge [1]]

theorem star_selects_no_uid :
    let mbox := (earlierRemains.foldl
      (@MailboxState.perform asciiCaseMapping) (MailboxState.initial 1)).mbox
    uids mbox.l = [1] ∧ NumSet.Denotes [⟨0, 0⟩] (largestUID mbox.l) 1 ∧
      firstView.visited mbox (.uidSet [⟨0, 0⟩]) = [] ∧
      firstView.visited mbox (.uidSet [⟨5, 0⟩]) = [] := by
  decide

end MemServer

end GoImap
