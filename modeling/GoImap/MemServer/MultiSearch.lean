import GoImap.MemServer.Intersection
import GoImap.MemServer.Resolve
import GoImap.MemServer.Session
import GoImap.Search.Tree

/-!
# Searching several mailboxes

`MultiSearch` searches one mailbox after the other with the same criteria, and
each search writes into them what `*` and `$` stand for.  So the first mailbox
that has a number for `*` decides what it means in all that follow, and to the
caller.
-/

namespace GoImap.MemServer

open Tracker

/-! ## One mailbox -/

structure Maxima where
  seqNum : UInt32
  uid : UInt32
  deriving DecidableEq, Repr

def View.maxima (mbox : Mailbox) (view : View) : Maxima where
  seqNum := (sessionOf mbox.tracker view.session).encodeNumMessages
  uid := mbox.uidNext - 1

def staticUIDSet (max : UInt32) (searchRes : NumSet) : UIDSet → UIDSet
  | .nums set => .nums (set.map (staticNumRange · max))
  | .searchRes => .nums searchRes

def staticFields (max : Maxima) (searchRes : NumSet) (fields : SearchFields) : SearchFields :=
  { fields with
    seqNum := fields.seqNum.map fun seqSet =>
      seqSet.map (staticNumRange · max.seqNum)
    uid := fields.uid.map (staticUIDSet max.uid searchRes) }

/-- The criteria are changed in place. -/
def staticSearchCriteria (mbox : Mailbox) (view : View)
    (criteria : SearchCriteria) : SearchCriteria :=
  criteria.mapFields (staticFields (view.maxima mbox) view.searchRes)

def View.numbered (mbox : Mailbox) (view : View) : List (SeqNum × Message) :=
  mbox.l.zipIdx.map fun entry =>
    ((sessionOf mbox.tracker view.session).encodeSeqNum (Mailbox.seqNumAt entry.2), entry.1)

section Search

variable [CaseMapping] (content : Content)

/-- `MailboxView.Search`, with the view and the criteria it leaves. -/
def View.searchCriteria (mbox : Mailbox) (view : View) (numKind : NumKind)
    (criteria : SearchCriteria) (options : SearchOptions) :
    View × SearchData × SearchCriteria :=
  let criteria := staticSearchCriteria mbox view criteria
  let (view, data) := view.search mbox numKind
    (fun seqNum msg => msg.search content seqNum criteria) options
  (view, data, criteria)

end Search

/-! ## Several mailboxes -/

/-- The mailboxes of a user by name.  `names` has the names in their order. -/
structure User where
  names : List Bytes
  mailbox : Bytes → Option MailboxId
  boxes : MailboxId → Mailbox
  subscribed : Bytes → Bool
  distinct : ∀ id, ((boxes id).l.map Message.uid).Nodup

structure MailboxData where
  mailbox : Bytes
  uidValidity : UInt32
  data : SearchData
  deriving DecidableEq, Repr

structure Selected where
  name : Bytes
  id : MailboxId
  view : View

structure SearchSource where
  selected : Bool := false
  inboxes : Bool := false
  personal : Bool := false
  subscribed : Bool := false
  subtree : List Bytes := []
  subtreeOne : List Bytes := []
  mailboxes : List Bytes := []

def SearchSource.selectedOnly (source : SearchSource) : Bool :=
  source.selected ∧ !source.inboxes ∧ !source.personal ∧ !source.subscribed ∧
    source.subtree = [] ∧ source.subtreeOne = [] ∧ source.mailboxes = []

def mailboxDelim : UInt8 := 47

def below (root name : Bytes) : Option Bytes :=
  if (root ++ [mailboxDelim]).isPrefixOf name then
    some (name.drop (root.length + 1))
  else none

def addName (names : List Bytes) (name : Bytes) : List Bytes :=
  if name ∈ names then names else names ++ [name]

def resolveSearchSource (user : User) (selected : Option Selected)
    (source : SearchSource) : List Bytes :=
  let scopes :=
    (if source.selected then selected.toList.map (·.name) else []) ++
    (if source.inboxes then [ascii "INBOX"] else []) ++
    (if source.personal then user.names else []) ++
    (if source.subscribed then user.names.filter user.subscribed else []) ++
    (source.subtree.flatMap fun root =>
      user.names.filter fun name => name = root ∨ (below root name).isSome) ++
    (source.subtreeOne.flatMap fun root =>
      user.names.filter fun name => name = root ∨ (below root name).any (mailboxDelim ∉ ·)) ++
    source.mailboxes
  scopes.foldl addName []

section MultiSearch

variable [CaseMapping] (content : Content) (user : User) (options : SearchOptions)

/-- One mailbox, in the view of the session or in one that is closed
afterwards. -/
def searchMailbox (own : Option View) (id : MailboxId)
    (criteria : SearchCriteria) : Option View × SearchData × SearchCriteria :=
  match own with
  | some view =>
    let (view, result) := view.searchCriteria content (user.boxes id) .uid criteria options
    (some view, result)
  | none =>
    let (session, mbox) := (user.boxes id).newView
    let view : View :=
      { session := session, searchRes := [] }
    (none, (view.searchCriteria content mbox .uid criteria options).2)

/-- The loop of `MultiSearch`; a name without a mailbox is skipped. -/
def searchNames (selectedOnly : Bool) : List Bytes → Option Selected → SearchCriteria →
      List MailboxData × Option Selected × SearchCriteria
  | [], selected, criteria => ([], selected, criteria)
  | name :: rest, selected, criteria =>
    match user.mailbox name with
    | none => searchNames selectedOnly rest selected criteria
    | some id =>
      let own :=
        if selectedOnly then
          (selected.filter (·.id = id)).map (·.view)
        else none
      let (view, data, criteria) := searchMailbox content user options own id criteria
      let selected :=
        match view with
        | some view => selected.map ({ · with view := view })
        | none => selected
      let (results, left) := searchNames selectedOnly rest selected criteria
      (⟨name, (user.boxes id).uidValidity, data⟩ :: results, left)

def multiSearch (selected : Option Selected) (source : SearchSource) (criteria : SearchCriteria) :
    List MailboxData × Option Selected × SearchCriteria :=
  searchNames content user options source.selectedOnly
    (resolveSearchSource user selected source) selected criteria

end MultiSearch

/-! ## Resolving twice -/

def Maxima.orElse (earlier own : Maxima) : Maxima where
  seqNum := if earlier.seqNum ≠ 0 then earlier.seqNum else own.seqNum
  uid := if earlier.uid ≠ 0 then earlier.uid else own.uid

def Maxima.zero : Maxima where
  seqNum := 0
  uid := 0

theorem Maxima.orElse_assoc (first second third : Maxima) :
    (first.orElse second).orElse third =
      first.orElse (second.orElse third) := by
  simp only [orElse, Maxima.mk.injEq]
  constructor
  · split_ifs <;> simp_all
  · split_ifs <;> simp_all

theorem staticNumRange_twice (range : NumRange) (earlier own : UInt32) :
    staticNumRange (staticNumRange range earlier) own =
      staticNumRange range (if earlier ≠ 0 then earlier else own) := by
  obtain ⟨start, stop⟩ := range
  by_cases hstart : start = 0
  · by_cases hstop : stop = 0
    · by_cases hzero : earlier = 0
      · simp [staticNumRange, hstart, hstop]
      · simp [staticNumRange, hstart, hstop]
    · by_cases hzero : earlier = 0
      · simp [staticNumRange, hstart, hstop, hzero]
      · by_cases hle : stop < earlier
        · simp [staticNumRange, hstart, hstop, hzero, hle]
        · simp [staticNumRange, hstart, hstop, hzero, hle]
  · by_cases hstop : stop = 0
    · by_cases hzero : earlier = 0
      · have hpos := UInt32.pos_iff_ne_zero.mpr hstart
        by_cases hlt : start < own
        · have hasymm := UInt32.lt_asymm hlt
          simp [staticNumRange, hstart, hstop, hzero, hpos, hlt, hasymm]
        · by_cases hgt : own < start
          · simp [staticNumRange, hstart, hstop, hzero, hpos, hlt, hgt]
          · have hsame := UInt32.le_antisymm
              (UInt32.not_lt.mp hgt) (UInt32.not_lt.mp hlt)
            subst hsame
            simp [staticNumRange, hstart, hstop, hzero, hpos]
      · by_cases hle : earlier < start
        · simp [staticNumRange, hstart, hstop, hzero, hle]
        · simp [staticNumRange, hstart, hstop, hzero, hle]
    · simp [staticNumRange, hstart, hstop]

theorem staticFields_twice (earlier own : Maxima) (fields : SearchFields) :
    staticFields own [] (staticFields earlier [] fields) =
      staticFields (earlier.orElse own) [] fields := by
  have hranges : ∀ first second : UInt32,
      (fun set : NumSet => (set.map (staticNumRange · first)).map (staticNumRange · second)) =
      fun set => set.map (staticNumRange · (if first ≠ 0 then first else second)) := by
    intro first second
    funext set
    rw [List.map_map]
    exact List.map_congr_left fun range _ =>
      staticNumRange_twice range first second
  have huids : staticUIDSet own.uid [] ∘ staticUIDSet earlier.uid [] =
      staticUIDSet (earlier.orElse own).uid [] := by
    funext set
    cases set with
    | nums set => exact congrArg UIDSet.nums (congrFun (hranges _ _) set)
    | searchRes => rfl
  simp only [staticFields, List.map_map, huids, SearchFields.mk.injEq, and_true]
  exact congrArg (fields.seqNum.map ·) (hranges _ _)

/-! ## What a search finds -/

def View.found (mbox : Mailbox) (view : View)
    (test : SeqNum → Message → Bool) : List (SeqNum × Message) :=
  (view.numbered mbox).filter fun entry => test entry.1 entry.2

theorem searchLoop_eq (session : SessionTracker) (numKind : NumKind)
    (test : SeqNum → Message → Bool) (l : List Message) (index : Nat) (state : SearchState) :
    searchLoop session numKind test l index state = (((l.zipIdx index).map fun entry =>
        (session.encodeSeqNum (Mailbox.seqNumAt entry.2), entry.1)).filter
          fun entry => test entry.1 entry.2).foldl
        (fun state entry => searchVisit numKind state entry.1 entry.2)
        state := by
  induction l generalizing index state with
  | nil => rfl
  | cons msg rest ih =>
    rw [searchLoop, ih, List.zipIdx_cons, List.map_cons, List.filter_cons]
    split_ifs <;> rfl

theorem foldl_searchVisit_uidSet (numKind : NumKind)
    (entries : List (SeqNum × Message)) (state : SearchState) :
    (entries.foldl (fun state entry =>
        searchVisit numKind state entry.1 entry.2) state).uidSet =
      state.uidSet.addNums (entries.map (·.2.uid)) := by
  induction entries generalizing state with
  | nil => rfl
  | cons entry rest ih =>
    have hvisit : (searchVisit numKind state entry.1 entry.2).uidSet =
        state.uidSet.addNum entry.2.uid := by
      rw [searchVisit]
      split_ifs <;> rfl
    rw [List.foldl_cons, ih, hvisit]
    rfl

variable {mbox : Mailbox} {original criteria : SearchCriteria} {earlier : Maxima}

theorem search_congr {view : View} {numKind : NumKind} {first second : SeqNum → Message → Bool}
    {options : SearchOptions} (h : view.found mbox first = view.found mbox second) :
    view.search mbox numKind first options = view.search mbox numKind second options := by
  simp only [View.search, searchLoop_eq]
  rw [View.found, View.found, View.numbered] at h
  rw [h]

theorem search_all (mbox : Mailbox) (view : View)
    (test : SeqNum → Message → Bool) (options : SearchOptions) :
    (view.search mbox .uid test options).2.all = .uidSet (NumSet.addNums []
        ((view.found mbox test).map (·.2.uid))) := by
  have huids := foldl_searchVisit_uidSet .uid (view.found mbox test)
  simp only [View.search, searchLoop_eq]
  exact congrArg MessageSet.uidSet (huids _)

theorem mem_of_addNums_eq {first second : List UInt32}
    (h : NumSet.addNums [] first = NumSet.addNums [] second)
    {number : UInt32} (hnumber : number ∈ first) : number ∈ second := by
  obtain ⟨-, hfirst⟩ := NumSet.addNums_spec NumSet.empty_canonical first
  obtain ⟨-, hsecond⟩ := NumSet.addNums_spec NumSet.empty_canonical second
  have hcovers := (hfirst (position number)).mpr (.inr ⟨number, hnumber, rfl⟩)
  rw [h] at hcovers
  rcases (hsecond _).mp hcovers with hnone | ⟨other, hother, hplace⟩
  · simp at hnone
  · rwa [← position_inj hplace]

theorem uid_injOn_numbered (view : View) (hdistinct : (mbox.l.map Message.uid).Nodup)
    {first second : SeqNum × Message} (hfirst : first ∈ view.numbered mbox)
    (hsecond : second ∈ view.numbered mbox)
    (huid : first.2.uid = second.2.uid) : first = second := by
  obtain ⟨⟨msg, index⟩, hmem, rfl⟩ := List.mem_map.mp hfirst
  obtain ⟨⟨other, index'⟩, hmem', rfl⟩ := List.mem_map.mp hsecond
  rw [List.mk_mem_zipIdx_iff_getElem?] at hmem hmem'
  have hlt : index < (mbox.l.map Message.uid).length := by
    rw [List.length_map]
    exact (List.getElem?_eq_some_iff.mp hmem).1
  have hindex : index = index' := by
    refine (List.getElem?_inj hlt hdistinct).mp ?_
    rw [List.getElem?_map, List.getElem?_map, hmem, hmem']
    exact congrArg some huid
  subst hindex
  rw [hmem] at hmem'
  injection hmem' with hmsg
  rw [hmsg]

theorem search_eq_iff {view : View} (hdistinct : (mbox.l.map Message.uid).Nodup)
    {first second : SeqNum → Message → Bool} {options : SearchOptions} :
    (view.search mbox .uid first options).2 = (view.search mbox .uid second options).2 ↔
      ∀ entry ∈ view.numbered mbox, first entry.1 entry.2 = second entry.1 entry.2 := by
  constructor
  · intro h
    have hall := congrArg SearchData.all h
    rw [search_all, search_all] at hall
    injection hall with hall
    have hpass : ∀ (test other : SeqNum → Message → Bool),
        NumSet.addNums [] ((view.found mbox test).map (·.2.uid)) =
          NumSet.addNums [] ((view.found mbox other).map (·.2.uid)) →
        ∀ entry ∈ view.numbered mbox, test entry.1 entry.2 = true →
          other entry.1 entry.2 = true := by
      intro test other hsame entry hentry htest
      have hmem : entry.2.uid ∈ (view.found mbox test).map (·.2.uid) :=
        List.mem_map_of_mem (List.mem_filter.mpr ⟨hentry, htest⟩)
      obtain ⟨found, hfound, huid⟩ := List.mem_map.mp (mem_of_addNums_eq hsame hmem)
      obtain ⟨hnumbered, hother⟩ := List.mem_filter.mp hfound
      rwa [← uid_injOn_numbered view hdistinct hnumbered hentry huid]
    intro entry hentry
    exact Bool.eq_iff_iff.mpr ⟨hpass first second hall entry hentry,
      hpass second first hall.symm entry hentry⟩
  · intro h
    exact congrArg Prod.snd (search_congr (List.filter_congr h))

/-! ## Temporary views -/

def Mailbox.temporary (mbox : Mailbox) : Mailbox × View :=
  (mbox.newView.2,
    { session := mbox.newView.1, searchRes := [] })

def Mailbox.maxima (mbox : Mailbox) : Maxima := mbox.temporary.2.maxima mbox.temporary.1

def Mailbox.numbered (mbox : Mailbox) : List (SeqNum × Message) :=
  mbox.temporary.2.numbered mbox.temporary.1

def maximaFrom (user : User) (earlier : Maxima) : List Bytes → Maxima
  | [] => earlier
  | name :: rest =>
    match user.mailbox name with
    | none => maximaFrom user earlier rest
    | some id => maximaFrom user (earlier.orElse (user.boxes id).maxima) rest

def Resolved (original : SearchCriteria) (earlier : Maxima) (criteria : SearchCriteria) : Prop :=
  ∀ own, criteria.mapFields (staticFields own []) =
    original.mapFields (staticFields (earlier.orElse own) [])

theorem Resolved.step (h : Resolved original earlier criteria) (own : Maxima) :
    Resolved original (earlier.orElse own) (criteria.mapFields (staticFields own [])) := by
  intro next
  have htwice : staticFields next [] ∘ staticFields own [] = staticFields (own.orElse next) [] :=
    funext (staticFields_twice own next)
  rw [SearchCriteria.mapFields_mapFields, htwice, h, Maxima.orElse_assoc]

section Independence

variable [CaseMapping] (content : Content) (user : User) (options : SearchOptions) {name : Bytes}

def denoted (mbox : Mailbox) (criteria : SearchCriteria) : List (SeqNum × Message) :=
  mbox.numbered.filter fun entry => entry.2.search content entry.1
    (staticSearchCriteria mbox.temporary.1 mbox.temporary.2 criteria)

/-- It makes no difference to the messages of the mailbox if the numbers for
`*` are taken from others first. -/
def Agrees (criteria : SearchCriteria) (earlier : Maxima) (mbox : Mailbox) : Prop :=
  ∀ entry ∈ mbox.numbered, entry.2.search content entry.1
        (criteria.mapFields (staticFields (earlier.orElse mbox.maxima) [])) =
      entry.2.search content entry.1 (criteria.mapFields (staticFields mbox.maxima []))

def resultFor (criteria : SearchCriteria) (earlier : Maxima) (name : Bytes) : Option MailboxData :=
  (user.mailbox name).map fun id =>
    let mbox := user.boxes id
    { mailbox := name
      uidValidity := mbox.uidValidity
      data := (mbox.temporary.2.search mbox.temporary.1 .uid
        (fun seqNum msg => msg.search content seqNum (criteria.mapFields
          (staticFields (earlier.orElse mbox.maxima) []))) options).2 }

def resultsFrom (criteria : SearchCriteria) (earlier : Maxima) : List Bytes → List MailboxData
  | [] => []
  | name :: rest =>
    (resultFor content user options criteria earlier name).toList ++
      resultsFrom criteria (maximaFrom user earlier [name]) rest

theorem searchMailbox_temporary (h : Resolved original earlier criteria) (id : MailboxId) :
    searchMailbox content user options none id criteria = (none,
        ((user.boxes id).temporary.2.search (user.boxes id).temporary.1 .uid
          (fun seqNum msg => msg.search content seqNum (original.mapFields
            (staticFields (earlier.orElse (user.boxes id).maxima) [])))
          options).2,
        criteria.mapFields (staticFields (user.boxes id).maxima [])) := by
  rw [← h]
  rfl

theorem searchNames_eq (h : Resolved original earlier criteria)
    (names : List Bytes) (selected : Option Selected) :
    (searchNames content user options false names selected criteria).1 =
        resultsFrom content user options original earlier names ∧
      Resolved original (maximaFrom user earlier names)
        (searchNames content user options false names selected criteria).2.2 := by
  induction names generalizing earlier criteria with
  | nil => exact ⟨rfl, h⟩
  | cons name rest ih =>
    rw [searchNames, resultsFrom, resultFor, maximaFrom]
    cases hname : user.mailbox name with
    | none =>
      have htail := ih h
      simp only [maximaFrom, hname]
      exact htail
    | some id =>
      obtain ⟨hresults, hresolved⟩ := ih (h.step (user.boxes id).maxima)
      simp only [maximaFrom, hname, Option.map_some, Option.toList_some, List.singleton_append,
        Bool.false_eq_true, if_false, searchMailbox_temporary content user options h]
      exact ⟨congrArg _ hresults, hresolved⟩

theorem resultFor_mailbox {result : MailboxData}
    (h : result ∈ resultFor content user options criteria earlier name) :
    result.mailbox = name := by
  rw [resultFor] at h
  obtain ⟨id, -, rfl⟩ := Option.map_eq_some_iff.mp h
  rfl

theorem mailbox_mem_of_mem_resultsFrom {names : List Bytes} {result : MailboxData}
    (h : result ∈ resultsFrom content user options criteria earlier names) :
    result.mailbox ∈ names := by
  induction names generalizing earlier with
  | nil => cases h
  | cons name rest ih =>
    rcases List.mem_append.mp h with hfirst | hrest
    · rw [resultFor_mailbox content user options (Option.mem_toList.mp hfirst)]
      exact List.mem_cons_self
    · exact List.mem_cons_of_mem _ (ih hrest)

theorem find_resultsFrom {before after : List Bytes} (hnodup : (before ++ name :: after).Nodup) :
    (resultsFrom content user options criteria earlier
        (before ++ name :: after)).find? (·.mailbox = name) =
      resultFor content user options criteria (maximaFrom user earlier before) name := by
  induction before generalizing earlier with
  | nil =>
    rw [List.nil_append, resultsFrom, List.find?_append]
    have hnone : (resultsFrom content user options criteria
        (maximaFrom user earlier [name]) after).find? (·.mailbox = name) = none := by
      rw [List.find?_eq_none]
      intro result hresult hmailbox
      have hmem := mailbox_mem_of_mem_resultsFrom content user options hresult
      rw [of_decide_eq_true hmailbox] at hmem
      exact (List.nodup_cons.mp hnodup).1 hmem
    rw [hnone, Option.or_none, maximaFrom]
    cases hresult : resultFor content user options criteria earlier name with
    | none => rfl
    | some result =>
      have hmailbox := resultFor_mailbox content user options hresult
      simp [hmailbox]
  | cons first rest ih =>
    obtain ⟨hfirst, hrest⟩ := List.nodup_cons.mp hnodup
    have hne : first ≠ name := by
      rintro rfl
      exact hfirst (by simp)
    have hskip : (resultFor content user options criteria earlier
        first).toList.find? (·.mailbox = name) = none := by
      rw [List.find?_eq_none]
      intro result hresult hmailbox
      have hname := resultFor_mailbox content user options (Option.mem_toList.mp hresult)
      exact hne (hname.symm.trans (of_decide_eq_true hmailbox))
    have hmaxima : maximaFrom user (maximaFrom user earlier [first]) rest =
        maximaFrom user earlier (first :: rest) := by
      simp only [maximaFrom]
      cases user.mailbox first <;> rfl
    rw [List.cons_append, resultsFrom, List.find?_append, hskip, Option.none_or, ih hrest, hmaxima]

theorem resultFor_eq_iff : resultFor content user options criteria earlier name =
        resultFor content user options criteria .zero name ↔
      ∀ id, user.mailbox name = some id → Agrees content criteria earlier (user.boxes id) := by
  rw [resultFor, resultFor]
  cases hname : user.mailbox name with
  | none => simp
  | some id =>
    have hdistinct : ((user.boxes id).temporary.1.l.map Message.uid).Nodup := user.distinct id
    simp only [Option.map_some, Option.some.injEq, MailboxData.mk.injEq, true_and, forall_eq']
    exact search_eq_iff hdistinct

end Independence

theorem filter_eq_iff {α : Type} {p q : α → Bool} (l : List α) :
    l.filter p = l.filter q ↔ ∀ a ∈ l, p a = q a := by
  constructor
  · intro h a ha
    have hmem : a ∈ l.filter p ↔ a ∈ l.filter q := by rw [h]
    rw [List.mem_filter, List.mem_filter] at hmem
    exact Bool.eq_iff_iff.mpr ⟨fun hp => (hmem.mp ⟨ha, hp⟩).2, fun hq => (hmem.mpr ⟨ha, hq⟩).2⟩
  · exact List.filter_congr

theorem addName_nodup {names : List Bytes} (h : names.Nodup) (name : Bytes) :
    (addName names name).Nodup := by
  rw [addName]
  split_ifs with hmem
  · exact h
  · exact List.concat_eq_append ▸ h.concat hmem

theorem resolveSearchSource_nodup (user : User) (selected : Option Selected)
    (source : SearchSource) :
    (resolveSearchSource user selected source).Nodup := by
  have hfold : ∀ (scopes names : List Bytes), names.Nodup → (scopes.foldl addName names).Nodup := by
    intro scopes
    induction scopes with
    | nil => exact fun _ h => h
    | cons name rest ih => exact fun names h => ih _ (addName_nodup h name)
  exact hfold _ [] List.nodup_nil

/--
The result for each mailbox is the one it has as the only source, and the
criteria denote the same messages as before in every mailbox, if and only if
two things hold.  For the messages of each source it makes no difference if `*`
stands for the last number of the first source that has one rather than for its
own, and for those of any mailbox it makes none with respect to all sources.
-/
theorem multiSearch_independent_iff [CaseMapping] (content : Content) (user : User)
    (options : SearchOptions) (selected : Option Selected) (source : SearchSource)
    (hsource : source.selectedOnly = false) (criteria : SearchCriteria) :
    ((∀ name ∈ resolveSearchSource user selected source,
        (multiSearch content user options selected source criteria).1.find? (·.mailbox = name) =
          (multiSearch content user options selected
            { mailboxes := [name] } criteria).1.find? (·.mailbox = name)) ∧
      ∀ mbox, denoted content mbox (multiSearch content user options selected source criteria).2.2 =
        denoted content mbox criteria) ↔
    (∀ before name after id, resolveSearchSource user selected source = before ++ name :: after →
        user.mailbox name = some id →
        Agrees content criteria (maximaFrom user .zero before) (user.boxes id)) ∧
      ∀ mbox, Agrees content criteria
        (maximaFrom user .zero (resolveSearchSource user selected source))
        mbox := by
  have hnodup := resolveSearchSource_nodup user selected source
  have hstart : Resolved criteria .zero criteria := fun own => rfl
  obtain ⟨hresults, hresolved⟩ := searchNames_eq content user options hstart
    (resolveSearchSource user selected source) selected
  have hdenoted : ∀ mbox, denoted content mbox (searchNames content user
        options false (resolveSearchSource user selected source) selected
        criteria).2.2 = denoted content mbox criteria ↔
      Agrees content criteria (maximaFrom user .zero
        (resolveSearchSource user selected source)) mbox := by
    intro mbox
    rw [denoted, denoted, staticSearchCriteria]
    refine Iff.trans (filter_eq_iff _) ?_
    rw [Agrees]
    refine forall₂_congr fun entry _ => ?_
    rw [show (mbox.temporary.2.maxima mbox.temporary.1) = mbox.maxima from rfl,
      show mbox.temporary.2.searchRes = [] from rfl, hresolved]
    rfl
  have hfind : ∀ before name after,
      resolveSearchSource user selected source = before ++ name :: after →
      ((searchNames content user options false
          (resolveSearchSource user selected source) selected criteria).1.find? (·.mailbox = name) =
          (multiSearch content user options selected
            { mailboxes := [name] } criteria).1.find? (·.mailbox = name) ↔
        ∀ id, user.mailbox name = some id → Agrees content criteria
          (maximaFrom user .zero before) (user.boxes id)) := by
    intro before name after hsplit
    have halone : (multiSearch content user options selected { mailboxes := [name] } criteria).1 =
          resultsFrom content user options criteria .zero ([] ++ [name]) :=
      (searchNames_eq content user options hstart [name] selected).1
    rw [hsplit] at hnodup
    rw [hresults, hsplit, find_resultsFrom content user options hnodup,
      halone, find_resultsFrom content user options (by simp),
      maximaFrom]
    exact resultFor_eq_iff content user options
  rw [multiSearch, hsource]
  refine and_congr ?_ (forall_congr' hdenoted)
  constructor
  · intro h before name after id hsplit hid
    exact (hfind before name after hsplit).mp (h name (by rw [hsplit]; simp)) id hid
  · intro h name hname
    obtain ⟨before, after, hsplit⟩ := List.append_of_mem hname
    exact (hfind before name after hsplit).mpr fun id hid =>
      h before name after id hsplit hid

/-! ## Sets without `*` -/

structure StaticFields (fields : SearchFields) : Prop where
  seqNum : ∀ set ∈ fields.seqNum, ∀ range ∈ set, range.isStatic = true
  uid : ∀ set ∈ fields.uid, ∃ nums, set = .nums nums ∧ ∀ range ∈ nums, range.isStatic = true

theorem staticFields_of_static {fields : SearchFields}
    (h : StaticFields fields) (max : Maxima) (searchRes : NumSet) :
    staticFields max searchRes fields = fields := by
  have hset : ∀ (set : NumSet) (top : UInt32), (∀ range ∈ set, range.isStatic = true) →
        set.map (staticNumRange · top) = set := fun set top hstatic =>
    (List.map_congr_left fun range hrange =>
      staticNumRange_of_static (hstatic range hrange) top).trans
      (List.map_id set)
  have hseqs : (fields.seqNum.map fun seqSet =>
      seqSet.map (staticNumRange · max.seqNum)) = fields.seqNum :=
    (List.map_congr_left fun set hmem =>
      hset set max.seqNum (h.seqNum set hmem)).trans (List.map_id _)
  have huids : fields.uid.map (staticUIDSet max.uid searchRes) = fields.uid := by
    refine (List.map_congr_left fun set hmem => ?_).trans (List.map_id _)
    obtain ⟨nums, rfl, hstatic⟩ := h.uid set hmem
    exact congrArg UIDSet.nums (hset nums max.uid hstatic)
  rw [staticFields, hseqs, huids]

theorem agrees_of_static [CaseMapping] (content : Content)
    (h : ∀ fields ∈ criteria.allFields, StaticFields fields) (earlier : Maxima) (mbox : Mailbox) :
    Agrees content criteria earlier mbox := by
  have hsame : ∀ max, criteria.mapFields (staticFields max []) = criteria :=
    fun max => SearchCriteria.mapFields_eq_self fun fields hfields =>
      staticFields_of_static (h fields hfields) max []
  intro entry _
  rw [hsame, hsame]

def oneAndThree : User where
  names := [ascii "A", ascii "B"]
  mailbox := fun name =>
    if name = ascii "A" then some 0
    else if name = ascii "B" then some 1
    else none
  boxes := fun id =>
    if id = 0 then ([emptyAppend].foldl
      (@MailboxState.perform asciiCaseMapping) (MailboxState.initial 1)).mbox
    else threeMessages
  subscribed := fun _ => false
  distinct := fun id => by
    by_cases hid : id = 0
    · simp only [hid, if_true]
      decide
    · simp only [hid, if_false]
      decide

def plainOptions : SearchOptions where
  returnAll := true

theorem multiSearch_independent_second :
    SearchSource.selectedOnly { mailboxes := [ascii "A", ascii "B"] } = false ∧
    ∀ name ∈ resolveSearchSource oneAndThree none { mailboxes := [ascii "A", ascii "B"] },
      (@multiSearch asciiCaseMapping noContent oneAndThree plainOptions none
          { mailboxes := [ascii "A", ascii "B"] }
          (.mk { uid := [.nums [⟨2, 2⟩]] } [] [])).1.find? (·.mailbox = name) =
        (@multiSearch asciiCaseMapping noContent oneAndThree plainOptions none
          { mailboxes := [name] }
          (.mk { uid := [.nums [⟨2, 2⟩]] } [] [])).1.find? (·.mailbox = name) := by
  have hstatic : ∀ fields ∈ (SearchCriteria.mk
      { uid := [.nums [⟨2, 2⟩]] } [] []).allFields, StaticFields fields := by
    intro fields hfields
    rw [List.mem_singleton.mp hfields]
    exact ⟨by simp, by simp; decide⟩
  have hagrees := @agrees_of_static _ asciiCaseMapping noContent hstatic
  exact ⟨rfl, ((@multiSearch_independent_iff asciiCaseMapping noContent oneAndThree
    plainOptions none { mailboxes := [ascii "A", ascii "B"] } (by decide)
    (.mk { uid := [.nums [⟨2, 2⟩]] } [] [])).mpr
      ⟨fun _ _ _ _ _ _ => hagrees _ _, fun _ => hagrees _ _⟩).1⟩

/-- The last UID: behind the first mailbox, it is the first one in the second
mailbox too. -/
theorem multiSearch_star_of_first :
    ((@multiSearch asciiCaseMapping noContent oneAndThree plainOptions none
        { mailboxes := [ascii "A", ascii "B"] }
        (.mk { uid := [.nums [⟨0, 0⟩]] } [] [])).1.find? (·.mailbox = ascii "B")).map (·.data.all) =
        some (.uidSet [⟨1, 1⟩]) ∧
      ((@multiSearch asciiCaseMapping noContent oneAndThree plainOptions none
        { mailboxes := [ascii "B"] }
        (.mk { uid := [.nums [⟨0, 0⟩]] } [] [])).1.find? (·.mailbox = ascii "B")).map (·.data.all) =
        some (.uidSet [⟨3, 3⟩]) := by
  decide

end GoImap.MemServer
