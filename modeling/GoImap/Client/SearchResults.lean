import GoImap.Client.SearchReplies
import Mathlib.Data.Set.List

/-!
# The results of a search

The numbers of a SEARCH are added to the set of the first search that is
pending.  The set of an ESEARCH replaces what its command has so far; a search
of several mailboxes keeps one result for each response.

A response is read first and entered then; one that is refused ends the
connection.
-/

namespace GoImap

open Wire Utf8 Intervals

namespace SearchAll

def addNums (nums : List UInt32) : SearchAll → SearchAll
  | .absent => .absent
  | .seqSet set => .seqSet (set.addNums nums)
  | .uidSet set => .uidSet (set.addNums nums)

end SearchAll

namespace SearchResults

/-! ## Entering -/

structure SearchData where
  all : SearchAll := .absent
  mailbox : Bytes := []
  uidValidity : UInt32 := 0
  min : UInt32 := 0
  max : UInt32 := 0
  count : UInt32 := 0
  modSeq : ModSeq := 0

def SearchData.enter (data : SearchData) : ReturnItem → SearchData
  | .mailbox name => { data with mailbox := name }
  | .min num => { data with min := num }
  | .max num => { data with max := num }
  | .all set => { data with all := set }
  | .count num => { data with count := num }
  | .modSeq modSeq => { data with modSeq := modSeq }
  | .unknown => data

def ESearchResponse.data (response : ESearchResponse) : SearchData :=
  response.items.foldl SearchData.enter
    { mailbox := response.correlator.mailbox, uidValidity := response.correlator.uidValidity }

inductive PendingCmd where
  | search (data : SearchData)
  | multiSearch (data : List SearchData)
  | other

namespace PendingCmd

def isSearch : PendingCmd → Bool
  | .search _ => true
  | .multiSearch _ | .other => false

def collects : PendingCmd → Bool
  | .search _ | .multiSearch _ => true
  | .other => false

def receive : PendingCmd → Response → PendingCmd
  | .search data, .search response =>
    .search { data with
      all := data.all.addNums response.nums
      modSeq := response.modSeq.getD data.modSeq }
  | .search _, .esearch response => .search response.data
  | .multiSearch data, .esearch response =>
    .multiSearch (data ++ [response.data])
  | cmd, _ => cmd

end PendingCmd

def target (cmds : List (Bytes × PendingCmd)) : Response → Option Bytes
  | .search _ => (cmds.find? (·.2.isSearch)).map Prod.fst
  | .esearch response =>
    if response.correlator.tag = [] then none
    else (cmds.find? fun entry => entry.2.collects &&
      entry.1 = response.correlator.tag).map Prod.fst

def receive (cmds : List (Bytes × PendingCmd)) (response : Response) : List (Bytes × PendingCmd) :=
  cmds.map fun entry =>
    if target cmds response = some entry.1 then
      (entry.1, entry.2.receive response)
    else entry

/-! ## What is listed, and what is kept -/

def Response.Lists (number : UInt32) : Response → Prop
  | .search response => number ∈ response.nums
  | .esearch response =>
    ∃ all ∈ response.sets, all.set.contains number = true

def Open : List Response → Bool
  | [] => true
  | .search _ :: earlier => Open earlier
  | .esearch response :: _ => response.sets ≠ []

/-- The number is listed where it counts: in the last ALL of the last ESEARCH,
or in a SEARCH behind it if there is such an ALL.  The last response is the
first one. -/
def Counts (number : UInt32) : List Response → Prop
  | [] => False
  | .search response :: earlier =>
    Open earlier = true ∧ number ∈ response.nums ∨ Counts number earlier
  | .esearch response :: _ =>
    ∃ all ∈ response.sets.getLast?, all.set.contains number = true

/-- Every number that the responses list counts and is neither 0 nor the
largest one. -/
def Countable (responses : List Response) : Prop :=
  ∀ response ∈ responses, ∀ number, response.Lists number →
    number ≠ 0 ∧ number ≠ 0xFFFFFFFF ∧ Counts number responses.reverse

def Enumerates (all : SearchAll) (listed : UInt32 → Prop) : Prop :=
  all.isDynamic = false ∧ ∃ fuel seqNums uids, all.allSeqNums fuel = some (.ok seqNums) ∧
      all.allUIDs fuel = some (.ok uids) ∧
      (seqNums ++ uids).Pairwise (· < ·) ∧
      ∀ number, number ∈ seqNums ++ uids ↔ listed number

/-! ## The set of a command -/

/-- The set holds what counts, with 0 as `*`. -/
structure Tracks (all : SearchAll) (reversed : List Response) : Prop where
  opened : all = .absent ↔ Open reversed = false
  canonical : all.set.Canonical
  counts : ∀ number, Covers all.set.spans (position number) ↔ Counts number reversed

section Tracks

variable {all : SearchAll} {reversed : List Response}

theorem covers_zero_iff {set : NumSet} (h : set.Canonical) :
    Covers set.spans (position 0) ↔ set.isDynamic = true := by
  rw [NumSet.covers_spans_iff, NumSet.isDynamic_iff h]
  simp [NumSet.contains_zero_iff]

theorem Accepted.covers_iff (h : Accepted all) (number : UInt32) :
    Covers all.set.spans (position number) ↔ all.set.contains number = true := by
  rw [NumSet.contains_iff h.canonical]
  refine ⟨fun hcovers => ⟨?_, hcovers⟩, And.right⟩
  rintro rfl
  have hdynamic : all.isDynamic = true := (covers_zero_iff h.canonical).mp hcovers
  rw [h.static] at hdynamic
  cases hdynamic

theorem foldl_enter_all (items : List ReturnItem) (data : SearchData) :
    (items.foldl SearchData.enter data).all =
      ((ESearchResponse.sets ⟨{}, items⟩).getLast?).getD data.all := by
  induction items generalizing data with
  | nil => rfl
  | cons item items ih =>
    rw [List.foldl_cons, ih]
    cases item with
    | all set =>
      simp only [SearchData.enter, ESearchResponse.sets, List.filterMap_cons, List.getLast?_cons]
      rfl
    | _ => rfl

theorem data_all (response : ESearchResponse) :
    response.data.all = response.sets.getLast?.getD .absent :=
  foldl_enter_all response.items _

theorem tracks_esearch {response : ESearchResponse} (h : ∀ all ∈ response.sets, Accepted all) :
    Tracks response.data.all (.esearch response :: reversed) := by
  rw [data_all]
  cases hlast : response.sets.getLast? with
  | none =>
    rw [List.getLast?_eq_none_iff] at hlast
    refine ⟨by simp [Open, hlast], NumSet.empty_canonical, fun number => ?_⟩
    simp [Counts, hlast, SearchAll.set]
  | some all =>
    have hmem := List.mem_of_getLast? hlast
    have haccepted := h all hmem
    refine ⟨?_, haccepted.canonical, fun number => ?_⟩
    · have hsome : response.sets ≠ [] := List.ne_nil_of_mem hmem
      simp [Open, hsome, haccepted.there]
    · rw [Option.getD_some, haccepted.covers_iff]
      simp [Counts, hlast]

theorem Tracks.addNums (h : Tracks all reversed) (response : SearchResponse) :
    Tracks (all.addNums response.nums) (.search response :: reversed) := by
  have hadd : ∀ set, all.set = set → Open reversed = true → (set.addNums response.nums).Canonical ∧
      ∀ number, Covers (set.addNums response.nums).spans (position number) ↔
        Counts number (.search response :: reversed) := by
    rintro set rfl hopen
    obtain ⟨hcanonical, hcovers⟩ := NumSet.addNums_spec h.canonical response.nums
    refine ⟨hcanonical, fun number => ?_⟩
    rw [hcovers, h.counts, Counts]
    constructor
    · rintro (hcounts | ⟨other, hother, hplace⟩)
      · exact .inr hcounts
      · exact .inl ⟨hopen, position_inj hplace ▸ hother⟩
    · rintro (⟨-, hnumber⟩ | hcounts)
      · exact .inr ⟨number, hnumber, rfl⟩
      · exact .inl hcounts
  have hopened := h.opened
  cases hall : all with
  | absent =>
    have hclosed := hopened.mp hall
    refine ⟨by simp [SearchAll.addNums, Open, hclosed], NumSet.empty_canonical, fun number => ?_⟩
    have hcounts := h.counts number
    rw [hall] at hcounts
    simp only [Counts, hclosed, Bool.false_eq_true, false_and, false_or]
    exact hcounts
  | seqSet set =>
    have hopen : Open reversed = true := by simpa [hall] using hopened
    obtain ⟨hcanonical, hcounts⟩ := hadd set (by rw [hall]; rfl) hopen
    exact ⟨by simp [SearchAll.addNums, Open, hopen], hcanonical, hcounts⟩
  | uidSet set =>
    have hopen : Open reversed = true := by simpa [hall] using hopened
    obtain ⟨hcanonical, hcounts⟩ := hadd set (by rw [hall]; rfl) hopen
    exact ⟨by simp [SearchAll.addNums, Open, hopen], hcanonical, hcounts⟩

theorem exists_lists_of_counts {number : UInt32} (h : Counts number reversed) :
    ∃ response ∈ reversed, response.Lists number := by
  induction reversed with
  | nil => cases h
  | cons response earlier ih =>
    cases response with
    | search response =>
      rcases h with ⟨-, hmem⟩ | hearlier
      · exact ⟨_, List.mem_cons_self, hmem⟩
      · obtain ⟨other, hother, hlists⟩ := ih hearlier
        exact ⟨other, List.mem_cons_of_mem _ hother, hlists⟩
    | esearch response =>
      obtain ⟨all, hlast, hcontains⟩ := h
      exact ⟨_, List.mem_cons_self, all, List.mem_of_getLast? hlast, hcontains⟩

end Tracks

/-! ## Enumeration -/

section Enumerates

variable {all : SearchAll}

theorem enumerates_iff {listed : UInt32 → Prop} : Enumerates all listed ↔ all.isDynamic = false ∧
      ∃ fuel list, all.set.nums fuel = some (list, true) ∧
        list.Pairwise (· < ·) ∧ ∀ number, number ∈ list ↔ listed number := by
  have hexpanded : ∀ result list, SearchAll.expanded result = some (.ok list) ↔
        result = some (list, true) := by
    rintro (_ | ⟨nums, _ | _⟩) list <;> simp [SearchAll.expanded]
  refine and_congr_right fun _ => exists_congr fun fuel => ?_
  cases all with
  | absent =>
    simp only [SearchAll.allSeqNums, SearchAll.allUIDs, SearchAll.set, NumSet.nums, NumSet.numsLoop,
      Option.some.injEq, Except.ok.injEq, Prod.mk.injEq, and_true]
    constructor
    · rintro ⟨seqNums, uids, rfl, rfl, hlist⟩
      exact ⟨[], rfl, hlist⟩
    · rintro ⟨list, rfl, hlist⟩
      exact ⟨[], [], rfl, rfl, hlist⟩
  | seqSet set =>
    simp only [SearchAll.allSeqNums, SearchAll.allUIDs,
      hexpanded, Option.some.injEq, Except.ok.injEq]
    constructor
    · rintro ⟨seqNums, uids, hnums, rfl, hlist⟩
      exact ⟨seqNums, hnums, by simpa using hlist⟩
    · rintro ⟨list, hnums, hlist⟩
      exact ⟨list, [], hnums, rfl, by simpa using hlist⟩
  | uidSet set =>
    simp only [SearchAll.allSeqNums, SearchAll.allUIDs,
      hexpanded, Option.some.injEq, Except.ok.injEq]
    constructor
    · rintro ⟨seqNums, uids, rfl, hnums, hlist⟩
      exact ⟨uids, hnums, hlist⟩
    · rintro ⟨list, hnums, hlist⟩
      exact ⟨[], list, rfl, hnums, hlist⟩

theorem nums_of_canonical {set : NumSet} (h : set.Canonical)
    (hdynamic : set.isDynamic = false) {fuel : Nat} {list : List UInt32}
    (hnums : set.nums fuel = some (list, true)) (number : UInt32) :
    (number ∈ list ↔ set.contains number = true) ∧ set.contains 0xFFFFFFFF = false := by
  have hstatic := NumSet.isStatic_of_canonical h hdynamic
  have hlistable : set.Listable := by
    by_contra hlist
    rw [NumSet.nums, NumSet.numsLoop_diverges hlist] at hnums
    cases hnums
  have hmore : set.nums (fuel + 2 ^ 32) = some (list, true) :=
    NumSet.numsLoop_mono (Nat.le_add_right _ _) hnums
  rw [NumSet.nums, NumSet.numsLoop_static hstatic hlistable (Nat.le_add_left _ _), List.nil_append,
    Option.some.injEq, Prod.mk.injEq] at hmore
  rw [← hmore.1]
  exact ⟨NumSet.mem_flatMap_numbers h hdynamic number,
    (NumSet.listable_iff h hdynamic).mp hlistable⟩

theorem Tracks.enumerates_iff {responses : List Response} (h : Tracks all responses.reverse) :
    Enumerates all (fun number =>
        ∃ response ∈ responses, response.Lists number) ↔
      Countable responses := by
  have hlisted : ∀ number, Counts number responses.reverse →
      ∃ response ∈ responses, response.Lists number := by
    intro number hcounts
    obtain ⟨response, hresponse, hlists⟩ := exists_lists_of_counts hcounts
    exact ⟨response, List.mem_reverse.mp hresponse, hlists⟩
  rw [SearchResults.enumerates_iff]
  constructor
  · rintro ⟨hdynamic, fuel, list, hnums, -, hmem⟩ response hresponse number hlists
    obtain ⟨hcontains, hlargest⟩ := nums_of_canonical h.canonical hdynamic hnums number
    have hin := hcontains.mp ((hmem number).mpr ⟨response, hresponse, hlists⟩)
    obtain ⟨hzero, hcovers⟩ := (NumSet.contains_iff h.canonical number).mp hin
    refine ⟨hzero, ?_, (h.counts number).mp hcovers⟩
    rintro rfl
    rw [hlargest] at hin
    cases hin
  · intro hcountable
    have hkept : ∀ number, Counts number responses.reverse → number ≠ 0 ∧ number ≠ 0xFFFFFFFF := by
      intro number hcounts
      obtain ⟨response, hresponse, hlists⟩ := hlisted number hcounts
      obtain ⟨hzero, hlargest, -⟩ := hcountable response hresponse number hlists
      exact ⟨hzero, hlargest⟩
    have hdynamic : all.set.isDynamic = false := by
      rw [← Bool.not_eq_true, ← covers_zero_iff h.canonical, h.counts]
      exact fun hcounts => (hkept 0 hcounts).1 rfl
    have hlistable : all.set.Listable := by
      rw [NumSet.listable_iff h.canonical hdynamic, ← Bool.not_eq_true,
        NumSet.contains_iff h.canonical, h.counts]
      exact fun hcounts => (hkept _ hcounts.2).2 rfl
    obtain ⟨⟨fuel, list, hnums, hascending, -, hmem⟩, -, -⟩ :=
      (hlistable.expands (.inr h.canonical)).1 hdynamic
    refine ⟨hdynamic, fuel, list, hnums, hascending, fun number => ?_⟩
    rw [hmem, NumSet.contains_iff h.canonical, h.counts]
    constructor
    · rintro ⟨-, hcounts⟩
      exact hlisted number hcounts
    · rintro ⟨response, hresponse, hlists⟩
      obtain ⟨hzero, -, hcounts⟩ := hcountable response hresponse number hlists
      exact ⟨hzero, hcounts⟩

end Enumerates

/-! ## Every command -/

def PendingCmd.Fresh : PendingCmd → Prop
  | .search data => data.all = .seqSet [] ∨ data.all = .uidSet []
  | .multiSearch data => data = []
  | .other => True

/-- The numbers of the command's sets can be listed: those of a search are what
all its responses list, those of a search of several mailboxes are what one
response lists each. -/
def PendingCmd.Listable (responses : List Response) : PendingCmd → Prop
  | .search data => Enumerates data.all fun number =>
    ∃ response ∈ responses, response.Lists number
  | .multiSearch data => List.Forall₂
      (fun data response => Enumerates data.all response.Lists) data responses
  | .other => True

def PendingCmd.Counted (responses : List Response) : PendingCmd → Prop
  | .search _ => Countable responses
  | .multiSearch _ => ∀ response ∈ responses, Countable [response]
  | .other => True

section Commands

variable {cmds : List (Bytes × PendingCmd)} {responses : List Response}

theorem receive_isSearch (cmd : PendingCmd) (response : Response) :
    (cmd.receive response).isSearch = cmd.isSearch := by
  cases cmd <;> cases response <;> rfl

theorem receive_collects (cmd : PendingCmd) (response : Response) :
    (cmd.receive response).collects = cmd.collects := by
  cases cmd <;> cases response <;> rfl

theorem target_receive (response later : Response) :
    target (receive cmds response) later = target cmds later := by
  have hfind : ∀ p : Bytes → PendingCmd → Bool,
      (∀ tag cmd, p tag (cmd.receive response) = p tag cmd) →
      ((receive cmds response).find? fun entry => p entry.1 entry.2).map Prod.fst =
        (cmds.find? fun entry => p entry.1 entry.2).map Prod.fst := by
    intro p hp
    rw [receive, List.find?_map, Option.map_map]
    have hsame : (fun entry : Bytes × PendingCmd => p entry.1 entry.2) ∘
        (fun entry => if target cmds response = some entry.1 then
          (entry.1, entry.2.receive response) else entry) =
        fun entry => p entry.1 entry.2 := by
      funext entry
      simp only [Function.comp]
      split_ifs
      · exact hp entry.1 entry.2
      · rfl
    rw [hsame]
    congr 1
    funext entry
    simp only [Function.comp]
    split_ifs
    · rfl
    · rfl
  cases later with
  | search later =>
    exact hfind (fun _ cmd => cmd.isSearch) fun _ cmd => receive_isSearch cmd response
  | esearch later =>
    rw [target, target]
    split_ifs
    · rfl
    · exact hfind (fun tag cmd => cmd.collects && tag = later.correlator.tag) fun _ cmd => by
          rw [receive_collects]

theorem foldl_receive (responses : List Response) :
    responses.foldl receive cmds = cmds.map fun entry =>
      (entry.1, (responses.filter fun response =>
        target cmds response = some entry.1).foldl PendingCmd.receive entry.2) := by
  induction responses generalizing cmds with
  | nil => simp
  | cons response responses ih =>
    rw [List.foldl_cons, ih]
    simp only [target_receive]
    rw [receive, List.map_map]
    refine List.map_congr_left fun entry _ => ?_
    simp only [Function.comp]
    split_ifs with htarget
    · rw [List.filter_cons_of_pos (by simpa using htarget), List.foldl_cons]
    · rw [List.filter_cons_of_neg (by simpa using htarget)]

theorem tracks_foldl {data : SearchData} {earlier : List Response} (h : Tracks data.all earlier)
    (haccepted : ∀ response ∈ responses, response.Accepted) :
    ∃ later, responses.foldl PendingCmd.receive (.search data) =
        .search later ∧ Tracks later.all (responses.reverse ++ earlier) := by
  induction responses generalizing data earlier with
  | nil => exact ⟨data, rfl, h⟩
  | cons response responses ih =>
    obtain ⟨hfirst, hmore⟩ := List.forall_mem_cons.mp haccepted
    rw [List.foldl_cons, List.reverse_cons, List.append_assoc]
    cases response with
    | search response => exact ih (h.addNums response) hmore
    | esearch response => exact ih (tracks_esearch hfirst) hmore

theorem foldl_multiSearch {data : List SearchData} {esearches : List ESearchResponse} :
    (esearches.map Response.esearch).foldl PendingCmd.receive (.multiSearch data) =
      .multiSearch (data ++ esearches.map ESearchResponse.data) := by
  induction esearches generalizing data with
  | nil => simp
  | cons response responses ih =>
    rw [List.map_cons, List.foldl_cons, PendingCmd.receive, ih]
    simp

theorem eq_of_target {tag : Bytes} {cmd : PendingCmd} {response : Response}
    (htags : (cmds.map Prod.fst).Nodup) (hcmd : (tag, cmd) ∈ cmds)
    (htarget : target cmds response = some tag) :
    match response with
    | .search _ => cmd.isSearch = true
    | .esearch _ => cmd.collects = true := by
  have hsame : ∀ entry ∈ cmds, entry.1 = tag → entry.2 = cmd := by
    rintro ⟨_, found⟩ hfound rfl
    exact (Prod.mk.injEq .. ▸ List.inj_on_of_nodup_map htags hfound hcmd rfl).2
  cases response with
  | search response =>
    obtain ⟨entry, hfind, htag⟩ := Option.map_eq_some_iff.mp htarget
    have hfound := List.find?_some hfind
    rwa [hsame entry (List.mem_of_find?_eq_some hfind) htag] at hfound
  | esearch response =>
    rw [target] at htarget
    split_ifs at htarget
    obtain ⟨entry, hfind, htag⟩ := Option.map_eq_some_iff.mp htarget
    have hfound := List.find?_some hfind
    rw [hsame entry (List.mem_of_find?_eq_some hfind) htag, Bool.and_eq_true] at hfound
    exact hfound.1

theorem tracks_fresh {all : SearchAll}
    (h : all = .seqSet [] ∨ all = .uidSet []) : Tracks all [] := by
  rcases h with rfl | rfl
  · exact ⟨by simp [Open], NumSet.empty_canonical, by simp [Counts, SearchAll.set]⟩
  · exact ⟨by simp [Open], NumSet.empty_canonical, by simp [Counts, SearchAll.set]⟩

theorem listable_iff_counted {tag : Bytes} {cmd : PendingCmd} (htags : (cmds.map Prod.fst).Nodup)
    (hcmd : (tag, cmd) ∈ cmds) (hfresh : cmd.Fresh)
    (haccepted : ∀ response ∈ responses, response.Accepted)
    (htarget : ∀ response ∈ responses, target cmds response = some tag) :
    (responses.foldl PendingCmd.receive cmd).Listable responses ↔
      (responses.foldl PendingCmd.receive cmd).Counted responses := by
  cases cmd with
  | search data =>
    obtain ⟨later, hlater, htracks⟩ := tracks_foldl (tracks_fresh hfresh) haccepted
    rw [List.append_nil] at htracks
    rw [hlater]
    exact htracks.enumerates_iff
  | multiSearch data =>
    obtain ⟨esearches, rfl⟩ : ∃ esearches : List ESearchResponse,
        responses = esearches.map Response.esearch := by
      have hrange : responses ∈ Set.range (List.map Response.esearch) := by
        rw [Set.range_list_map]
        intro response hresponse
        have hkind := eq_of_target htags hcmd (htarget response hresponse)
        cases response with
        | search response => cases hkind
        | esearch response => exact ⟨response, rfl⟩
      obtain ⟨esearches, hesearches⟩ := hrange
      exact ⟨esearches, hesearches.symm⟩
    have hnone := hfresh
    subst hnone
    rw [foldl_multiSearch, List.nil_append]
    simp only [PendingCmd.Listable, PendingCmd.Counted, List.forall₂_map_left_iff,
      List.forall₂_map_right_iff, List.forall₂_same, List.forall_mem_map]
    refine forall₂_congr fun response hresponse => ?_
    have htracks : Tracks response.data.all [Response.esearch response] :=
      tracks_esearch (haccepted _ (List.mem_map_of_mem hresponse))
    have hiff := @Tracks.enumerates_iff _ [.esearch response] htracks
    simpa using hiff
  | other =>
    have hother : responses.foldl PendingCmd.receive .other = .other := by
      induction responses with
      | nil => rfl
      | cons response responses ih =>
        exact ih (fun other hmem => haccepted other (.tail _ hmem))
          fun other hmem => htarget other (.tail _ hmem)
    rw [hother]
    exact Iff.rfl

end Commands

/--
Whatever responses the client accepts, the set of a search is static and lists
exactly what the responses for it list, if and only if none of the numbers is 0
or the largest one, and each of them is listed where it counts.
-/
theorem results_listable_iff [UpperCase] (options : Options) (quotedUTF8 : Bool)
    (cmds : List (Bytes × PendingCmd)) (htags : (cmds.map Prod.fst).Nodup)
    (hfresh : ∀ entry ∈ cmds, entry.2.Fresh) (calls : List Call) (responses : List Response)
    (hread : List.Forall₂ (fun call response =>
      call.read options quotedUTF8 = some response) calls responses) (tag : Bytes)
    (cmd : PendingCmd) (hcmd : (tag, cmd) ∈ responses.foldl receive cmds) :
    cmd.Listable (responses.filter fun response =>
        target cmds response = some tag) ↔
      cmd.Counted (responses.filter fun response =>
        target cmds response = some tag) := by
  have haccepted := forall_accepted hread
  rw [foldl_receive] at hcmd
  obtain ⟨⟨first, start⟩, hstart, heq⟩ := List.mem_map.mp hcmd
  cases heq
  refine listable_iff_counted htags hstart (hfresh _ hstart)
    (fun response hmem => ?_) fun response hmem => ?_
  · exact haccepted response (List.mem_filter.mp hmem).1
  · simpa using (List.mem_filter.mp hmem).2

def oneSearch : List (Bytes × PendingCmd) := [(ascii "T1", .search { all := .seqSet [] })]

/-- The search lists the messages 4 and 2. -/
theorem results_listable_numbers :
    @Call.read clientOptions false asciiUpper (.search 9 (newDecoder (ascii " 4 2\r\n"))) =
      some (.search ⟨[4, 2], none⟩) ∧
    Enumerates (.seqSet [⟨2, 2⟩, ⟨4, 4⟩]) fun number =>
      ∃ response ∈ [Response.search ⟨[4, 2], none⟩], response.Lists number := by
  have hread : @Call.read clientOptions false asciiUpper
      (.search 9 (newDecoder (ascii " 4 2\r\n"))) =
        some (.search ⟨[4, 2], none⟩) := by decide +kernel
  have hiff := @results_listable_iff asciiUpper clientOptions false oneSearch
    (by decide) (by simp [oneSearch, PendingCmd.Fresh]) [_] [_]
    (.cons hread .nil) (ascii "T1")
    (.search { all := .seqSet [⟨2, 2⟩, ⟨4, 4⟩] }) (.head _)
  refine ⟨hread, hiff.mpr ?_⟩
  rintro response (_ | ⟨_, ⟨⟩⟩) number hnumber
  have hcases : number = 4 ∨ number = 2 := by
    simpa [Response.Lists] using hnumber
  rcases hcases with rfl | rfl
  · exact ⟨by decide, by decide, .inl ⟨rfl, .head _⟩⟩
  · exact ⟨by decide, by decide, .inl ⟨rfl, .tail _ (.head _)⟩⟩

/-- The client accepts the number 0 and adds it as `*`, which makes the accessor
panic. -/
theorem results_zero_panics :
    @Call.read clientOptions false asciiUpper (.search 9 (newDecoder (ascii " 0\r\n"))) =
      some (.search ⟨[0], none⟩) ∧
    receive oneSearch (.search ⟨[0], none⟩) = [(ascii "T1", .search { all := .seqSet [⟨0, 0⟩] })] ∧
    (SearchAll.seqSet [⟨0, 0⟩]).allSeqNums 1 =
      some (.error "imap: SearchData.All is a dynamic number set") :=
  ⟨by decide +kernel, rfl, rfl⟩

end SearchResults

end GoImap
