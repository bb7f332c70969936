import GoImap.Fetch.BodyReader
import GoImap.NumSet.Expand

/-!
# Reading the results of a search

SEARCH lists numbers one by one.  ESEARCH names the command it answers and
lists a set, which must be static and of a bounded size.  Responses for a SORT
are read another way.
-/

namespace GoImap

open Wire Utf8 Parsing

/-! ## Reading -/

namespace SearchAll

def set : SearchAll → NumSet
  | .absent => []
  | .seqSet set | .uidSet set => set

def isDynamic (all : SearchAll) : Bool := all.set.isDynamic

def cardinality (all : SearchAll) : UInt64 := all.set.cardinality

end SearchAll

namespace Wire.Decoder

variable (options : Options)

/-- The result of the last search is a set of UIDs without elements. -/
def expectNumSet (uid : Bool) (dec : Decoder) : Option SearchAll × Decoder :=
  match dec.expectUIDSet options with
  | (none, dec) => (none, dec)
  | (some .searchRes, dec) => (some (.uidSet []), dec)
  | (some (.nums set), dec) =>
    (some (if uid then .uidSet set else .seqSet set), dec)

/-- The loop of `List` in `DiscardValue`.  An item that is not discarded and
leaves no error is passed over. -/
def discardItems (value : Decoder → Bool × Decoder) : Nat → Decoder → Bool × Decoder
  | 0, dec => (false, dec)
  | fuel + 1, dec =>
    match value dec with
    | (discarded, dec) =>
      if !discarded && dec.err.isSome then (false, dec)
      else
        match dec.acceptByte options closeParen with
        | (true, dec) => (true, dec)
        | (false, dec) =>
          match dec.expectSP options with
          | (true, dec) => discardItems value fuel dec
          | (false, dec) => (false, dec)

/-- `DiscardValue`.  The items of a list are not read where there are too many
lists around it. -/
def discardNested (items : Option (Decoder → Bool × Decoder)) (dec : Decoder) : Bool × Decoder :=
  match dec.string options with
  | (some _, dec) => (true, dec)
  | (none, dec) =>
    match dec.acceptByte options openParen with
    | (true, dec) =>
      match dec.acceptByte options closeParen with
      | (true, dec) => (true, dec)
      | (false, dec) =>
        match items with
        | some items => items dec
        | none => (false, dec)
    | (false, dec) =>
      match dec.atom options with
      | (some _, dec) => (true, dec)
      | (none, dec) => dec.expect false "value"

def discardLevels (fuel : Nat) : Nat → Decoder → Bool × Decoder
  | 0 => discardNested options none
  | levels + 1 =>
    discardNested options (some (discardItems options (discardLevels fuel levels) fuel))

def discardValue (fuel : Nat) : Decoder → Bool × Decoder :=
  discardLevels options fuel (maxListDepth - 1)

end Wire.Decoder

namespace SearchResults

open Client (Read ReadError)

structure SearchResponse where
  nums : List UInt32
  modSeq : Option ModSeq
  deriving DecidableEq, Repr

/-- The items of the return data.  Those that are not known are skipped. -/
inductive ReturnItem where
  | mailbox (name : Bytes)
  | min (num : UInt32)
  | max (num : UInt32)
  | all (set : SearchAll)
  | count (num : UInt32)
  | modSeq (modSeq : ModSeq)
  | unknown
  deriving DecidableEq, Repr

structure Correlator where
  tag : Bytes := []
  mailbox : Bytes := []
  uidValidity : UInt32 := 0
  deriving DecidableEq, Repr

structure ESearchResponse where
  correlator : Correlator
  items : List ReturnItem
  deriving DecidableEq, Repr

def maxAllResultSize : UInt64 := 10000000

section Reading

variable (options : Options) (quotedUTF8 : Bool)

def readModSeqItem : Read ModSeq := do
  let modSeq ← demand .wire (·.expectModSeq options)
  require .wire (·.expectSpecial options closeParen)
  pure modSeq

/-- A panic of the decoding ends the connection as well. -/
def readMailbox : Read Bytes := fun dec =>
  match dec.expectMailbox options quotedUTF8 with
  | .ok (some name, dec) => (.ok name, dec)
  | .ok (none, dec) => (.error (.wire dec.err), dec)
  | .error _ => (.error (.failed "panic reading response"), dec)

/-- The set of ALL is neither dynamic nor too large. -/
def readAll (isUID : Bool) : Read SearchAll := do
  let all ← demand .wire (·.expectNumSet options isUID)
  if all.isDynamic then Parser.fail (.failed
    "imapclient: server returned a dynamic ALL number set in SEARCH response")
  else if all.cardinality > maxAllResultSize then
    Parser.fail (.failed "imapclient: server returned ALL set over the cap")
  else pure all

/-- A value that is not known.  If it is not discarded and there is no error,
nothing more is read. -/
def readUnknown (fuel : Nat) : Read Bool := fun dec =>
  match dec.discardValue options fuel with
  | (true, dec) => (.ok true, dec)
  | (false, dec) =>
    if dec.err.isSome then (.error (.wire dec.err), dec) else (.ok false, dec)

variable [UpperCase]

def readSearch : Nat → Read SearchResponse
  | 0 => stuck .wire
  | fuel + 1 => do
      if ← attempt (·.sp options) then
        if ← attempt (·.acceptByte options openParen) then
          let name ← demand .wire (·.expectAtom options)
          require .wire (·.expectSP options)
          if toUpper name = ascii "MODSEQ" then
            let modSeq ← readModSeqItem options
            pure ⟨[], some modSeq⟩
          else
            Parser.fail (.failed "in search-sort-mod-seq: expected \"MODSEQ\"")
        else
          let num ← demand .wire (·.expectNumber options)
          let rest ← readSearch fuel
          pure { rest with nums := num :: rest.nums }
      else pure ⟨[], none⟩

def readCorrelator : Nat → Correlator → Read Correlator
  | 0, _ => stuck .wire
  | fuel + 1, correlator => do
      let itemName ← demand .wire (·.expectAtom options)
      require .wire (·.expectSP options)
      let correlator ←
        if toUpper itemName = ascii "TAG" then do
          let tag ← demand .wire (·.expectAString options)
          pure { correlator with tag := tag }
        else if toUpper itemName = ascii "MAILBOX" then do
          let mailbox ← readMailbox options quotedUTF8
          pure { correlator with mailbox := mailbox }
        else if toUpper itemName = ascii "UIDVALIDITY" then do
          let uidValidity ← demand .wire (·.expectNumber options)
          pure { correlator with uidValidity := uidValidity }
        else Parser.fail (.failed "in search-correlator: unknown item")
      if ← attempt (·.sp options) then readCorrelator fuel correlator
      else
        require .wire (·.expectSpecial options closeParen)
        pure correlator

def readItem (fuel : Nat) (isUID : Bool) (name : Bytes) : Read (Option ReturnItem) :=
  if toUpper name = ascii "MAILBOX" then do
    let mailbox ← readMailbox options quotedUTF8
    pure (some (.mailbox mailbox))
  else if toUpper name = ascii "MIN" then do
    let num ← demand .wire (·.expectNumber options)
    pure (some (.min num))
  else if toUpper name = ascii "MAX" then do
    let num ← demand .wire (·.expectNumber options)
    pure (some (.max num))
  else if toUpper name = ascii "ALL" then do
    let all ← readAll options isUID
    pure (some (.all all))
  else if toUpper name = ascii "COUNT" then do
    let num ← demand .wire (·.expectNumber options)
    pure (some (.count num))
  else if toUpper name = ascii "MODSEQ" then do
    let modSeq ← demand .wire (·.expectModSeq options)
    pure (some (.modSeq modSeq))
  else do
    if ← readUnknown options fuel then pure (some .unknown) else pure none

/-- Some servers put MODSEQ in parentheses. -/
def readParenItem (fuel : Nat) : Read (Option ReturnItem) := do
  let atomName ← demand .wire (·.expectAtom options)
  if toUpper atomName = ascii "MODSEQ" then
    require .wire (·.expectSP options)
    let modSeq ← readModSeqItem options
    pure (some (.modSeq modSeq))
  else if ← readUnknown options fuel then
    require .wire (·.expectSpecial options closeParen)
    pure (some .unknown)
  else pure none

def readItems (isUID : Bool) : Nat → Bytes → Read (List ReturnItem)
  | 0, _ => stuck .wire
  | fuel + 1, name => do
      require .wire (·.expectSP options)
      match ← readItem options quotedUTF8 fuel isUID name with
      | none => pure []
      | some item =>
        if ← attempt (·.sp options) then
          if ← attempt (·.acceptByte options openParen) then
            match ← readParenItem options fuel with
            | none => pure [item]
            | some other =>
              if ← attempt (·.sp options) then
                let name ← demand .wire (·.expectAtom options)
                let rest ← readItems isUID fuel name
                pure (item :: other :: rest)
              else pure [item, other]
          else
            let name ← demand .wire (·.expectAtom options)
            let rest ← readItems isUID fuel name
            pure (item :: rest)
        else pure [item]

def readReturnData (fuel : Nat) : Read (List ReturnItem) := do
  let name ← demand .wire (·.expectAtom options)
  if name = ascii "UID" then
    if ← attempt (·.sp options) then
      let name ← demand .wire (·.expectAtom options)
      readItems options quotedUTF8 true fuel name
    else pure []
  else readItems options quotedUTF8 false fuel name

def readESearch (fuel : Nat) : Read ESearchResponse := do
  if ← attempt (·.sp options) then
    if ← attempt (·.nextByteIs options openParen) then
      require .wire (·.expectSpecial options openParen)
      let correlator ← readCorrelator options quotedUTF8 fuel {}
      if ← attempt (·.sp options) then
        let items ← readReturnData options quotedUTF8 fuel
        pure ⟨correlator, items⟩
      else pure ⟨correlator, []⟩
    else
      let items ← readReturnData options quotedUTF8 fuel
      pure ⟨{}, items⟩
  else pure ⟨{}, []⟩

end Reading

/-! ## Responses -/

inductive Response where
  | search (response : SearchResponse)
  | esearch (response : ESearchResponse)
  deriving DecidableEq, Repr

def ESearchResponse.sets (response : ESearchResponse) : List SearchAll :=
  response.items.filterMap fun item =>
    match item with
    | .all set => some set
    | _ => none

/-! ## The sets that are read -/

structure Accepted (all : SearchAll) : Prop where
  canonical : all.set.Canonical
  there : all ≠ .absent
  static : all.isDynamic = false

def ItemAccepted (item : ReturnItem) : Prop := ∀ all, item = .all all → Accepted all

section Sets

variable {options : Options} {quotedUTF8 isUID : Bool} {fuel : Nat}

theorem demand_yields {α : Type} {read : Decoder → Option α × Decoder}
    {P : α → Prop} (h : ∀ dec a next, read dec = (some a, next) → P a) :
    (demand .wire read : Read α).Yields P := by
  intro dec a next hreturns
  exact h dec a next (demand_returns_iff.mp hreturns)

theorem expectNumSet_canonical {uid : Bool} {dec next : Decoder}
    {all : SearchAll} (h : dec.expectNumSet options uid = (some all, next)) :
    all.set.Canonical ∧ all ≠ .absent := by
  unfold Decoder.expectNumSet at h
  split at h
  · cases h
  · cases h
    exact ⟨NumSet.empty_canonical, by simp⟩
  · next set after hread =>
      have hcanonical : set.Canonical := Server.expectUIDSet_inOrder hread
      cases h
      cases uid with
      | true | false => exact ⟨hcanonical, by simp⟩

theorem readAll_accepted : (readAll options isUID).Yields Accepted := by
  refine (demand_yields fun _ _ _ => expectNumSet_canonical).bind ?_
  rintro all ⟨hcanonical, hthere⟩
  split_ifs with hdynamic hlarge
  · exact Parser.yields_fail
  · exact Parser.yields_fail
  · exact .pure ⟨hcanonical, hthere, by simpa using hdynamic⟩

theorem stuck_yields {α : Type} {P : α → Prop} : (stuck .wire : Read α).Yields P :=
  fun _ _ _ hreturns => by simp [Parser.Returns, stuck] at hreturns

variable [UpperCase]

theorem readItem_accepted {name : Bytes} : (readItem options quotedUTF8 fuel isUID name).Yields
      fun item => ∀ found, item = some found → ItemAccepted found := by
  have hother : ∀ {α : Type} {p : Read α} {f : α → ReturnItem},
      (∀ a all, f a ≠ .all all) → (p >>= fun a => pure (some (f a))).Yields
        fun item => ∀ found, item = some found → ItemAccepted found := by
    intro α p f hne
    refine Parser.yields_true.bind fun a _ => .pure ?_
    rintro _ ⟨⟩ all hall
    exact absurd hall (hne a all)
  rw [readItem]
  split_ifs
  · exact hother (by simp)
  · exact hother (by simp)
  · exact hother (by simp)
  · refine readAll_accepted.bind fun all hall => .pure ?_
    rintro _ ⟨⟩ _ ⟨⟩
    exact hall
  · exact hother (by simp)
  · exact hother (by simp)
  · refine Parser.yields_true.bind fun discarded _ => ?_
    cases discarded with
    | true => exact .pure (by rintro _ ⟨⟩ _ ⟨⟩)
    | false => exact .pure (by rintro _ ⟨⟩)

theorem readParenItem_accepted : (readParenItem options fuel).Yields
      fun item => ∀ found, item = some found → ItemAccepted found := by
  refine Parser.yields_true.bind fun atomName _ => ?_
  split_ifs
  · refine Parser.yields_true.bind fun _ _ =>
      Parser.yields_true.bind fun _ _ => .pure ?_
    rintro _ ⟨⟩ _ ⟨⟩
  · refine Parser.yields_true.bind fun discarded _ => ?_
    cases discarded with
    | true =>
      refine Parser.yields_true.bind fun _ _ => .pure ?_
      rintro _ ⟨⟩ _ ⟨⟩
    | false => exact .pure (by rintro _ ⟨⟩)

theorem readItems_accepted {name : Bytes} : (readItems options quotedUTF8 isUID fuel name).Yields
      fun items => ∀ item ∈ items, ItemAccepted item := by
  induction fuel generalizing name with
  | zero => exact stuck_yields
  | succ fuel ih =>
    refine Parser.yields_true.bind fun _ _ => readItem_accepted.bind ?_
    intro item hitem
    cases item with
    | none => exact .pure (by simp)
    | some item =>
      have haccepted := hitem item rfl
      refine Parser.yields_true.bind fun another _ => ?_
      cases another with
      | false => exact .pure (by simpa using haccepted)
      | true =>
        refine Parser.yields_true.bind fun paren _ => ?_
        cases paren with
        | false =>
          refine Parser.yields_true.bind fun next _ => ih.bind ?_
          intro rest hrest
          exact .pure (List.forall_mem_cons.mpr ⟨haccepted, hrest⟩)
        | true =>
          refine readParenItem_accepted.bind fun other hother => ?_
          cases other with
          | none => exact .pure (by simpa using haccepted)
          | some other =>
            have hparen := hother other rfl
            refine Parser.yields_true.bind fun more _ => ?_
            cases more with
            | false => exact .pure (by simpa using ⟨haccepted, hparen⟩)
            | true =>
              refine Parser.yields_true.bind fun next _ =>
                ih.bind fun rest hrest => .pure ?_
              exact List.forall_mem_cons.mpr ⟨haccepted, List.forall_mem_cons.mpr ⟨hparen, hrest⟩⟩

theorem readReturnData_accepted : (readReturnData options quotedUTF8 fuel).Yields
      fun items => ∀ item ∈ items, ItemAccepted item := by
  refine Parser.yields_true.bind fun name _ => ?_
  split_ifs
  · refine Parser.yields_true.bind fun more _ => ?_
    cases more with
    | true => exact Parser.yields_true.bind fun _ _ => readItems_accepted
    | false => exact .pure (by simp)
  · exact readItems_accepted

theorem readESearch_accepted : (readESearch options quotedUTF8 fuel).Yields
      fun response => ∀ all ∈ response.sets, Accepted all := by
  have hsets : ∀ {correlator : Correlator} {items : List ReturnItem},
      (∀ item ∈ items, ItemAccepted item) →
      ∀ all ∈ ESearchResponse.sets ⟨correlator, items⟩, Accepted all := by
    intro correlator items hitems all hall
    obtain ⟨item, hitem, hset⟩ := List.mem_filterMap.mp hall
    cases item with
    | all set =>
      cases hset
      exact hitems _ hitem all rfl
    | _ => cases hset
  refine Parser.yields_true.bind fun data _ => ?_
  cases data with
  | false => exact .pure (hsets (by simp))
  | true =>
    refine Parser.yields_true.bind fun correlated _ => ?_
    cases correlated with
    | false =>
      refine readReturnData_accepted.bind fun items hitems => ?_
      exact .pure (hsets hitems)
    | true =>
      refine Parser.yields_true.bind fun _ _ =>
        Parser.yields_true.bind fun correlator _ =>
          Parser.yields_true.bind fun more _ => ?_
      cases more with
      | false => exact .pure (hsets (by simp))
      | true =>
        refine readReturnData_accepted.bind fun items hitems => ?_
        exact .pure (hsets hitems)

end Sets

def Response.Accepted : Response → Prop
  | .search _ => True
  | .esearch response => ∀ all ∈ response.sets, SearchResults.Accepted all

/-- A response that comes in, with the octets behind its type. -/
inductive Call where
  | search (fuel : Nat) (dec : Decoder)
  | esearch (fuel : Nat) (dec : Decoder)

def Call.read (options : Options) (quotedUTF8 : Bool) [UpperCase] : Call → Option Response
  | .search fuel dec =>
    ((readSearch options fuel dec).1.toOption).map .search
  | .esearch fuel dec =>
    ((readESearch options quotedUTF8 fuel dec).1.toOption).map .esearch

theorem read_accepted {options : Options} {quotedUTF8 : Bool} [UpperCase] {call : Call}
    {response : Response} (h : call.read options quotedUTF8 = some response) :
    response.Accepted := by
  cases call with
  | search fuel dec =>
    obtain ⟨found, -, rfl⟩ := Option.map_eq_some_iff.mp h
    trivial
  | esearch fuel dec =>
    obtain ⟨found, hfound, rfl⟩ := Option.map_eq_some_iff.mp h
    rcases hread : readESearch options quotedUTF8 fuel dec with
      ⟨_ | value, next⟩
    · simp [hread, Except.toOption] at hfound
    · simp only [hread, Except.toOption, Option.some.injEq] at hfound
      exact hfound ▸ readESearch_accepted dec value next hread

theorem forall_accepted {options : Options} {quotedUTF8 : Bool} [UpperCase]
    {calls : List Call} {responses : List Response}
    (h : List.Forall₂ (fun call response =>
      call.read options quotedUTF8 = some response) calls responses) :
    ∀ response ∈ responses, response.Accepted := by
  induction h with
  | nil => simp
  | cons hfirst _ ih =>
    exact List.forall_mem_cons.mpr ⟨read_accepted hfirst, ih⟩

def clientOptions : Options where
  side := .client
  checkLiteralFunc := fun _ => none
  checkBufferedLiteralFunc := none
  maxSize := 1048576

end SearchResults

end GoImap
