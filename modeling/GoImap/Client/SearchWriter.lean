import GoImap.Search.Tree
import GoImap.Server.Responses
import GoImap.Server.SearchReader

/-!
# Writing search criteria

The client writes the criteria as a list of items with spaces between them, or
`ALL` if there is none.  Each item is a key for the server, so the criteria
stand for a search program; a key under `NOT` or `OR` is a list in parentheses.
-/

namespace GoImap.Client

open Wire Utf8 Internal

def keyFlags : List Flag := ["\\Answered", "\\Deleted", "\\Draft", "\\Flagged", "\\Seen"].map ascii

def trimBackslash : Bytes → Bytes
  | [] => []
  | first :: rest => if first = backslash then rest else first :: rest

def addressKeys : List Bytes := ["BCC", "CC", "FROM", "SUBJECT", "TO"].map ascii

def dateOfTime (t : Int) : Calendar.Date := Calendar.dateOf (t / oneDay).toNat

/-- `Format` with `DateLayout`. -/
def dateString (t : Int) : Bytes := formatDate (dateOfTime t)

def argument (key : String) (op : Op) : List Op := [.text (ascii key), .text [SP], op]

def dateItems (on since before : String) (t₁ t₂ : Int) : List (List Op) :=
  if t₁ ≠ 0 ∧ t₂ ≠ 0 ∧ t₂ - t₁ = oneDay then
    [argument on (.string (dateString t₁))]
  else
    (if t₁ ≠ 0 then [argument since (.string (dateString t₁))] else []) ++
      if t₂ ≠ 0 then [argument before (.string (dateString t₂))] else []

def sizeItems (key : String) (size : Int) : List (List Op) :=
  if size > 0 then [argument key (.number64 size)] else []

def modSeqItem (bound : SearchCriteriaModSeq) : List Op :=
  .text (ascii "MODSEQ") :: ((if bound.metadataName ≠ [] ∧ bound.metadataType ≠ [] then
        [.text [SP], .quoted bound.metadataName, .text [SP], .text bound.metadataType]
      else []) ++
      [.text [SP], .text (if bound.modSeq ≠ 0 then formatUint bound.modSeq.toNat
          else ascii "0")])

def modSeqItems (condStore : Bool) : Option SearchCriteriaModSeq → List (List Op)
  | some bound => if condStore then [modSeqItem bound] else []
  | none => []

/-- `encodeItem` and the first item.  Without an item there is `ALL`. -/
def orAll (items : List (List Op)) : List (List Op) :=
  if items = [] then [[.text (ascii "ALL")]] else items

def spacedItems (items : List (List Op)) : List Op := [Op.text [SP]].intercalate (orAll items)

def listed (items : List (List Op)) : List Op :=
  .text [openParen] :: (spacedItems items ++ [.text [closeParen]])

section Items

variable [UpperCase] (condStore : Bool)

def flagSearchKey (flag : Flag) : Bytes :=
  if flag ∈ keyFlags then toUpper (trimBackslash flag) else []

def headerItem (field : SearchCriteriaHeaderField) : List Op :=
  (if toUpper field.key ∈ addressKeys then [.text (toUpper field.key)]
    else argument "HEADER" (.string field.key)) ++
    [.text [SP], .string field.value]

def flagItem (flag : Flag) : List Op :=
  if flagSearchKey flag ≠ [] then [.text (flagSearchKey flag)]
  else argument "KEYWORD" (.flag flag)

def notFlagItem (flag : Flag) : List Op :=
  if flagSearchKey flag ≠ [] then [.text (ascii "UN" ++ flagSearchKey flag)]
  else argument "UNKEYWORD" (.flag flag)

def fieldItems (criteria : SearchFields) : List (List Op) :=
  (criteria.seqNum.map fun seqSet => [Op.numSet seqSet.string]) ++
  (criteria.uid.map fun uidSet => argument "UID" (.numSet uidSet.string)) ++
  dateItems "ON" "SINCE" "BEFORE" criteria.since criteria.before ++
  dateItems "SENTON" "SENTSINCE" "SENTBEFORE" criteria.sentSince criteria.sentBefore ++
  criteria.header.map headerItem ++
  (criteria.body.map fun s => argument "BODY" (.string s)) ++
  (criteria.text.map fun s => argument "TEXT" (.string s)) ++
  criteria.flag.map flagItem ++
  criteria.notFlag.map notFlagItem ++
  sizeItems "LARGER" criteria.larger ++
  sizeItems "SMALLER" criteria.smaller ++
  modSeqItems condStore criteria.modSeq

mutual

def searchItems : SearchCriteria → List (List Op)
  | .mk fields not or =>
    fieldItems condStore fields ++ notItems not ++ orItems or

def notItems : List SearchCriteria → List (List Op)
  | [] => []
  | not :: rest =>
    (.text (ascii "NOT") :: .text [SP] :: listed (searchItems not)) :: notItems rest

def orItems : List (SearchCriteria × SearchCriteria) → List (List Op)
  | [] => []
  | or :: rest => orItem or :: orItems rest

def orItem : SearchCriteria × SearchCriteria → List Op
  | (left, right) =>
    .text (ascii "OR") :: .text [SP] ::
      (listed (searchItems left) ++ .text [SP] :: listed (searchItems right))

end

def writeSearchKey (criteria : SearchCriteria) : List Op :=
  spacedItems (searchItems condStore criteria)

theorem notItems_eq (not : List SearchCriteria) : notItems condStore not = not.map fun criteria =>
      .text (ascii "NOT") :: .text [SP] :: listed (searchItems condStore criteria) := by
  induction not with
  | nil => rfl
  | cons first rest ih => rw [notItems, ih, List.map_cons]

theorem orItems_eq (or : List (SearchCriteria × SearchCriteria)) :
    orItems condStore or = or.map fun pair =>
      .text (ascii "OR") :: .text [SP] :: (listed (searchItems condStore pair.1) ++
          .text [SP] :: listed (searchItems condStore pair.2)) := by
  induction or with
  | nil => rfl
  | cons first rest ih => rw [orItems, ih, List.map_cons, orItem]

end Items

/-! ## The program -/

def dateKeys (day lower upper : DateKey) (t₁ t₂ : Int) : List SearchKey :=
  if t₁ ≠ 0 ∧ t₂ ≠ 0 ∧ t₂ - t₁ = oneDay then [.date day (dateOfTime t₁)]
  else
    (if t₁ ≠ 0 then [.date lower (dateOfTime t₁)] else []) ++
      if t₂ ≠ 0 then [.date upper (dateOfTime t₂)] else []

def sizeKeys (key : Nat → SearchKey) (size : Int) : List SearchKey :=
  if size > 0 then [key size.toNat] else []

def program (keys : List SearchKey) : List SearchKey :=
  if keys = [] then [.all] else keys

def headerKey [UpperCase] (key : Bytes) : Bytes :=
  if toUpper key ∈ addressKeys then Server.titleCase (toUpper key) else key

def flagName [LowerCase] (flag : Flag) : Flag :=
  if flag ∈ keyFlags then flag else canonicalFlag flag

section Program

variable [LowerCase] [UpperCase]

def fieldKeys (criteria : SearchFields) : List SearchKey :=
  criteria.seqNum.map .seqNum ++
  criteria.uid.map .uid ++
  dateKeys .on .since .before criteria.since criteria.before ++
  dateKeys .sentOn .sentSince .sentBefore criteria.sentSince criteria.sentBefore ++
  (criteria.header.map fun field =>
    .header (headerKey field.key) field.value) ++
  criteria.body.map .body ++
  criteria.text.map .text ++
  (criteria.flag.map fun flag => .flag (flagName flag)) ++
  (criteria.notFlag.map fun flag => .notFlag (flagName flag)) ++
  sizeKeys .larger criteria.larger ++
  sizeKeys .smaller criteria.smaller ++
  criteria.modSeq.toList.map .modSeq

mutual

def searchKeys : SearchCriteria → List SearchKey
  | .mk fields not or => fieldKeys fields ++ notKeys not ++ orKeys or

def notKeys : List SearchCriteria → List SearchKey
  | [] => []
  | not :: rest => .not (.list (program (searchKeys not))) :: notKeys rest

def orKeys : List (SearchCriteria × SearchCriteria) → List SearchKey
  | [] => []
  | or :: rest => orKey or :: orKeys rest

def orKey : SearchCriteria × SearchCriteria → SearchKey
  | (left, right) =>
    .or (.list (program (searchKeys left))) (.list (program (searchKeys right)))

end

theorem notKeys_eq (not : List SearchCriteria) : notKeys not = not.map fun criteria =>
      .not (.list (program (searchKeys criteria))) := by
  induction not with
  | nil => rfl
  | cons first rest ih => rw [notKeys, ih, List.map_cons]

theorem orKeys_eq (or : List (SearchCriteria × SearchCriteria)) : orKeys or = or.map fun pair =>
      .or (.list (program (searchKeys pair.1))) (.list (program (searchKeys pair.2))) := by
  induction or with
  | nil => rfl
  | cons first rest ih => rw [orKeys, ih, List.map_cons, orKey]

end Program

end GoImap.Client
