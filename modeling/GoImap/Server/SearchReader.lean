import GoImap.Internal.Date
import GoImap.Search.Keys
import GoImap.Server.ReadCommand
import GoImap.Wire.Steps

/-!
# Reading search keys

The server reads one search key after the other.  A key is an atom, which says
what follows it, or a list of keys.  How deep keys may be nested is limited;
the decoder's own limit on nested lists is far beyond that.

Reading does not look at the criteria, and an error discards them.  So a key is
read first and entered into the criteria then.
-/

namespace GoImap

namespace Wire

def dollar : UInt8 := 36

namespace Decoder

variable (options : Options)

def isNumSetChar (ch : UInt8) : Bool := ch = star ∨ isAtomChar ch

/-- `ExpectUIDSet`.  What is wrong with the set is left out of the error. -/
def expectUIDSet (dec : Decoder) : Option UIDSet × Decoder :=
  match dec.acceptByte options dollar with
  | (true, dec) => (some .searchRes, dec)
  | (false, dec) =>
    match dec.func options isNumSetChar with
    | (none, dec) => (none, (dec.expect false "sequence-set").2)
    | (some s, dec) =>
      match parseSet s with
      | (set, none) => (some (.nums set), dec)
      | (_, some _) =>
        (none, dec.returnErr (.expect "invalid sequence-set"))

def expectNumber64 (dec : Decoder) : Option Nat × Decoder :=
  match dec.number64 options with
  | (none, dec) => (none, (dec.expect false "number64").2)
  | result => result

def modSeq (dec : Decoder) : Option ModSeq × Decoder :=
  match dec.numberStr options with
  | (none, dec) => (none, dec)
  | (some digits, dec) => ((parseUint digits 64).map UInt64.ofNat, dec)

def expectModSeq (dec : Decoder) : Option ModSeq × Decoder :=
  match dec.modSeq options with
  | (none, dec) => (none, (dec.expect false "mod-sequence-value").2)
  | result => result

end Decoder

end Wire

namespace Server

open Wire Utf8 Parsing Internal

/-- The errors of `readSearchKey`: one of the decoder, or a mistake of the
client. -/
inductive SearchError where
  | wire (err : Option DecoderError)
  | clientBug (text : String)
  deriving DecidableEq, Repr

abbrev Read := Parser Decoder SearchError

inductive KeyForm where
  | all
  | uid
  | flag
  | unflag
  | new
  | old
  | keyword
  | unkeyword
  | address
  | header
  | date (key : DateKey)
  | body
  | text
  | larger
  | smaller
  | not
  | or
  | searchRes
  | modSeq
  deriving DecidableEq, Repr

/-- The cases of `readSearchKeyWithAtomDepth`. -/
def keyForms : List (Bytes × KeyForm) :=
  [("ALL", .all), ("UID", .uid), ("ANSWERED", .flag), ("DELETED", .flag),
    ("DRAFT", .flag), ("FLAGGED", .flag), ("RECENT", .flag), ("SEEN", .flag),
    ("UNANSWERED", .unflag), ("UNDELETED", .unflag), ("UNDRAFT", .unflag),
    ("UNFLAGGED", .unflag), ("UNSEEN", .unflag), ("NEW", .new), ("OLD", .old),
    ("KEYWORD", .keyword), ("UNKEYWORD", .unkeyword), ("BCC", .address),
    ("CC", .address), ("FROM", .address), ("SUBJECT", .address),
    ("TO", .address), ("HEADER", .header), ("SINCE", .date .since),
    ("BEFORE", .date .before), ("ON", .date .on),
    ("SENTSINCE", .date .sentSince), ("SENTBEFORE", .date .sentBefore),
    ("SENTON", .date .sentOn), ("BODY", .body), ("TEXT", .text),
    ("LARGER", .larger), ("SMALLER", .smaller), ("NOT", .not), ("OR", .or),
    ("$", .searchRes), ("MODSEQ", .modSeq)].map fun (name, form) => (ascii name, form)

def titleCase : Bytes → Bytes
  | [] => []
  | first :: rest => first :: rest.map asciiLower

def searchKeyFlag (key : Bytes) : Flag := backslash :: titleCase key

def maxSearchKeyDepth : Nat := 100

section Model

variable (options : Options)

def readSP : Read Unit := require .wire (·.expectSP options)

def maybeReadSearchKeyAtom : Read (Option Bytes) :=
  attempt (·.func options fun ch => ch = Wire.star ∨ isAtomChar ch)

def readAString : Read Bytes := demand .wire (·.expectAString options)

def readDate : Read Calendar.Date := fun dec =>
  match expectDate options dec with
  | (.ok date, dec) => (.ok date, dec)
  | (.error err, dec) => (.error (.wire err), dec)

def anotherItem : Read Bool := do
  if ← attempt (·.acceptByte options closeParen) then pure false
  else
    readSP options
    pure true

def expectList {α : Type} (items : Read (List α)) : Read (List α) := do
  if ← attempt (·.acceptByte options openParen) then
    if ← attempt (·.acceptByte options closeParen) then pure []
    else
      let groups ← fun dec =>
        Parser.separated items (anotherItem options) (stuck .wire) (dec.rest.length + 1) dec
      pure groups.flatten
  else
    require .wire (·.expect false "(")
    pure []

def readKeys (readKey : Read SearchKey) : Read (List SearchKey) := fun dec =>
  Parser.separated readKey (attempt (·.sp options)) (stuck .wire) (dec.rest.length + 1) dec

variable [LowerCase]

/-- The name and the type of the metadata in front of a modification
sequence. -/
def readMetadata : Read (Bytes × Bytes) := do
  match ← attempt (·.quoted options false) with
  | none => pure ([], [])
  | some name =>
    readSP options
    let typeName ← demand .wire (·.expectAtom options)
    readSP options
    pure (name, toLower typeName)

def readForm (readKey : Read SearchKey) (key : Bytes) : KeyForm → Read SearchKey
  | .all => pure .all
  | .uid => do
      readSP options
      let uidSet ← demand .wire (·.expectUIDSet options)
      pure (.uid uidSet)
  | .flag => pure (.flag (searchKeyFlag key))
  | .unflag => pure (.notFlag (searchKeyFlag (key.drop 2)))
  | .new => pure .new
  | .old => pure (.notFlag flagRecent)
  | .keyword => do
      readSP options
      let flag ← demand .wire (expectFlag options · false)
      pure (.flag flag)
  | .unkeyword => do
      readSP options
      let flag ← demand .wire (expectFlag options · false)
      pure (.notFlag flag)
  | .address => do
      readSP options
      let value ← readAString options
      pure (.header (titleCase key) value)
  | .header => do
      readSP options
      let key ← readAString options
      readSP options
      let value ← readAString options
      pure (.header key value)
  | .date key => do
      readSP options
      let date ← readDate options
      pure (.date key date)
  | .body => do
      readSP options
      let body ← readAString options
      pure (.body body)
  | .text => do
      readSP options
      let text ← readAString options
      pure (.text text)
  | .larger => do
      readSP options
      let n ← demand .wire (·.expectNumber64 options)
      pure (.larger n)
  | .smaller => do
      readSP options
      let n ← demand .wire (·.expectNumber64 options)
      pure (.smaller n)
  | .not => do
      readSP options
      let not ← readKey
      pure (.not not)
  | .or => do
      readSP options
      let left ← readKey
      readSP options
      let right ← readKey
      pure (.or left right)
  | .searchRes => pure (.uid .searchRes)
  | .modSeq => do
      readSP options
      let (name, metadataType) ← readMetadata options
      let modSeq ← demand .wire (·.expectModSeq options)
      pure (.modSeq ⟨modSeq, name, metadataType⟩)

variable [UpperCase]

/-- `%q`, which quotes the key, is left out of the error. -/
def readSearchKeyWithAtom (readKey : Read SearchKey) (key : Bytes) : Read SearchKey :=
  let key := toUpper key
  match keyForms.lookup key with
  | some form => readForm options readKey key form
  | none =>
    match parseSet key with
    | (seqSet, none) => pure (.seqNum seqSet)
    | (_, some _) => .fail (.clientBug "invalid search-key")

/-- The argument is the number of levels that are left. -/
def readSearchKeyDepth : Nat → Read SearchKey
  | 0 => .fail (.clientBug "SEARCH key nesting too deep")
  | left + 1 => do
      match ← maybeReadSearchKeyAtom options with
      | some key =>
        readSearchKeyWithAtom options (readSearchKeyDepth left) key
      | none =>
        let keys ← expectList options (readKeys options (readSearchKeyDepth left))
        pure (.list keys)

def readSearchKey : Read SearchKey := readSearchKeyDepth options (maxSearchKeyDepth + 1)

/-- The loop of `handleSearch` and the end of the command, behind the return
options and the charset. -/
def readSearchKeys : Read (List SearchKey) := do
  let keys ← readKeys options (readSearchKey options)
  require .wire fun dec =>
    match dec.acceptCRLF options with
    | (found, dec) => dec.expect found "CRLF"
  pure keys

end Model

/-! ## The sets that are read -/

def SetInOrder : UIDSet → Prop
  | .nums set => set.Canonical
  | .searchRes => True

variable {dec next : Decoder}

theorem expectUIDSet_inOrder {options : Options} {uidSet : UIDSet}
    (h : dec.expectUIDSet options = (some uidSet, next)) :
    SetInOrder uidSet := by
  unfold Decoder.expectUIDSet at h
  split at h
  · cases h
    trivial
  · split at h
    · cases h
    · split at h
      · next set hparse =>
          cases h
          exact parseSet_canonical hparse
      · cases h

def ReadsInOrder (readKey : Read SearchKey) : Prop :=
  ∀ dec key next, readKey.Returns dec key next → ∀ set ∈ key.sets, SetInOrder set

section Sets

variable {options : Options} {readKey : Read SearchKey} {keys : List SearchKey}

theorem readKeys_inOrder (hread : ReadsInOrder readKey)
    (h : (readKeys options readKey).Returns dec keys next) :
    ∀ set ∈ SearchKey.setsAll keys, SetInOrder set := by
  rw [SearchKey.forall_mem_setsAll]
  exact Parser.forall_mem_separated hread (fun _ _ _ => by simp [Parser.Returns, stuck]) h

theorem expectList_inOrder (hread : ReadsInOrder readKey)
    (h : (expectList options (readKeys options readKey)).Returns dec keys next)
    : ∀ set ∈ SearchKey.setsAll keys, SetInOrder set := by
  have hgroups : ∀ dec groups next, Parser.Returns (fun dec : Decoder => Parser.separated
        (readKeys options readKey) (anotherItem options) (stuck .wire)
        (dec.rest.length + 1) dec) dec groups next →
      ∀ group ∈ groups, ∀ set ∈ SearchKey.setsAll group, SetInOrder set :=
    fun dec groups next hreturns => Parser.forall_mem_separated
      (fun _ _ _ => readKeys_inOrder hread)
      (fun _ _ _ => by simp [Parser.Returns, stuck]) hreturns
  rw [expectList, Parser.returns_bind_iff] at h
  obtain ⟨isList, _, _, h⟩ := h
  cases isList with
  | false =>
    obtain ⟨_, _, _, hnil⟩ := Parser.returns_bind_iff.mp h
    obtain ⟨rfl, _⟩ := Parser.returns_pure_iff.mp hnil
    simp [SearchKey.setsAll]
  | true =>
    obtain ⟨closed, _, _, hitems⟩ := Parser.returns_bind_iff.mp h
    cases closed with
    | true =>
      obtain ⟨rfl, _⟩ := Parser.returns_pure_iff.mp hitems
      simp [SearchKey.setsAll]
    | false =>
      obtain ⟨groups, _, hreturns, hflat⟩ := Parser.returns_bind_iff.mp hitems
      obtain ⟨rfl, _⟩ := Parser.returns_pure_iff.mp hflat
      rw [SearchKey.forall_mem_setsAll]
      intro key hkey
      obtain ⟨group, hgroup, hmem⟩ := List.mem_flatten.mp hkey
      exact SearchKey.forall_mem_setsAll.mp (hgroups _ _ _ hreturns group hgroup) key hmem

variable [LowerCase]

theorem readForm_inOrder (hread : ReadsInOrder readKey) {name : Bytes} {form : KeyForm}
    {key : SearchKey} (h : (readForm options readKey name form).Returns dec key next) :
    ∀ set ∈ key.sets, SetInOrder set := by
  cases form with
  | uid =>
    simp only [readForm, Parser.returns_bind_iff, demand_returns_iff] at h
    obtain ⟨_, _, _, uidSet, _, huid, rfl, _⟩ := h
    simpa [SearchKey.sets] using expectUIDSet_inOrder huid
  | not =>
    simp only [readForm, Parser.returns_bind_iff] at h
    obtain ⟨_, _, _, other, _, hother, rfl, _⟩ := h
    rw [SearchKey.sets]
    exact hread _ _ _ hother
  | or =>
    simp only [readForm, Parser.returns_bind_iff] at h
    obtain ⟨_, _, _, left, _, hleft, _, _, _, right, _, hright, rfl, _⟩ := h
    rw [SearchKey.sets, List.forall_mem_append]
    exact ⟨hread _ _ _ hleft, hread _ _ _ hright⟩
  | searchRes =>
    obtain ⟨rfl, _⟩ := h
    simp [SearchKey.sets, SetInOrder]
  | all | flag | unflag | new | old =>
    obtain ⟨rfl, _⟩ := h
    simp [SearchKey.sets]
  | header =>
    simp only [readForm, Parser.returns_bind_iff] at h
    obtain ⟨_, _, _, _, _, _, _, _, _, _, _, _, rfl, _⟩ := h
    simp [SearchKey.sets]
  | keyword | unkeyword | address | date | body | text | larger | smaller =>
    simp only [readForm, Parser.returns_bind_iff] at h
    obtain ⟨_, _, _, _, _, _, rfl, _⟩ := h
    simp [SearchKey.sets]
  | modSeq =>
    simp only [readForm, Parser.returns_bind_iff] at h
    obtain ⟨_, _, _, _, _, _, _, _, _, rfl, _⟩ := h
    simp [SearchKey.sets]

variable [UpperCase]

theorem readSearchKeyWithAtom_inOrder (hread : ReadsInOrder readKey) {atom : Bytes}
    {key : SearchKey} (h : (readSearchKeyWithAtom options readKey atom).Returns dec key next) :
    ∀ set ∈ key.sets, SetInOrder set := by
  unfold readSearchKeyWithAtom at h
  simp only at h
  split at h
  · exact readForm_inOrder hread h
  · split at h
    · next seqSet hparse =>
        obtain ⟨rfl, _⟩ := Parser.returns_pure_iff.mp h
        simpa [SearchKey.sets, SetInOrder] using parseSet_canonical hparse
    · exact absurd h Parser.not_returns_fail

theorem readSearchKeyDepth_inOrder (left : Nat) :
    ReadsInOrder (readSearchKeyDepth options left) := by
  induction left with
  | zero => exact fun _ _ _ h => absurd h Parser.not_returns_fail
  | succ left hread =>
    intro dec key next h
    rw [readSearchKeyDepth, Parser.returns_bind_iff] at h
    obtain ⟨atom, middle, -, hkey⟩ := h
    cases atom with
    | some atom => exact readSearchKeyWithAtom_inOrder hread hkey
    | none =>
      obtain ⟨keys, _, hkeys, hlist⟩ := Parser.returns_bind_iff.mp hkey
      obtain ⟨rfl, _⟩ := Parser.returns_pure_iff.mp hlist
      exact expectList_inOrder hread hkeys

theorem readSearchKeys_inOrder (h : (readSearchKeys options).Returns dec keys next) :
    ∀ set ∈ SearchKey.setsAll keys, SetInOrder set := by
  simp only [readSearchKeys, Parser.returns_bind_iff] at h
  obtain ⟨_, _, hkeys, _, _, _, rfl, _⟩ := h
  exact readKeys_inOrder (readSearchKeyDepth_inOrder _) hkeys

end Sets

end Server

end GoImap
