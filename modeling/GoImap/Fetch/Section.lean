import GoImap.Fetch.Methods
import GoImap.Lib.CaseFold

/-!
# Sections of a message

A client asks for a section of a message, and the server names the section in
its answer.  The name is the path of a part, what is wanted of the part, and a
list of header fields; dots separate the numbers of the path, and also the path
from what is wanted.  The name of a section the client asks for may be followed
by the range of octets, the one in an answer by the first octet.
-/

namespace GoImap

open Wire Utf8 Parsing
open Server (atom space special listOps SearchError)

/-- `PartSpecifier`.  A client takes over any name a server sends. -/
inductive PartSpecifier where
  | none
  | header
  | mime
  | text
  | other (name : Bytes)
  deriving DecidableEq, Repr

namespace PartSpecifier

def string : PartSpecifier → Bytes
  | none => []
  | header => ascii "HEADER"
  | mime => ascii "MIME"
  | text => ascii "TEXT"
  | other name => name

def ofString (name : Bytes) : PartSpecifier :=
  if name = [] then none
  else if name = ascii "HEADER" then header
  else if name = ascii "MIME" then mime
  else if name = ascii "TEXT" then text
  else other name

end PartSpecifier

structure SectionPartial where
  offset : Int
  size : Int
  deriving DecidableEq, Repr

structure FetchItemBodySection where
  specifier : PartSpecifier := .none
  part : List Nat := []
  headerFields : List Bytes := []
  headerFieldsNot : List Bytes := []
  sectionPartial : Option SectionPartial := none
  peek : Bool := false
  deriving DecidableEq, Repr

namespace Wire

def dot : UInt8 := 46
def openAngle : UInt8 := 60
def closeAngle : UInt8 := 62
def openBracket : UInt8 := 91
def closeBracket : UInt8 := 93

def Op.aString (s : Bytes) : Op :=
  if isAtom s then .text s else .string s

end Wire

/-! ## Writing -/

def writeSectionPart (part : List Nat) : List Op :=
  if part = [] then [] else [.text ([dot].intercalate (part.map formatUint))]

/-- The two sides write the names of fields in different ways. -/
def headerListOps (field : Bytes → Op) (item : FetchItemBodySection) : List Op :=
  if item.headerFields ≠ [] then
    atom ".FIELDS" :: space :: listOps (item.headerFields.map ([field ·]))
  else if item.headerFieldsNot ≠ [] then
    atom ".FIELDS.NOT" :: space :: listOps (item.headerFieldsNot.map ([field ·]))
  else []

def sectionOps (field : Bytes → Op) (item : FetchItemBodySection) : List Op :=
  special openBracket :: (writeSectionPart item.part ++
      (if item.part ≠ [] ∧ item.specifier ≠ .none then [special dot] else []) ++
      (if item.specifier ≠ .none then
        .text item.specifier.string :: headerListOps field item
      else []) ++
      [special closeBracket])

namespace Client

def writeSectionPartial : Option SectionPartial → List Op
  | none => []
  | some range =>
    [special openAngle, .number64 range.offset, special dot,
      .number64 range.size, special closeAngle]

def writeFetchItemBodySection (item : FetchItemBodySection) : List Op :=
  atom "BODY" :: ((if item.peek then [atom ".PEEK"] else []) ++
      sectionOps Op.aString item ++ writeSectionPartial item.sectionPartial)

end Client

namespace Server

def writeItemBodySection (item : FetchItemBodySection) : List Op :=
  atom "BODY" :: (sectionOps Op.string item ++
      match item.sectionPartial with
      | none => []
      | some range =>
        [special openAngle, .number64 range.offset, special closeAngle])

end Server

/-! ## Reading -/

section Shared

variable {ε : Type} (wire : Option DecoderError → ε) (options : Options)

/-- The loop of `readSectionPart`: the numbers, and whether a dot follows the
last of them.  Every round reads an octet. -/
def readSectionPartLoop : Nat → List Nat → Parser Decoder ε (List Nat × Bool)
  | 0, part => pure (part, false)
  | fuel + 1, part => do
      let dotted ← if part = [] then pure true
        else attempt (·.acceptByte options dot)
      if dotted then
        match ← attempt (·.number options) with
        | none => pure (part, part ≠ [])
        | some num => readSectionPartLoop fuel (part ++ [num.toNat])
      else pure (part, false)

def readSectionPart : Parser Decoder ε (List Nat × Bool) := fun dec =>
  readSectionPartLoop options (dec.rest.length + 1) [] dec

def readHeaderList : Parser Decoder ε (List Bytes) :=
  readExpectedList wire options (demand wire (·.expectAString options))

/-- What is wanted of a part; it may be missing if there is no dot. -/
def readSpecifier [UpperCase] (dotted : Bool) : Parser Decoder ε Bytes := do
  let specifier ← if dotted then demand wire (·.expectAtom options)
    else do
      let specifier ← attempt (·.atom options)
      pure (specifier.getD [])
  pure (toUpper specifier)

end Shared

def isMsgAttNameChar (ch : UInt8) : Bool := ch ≠ openBracket ∧ isAtomChar ch

def readAttName {ε : Type} (wire : Option DecoderError → ε)
    (options : Options) [UpperCase] : Parser Decoder ε Bytes := do
  let attName ← demand wire fun dec =>
    match dec.func options isMsgAttNameChar with
    | (attName, dec) => (attName, (dec.expect attName.isSome "msg-att name").2)
  pure (toUpper attName)

namespace Server

structure FetchItemBinarySection where
  part : List Nat
  sectionPartial : Option SectionPartial
  peek : Bool
  deriving DecidableEq, Repr

/-- What an item asks for.  An obsolete item is a section with another name,
which is kept. -/
inductive FetchAtt where
  | bodyStructure (extended : Bool)
  | envelope
  | flags
  | internalDate
  | rfc822Size
  | uid
  | modSeq
  | bodySection (item : FetchItemBodySection)
  | obsolete (attName : Bytes) (item : FetchItemBodySection)
  | binarySection (item : FetchItemBinarySection)
  | binarySectionSize (part : List Nat)
  deriving DecidableEq, Repr

inductive AttForm where
  | plain (att : FetchAtt)
  | binary (peek : Bool)
  | binarySize
  | body
  | bodyPeek

def attForms : List (Bytes × AttForm) :=
  [("BODYSTRUCTURE", .plain (.bodyStructure true)),
    ("ENVELOPE", .plain .envelope), ("FLAGS", .plain .flags),
    ("INTERNALDATE", .plain .internalDate),
    ("RFC822.SIZE", .plain .rfc822Size), ("UID", .plain .uid),
    ("MODSEQ", .plain .modSeq),
    ("RFC822", .plain (.obsolete (ascii "RFC822") {})),
    ("RFC822.PEEK", .plain (.obsolete (ascii "RFC822.PEEK") { peek := true })),
    ("RFC822.HEADER", .plain (.obsolete (ascii "RFC822.HEADER")
      { specifier := .header, peek := true })),
    ("RFC822.TEXT", .plain (.obsolete (ascii "RFC822.TEXT") { specifier := .text })),
    ("BINARY", .binary false), ("BINARY.PEEK", .binary true),
    ("BINARY.SIZE", .binarySize), ("BODY", .body),
    ("BODY.PEEK", .bodyPeek)].map fun (name, form) => (ascii name, form)

section Model

variable (options : Options) [UpperCase]

def readSpecified (item : FetchItemBodySection) (dotted : Bool) :
    Read FetchItemBodySection := do
  let specifier ← readSpecifier .wire options dotted
  if specifier ∈ [[], ascii "HEADER", ascii "MIME", ascii "TEXT"] then
    pure { item with specifier := .ofString specifier }
  else if specifier = ascii "HEADER.FIELDS" then
    require .wire (·.expectSP options)
    let headerList ← readHeaderList .wire options
    pure { item with specifier := .header, headerFields := headerList }
  else if specifier = ascii "HEADER.FIELDS.NOT" then
    require .wire (·.expectSP options)
    let headerList ← readHeaderList .wire options
    pure { item with specifier := .header, headerFieldsNot := headerList }
  else .fail (.clientBug "unknown body section specifier")

def readSection (item : FetchItemBodySection) : Read FetchItemBodySection := do
  if ← attempt (·.acceptByte options closeBracket) then pure item
  else
    let (part, dotted) ← readSectionPart options
    let item := { item with part := part }
    let item ← if dotted ∨ part = [] then readSpecified options item dotted
      else pure item
    require .wire (·.expectSpecial options closeBracket)
    pure item

def maybeReadPartial : Read (Option SectionPartial) := do
  if ← attempt (·.acceptByte options openAngle) then
    let offset ← demand .wire (·.expectNumber64 options)
    require .wire (·.expectSpecial options dot)
    let size ← demand .wire (·.expectNumber64 options)
    require .wire (·.expectSpecial options closeAngle)
    pure (some ⟨offset, size⟩)
  else pure none

def readSectionBinary : Read (List Nat) := do
  require .wire (·.expectSpecial options openBracket)
  if ← attempt (·.acceptByte options closeBracket) then pure []
  else
    let part ← fun dec =>
      Parser.separated (demand .wire (·.expectNumber options))
        (attempt (·.acceptByte options dot)) (stuck .wire) (dec.rest.length + 1) dec
    require .wire (·.expectSpecial options closeBracket)
    pure (part.map UInt32.toNat)

def readBodySection (peek : Bool) : Read FetchAtt := do
  let item ← readSection options { peek := peek }
  let range ← maybeReadPartial options
  pure (.bodySection { item with sectionPartial := range })

/-- `handleFetchAtt`, as far as it reads. -/
def handleFetchAtt (attName : Bytes) : Read FetchAtt :=
  match attForms.lookup attName with
  | some (.plain att) => pure att
  | some (.binary peek) => do
      let part ← readSectionBinary options
      let range ← maybeReadPartial options
      pure (.binarySection ⟨part, range, peek⟩)
  | some .binarySize => do
      let part ← readSectionBinary options
      pure (.binarySectionSize part)
  | some .body => do
      if ← attempt (·.acceptByte options openBracket) then
        readBodySection options false
      else pure (.bodyStructure false)
  | some .bodyPeek => do
      require .wire (·.expectSpecial options openBracket)
      readBodySection options true
  | none => .fail (.clientBug "Unknown FETCH data item")

def readFetchAtt : Read FetchAtt := do
  let attName ← readAttName .wire options
  handleFetchAtt options attName

end Model

end Server

namespace Client

/-- The errors of the client's readers.  Each of them may name what it was
reading. -/
inductive ReadError where
  | wire (err : Option DecoderError)
  | failed (text : String)
  | within (place : String) (err : ReadError)

abbrev Read := Parser Decoder ReadError

def reading {α : Type} (place : String) (p : Read α) : Read α := fun dec =>
  match p dec with
  | (.ok a, dec) => (.ok a, dec)
  | (.error err, dec) => (.error (.within place err), dec)

section Model

variable (options : Options) [UpperCase]

def readSpecified (item : FetchItemBodySection) (dotted : Bool) :
    Read FetchItemBodySection := do
  let specifier ← readSpecifier .wire options dotted
  if specifier = ascii "HEADER.FIELDS" then
    require .wire (·.expectSP options)
    let headerList ← readHeaderList .wire options
    pure { item with specifier := .header, headerFields := headerList }
  else if specifier = ascii "HEADER.FIELDS.NOT" then
    require .wire (·.expectSP options)
    let headerList ← readHeaderList .wire options
    pure { item with specifier := .header, headerFieldsNot := headerList }
  else pure { item with specifier := .ofString specifier }

def readPartialOffset : Read (Option Int) := do
  if ← attempt (·.acceptByte options openAngle) then
    let offset ← demand .wire (·.expectNumber64 options)
    require .wire (·.expectSpecial options closeAngle)
    pure (some offset)
  else pure none

def readSectionSpec : Read FetchItemBodySection := do
  let (part, dotted) ← readSectionPart options
  let item : FetchItemBodySection := { part := part }
  let item ← if dotted ∨ part = [] then readSpecified options item dotted
    else pure item
  require .wire (·.expectSpecial options closeBracket)
  let offset ← readPartialOffset options
  pure { item with sectionPartial := offset.map (⟨·, 0⟩) }

/-- The start of an item of `handleFetch`: the section named by it, if it is
one. -/
def readSectionName : Read (Option FetchItemBodySection) := do
  let attName ← readAttName .wire options
  if attName = ascii "BODY" then
    if ← attempt (·.acceptByte options openBracket) then
      let item ← reading "section-spec" (readSectionSpec options)
      pure (some item)
    else pure none
  else pure none

end Model

/-! ## Matching -/

/-- `intSliceEqual` and `stringSliceEqualFold`, which differ in how they
compare elements. -/
def sliceEqual {α : Type} (equal : α → α → Bool) (a b : List α) : Bool :=
  a.length = b.length ∧ (a.zip b).all fun (x, y) => equal x y

def intSliceEqual : List Nat → List Nat → Bool := sliceEqual (· == ·)

def stringSliceEqualFold [CaseFold] : List Bytes → List Bytes → Bool := sliceEqual equalFold

def matchFetchItemBodySection [CaseFold] (cmd resp : FetchItemBodySection) : Bool :=
  cmd.specifier == resp.specifier && intSliceEqual cmd.part resp.part &&
    stringSliceEqualFold cmd.headerFields resp.headerFields &&
    stringSliceEqualFold cmd.headerFieldsNot resp.headerFieldsNot &&
    match cmd.sectionPartial, resp.sectionPartial with
    | none, none => true
    | some range, some origin => range.offset == origin.offset
    | _, _ => false

end Client

end GoImap
