import GoImap.Fetch.Section
import GoImap.Lib.SortedMap

/-!
# Body structures

The structure of a message is a tree.  A multipart has parts, and a part that
is a message of its own has the structure of that message.  The server writes
it without the extension data for BODY and with it for BODYSTRUCTURE.

Maps and lists that are nil are the empty ones, save for the two lists of
addresses where an envelope makes a difference.
-/

namespace GoImap

open Wire Utf8
open Server (atom space special number)

abbrev Params := SortedMap Bytes Bytes

instance : Trans (· < · : Bytes → Bytes → Prop) (· < · : Bytes → Bytes → Prop)
    (· < · : Bytes → Bytes → Prop) := inferInstance

instance : Std.Trichotomous (· < · : Bytes → Bytes → Prop) := inferInstance

structure BodyStructureDisposition where
  value : Bytes
  params : Params

structure BodyStructureSinglePartExt where
  disposition : Option BodyStructureDisposition := none
  language : List Bytes := []
  location : Bytes := []

structure BodyStructureMultiPartExt where
  params : Params
  disposition : Option BodyStructureDisposition := none
  language : List Bytes := []
  location : Bytes := []

structure BodyStructureText where
  numLines : Int64

structure Address where
  name : Bytes
  mailbox : Bytes
  host : Bytes

structure Moment where
  seconds : Int
  zone : Int

/-- A date of none is the zero time. -/
structure Envelope where
  date : Option Moment := none
  subject : Bytes := []
  sentFrom : List Address := []
  sender : Option (List Address) := none
  replyTo : Option (List Address) := none
  sentTo : List Address := []
  cc : List Address := []
  bcc : List Address := []
  inReplyTo : List Bytes := []
  messageID : Bytes := []

def Envelope.addressLists (envelope : Envelope) : List (List Address) :=
  [envelope.sentFrom, envelope.sender.getD envelope.sentFrom,
    envelope.replyTo.getD envelope.sentFrom, envelope.sentTo, envelope.cc,
    envelope.bcc]

structure BodyStructureSinglePart where
  type : Bytes
  subtype : Bytes
  params : Params := .empty
  id : Bytes := []
  description : Bytes := []
  encoding : Bytes := []
  size : UInt32 := 0
  text : Option BodyStructureText := none
  extended : Option BodyStructureSinglePartExt := none

/-- A single part is one constructor without `MessageRFC822` and one with
it. -/
inductive BodyStructure where
  | singlePart (part : BodyStructureSinglePart)
  | messagePart (part : BodyStructureSinglePart) (envelope : Option Envelope)
      (body : BodyStructure) (numLines : Int64)
  | multiPart (children : List BodyStructure) (subtype : Bytes)
      (extended : Option BodyStructureMultiPartExt)

/-- The functions of other packages that texts and dates are converted with.
Where one of them fails, its value is used all the same: the text as it was,
the zero time, or no message. -/
class MailText where
  formatDate : Moment → Bytes
  parseDate : Bytes → Option Moment
  qEncode : Bytes → Bytes
  decodeText : Bytes → Bytes
  parseMsgID : Bytes → Bytes
  parseMsgIDList : Bytes → List Bytes

def Wire.Op.nil : Op := atom "NIL"

namespace Server

def writeNString (s : Bytes) : Op :=
  if s = [] then .nil else .string s

/-! ## Envelopes -/

section Envelopes

variable [MailText]

def writeAddress (addr : Address) : List Op :=
  [special openParen, writeNString (MailText.qEncode addr.name), space, .nil,
    space, writeNString addr.mailbox, space, writeNString addr.host,
    special closeParen]

def writeAddressList (l : List Address) : List Op :=
  if l = [] then [.nil] else listOps (l.map writeAddress)

def writeDate : Option Moment → Op
  | none => .nil
  | some date => .string (MailText.formatDate date)

def writeInReplyTo (ids : List Bytes) : Op :=
  if ids = [] then .nil
  else .string ([openAngle] ++ (ascii "> <").intercalate ids ++ [closeAngle])

def writeMessageID (id : Bytes) : Op :=
  if id = [] then .nil else .string ([openAngle] ++ id ++ [closeAngle])

def writeEnvelope (envelope : Option Envelope) : List Op :=
  let envelope := envelope.getD {}
  special openParen :: writeDate envelope.date :: space ::
    writeNString (MailText.qEncode envelope.subject) ::
    (envelope.addressLists.flatMap (fun l => space :: writeAddressList l) ++
      [space, writeInReplyTo envelope.inReplyTo, space,
        writeMessageID envelope.messageID, special closeParen])

end Envelopes

/-! ## Structures -/

def writeBodyFldParam (params : Params) : List Op :=
  if params.entries = [] then [.nil]
  else listOps (params.entries.map fun (k, v) => [.string k, space, .string v])

def writeBodyFldDsp : Option BodyStructureDisposition → List Op
  | none => [.nil]
  | some disp =>
    special openParen :: .string disp.value :: space ::
      (writeBodyFldParam disp.params ++ [special closeParen])

def writeBodyFldLang (l : List Bytes) : List Op :=
  if l = [] then [.nil] else listOps (l.map ([.string ·]))

def writeExtFields (disposition : Option BodyStructureDisposition)
    (language : List Bytes) (location : Bytes) : List Op :=
  writeBodyFldDsp disposition ++ space :: (writeBodyFldLang language ++
    [space, writeNString location])

/-- The extension data of a single part.  Where it is missing, its fields
cannot be read. -/
def writeBodyExt1part (extended : Bool) (ext : Option BodyStructureSinglePartExt) : List Op :=
  if extended then
    space :: .nil :: space ::
      match ext with
      | none => [.panics]
      | some ext => writeExtFields ext.disposition ext.language ext.location
  else []

def writeBodyExtMpart (extended : Bool) (ext : Option BodyStructureMultiPartExt) : List Op :=
  if extended then
    space ::
      match ext with
      | none => [.panics]
      | some ext =>
        writeBodyFldParam ext.params ++ space ::
          writeExtFields ext.disposition ext.language ext.location
  else []

def writeBodyFields [LowerCase] (bs : BodyStructureSinglePart) : List Op :=
  .string bs.type :: space :: .string bs.subtype :: space :: (writeBodyFldParam bs.params ++
      [space, writeNString bs.id, space, writeNString bs.description, space,
        .string (if bs.encoding = [] then ascii "7bit"
          else toLower bs.encoding),
        space, number bs.size])

def writeBodyFldLines [CaseFold] (bs : BodyStructureSinglePart) : List Op :=
  match bs.text with
  | some text => [space, .number64 text.numLines.toInt]
  | none =>
    if equalFold bs.type (ascii "text") then [space, .number64 0] else []

def writeSinglePart [LowerCase] [CaseFold] (extended : Bool)
    (bs : BodyStructureSinglePart) : List Op :=
  special openParen :: (writeBodyFields bs ++ (writeBodyFldLines bs ++
    (writeBodyExt1part extended bs.extended ++ [special closeParen])))

def placeholder : BodyStructureSinglePart where
  type := ascii "text"
  subtype := ascii "plain"
  params := SortedMap.empty.insert (ascii "charset") (ascii "utf-8")
  extended := some {}

section Write

variable [LowerCase] [CaseFold] [MailText] (extended : Bool)

mutual

/-- `writeBodyStructure`, with `writeBodyType1part` and
`writeBodyTypeMpart`. -/
def writeBodyStructure : BodyStructure → List Op
  | .singlePart bs => writeSinglePart extended bs
  | .messagePart bs envelope body numLines =>
    special openParen :: (writeBodyFields bs ++ space ::
      (writeEnvelope envelope ++ space :: (writeBodyStructure body ++
        space :: .number64 numLines.toInt ::
          (writeBodyExt1part extended bs.extended ++ [special closeParen]))))
  | .multiPart children subtype ext =>
    special openParen :: ((if children = [] then writeSinglePart extended placeholder
        else writeChildren children) ++ space :: .string subtype ::
          (writeBodyExtMpart extended ext ++ [special closeParen]))

def writeChildren : List BodyStructure → List Op
  | [] => []
  | child :: rest => writeBodyStructure child ++ writeChildren rest

end

end Write

def isExtended : BodyStructure → Bool
  | .singlePart bs | .messagePart bs _ _ _ => bs.extended.isSome
  | .multiPart _ _ ext => ext.isSome

structure FetchBodyStructure where
  nonExtended : Bool
  extended : Bool

section Items

variable [LowerCase] [CaseFold] [MailText]

def writeBodyItem (hasItem extended : Bool) (bs : BodyStructure) : List Op :=
  (if hasItem then [space] else []) ++
    atom (if extended then "BODYSTRUCTURE" else "BODY") :: space :: writeBodyStructure extended bs

/-- `WriteBodyStructure` of a response that has an item already or not. -/
def writeBodyItems (options : FetchBodyStructure) (hasItem : Bool) (bs : BodyStructure) : List Op :=
  (if options.nonExtended then writeBodyItem hasItem false bs else []) ++
    if options.extended then
      if isExtended bs then
        writeBodyItem (hasItem || options.nonExtended) true bs
      else [.panics]
    else []

end Items

end Server

end GoImap
