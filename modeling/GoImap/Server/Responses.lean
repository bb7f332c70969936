import GoImap.MemServer.View
import GoImap.Search.Criteria
import GoImap.Wire.Script

/-!
# Responses of the server

A response is a line of calls of the encoder, made from the data of the backend.
Whether the line can be written depends on that data: on the flags and
attributes, on the fields of STATUS that are there, on sizes and literals.
-/

namespace GoImap

def UIDSet.string : UIDSet → Bytes
  | nums set => NumSet.string set
  | searchRes => ascii "$"

namespace Server

open Wire

structure StatusResponse where
  type : Bytes
  code : Bytes := []
  text : Bytes

structure StatusOptions where
  numMessages : Bool := false
  numRecent : Bool := false
  uidNext : Bool := false
  uidValidity : Bool := false
  numUnseen : Bool := false
  numDeleted : Bool := false
  size : Bool := false
  appendLimit : Bool := false
  deletedStorage : Bool := false
  highestModSeq : Bool := false

structure StatusData where
  mailbox : Bytes
  numMessages : Option UInt32 := none
  numRecent : Option UInt32 := none
  uidNext : UID := 0
  uidValidity : UInt32 := 0
  numUnseen : Option UInt32 := none
  numDeleted : Option UInt32 := none
  size : Option Int := none
  appendLimit : Option UInt32 := none
  deletedStorage : Option Int := none
  highestModSeq : ModSeq := 0

structure ListOptions where
  selectRecursiveMatch : Bool

/-- The delimiter is a rune; the child info tells whether there are subscribed
children. -/
structure ListData where
  attrs : List Bytes
  delim : Nat
  mailbox : Bytes
  childInfo : Option Bool := none
  oldName : Bytes := []

/-- The marker for the last result counts as empty. -/
structure SearchData where
  all : Option NumSet
  min : UInt32
  max : UInt32
  count : UInt32
  mailbox : Bytes
  uidValidity : UInt32
  modSeq : ModSeq

/-- A piece of the name of an item, of an envelope or of a body structure, in
the order of writing.  A body structure without what was asked for is a
panic. -/
inductive Part where
  | text (s : Bytes)
  | string (s : Bytes)
  | number64 (v : Int)
  | panics

/-- The items of a FETCH response.  A section is written in chunks; the
modification sequence is left out unless the client knows of it. -/
inductive FetchItem where
  | uid (uid : UID)
  | flags (flags : List Flag)
  | rfc822Size (size : Int)
  | internalDate (text : Bytes)
  | bodySection (name : List Part) (size : Int) (chunks : List Bytes) (closed : Bool)
  | binarySection (name : List Part) (size : Int) (chunks : List Bytes) (closed : Bool)
  | binarySectionSize (name : List Part) (size : UInt32)
  | envelope (parts : List Part)
  | modSeq (aware : Bool) (modSeq : ModSeq)
  | bodyStructure (parts : List Part)

inductive Response where
  | statusResp (tag : Bytes) (resp : StatusResponse)
  | status (data : StatusData) (options : StatusOptions)
  | list (data : ListData) (options : Option ListOptions) (allowOldName : Bool)
  | flags (flags : List Flag)
  | fetch (seqNum : SeqNum) (items : List FetchItem)
  | esearch (tag : Bytes) (data : SearchData)
      (options : MemServer.SearchOptions) (numKind : MemServer.NumKind)
      (condStore : Bool)
  | vanished (uids : UIDSet) (earlier : Bool)

/-! ## The calls of each response -/

def atom (s : String) : Op := .text (ascii s)

def space : Op := .text [SP]

def special (ch : UInt8) : Op := .text [ch]

def number (v : UInt32) : Op := .text (formatUint v.toNat)

def modSeqOp (v : ModSeq) : Op := .text (formatUint v.toNat)

def writeStatusResp (tag : Bytes) (resp : StatusResponse) : List Op :=
  [.text (if tag = [] then ascii "*" else tag), space, .text resp.type, space] ++
  (if resp.code = [] then []
    else [.text (91 :: resp.code ++ [93]), space]) ++
  [.text resp.text]

/-- An item of STATUS: whether it was asked for, its name, and how its value is
written, unless the backend has left it out. -/
structure StatusItem where
  wanted : Bool
  name : String
  value : Except String Op

def populated {α : Type} (field : String) (value : Option α) (write : α → Op) : Except String Op :=
  match value with
  | some value => .ok (write value)
  | none =>
    .error ("imapserver: backend did not populate " ++ field ++ " in StatusData")

def statusItems (data : StatusData) (options : StatusOptions) : List StatusItem :=
  [⟨options.numMessages, "MESSAGES", populated "NumMessages" data.numMessages number⟩,
    ⟨options.uidNext, "UIDNEXT", .ok (number data.uidNext)⟩,
    ⟨options.uidValidity, "UIDVALIDITY", .ok (number data.uidValidity)⟩,
    ⟨options.numUnseen, "UNSEEN", populated "NumUnseen" data.numUnseen number⟩,
    ⟨options.numDeleted, "DELETED", populated "NumDeleted" data.numDeleted number⟩,
    ⟨options.size, "SIZE", populated "Size" data.size .number64⟩,
    ⟨options.appendLimit, "APPENDLIMIT", .ok (match data.appendLimit with
        | some limit => number limit
        | none => atom "NIL")⟩,
    ⟨options.deletedStorage, "DELETED-STORAGE",
      populated "DeletedStorage" data.deletedStorage .number64⟩,
    ⟨options.numRecent, "RECENT", populated "NumRecent" data.numRecent number⟩,
    ⟨options.highestModSeq, "HIGHESTMODSEQ", .ok (modSeqOp data.highestModSeq)⟩]

/-- A missing value is noticed before the item is begun. -/
def statusOps (first : Bool) : List StatusItem → List Op
  | [] => [special closeParen]
  | item :: rest =>
    if item.wanted then
      match item.value with
      | .error err => [.giveUp err]
      | .ok value =>
        (if first then [] else [space]) ++ [atom item.name, space, value] ++ statusOps false rest
    else statusOps first rest

def writeStatus (data : StatusData) (options : StatusOptions) : List Op :=
  [atom "*", space, atom "STATUS", space, .mailbox data.mailbox, space,
    special openParen] ++ statusOps true (statusItems data options)

def childInfoItem (subscribed : Bool) : List Op :=
  [atom "CHILDINFO", space, special openParen] ++
    (if subscribed then [.quoted (ascii "SUBSCRIBED")] else []) ++
    [special closeParen]

def listExtensions (data : ListData) (options : Option ListOptions)
    (allowOldName : Bool) : List (List Op) :=
  (match data.childInfo, options with
    | some subscribed, some options =>
      if options.selectRecursiveMatch then [childInfoItem subscribed]
      else []
    | _, _ => []) ++
  (if data.oldName ≠ [] ∧ allowOldName then
    [[atom "OLDNAME", space, special openParen, .mailbox data.oldName, special closeParen]]
  else [])

def listOps (items : List (List Op)) : List Op :=
  [special openParen] ++ [space].intercalate items ++ [special closeParen]

def writeListData (data : ListData) (options : Option ListOptions)
    (allowOldName : Bool) : List Op :=
  let extensions := listExtensions data options allowOldName
  [atom "*", space, atom "LIST", space] ++
    listOps (data.attrs.map fun attr => [.mailboxAttr attr]) ++
    [space,
      if data.delim = 0 then atom "NIL"
      else .quoted (Utf8.encodeRune data.delim),
      space, .mailbox data.mailbox] ++
    (if extensions = [] then [] else space :: listOps extensions)

def flagList (flags : List Flag) : List Op := listOps (flags.map fun flag => [.flag flag])

def writeFlags (flags : List Flag) : List Op :=
  [atom "*", space, atom "FLAGS", space] ++ flagList flags

def Part.op : Part → Op
  | text s => .text s
  | string s => .string s
  | number64 v => .number64 v
  | panics => .panics

def FetchItem.ops : FetchItem → Option (List Op)
  | uid value => some [atom "UID", space, number value]
  | flags value => some ([atom "FLAGS", space] ++ flagList value)
  | rfc822Size size => some [atom "RFC822.SIZE", space, .number64 size]
  | internalDate text => some [atom "INTERNALDATE", space, .string text]
  | bodySection name size chunks closed =>
    some (name.map Part.op ++ [space, .literal size chunks closed])
  | binarySection name size chunks closed =>
    some (name.map Part.op ++ [space, special 126, .literal size chunks closed])
  | binarySectionSize name size =>
    some (name.map Part.op ++ [space, number size])
  | envelope parts => some ([atom "ENVELOPE", space] ++ parts.map Part.op)
  | modSeq aware value =>
    if aware then
      some [atom "MODSEQ", space, special openParen, modSeqOp value, special closeParen]
    else none
  | bodyStructure parts => some (parts.map Part.op)

def writeFetch (seqNum : SeqNum) (items : List FetchItem) : List Op :=
  [atom "*", space, number seqNum, space, atom "FETCH", space, special openParen] ++
  [space].intercalate (items.filterMap FetchItem.ops) ++
  [special closeParen]

def writeESearch (tag : Bytes) (data : SearchData) (options : MemServer.SearchOptions)
    (numKind : MemServer.NumKind) (condStore : Bool) : List Op :=
  [atom "*", space, atom "ESEARCH"] ++
  (if tag = [] ∧ data.mailbox = [] then []
    else
      [space, special openParen] ++
      (if tag = [] then [] else [atom "TAG", space, .string tag]) ++
      (if data.mailbox = [] then []
        else
          (if tag = [] then [] else [space]) ++
          [atom "MAILBOX", space, .mailbox data.mailbox, space,
            atom "UIDVALIDITY", space, number data.uidValidity]) ++
      [special closeParen]) ++
  (if numKind = .uid then [space, atom "UID"] else []) ++
  (match data.all with
    | some (range :: rest) =>
      if options.returnAll then
        [space, atom "ALL", space, .numSet (NumSet.string (range :: rest))]
      else []
    | _ => []) ++
  (if options.returnMin ∧ data.min > 0 then
    [space, atom "MIN", space, number data.min] else []) ++
  (if options.returnMax ∧ data.max > 0 then
    [space, atom "MAX", space, number data.max] else []) ++
  (if options.returnCount then
    [space, atom "COUNT", space, number data.count] else []) ++
  (if data.modSeq > 0 ∧ condStore then
    [space, atom "MODSEQ", space, modSeqOp data.modSeq] else [])

def writeVanished (uids : UIDSet) (earlier : Bool) : List Op :=
  [atom "*", space, atom "VANISHED"] ++
  (if earlier then space :: listOps [[atom "EARLIER"]] else []) ++
  [space, .numSet uids.string]

def Response.ops : Response → List Op
  | statusResp tag resp => writeStatusResp tag resp
  | status data options => writeStatus data options
  | list data options allowOldName => writeListData data options allowOldName
  | flags value => writeFlags value
  | fetch seqNum items => writeFetch seqNum items
  | esearch tag data options numKind condStore =>
    writeESearch tag data options numKind condStore
  | vanished uids earlier => writeVanished uids earlier

def encoderOptions (quotedUTF8 : Bool) : EncoderOptions where
  side := .server
  quotedUTF8 := quotedUTF8
  literalMinus := false
  literalPlus := false
  newContinuationRequest := none

/-! ## Data that can be written -/

def writableFlag (flag : Flag) : Prop := flag = flagWildcard ∨ isValidFlag flag = true

/-- Every field that was asked for is there, and no size is negative. -/
structure StatusData.Covers (data : StatusData) (options : StatusOptions) : Prop where
  numMessages : options.numMessages = true → data.numMessages.isSome = true
  numUnseen : options.numUnseen = true → data.numUnseen.isSome = true
  numDeleted : options.numDeleted = true → data.numDeleted.isSome = true
  numRecent : options.numRecent = true → data.numRecent.isSome = true
  size : options.size = true → ∃ size, data.size = some size ∧ 0 ≤ size
  deletedStorage : options.deletedStorage = true →
    ∃ size, data.deletedStorage = some size ∧ 0 ≤ size

def Part.Encodable : Part → Prop
  | number64 v => 0 ≤ v
  | panics => False
  | _ => True

def FetchItem.Encodable : FetchItem → Prop
  | flags value => ∀ flag ∈ value, writableFlag flag
  | rfc822Size size => 0 ≤ size
  | bodySection name size chunks closed
  | binarySection name size chunks closed =>
    (∀ part ∈ name, part.Encodable) ∧ 0 ≤ size ∧ closed = true ∧ Op.missing size.toNat chunks = 0
  | binarySectionSize parts _ | envelope parts | bodyStructure parts =>
    ∀ part ∈ parts, part.Encodable
  | uid _ | internalDate _ | modSeq _ _ => True

def Response.Encodable : Response → Prop
  | status data options => data.Covers options
  | list data _ _ => ∀ attr ∈ data.attrs, attr.head? = some backslash ∧ isValidFlag attr = true
  | flags value => ∀ flag ∈ value, writableFlag flag
  | fetch _ items => ∀ item ∈ items, item.Encodable
  | vanished uids _ => uids.string ≠ []
  | statusResp _ _ | esearch _ _ _ _ _ => True

@[simp] theorem sound_atom (s : String) : (atom s).Sound := Op.sound_text _

@[simp] theorem sound_space : space.Sound := Op.sound_text _

@[simp] theorem sound_special (ch : UInt8) : (special ch).Sound := Op.sound_text _

@[simp] theorem sound_number (v : UInt32) : (number v).Sound := Op.sound_text _

@[simp] theorem sound_modSeqOp (v : ModSeq) : (modSeqOp v).Sound := Op.sound_text _

section Lists

variable {P : Op → Prop} (htext : ∀ s, P (.text s))

include htext

theorem forall_mem_listOps (items : List (List Op)) :
    (∀ op ∈ listOps items, P op) ↔ ∀ item ∈ items, ∀ op ∈ item, P op := by
  have hspace : P space := htext [SP]
  have hopen : P (special openParen) := htext [openParen]
  have hclose : P (special closeParen) := htext [closeParen]
  rw [listOps, List.forall_mem_append, List.forall_mem_append,
    forall_mem_intercalate (by simpa using hspace)]
  simp [hopen, hclose]

theorem forall_mem_flagList (flags : List Flag) :
    (∀ op ∈ flagList flags, P op) ↔ ∀ flag ∈ flags, P (.flag flag) := by
  rw [flagList, forall_mem_listOps htext]
  simp

end Lists

theorem sound_listOps (items : List (List Op)) :
    (∀ op ∈ listOps items, op.Sound) ↔ ∀ item ∈ items, ∀ op ∈ item, op.Sound :=
  forall_mem_listOps Op.sound_text items

theorem sound_flagList (flags : List Flag) :
    (∀ op ∈ flagList flags, op.Sound) ↔ ∀ flag ∈ flags, writableFlag flag := by
  simp [forall_mem_flagList Op.sound_text, Op.sound_flag, writableFlag]

theorem sound_parts (parts : List Part) : (∀ op ∈ parts.map Part.op, op.Sound) ↔
      ∀ part ∈ parts, part.Encodable := by
  rw [List.forall_mem_map]
  refine forall₂_congr fun part _ => ?_
  cases part with
  | text s => exact iff_of_true (Op.sound_text s) trivial
  | string s => exact iff_of_true (Op.sound_string s) trivial
  | number64 v => exact Op.sound_number64 v
  | panics => exact iff_of_false (fun h => h.1) id

theorem sound_statusOps (items : List StatusItem) (first : Bool) :
    (∀ op ∈ statusOps first items, op.Sound) ↔ ∀ item ∈ items, item.wanted = true →
        ∃ op, item.value = .ok op ∧ op.Sound := by
  induction items generalizing first with
  | nil => simp [statusOps]
  | cons item rest ih =>
    rw [statusOps]
    cases hwanted : item.wanted with
    | false => simp [ih, hwanted]
    | true =>
      cases hvalue : item.value with
      | error err => simp [hwanted, hvalue, Op.not_sound_giveUp]
      | ok op =>
        simp only [if_true, List.forall_mem_append, ih, List.forall_mem_cons, hwanted, hvalue]
        simp

theorem populated_sound {α : Type} (field : String) (value : Option α) (write : α → Op) :
    (∃ op, populated field value write = .ok op ∧ op.Sound) ↔
      ∃ v, value = some v ∧ (write v).Sound := by
  cases value with
  | none | some v => simp [populated]

theorem populated_number_sound (field : String) (value : Option UInt32) :
    (∃ op, populated field value number = .ok op ∧ op.Sound) ↔ value.isSome = true := by
  rw [populated_sound, Option.isSome_iff_exists]
  simp

theorem sound_writeStatus (data : StatusData) (options : StatusOptions) :
    (∀ op ∈ writeStatus data options, op.Sound) ↔ data.Covers options := by
  have hok : ∀ op : Op, op.Sound → ∃ other, (.ok op : Except String Op) = .ok other ∧ other.Sound :=
    fun op hop => ⟨op, rfl, hop⟩
  have hlimit : (match data.appendLimit with
      | some limit => number limit
      | none => atom "NIL").Sound := by
    cases data.appendLimit <;> simp
  rw [writeStatus, List.forall_mem_append, sound_statusOps]
  simp only [statusItems, List.forall_mem_cons, populated_number_sound,
    populated_sound, Op.sound_number64]
  constructor
  · rintro ⟨-, hmessages, -, -, hunseen, hdeleted, hsize, -, hstorage, hrecent, -⟩
    exact ⟨hmessages, hunseen, hdeleted, hrecent, hsize, hstorage⟩
  · intro h
    refine ⟨?_, h.numMessages, ?_, ?_, h.numUnseen, h.numDeleted, h.size, ?_,
      h.deletedStorage, h.numRecent, ?_, List.forall_mem_nil _⟩
    · simp
    · exact fun _ => hok _ (sound_number _)
    · exact fun _ => hok _ (sound_number _)
    · exact fun _ => hok _ hlimit
    · exact fun _ => hok _ (sound_modSeqOp _)

theorem sound_listExtensions (data : ListData) (options : Option ListOptions)
    (allowOldName : Bool) :
    ∀ item ∈ listExtensions data options allowOldName, ∀ op ∈ item, op.Sound := by
  have hchild : ∀ subscribed, ∀ op ∈ childInfoItem subscribed, op.Sound := by
    intro subscribed
    cases subscribed <;> simp [childInfoItem]
  have hold : ∀ item ∈ if data.oldName ≠ [] ∧ allowOldName then
      [[atom "OLDNAME", space, special openParen, .mailbox data.oldName,
        special closeParen]] else [], ∀ op ∈ item, op.Sound := by
    split_ifs <;> simp
  unfold listExtensions
  rw [List.forall_mem_append]
  refine ⟨?_, hold⟩
  cases data.childInfo with
  | none => simp
  | some subscribed =>
    cases options with
    | none => simp
    | some options =>
      simp only [List.mem_ite_nil_right, List.mem_singleton, and_imp]
      rintro item - rfl
      exact hchild subscribed

theorem sound_writeListData (data : ListData) (options : Option ListOptions) (allowOldName : Bool) :
    (∀ op ∈ writeListData data options allowOldName, op.Sound) ↔ ∀ attr ∈ data.attrs,
        attr.head? = some backslash ∧ isValidFlag attr = true := by
  have hextensions := (sound_listOps _).mpr (sound_listExtensions data options allowOldName)
  have hdelim : (if data.delim = 0 then atom "NIL"
      else .quoted (Utf8.encodeRune data.delim)).Sound := by
    split_ifs <;> simp
  have hend : ∀ op ∈ if listExtensions data options allowOldName = [] then []
      else space :: listOps (listExtensions data options allowOldName),
      op.Sound := by
    split_ifs
    · simp
    · exact List.forall_mem_cons.mpr ⟨sound_space, hextensions⟩
  have hattrs : (∀ item ∈ data.attrs.map fun attr => [Op.mailboxAttr attr],
      ∀ op ∈ item, op.Sound) ↔ ∀ attr ∈ data.attrs,
        attr.head? = some backslash ∧ isValidFlag attr = true := by
    simp [Op.sound_mailboxAttr]
  simp only [writeListData, List.forall_mem_append, sound_listOps, hattrs,
    List.forall_mem_cons, hdelim, sound_atom, sound_space, Op.sound_mailbox,
    true_and, and_true, List.not_mem_nil, IsEmpty.forall_iff, implies_true]
  exact and_iff_left hend

theorem sound_fetchItem (item : FetchItem) :
    (∀ ops ∈ item.ops, ∀ op ∈ ops, op.Sound) ↔ item.Encodable := by
  cases item with
  | modSeq aware value =>
    cases aware <;> simp [FetchItem.ops, FetchItem.Encodable]
  | _ =>
    simp only [FetchItem.ops, FetchItem.Encodable, Option.mem_def, Option.some.injEq, forall_eq',
      List.forall_mem_append, List.forall_mem_cons, sound_parts, sound_flagList, sound_atom,
      sound_space, sound_special, sound_number, Op.sound_string, Op.sound_number64,
      Op.sound_literal, List.not_mem_nil, IsEmpty.forall_iff, implies_true, true_and, and_true]

theorem sound_writeESearch (tag : Bytes) (data : SearchData) (options : MemServer.SearchOptions)
    (numKind : MemServer.NumKind) (condStore : Bool) :
    ∀ op ∈ writeESearch tag data options numKind condStore, op.Sound := by
  have hall : ∀ op ∈ (match data.all with
      | some (range :: rest) =>
        if options.returnAll then
          [space, atom "ALL", space, .numSet (NumSet.string (range :: rest))]
        else []
      | _ => []), op.Sound := by
    split
    · split_ifs
      · simp [string_cons_ne_nil]
      · simp
    · simp
  simp only [writeESearch, List.forall_mem_append]
  refine ⟨⟨⟨⟨⟨⟨⟨?_, ?_⟩, ?_⟩, hall⟩, ?_⟩, ?_⟩, ?_⟩, ?_⟩
  · simp
  all_goals split_ifs <;> simp

theorem sound_ops_iff (response : Response) :
    (∀ op ∈ response.ops, op.Sound) ↔ response.Encodable := by
  cases response with
  | statusResp tag resp =>
    simp only [Response.ops, writeStatusResp, Response.Encodable]
    split_ifs <;> simp
  | status data options => exact sound_writeStatus data options
  | list data options allowOldName =>
    exact sound_writeListData data options allowOldName
  | flags value =>
    simp only [Response.ops, writeFlags, List.forall_mem_append, sound_flagList, Response.Encodable]
    simp
  | fetch seqNum items =>
    simp only [Response.ops, writeFetch, List.forall_mem_append,
      forall_mem_intercalate (List.forall_mem_singleton.mpr sound_space), Response.Encodable,
      ← sound_fetchItem, List.forall_mem_filterMap]
    simp
  | esearch tag data options numKind condStore =>
    exact iff_of_true (sound_writeESearch tag data options numKind condStore) trivial
  | vanished uids earlier =>
    have hearlier : ∀ op ∈ if earlier then
        space :: listOps [[atom "EARLIER"]] else [], op.Sound := by
      cases earlier with
      | false => simp
      | true => simp [listOps]
    simp only [Response.ops, writeVanished, List.forall_mem_append, List.forall_mem_cons,
      Op.sound_numSet, sound_atom, sound_space, true_and, and_true, List.not_mem_nil,
      IsEmpty.forall_iff, implies_true]
    exact and_iff_right hearlier

end Server

end GoImap
