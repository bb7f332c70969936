import GoImap.Basic

/-!
# The decoder

The decoder reads a stream of octets one by one and can put back the last one.
The stream is the list of octets not read yet; reading past its end is the I/O
error of the model.  An error is recorded once: the first one stays, and stops
all reading but that of `discardLine`.

The model keeps a log of what has been read and in which role: as text, as data
of a literal, or skipped.  The moment the server asks for a synchronizing
literal is in the log as well, since only then does its payload follow.

The depth of nested lists, which bounds recursion, and the setting for raw
UTF-8 in mailbox names play no part here.
-/

namespace GoImap.Wire

def LF : UInt8 := 10
def CR : UInt8 := 13
def SP : UInt8 := 32
def quote : UInt8 := 34
def openParen : UInt8 := 40
def closeParen : UInt8 := 41
def plus : UInt8 := 43
def minus : UInt8 := 45
def backslash : UInt8 := 92
def openBrace : UInt8 := 123
def closeBrace : UInt8 := 125

def isLineChar (byte : UInt8) : Bool := byte ≠ CR ∧ byte ≠ LF

/-- `IsAtomChar`; the control characters are those of Latin-1. -/
def isAtomChar (byte : UInt8) : Bool :=
  byte ∉ [40, 41, 123, 32, 37, 42, 34, 92, 93] ∧ ¬(byte < 32 ∨ (127 ≤ byte ∧ byte < 160))

inductive ConnSide where
  | client
  | server
  deriving DecidableEq, Repr

inductive DecoderError where
  | expect (message : String)
  | refused (text : String)
  | maxSizeExceeded
  | literalOpen
  | unexpectedEOF
  deriving DecidableEq, Repr

inductive Role where
  | text
  | data
  | skipped
  deriving DecidableEq, Repr

inductive Event where
  | octet (byte : UInt8) (role : Role)
  | accepted
  deriving DecidableEq, Repr

/-- A literal that is open: the octets left, and whether the server has asked
for it, which matters for a synchronizing one. -/
structure LiteralReader where
  nonSync : Bool
  size : Nat
  left : Nat
  asked : Bool
  deriving DecidableEq, Repr

/-- The settings of a decoder.  A check returns the error it refuses with, and
a limit of zero is none. -/
structure Options where
  side : ConnSide
  checkLiteralFunc : Nat → Option DecoderError
  checkBufferedLiteralFunc : Option (Nat → Bool → Option DecoderError)
  maxSize : Nat

def plainServer : Options where
  side := .server
  checkLiteralFunc := fun _ => none
  checkBufferedLiteralFunc := none
  maxSize := 0

structure Decoder where
  rest : Bytes
  log : List Event := []
  err : Option DecoderError := none
  literal : Option LiteralReader := none
  pendingLiteral : Nat := 0
  discarding : Bool := false
  desynced : Bool := false
  crlf : Bool := false
  readBytes : Int := 0
  starved : Bool := false
  deriving DecidableEq, Repr

def newDecoder (stream : Bytes) : Decoder where
  rest := stream

namespace Decoder

def returnErr (dec : Decoder) (err : DecoderError) : Decoder :=
  match dec.err with
  | none => { dec with err := some err }
  | some _ => dec

def starve (dec : Decoder) : Decoder := { dec.returnErr .unexpectedEOF with starved := true }

def fetchByte (dec : Decoder) : Option UInt8 × Decoder :=
  if dec.literal.isSome then (none, dec.returnErr .literalOpen)
  else
    match dec.rest with
    | [] => (none, dec.starve)
    | byte :: rest =>
      (some byte, { dec with
          rest := rest
          log := dec.log ++ [.octet byte .text]
          readBytes := dec.readBytes + 1 })

variable (options : Options)

def readByte (dec : Decoder) : Option UInt8 × Decoder :=
  if dec.err.isSome ∧ dec.discarding = false then (none, dec)
  else if 0 < options.maxSize ∧ dec.readBytes > options.maxSize then
    (none, dec.returnErr .maxSizeExceeded)
  else { dec with crlf := false }.fetchByte

def mustUnreadByte (dec : Decoder) (byte : UInt8) : Decoder :=
  { dec with
    rest := byte :: dec.rest
    log := dec.log.dropLast
    readBytes := dec.readBytes - 1 }

def acceptByte (dec : Decoder) (want : UInt8) : Bool × Decoder :=
  match dec.readByte options with
  | (none, dec) => (false, dec)
  | (some got, dec) =>
    if got = want then (true, dec) else (false, dec.mustUnreadByte got)

def peekByte (dec : Decoder) : Option UInt8 × Decoder :=
  match dec.readByte options with
  | (none, dec) => (none, dec)
  | (some got, dec) => (some got, dec.mustUnreadByte got)

def nextByteIs (dec : Decoder) (want : UInt8) : Bool × Decoder :=
  match dec.acceptByte options want with
  | (false, dec) => (false, dec)
  | (true, dec) => (true, dec.mustUnreadByte want)

/-- Reads around the decoder's own bookkeeping, and still counts the byte it
puts back. -/
def eof (dec : Decoder) : Bool × Decoder :=
  match dec.rest with
  | [] => (true, dec)
  | _ :: _ => (false, { dec with readBytes := dec.readBytes - 1 })

def resetCount (dec : Decoder) : Decoder := { dec with readBytes := 0 }

def expect (dec : Decoder) (ok : Bool) (name : String) : Bool × Decoder :=
  if ok then (true, dec)
  else (false, dec.returnErr (.expect ("expected " ++ name)))

def sp (dec : Decoder) : Bool × Decoder :=
  match dec.acceptByte options SP with
  | (true, dec) =>
    match dec.peekByte options with
    | (none, dec) => (false, dec)
    | (some byte, dec) => (byte ≠ CR ∧ byte ≠ LF, dec)
  | (false, dec) =>
    match dec.peekByte options with
    | (none, dec) => (false, dec)
    | (some byte, dec) => (byte = openParen, dec)

def expectSP (dec : Decoder) : Bool × Decoder :=
  match dec.sp options with
  | (found, dec) => dec.expect found "SP"

/-- A space and the CR before the LF are optional. -/
def acceptCRLF (dec : Decoder) : Bool × Decoder :=
  let dec := (dec.acceptByte options SP).2
  let dec := (dec.acceptByte options CR).2
  match dec.acceptByte options LF with
  | (false, dec) => (false, dec)
  | (true, dec) => (true, { dec with crlf := true })

/-- The loop all methods share that read up to the first byte of another kind.
Every round but the last consumes a byte, so the stream's length is enough. -/
def readLoop (valid : UInt8 → Bool) : Nat → Decoder → Bytes → Option Bytes × Decoder
  | 0, dec, _ => (none, dec)
  | fuel + 1, dec, read =>
    match dec.readByte options with
    | (none, dec) => (none, dec)
    | (some byte, dec) =>
      if valid byte then readLoop valid fuel dec (read ++ [byte])
      else (some read, dec.mustUnreadByte byte)

def readWhile (dec : Decoder) (valid : UInt8 → Bool) : Option Bytes × Decoder :=
  readLoop options valid (dec.rest.length + 1) dec []

/-- `Func`; `Text`, `Atom` and `numberStr` have the same body. -/
def func (dec : Decoder) (valid : UInt8 → Bool) : Option Bytes × Decoder :=
  match dec.readWhile options valid with
  | (some [], dec) => (none, dec)
  | result => result

def expectAtom (dec : Decoder) : Option Bytes × Decoder :=
  match dec.func options isAtomChar with
  | (atom, dec) => (atom, (dec.expect atom.isSome "atom").2)

def text (dec : Decoder) : Option Bytes × Decoder := dec.func options isLineChar

def discardUntilByte (dec : Decoder) (untilCh : UInt8) : Decoder :=
  (dec.readWhile options (· ≠ untilCh)).2

def numberStr (dec : Decoder) : Option Bytes × Decoder := dec.func options isDigit

def number64 (dec : Decoder) : Option Nat × Decoder :=
  match dec.numberStr options with
  | (none, dec) => (none, dec)
  | (some digits, dec) => (parseUint digits 63, dec)

/-! ## Quoted strings -/

def quotedLoop : Nat → Decoder → Bytes → Option Bytes × Decoder
  | 0, dec, _ => (none, dec)
  | fuel + 1, dec, read =>
    match dec.readByte options with
    | (none, dec) => (none, dec)
    | (some byte, dec) =>
      if byte = quote then (some read, dec)
      else if byte = backslash then
        match dec.readByte options with
        | (none, dec) => (none, dec)
        | (some escaped, dec) =>
          quotedLoop fuel dec (read ++ [escaped])
      else quotedLoop fuel dec (read ++ [byte])

/-- Drop a quote that follows a quoted string.  It is read around the decoder's
bookkeeping. -/
def dropStrayQuote (dec : Decoder) : Decoder :=
  match dec.rest with
  | byte :: rest =>
    if byte = quote then
      { dec with
        rest := rest
        log := dec.log ++ [.octet byte .text]
        readBytes := dec.readBytes + 1 }
    else dec
  | [] => dec

def quoted (dec : Decoder) (allowStrayQuotes : Bool) : Option Bytes × Decoder :=
  match dec.acceptByte options quote with
  | (false, dec) => (none, dec)
  | (true, dec) =>
    match quotedLoop options (dec.rest.length + 1) dec [] with
    | (none, dec) => (none, dec)
    | (some read, dec) =>
      (some read,
        if allowStrayQuotes then dec.dropStrayQuote.dropStrayQuote
        else dec)

/-! ## Literals -/

def maxLiteralSize : Nat := 2 ^ 30

def maxBufferedLiteral : Nat := 4 * 1024 * 1024

/-- Release the literal.  What is left of a non-synchronizing one is on its
way already. -/
def cancel (dec : Decoder) (lit : LiteralReader) : Decoder :=
  { dec with
    literal := none
    pendingLiteral :=
      if lit.nonSync then dec.pendingLiteral + lit.left
      else dec.pendingLiteral }

def askLiteral (dec : Decoder) : Decoder :=
  match dec.literal with
  | none => dec
  | some lit =>
    if lit.nonSync ∨ lit.asked then dec
    else
      { dec with literal := some { lit with asked := true }, log := dec.log ++ [.accepted] }

def openLiteral (dec : Decoder) (size : Nat) (nonSync : Bool) : Option LiteralReader × Decoder :=
  let lit : LiteralReader :=
    { nonSync := nonSync, size := size, left := size, asked := false }
  let dec := { dec with literal := some lit }
  match options.checkLiteralFunc size with
  | some err => (none, (dec.cancel lit).returnErr err)
  | none => (some lit, dec)

def literalReader (dec : Decoder) : Option LiteralReader × Decoder :=
  match dec.acceptByte options openBrace with
  | (false, dec) => (none, dec)
  | (true, dec) =>
    match dec.number64 options with
    | (none, dec) => (none, (dec.expect false "number64").2)
    | (some size, dec) =>
      let (nonSync, dec) :=
        if options.side = .server then dec.acceptByte options plus
        else (false, dec)
      if size > maxLiteralSize then
        let dec := if nonSync then { dec with desynced := true } else dec
        (none, dec.returnErr (.expect ("literal size " ++ toString size ++ " out of bounds")))
      else
        match dec.acceptByte options closeBrace with
        | (false, dec) => (none, (dec.expect false "'\x7d'").2)
        | (true, dec) =>
          match dec.acceptCRLF options with
          | (false, dec) => (none, (dec.expect false "CRLF").2)
          | (true, dec) => dec.openLiteral options size nonSync

def takeData (dec : Decoder) (lit : LiteralReader) (count : Nat) : Decoder :=
  { dec with
    rest := dec.rest.drop count
    log := dec.log ++ (dec.rest.take count).map (Event.octet · .data)
    literal := some { lit with left := lit.left - count } }

/-- One `Read` of the open literal that returns at most `count` octets.  The
end of the literal is only seen by the read after the last octet. -/
def readLiteral (dec : Decoder) (count : Nat) : Decoder :=
  let dec := dec.askLiteral
  match dec.literal with
  | none => dec
  | some lit =>
    if lit.left = 0 then dec.cancel lit
    else if dec.rest.isEmpty then (dec.cancel lit).starve
    else dec.takeData lit (min count (min lit.left dec.rest.length))

def checkBuffered (lit : LiteralReader) : Option DecoderError :=
  match options.checkBufferedLiteralFunc with
  | some check => check lit.size lit.nonSync
  | none =>
    if lit.size > maxBufferedLiteral then
      some (.expect ("literal of " ++ toString lit.size ++
        " bytes exceeds the " ++ toString maxBufferedLiteral ++
        " byte limit"))
    else none

def copyLiteral (dec : Decoder) (lit : LiteralReader) : Option Bytes × Decoder :=
  if dec.rest.length < lit.left then
    let read := dec.takeData lit dec.rest.length
    (none, (read.cancel { lit with left := lit.left - dec.rest.length }).starve)
  else
    (some (dec.rest.take lit.left), { dec.takeData lit lit.left with literal := none })

def bufferLiteral (dec : Decoder) : Option Bytes × Decoder :=
  match dec.literalReader options with
  | (none, dec) => (none, dec)
  | (some lit, dec) =>
    match checkBuffered options lit with
    | some err => (none, (dec.cancel lit).returnErr err)
    | none => dec.askLiteral.copyLiteral lit

/-! ## Discarding -/

def maxDiscardLiteralSize : Nat := 65536

/-- `strconv.ParseInt` in base ten, for 64 bits: whether it succeeds. -/
def parsesAsInt (number : Bytes) : Bool :=
  match number with
  | sign :: digits =>
    if sign = plus then (parseUint digits 63).isSome
    else if sign = minus then
      digits ≠ [] ∧ digits.all isDigit ∧ decimal digits ≤ 2 ^ 63
    else (parseUint number 63).isSome
  | [] => false

def afterLastBrace : Bytes → Option Bytes
  | [] => none
  | byte :: rest =>
    match afterLastBrace rest with
    | some found => some found
    | none => if byte = openBrace then some rest else none

def endsWithNonSyncLiteral (line : Bytes) : Bool :=
  if [plus, closeBrace].isSuffixOf line then
    match afterLastBrace line with
    | none => false
    | some found => parsesAsInt (found.take (found.length - 2))
  else false

def skipPending (dec : Decoder) (count : Nat) : Decoder :=
  { dec with
    pendingLiteral := 0
    rest := dec.rest.drop count
    log := dec.log ++ (dec.rest.take count).map (Event.octet · .skipped) }

def discardText (dec : Decoder) : Decoder :=
  let (read, dec) := dec.text options
  let dec := (dec.acceptCRLF options).2
  if options.side = .server ∧ endsWithNonSyncLiteral (read.getD []) then
    { dec with desynced := true }
  else dec

def discardRest (dec : Decoder) : Decoder :=
  if dec.crlf then dec else dec.discardText options

def discardLine (dec : Decoder) : Decoder :=
  let pending := dec.pendingLiteral
  let dec := { dec with discarding := true }
  let dec :=
    if pending = 0 then dec.discardRest options
    else if pending > maxDiscardLiteralSize then
      { dec with pendingLiteral := 0, desynced := true }
    else if dec.rest.length < pending then
      { (dec.skipPending pending).starve with desynced := true }
    else { dec.skipPending pending with crlf := false }.discardRest options
  { dec with discarding := false }

end Decoder

/-! ## Handlers -/

/--
A command handler, as far as the decoder is concerned, is the list of the calls
it makes.  The methods not listed are made of these: `Atom`, `Text` and the
numbers are `func` with a predicate of their own, an Expect method is followed
by `fail` where it does not succeed, and so is a mailbox name or a number set
that does not parse.
-/
inductive Call where
  | fail (message : String)
  | eof
  | resetCount
  | nextByteIs (want : UInt8)
  | special (want : UInt8)
  | sp
  | crlf
  | func (valid : UInt8 → Bool)
  | discardUntilByte (untilCh : UInt8)
  | quoted (allowStrayQuotes : Bool)
  | literal
  | literalReader
  | askLiteral
  | readLiteral (count : Nat)

def Decoder.step (options : Options) (dec : Decoder) : Call → Decoder
  | .fail message => dec.returnErr (.expect message)
  | .eof => dec.eof.2
  | .resetCount => dec.resetCount
  | .nextByteIs want => (dec.nextByteIs options want).2
  | .special want => (dec.acceptByte options want).2
  | .sp => (dec.sp options).2
  | .crlf => (dec.acceptCRLF options).2
  | .func valid => (dec.func options valid).2
  | .discardUntilByte untilCh => dec.discardUntilByte options untilCh
  | .quoted allowStrayQuotes => (dec.quoted options allowStrayQuotes).2
  | .literal => (dec.bufferLiteral options).2
  | .literalReader => (dec.literalReader options).2
  | .askLiteral => dec.askLiteral
  | .readLiteral count => dec.readLiteral count

def Decoder.run (options : Options) (dec : Decoder) (calls : List Call) : Decoder :=
  calls.foldl (Decoder.step options) dec

end GoImap.Wire
