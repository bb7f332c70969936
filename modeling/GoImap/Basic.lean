import Mathlib.Algebra.Group.Nat.Defs
import Mathlib.Tactic.Common

/-!
# Values shared by every layer

Sequence numbers and UIDs are 32-bit words on the wire and in memory; a
modification sequence has 64 bits.  A string of the program is a sequence of
bytes with no constraint on its encoding.
-/

namespace GoImap

abbrev SeqNum := UInt32

abbrev UID := UInt32

abbrev ModSeq := UInt64

abbrev Bytes := List UInt8

def ascii (text : String) : Bytes := text.toList.map fun char => UInt8.ofNat char.toNat

def asciiLower (byte : UInt8) : UInt8 :=
  if 65 ≤ byte ∧ byte ≤ 90 then byte + 32 else byte

def isDigit (byte : UInt8) : Bool := 48 ≤ byte ∧ byte ≤ 57

def decimal (digits : Bytes) : Nat :=
  digits.foldl (fun value digit => 10 * value + (digit.toNat - 48)) 0

/-- `strconv.ParseUint` in base ten. -/
def parseUint (digits : Bytes) (bits : Nat) : Option Nat :=
  if digits ≠ [] ∧ digits.all isDigit ∧ decimal digits < 2 ^ bits then
    some (decimal digits)
  else none

inductive ConnState where
  | none
  | notAuthenticated
  | authenticated
  | selected
  | logout
  deriving DecidableEq, Repr

abbrev Flag := Bytes

instance : LawfulBEq Flag := inferInstance

def flagSeen : Flag := ascii "\\Seen"

def flagDeleted : Flag := ascii "\\Deleted"

end GoImap
