import GoImap.Basic

/-!
# Capabilities

A server announces a set of capabilities; some of them imply others.
-/

namespace GoImap

abbrev Cap := Bytes

def capIMAP4rev2 : Cap := ascii "IMAP4rev2"
def capUIDPlus : Cap := ascii "UIDPLUS"
def capMove : Cap := ascii "MOVE"
def capLiteralMinus : Cap := ascii "LITERAL-"
def capLiteralPlus : Cap := ascii "LITERAL+"
def capCondStore : Cap := ascii "CONDSTORE"
def capQResync : Cap := ascii "QRESYNC"
def capUTF8Accept : Cap := ascii "UTF8=ACCEPT"
def capUTF8Only : Cap := ascii "UTF8=ONLY"
def capAppendLimit : Cap := ascii "APPENDLIMIT"

abbrev CapSet := List Cap

def imap4rev2Caps : CapSet :=
  [ascii "NAMESPACE", ascii "UNSELECT", capUIDPlus, ascii "ESEARCH",
    ascii "SEARCHRES", ascii "ENABLE", ascii "IDLE", ascii "SASL-IR",
    ascii "LIST-EXTENDED", ascii "LIST-STATUS", capMove, capLiteralMinus,
    ascii "STATUS=SIZE", ascii "CHILDREN"]

namespace CapSet

def appendLimitOf (cap : Cap) : Option Nat :=
  if (ascii "APPENDLIMIT=").isPrefixOf cap then
    (parseUint (cap.drop 12) 32).filter (0 < ·)
  else none

def appendLimit (set : CapSet) : Bool :=
  set.contains capAppendLimit || set.any fun cap => (appendLimitOf cap).isSome

def has (set : CapSet) (cap : Cap) : Bool :=
  set.contains cap || (set.contains capIMAP4rev2 && imap4rev2Caps.contains cap) ||
    (cap == capLiteralMinus && set.contains capLiteralPlus) ||
    (cap == capCondStore && set.contains capQResync) ||
    (cap == capUTF8Accept && set.contains capUTF8Only) ||
    (cap == capAppendLimit && set.appendLimit)

end CapSet

end GoImap
