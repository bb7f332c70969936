import GoImap.NumSet.Model
import GoImap.Tracker.Model
import Mathlib.Data.List.Nodup

/-!
# The in-memory mailbox

A mailbox holds its messages in order together with the tracker that informs
the sessions.  Messages are pointers in the program: a set of messages to be
removed is a set of addresses, and every message of a mailbox has an address of
its own.  The program drops the errors its tracker returns; the model keeps
them, so that one can speak of them.

The name, the subscription, the annotations and the rights of a mailbox play no
part in what follows and are left out, and so are the NOTIFY watchers.
-/

namespace GoImap.MemServer

open Tracker

/-- The case mapping of `strings.ToLower`, which this development leaves open. -/
class CaseMapping where
  toLower : Bytes → Bytes

abbrev asciiCaseMapping : CaseMapping where
  toLower := List.map asciiLower

def canonicalFlag [CaseMapping] (flag : Flag) : Flag := CaseMapping.toLower flag

/-- A map used as a set of flags: its keys, in the order they came in. -/
structure FlagSet where
  keys : List Flag
  nodup : keys.Nodup
  deriving DecidableEq

namespace FlagSet

def empty : FlagSet := ⟨[], .nil⟩

def contains (flags : FlagSet) (flag : Flag) : Bool := flags.keys.contains flag

def insert (flags : FlagSet) (flag : Flag) : FlagSet :=
  if h : flag ∈ flags.keys then flags
  else
    ⟨flags.keys ++ [flag], by
      refine List.nodup_append.mpr ⟨flags.nodup, List.nodup_singleton _, ?_⟩
      rintro key hkey other hother rfl
      exact h (List.mem_singleton.mp hother ▸ hkey)⟩

def delete (flags : FlagSet) (flag : Flag) : FlagSet :=
  ⟨flags.keys.erase flag, flags.nodup.erase flag⟩

@[simp] theorem contains_iff (flags : FlagSet) (flag : Flag) :
    flags.contains flag = true ↔ flag ∈ flags.keys := by
  simp [contains]

theorem insert_eq_self_iff (flags : FlagSet) (flag : Flag) :
    flags.insert flag = flags ↔ flags.contains flag = true := by
  rw [contains_iff]
  constructor
  · intro hsame
    by_contra hnew
    have hkeys := congrArg (fun set => set.keys.length) hsame
    simp [insert, hnew] at hkeys
  · intro hmem
    simp [insert, hmem]

end FlagSet

abbrev Time := Int

structure Message where
  address : Nat
  uid : UID
  buf : Bytes
  t : Time
  flags : FlagSet
  modSeq : ModSeq
  deriving DecidableEq

namespace Message

def flagList (msg : Message) : List Flag := msg.flags.keys

end Message

structure ExpungedMessage where
  uid : UID
  modSeq : ModSeq
  deriving DecidableEq, Repr

structure Mailbox where
  tracker : MailboxTracker
  uidValidity : UInt32
  l : List Message
  uidNext : UID
  highestModSeq : ModSeq
  expunged : List ExpungedMessage
  nextAddress : Nat
  dropped : List String

structure AppendOptions where
  time : Option Time := none
  flags : List Flag := []

structure AppendData where
  uidValidity : UInt32
  uid : UID
  deriving DecidableEq, Repr

def newMailbox (uidValidity : UInt32) : Mailbox where
  tracker := newMailboxTracker 0
  uidValidity := uidValidity
  l := []
  uidNext := 1
  highestModSeq := 1
  expunged := []
  nextAddress := 0
  dropped := []

namespace Mailbox

/-- Call the tracker; an error it returns goes nowhere. -/
def track (mbox : Mailbox) (call : MailboxTracker → Except String MailboxTracker) : Mailbox :=
  match call mbox.tracker with
  | .ok tracker => { mbox with tracker := tracker }
  | .error text => { mbox with dropped := mbox.dropped ++ [text] }

/-- `now` is the clock, read when the options name no time. -/
def appendBytes [CaseMapping] (mbox : Mailbox) (buf : Bytes)
    (options : AppendOptions) (now : Time) : Mailbox × AppendData :=
  let msg : Message :=
    { address := mbox.nextAddress
      uid := mbox.uidNext
      buf := buf
      t := options.time.getD now
      flags := options.flags.foldl (fun flags flag => flags.insert (canonicalFlag flag)) .empty
      modSeq := mbox.highestModSeq + 1 }
  let l := mbox.l ++ [msg]
  let mbox :=
    { mbox with
      l := l
      uidNext := mbox.uidNext + 1
      highestModSeq := mbox.highestModSeq + 1
      nextAddress := mbox.nextAddress + 1 }
  (mbox.track (·.queueNumMessages (UInt32.ofNat l.length)),
    { uidValidity := mbox.uidValidity, uid := msg.uid })

def copyMsg [CaseMapping] (mbox : Mailbox) (msg : Message) (now : Time) : Mailbox × AppendData :=
  mbox.appendBytes msg.buf
    { time := some msg.t, flags := msg.flagList } now

def seqNumAt (index : Nat) : SeqNum := UInt32.ofNat index + 1

def reportExpunge (mbox : Mailbox) (index : Nat) (msg : Message)
    (expungeModSeq : ModSeq) : Mailbox :=
  let mbox := mbox.track (·.queueExpunge (seqNumAt index) msg.uid)
  { mbox with
    expunged := mbox.expunged ++
      [{ uid := msg.uid, modSeq := expungeModSeq }] }

/-- What `expungeLocked` has done so far: the mailbox, whose list is replaced
at the end, the messages kept, and the numbers of those removed. -/
structure ExpungeState where
  mbox : Mailbox
  kept : List Message
  seqNums : List SeqNum

def expungeLoop (expunged : List Nat) (expungeModSeq : ModSeq) :
    List Message → Nat → ExpungeState → ExpungeState
  | [], _, state => state
  | msg :: rest, index, state =>
    if msg.address ∈ expunged then
      expungeLoop expunged expungeModSeq rest (index + 1) { state with
          mbox := state.mbox.reportExpunge index msg expungeModSeq
          seqNums := state.seqNums ++ [seqNumAt index] }
    else
      expungeLoop expunged expungeModSeq rest (index + 1) { state with kept := state.kept ++ [msg] }

def expungeLocked (mbox : Mailbox) (expunged : List Nat) : Mailbox × List SeqNum :=
  let expungeModSeq := mbox.highestModSeq + 1
  let state := expungeLoop expunged expungeModSeq mbox.l 0
    { mbox := { mbox with highestModSeq := expungeModSeq }
      kept := []
      seqNums := [] }
  ({ state.mbox with l := state.kept }, state.seqNums)

def deletedMessages [CaseMapping] (mbox : Mailbox) (uids : Option NumSet) : List Nat :=
  (mbox.l.filter fun msg =>
    uids.all (·.contains msg.uid) &&
      msg.flags.contains (canonicalFlag flagDeleted)).map Message.address

/-- Both critical sections of `Expunge`, nothing happening in between. -/
def expunge [CaseMapping] (mbox : Mailbox) (uids : Option NumSet) : Mailbox :=
  let marked := mbox.deletedMessages uids
  if marked = [] then mbox else (mbox.expungeLocked marked).1

def newView (mbox : Mailbox) : SessionId × Mailbox :=
  let (id, tracker) := mbox.tracker.newSession
  (id, { mbox with tracker := tracker })

end Mailbox

end GoImap.MemServer
