import GoImap.Capability
import GoImap.MemServer.Session
import Mathlib.Data.List.Nodup
import Mathlib.Data.List.Perm.Basic

/-!
# The client's MOVE

Where the server lacks MOVE the client sends COPY, STORE and EXPUNGE one right
after the other and looks at the answers afterwards.  The server is modelled as
IMAP prescribes it: a command it answers with OK takes effect, one it refuses
does not.  Whether mail is lost can be told from the mailbox, the set, the
order in which the commands are executed and their answers.
-/

namespace GoImap.Client

open MemServer

inductive Command where
  | move (numSet : MessageSet) (mailbox : Bytes)
  | copy (numSet : MessageSet) (mailbox : Bytes)
  | store (numSet : MessageSet) (store : StoreFlags)
  | expunge
  | uidExpunge (uids : MessageSet)
  deriving DecidableEq

def isUIDSet : MessageSet → Bool
  | .seqSet _ => false
  | .uidSet _ => true
  | .searchRes => true

def markDeleted (numSet : MessageSet) : Command :=
  .store numSet { op := .add, silent := true, flags := [flagDeleted] }

def usesUIDExpunge (caps : CapSet) (numSet : MessageSet) : Bool :=
  isUIDSet numSet && caps.has capUIDPlus

def moveExpunge (caps : CapSet) (numSet : MessageSet) : Command :=
  if usesUIDExpunge caps numSet then .uidExpunge numSet else .expunge

def move (caps : CapSet) (numSet : MessageSet) (mailbox : Bytes) : List Command :=
  if caps.has capMove then [.move numSet mailbox]
  else [.copy numSet mailbox, markDeleted numSet, moveExpunge caps numSet]

/-! ## The server -/

structure StoredMessage where
  uid : UID
  flags : List Flag
  deriving DecidableEq, Repr

structure Server where
  messages : List StoredMessage
  searchRes : NumSet
  copies : List (Bytes × StoredMessage)
  nodup : (messages.map StoredMessage.uid).Nodup

def inRange (max number : UInt32) (range : NumRange) : Bool :=
  let start := if range.start = 0 then max else range.start
  let stop := if range.stop = 0 then max else range.stop
  (start ≤ number ∧ number ≤ stop) ∨ (stop ≤ number ∧ number ≤ start)

namespace Server

def uids (server : Server) : List UID := server.messages.map StoredMessage.uid

def maxUID (uids : List UID) : UID := uids.foldl max 0

def named (uids : List UID) (searchRes : NumSet) : MessageSet → List UID
  | .seqSet set =>
    (uids.zipIdx.filter fun entry => set.any (inRange (UInt32.ofNat uids.length)
        (UInt32.ofNat (entry.2 + 1)))).map Prod.fst
  | .uidSet set => uids.filter fun uid => set.any (inRange (maxUID uids) uid)
  | .searchRes =>
    uids.filter fun uid => searchRes.any (inRange (maxUID uids) uid)

def names (server : Server) (set : MessageSet) : List UID := named server.uids server.searchRes set

def storeFlags (flags : List Flag) (store : StoreFlags) : List Flag :=
  match store.op with
  | .set => store.flags
  | .add => flags ++ store.flags.filter (· ∉ flags)
  | .del => flags.filter (· ∉ store.flags)

def storeMessage (named : List UID) (store : StoreFlags) (msg : StoredMessage) : StoredMessage :=
  if msg.uid ∈ named then
    { msg with flags := storeFlags msg.flags store }
  else msg

def remove (server : Server) (removed : StoredMessage → Bool) : Server :=
  { server with
    messages := server.messages.filter fun msg => !removed msg
    nodup := server.nodup.sublist (List.filter_sublist.map _) }

def copy (server : Server) (set : MessageSet) (mailbox : Bytes) : Server :=
  { server with
    copies := server.copies ++ (server.messages.filter (·.uid ∈ server.names set)).map
        fun msg => (mailbox, msg) }

def isDeleted (msg : StoredMessage) : Bool := msg.flags.contains flagDeleted

def execute (server : Server) : Command → Server
  | .move set mailbox =>
    (server.copy set mailbox).remove fun msg =>
      (server.names set).contains msg.uid
  | .copy set mailbox => server.copy set mailbox
  | .store set store =>
    { server with
      messages := server.messages.map (storeMessage (server.names set) store)
      nodup := by
        have hsame : ∀ msg, (storeMessage (server.names set) store msg).uid = msg.uid := by
          intro msg
          unfold storeMessage
          split_ifs <;> rfl
        simpa [Function.comp_def, hsame] using server.nodup }
  | .expunge => server.remove isDeleted
  | .uidExpunge set => server.remove fun msg =>
    isDeleted msg && (server.names set).contains msg.uid

def answer (outcome : Command → StatusResponseType) (server : Server)
    (command : Command) : Server :=
  if outcome command = .ok then server.execute command else server

def answerAll (outcome : Command → StatusResponseType) (server : Server)
    (order : List Command) : Server :=
  order.foldl (answer outcome) server

end Server

/-! ## The property and its condition -/

section

variable (caps : CapSet) (numSet : MessageSet) (mailbox : Bytes)
  (before : Server) (order : List Command)
  (outcome : Command → StatusResponseType)

/-- If the COPY fails no message is removed, and if it succeeds none that the
set does not name. -/
def KeepsMail : Prop :=
  (outcome (.copy numSet mailbox) ≠ .ok → (before.answerAll outcome order).uids = before.uids) ∧
    (outcome (.copy numSet mailbox) = .ok → ∀ uid ∈ before.uids, uid ∉ before.names numSet →
        uid ∈ (before.answerAll outcome order).uids)

/-- The STORE succeeds and is executed before the EXPUNGE. -/
def marksInTime : Bool :=
  outcome (markDeleted numSet) = .ok ∧
    markDeleted numSet ∈ order.takeWhile (· ≠ moveExpunge caps numSet)

/-- The EXPUNGE fails, or finds nothing to remove that has to stay. -/
def ExpungesNothingElse : Prop :=
  outcome (moveExpunge caps numSet) = .ok → (outcome (.copy numSet mailbox) ≠ .ok →
      (marksInTime caps numSet order outcome = true → before.names numSet = []) ∧
        ∀ msg ∈ before.messages, Server.isDeleted msg = true → usesUIDExpunge caps numSet = true ∧
            msg.uid ∉ before.names numSet) ∧
      (outcome (.copy numSet mailbox) = .ok → usesUIDExpunge caps numSet = false →
        ∀ msg ∈ before.messages, Server.isDeleted msg = true → msg.uid ∈ before.names numSet)

end

namespace Server

def marked (server : Server) (numSet : MessageSet) (marks : Bool) : List StoredMessage :=
  if marks then
    server.messages.map (storeMessage (server.names numSet)
      { op := .add, silent := true, flags := [flagDeleted] })
  else server.messages

theorem storeMessage_uid (named : List UID) (store : StoreFlags)
    (msg : StoredMessage) : (storeMessage named store msg).uid = msg.uid := by
  unfold storeMessage
  split_ifs <;> rfl

theorem storeMessage_idem (named : List UID) (silent : Bool)
    (flags : List Flag) (msg : StoredMessage) :
    storeMessage named ⟨.add, silent, flags⟩ (storeMessage named ⟨.add, silent, flags⟩ msg) =
      storeMessage named ⟨.add, silent, flags⟩ msg := by
  unfold storeMessage
  split_ifs with hnamed
  · simp +contextual [storeFlags]
  · rfl

theorem isDeleted_storeMessage (named : List UID) (msg : StoredMessage) :
    isDeleted (storeMessage named { op := .add, silent := true, flags := [flagDeleted] } msg) =
      (isDeleted msg || decide (msg.uid ∈ named)) := by
  unfold storeMessage isDeleted
  split_ifs with hnamed
  · by_cases hflag : flagDeleted ∈ msg.flags
    · simp [storeFlags, hnamed]
    · simp [storeFlags, hnamed]
  · simp [hnamed]

theorem marked_uids (server : Server) (numSet : MessageSet) (marks : Bool) :
    (server.marked numSet marks).map StoredMessage.uid = server.uids := by
  unfold marked uids
  split_ifs
  · simp [storeMessage_uid]
  · rfl

theorem marked_store (server : Server) (numSet : MessageSet) (marks : Bool) :
    (server.execute (markDeleted numSet)).marked numSet marks = server.marked numSet true := by
  have hnames : (server.execute (markDeleted numSet)).names numSet = server.names numSet := by
    have huids := server.marked_uids numSet true
    unfold names
    rw [← huids]
    rfl
  unfold marked
  rw [hnames]
  cases marks with
  | false => rfl
  | true =>
    simp [markDeleted, execute, storeMessage_idem]

theorem names_subset (server : Server) (numSet : MessageSet) {uid : UID}
    (h : uid ∈ server.names numSet) : uid ∈ server.uids := by
  cases numSet with
  | seqSet set =>
    obtain ⟨entry, hentry, rfl⟩ := List.mem_map.mp h
    exact (List.mem_zipIdx' (List.mem_filter.mp hentry).1).2 ▸ List.getElem_mem _
  | uidSet set | searchRes => exact (List.mem_filter.mp h).1

section

variable {numSet : MessageSet} {mailbox : Bytes} {outcome : Command → StatusResponseType}

theorem answerAll_quiet {first : List Command}
    (hquiet : ∀ command ∈ first, command = .copy numSet mailbox ∨ command = markDeleted numSet)
    (server : Server) :
    (server.answerAll outcome first).messages =
        server.marked numSet (outcome (markDeleted numSet) = .ok ∧ markDeleted numSet ∈ first) ∧
      (server.answerAll outcome first).searchRes = server.searchRes := by
  induction first generalizing server with
  | nil => simp [answerAll, marked]
  | cons command rest ih =>
    have hrest := fun other hother =>
      hquiet other (List.mem_cons_of_mem command hother)
    obtain ⟨hmessages, hsearchRes⟩ := ih hrest (server.answer outcome command)
    rw [answerAll, List.foldl_cons, ← answerAll, hmessages, hsearchRes]
    rcases hquiet command List.mem_cons_self with rfl | rfl
    · have hother : markDeleted numSet ≠ .copy numSet mailbox := by
        simp [markDeleted]
      rw [answer]
      split_ifs
      · simp [marked, execute, copy, names, uids, hother]
      · simp [hother]
    · rw [answer]
      split_ifs with hok
      · simp only [hok, List.mem_cons, true_or, and_self]
        refine ⟨?_, rfl⟩
        exact marked_store server numSet _
      · simp [hok]

theorem order_split {caps : CapSet} {order : List Command} (hcaps : caps.has capMove = false)
    (horder : order.Perm (move caps numSet mailbox)) :
    ∃ first last, order = first ++ moveExpunge caps numSet :: last ∧
      order.takeWhile (· ≠ moveExpunge caps numSet) = first ∧
      ∀ command ∈ first ++ last, command = .copy numSet mailbox ∨ command = markDeleted numSet := by
  have hsent : order.Perm [.copy numSet mailbox, markDeleted numSet, moveExpunge caps numSet] := by
    simpa [move, hcaps] using horder
  have hmem : moveExpunge caps numSet ∈ order := hsent.mem_iff.mpr (by simp)
  obtain ⟨first, last, hsplit, hfirst⟩ := List.eq_append_cons_of_mem hmem
  subst hsplit
  have hothers : (first ++ last).Perm [.copy numSet mailbox, markDeleted numSet] := by
    have hfront := List.perm_middle.symm.trans hsent
    exact (hfront.trans (List.perm_append_singleton _ [_, _])).cons_inv
  refine ⟨first, last, rfl, ?_, ?_⟩
  · rw [List.takeWhile_append_of_pos]
    · simp
    · intro command hcommand
      have hne : command ≠ moveExpunge caps numSet := fun h =>
        hfirst (h ▸ hcommand)
      simpa using hne
  · intro command hcommand
    simpa using hothers.mem_iff.mp hcommand

def lost (server : Server) (caps : CapSet) (numSet : MessageSet)
    (marks : Bool) (msg : StoredMessage) : Bool :=
  (isDeleted msg || (marks && decide (msg.uid ∈ server.names numSet))) &&
    (!usesUIDExpunge caps numSet || decide (msg.uid ∈ server.names numSet))

theorem uids_expunge {before after : Server} {caps : CapSet} {marks : Bool}
    (hmessages : after.messages = before.marked numSet marks)
    (hsearchRes : after.searchRes = before.searchRes) :
    (after.execute (moveExpunge caps numSet)).uids = (before.messages.filter
        fun msg => !before.lost caps numSet marks msg).map
        StoredMessage.uid := by
  have hnames : after.names numSet = before.names numSet := by
    unfold names uids
    rw [hmessages, hsearchRes, marked_uids]
    rfl
  have hremoved : (after.execute (moveExpunge caps numSet)).messages =
      after.messages.filter fun msg => !(isDeleted msg && (!usesUIDExpunge caps numSet ||
          decide (msg.uid ∈ before.names numSet))) := by
    unfold moveExpunge
    cases husesUID : usesUIDExpunge caps numSet with
    | false => simp [execute, remove]
    | true => simp [execute, remove, hnames]
  rw [uids, hremoved, hmessages]
  cases marks with
  | false => simp [marked, lost]
  | true =>
    simp only [marked, if_true, List.filter_map, List.map_map, Function.comp_def, storeMessage_uid,
      isDeleted_storeMessage, lost, Bool.true_and]

theorem uids_answerAll {caps : CapSet} {order : List Command} (hcaps : caps.has capMove = false)
    (horder : order.Perm (move caps numSet mailbox)) (before : Server) :
    (before.answerAll outcome order).uids =
      if outcome (moveExpunge caps numSet) = .ok then
        (before.messages.filter fun msg => !before.lost caps numSet
          (marksInTime caps numSet order outcome) msg).map StoredMessage.uid
      else before.uids := by
  obtain ⟨first, last, hsplit, hfirst, hquiet⟩ := order_split hcaps horder
  have hquietFirst := fun command hcommand =>
    hquiet command (List.mem_append_left last hcommand)
  have hquietLast := fun command hcommand =>
    hquiet command (List.mem_append_right first hcommand)
  obtain ⟨hmessages, hsearchRes⟩ := @answerAll_quiet numSet mailbox outcome first hquietFirst before
  have hlast : ∀ server : Server, (server.answerAll outcome last).uids = server.uids := by
    intro server
    rw [uids, (answerAll_quiet hquietLast server).1, marked_uids]
  have hrun : before.answerAll outcome order = ((before.answerAll outcome first).answer outcome
        (moveExpunge caps numSet)).answerAll outcome last := by
    simp [answerAll, hsplit]
  rw [hrun, hlast, answer]
  split_ifs with hok
  · rw [uids_expunge hmessages hsearchRes, marksInTime, hfirst]
  · rw [uids, hmessages, marked_uids]

theorem map_filter_eq_map (server : Server) (keep : StoredMessage → Bool) :
    (server.messages.filter keep).map StoredMessage.uid = server.uids ↔
      ∀ msg ∈ server.messages, keep msg = true := by
  constructor
  · intro hsame
    have hlength := congrArg List.length hsame
    simp only [uids, List.length_map] at hlength
    exact List.length_filter_eq_length_iff.mp hlength
  · intro hall
    rw [List.filter_eq_self.mpr hall]
    rfl

theorem mem_map_filter (server : Server) (keep : StoredMessage → Bool)
    {msg : StoredMessage} (hmsg : msg ∈ server.messages) :
    msg.uid ∈ (server.messages.filter keep).map StoredMessage.uid ↔ keep msg = true := by
  rw [List.mem_map]
  constructor
  · rintro ⟨other, hother, hsame⟩
    rw [List.mem_filter] at hother
    rw [← List.inj_on_of_nodup_map server.nodup hother.1 hmsg hsame]
    exact hother.2
  · intro hkeep
    exact ⟨msg, List.mem_filter.mpr ⟨hmsg, hkeep⟩, rfl⟩

theorem lost_nothing_iff (server : Server) (caps : CapSet) (marks : Bool) :
    (∀ msg ∈ server.messages, server.lost caps numSet marks msg = false) ↔
      (marks = true → server.names numSet = []) ∧ ∀ msg ∈ server.messages, isDeleted msg = true →
          usesUIDExpunge caps numSet = true ∧ msg.uid ∉ server.names numSet := by
  constructor
  · intro hnone
    constructor
    · intro hmarks
      rw [List.eq_nil_iff_forall_not_mem]
      intro uid huid
      obtain ⟨msg, hmsg, rfl⟩ := List.mem_map.mp (server.names_subset numSet huid)
      have hkept := hnone msg hmsg
      simp [lost, hmarks, huid] at hkept
    · intro msg hmsg hdeleted
      have hkept := hnone msg hmsg
      simpa [lost, hdeleted] using hkept
  · rintro ⟨hmarks, hdeleted⟩ msg hmsg
    by_cases hflag : isDeleted msg = true
    · obtain ⟨huses, hout⟩ := hdeleted msg hmsg hflag
      simp [lost, huses, hout]
    · cases marks with
      | false => simp [lost, hflag]
      | true => simp [lost, hflag, hmarks rfl]

theorem lost_outside_iff (server : Server) (caps : CapSet) (marks : Bool) :
    (∀ msg ∈ server.messages, msg.uid ∉ server.names numSet →
        server.lost caps numSet marks msg = false) ↔
      (usesUIDExpunge caps numSet = false → ∀ msg ∈ server.messages, isDeleted msg = true →
          msg.uid ∈ server.names numSet) := by
  constructor
  · intro hkept huses msg hmsg hdeleted
    by_contra hout
    have hlost := hkept msg hmsg hout
    simp [lost, huses, hdeleted] at hlost
  · intro hnamed msg hmsg hout
    cases huses : usesUIDExpunge caps numSet with
    | false =>
      have hflag : isDeleted msg = false := by
        by_contra hdeleted
        rw [Bool.not_eq_false] at hdeleted
        exact hout (hnamed huses msg hmsg hdeleted)
      simp [lost, hflag, hout]
    | true => simp [lost, huses, hout]

end

end Server

/--
The fallback of `Move` keeps mail exactly if its EXPUNGE fails or finds nothing
to remove that has to stay.
-/
theorem move_fallback_keepsMail_iff (caps : CapSet) (hcaps : caps.has capMove = false)
    (numSet : MessageSet) (mailbox : Bytes) (before : Server) (order : List Command)
    (horder : order.Perm (move caps numSet mailbox)) (outcome : Command → StatusResponseType) :
    KeepsMail numSet mailbox before order outcome ↔
      ExpungesNothingElse caps numSet mailbox before order outcome := by
  unfold KeepsMail ExpungesNothingElse
  rw [Server.uids_answerAll hcaps horder before]
  by_cases hexpunge : outcome (moveExpunge caps numSet) = .ok
  · simp only [hexpunge, if_true, true_imp_iff, Server.map_filter_eq_map,
      Bool.not_eq_true', Server.lost_nothing_iff]
    refine and_congr Iff.rfl (imp_congr Iff.rfl ?_)
    rw [← Server.lost_outside_iff before caps (marksInTime caps numSet order outcome), Server.uids,
      List.forall_mem_map]
    refine forall₂_congr fun msg hmsg => imp_congr Iff.rfl ?_
    rw [Server.mem_map_filter before _ hmsg, Bool.not_eq_true']
  · simp +contextual [hexpunge]

def oneMarked : Server where
  messages :=
    [{ uid := 1, flags := [] },
     { uid := 2, flags := [flagDeleted] }]
  searchRes := []
  copies := []
  nodup := by decide

def refusesCopy : Command → StatusResponseType
  | .copy _ _ => .no
  | _ => .ok

def accepts : Command → StatusResponseType := fun _ => .ok

theorem move_fallback_keepsMail_iff_uidPlus :
    KeepsMail (.uidSet [⟨1, 1⟩]) (ascii "Archive") oneMarked
        (move [capUIDPlus] (.uidSet [⟨1, 1⟩]) (ascii "Archive")) accepts :=
  (move_fallback_keepsMail_iff [capUIDPlus] (by decide) (.uidSet [⟨1, 1⟩]) (ascii "Archive")
    oneMarked _ (.refl _) accepts).mpr
      fun _ => ⟨fun hrefused => absurd rfl hrefused, fun _ hall => nomatch hall⟩

/-- A refused COPY loses message 1, and without UIDPLUS an accepted one loses
message 2, which the set does not name. -/
theorem move_fallback_loses_mail : ¬KeepsMail (.uidSet [⟨1, 1⟩]) (ascii "Archive") oneMarked
        (move [capUIDPlus] (.uidSet [⟨1, 1⟩]) (ascii "Archive"))
        refusesCopy ∧
      ¬KeepsMail (.uidSet [⟨1, 1⟩]) (ascii "Archive") oneMarked
        (move [] (.uidSet [⟨1, 1⟩]) (ascii "Archive")) accepts := by
  constructor
  · rintro ⟨hrefused, -⟩
    exact absurd (hrefused (by decide)) (by decide)
  · rintro ⟨-, haccepted⟩
    exact absurd (haccepted (by decide) 2 (by decide) (by decide)) (by decide)

end GoImap.Client
