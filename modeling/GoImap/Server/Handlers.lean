import GoImap.MemServer.Session

/-!
# Command handlers on the in-memory backend

A connection checks its state and whether its mailbox is writable before it
calls its session, and polls the session when the command has succeeded.
Commands are taken as parsed; a command that does not parse calls no method of
the session.
-/

namespace GoImap.Server

open Tracker MemServer

structure Conn where
  state : ConnState
  selectedReadOnly : Bool
  selectedPrivateStore : Bool
  mailbox : Option (MailboxId × View)
  backend : Backend

/-- The commands of the selected state.  `kind` tells the UID forms apart. -/
inductive Command where
  | fetch (kind : NumKind) (numSet : MessageSet) (options : FetchOptions) (writeFails : Nat → Bool)
  | store (kind : NumKind) (numSet : MessageSet) (flags : StoreFlags) (options : StoreOptions)
  | search (kind : NumKind) (found : SeqNum → Message → Bool) (options : SearchOptions)
  | searchRefused (options : SearchOptions)
  | sort (kind : NumKind)
  | copy (numSet : MessageSet) (destName : Bytes) (now : Time)
  | move (numSet : MessageSet) (destName : Bytes) (now : Time)
  | expunge (uids : Option NumSet)
  | close

namespace Conn

def stateError : ImapError where
  type := .bad
  code := "CLIENTBUG"
  text := "This command is only valid in the selected state"

def readOnlyError : ImapError where
  type := .no
  text := "Mailbox is read-only"

def badCharsetError : ImapError where
  type := .no
  code := "BADCHARSET"
  text := "Only US-ASCII and UTF-8 are supported SEARCH charsets"

def internalError : ImapError where
  type := .no
  code := "SERVERBUG"
  text := "Internal server error"

def checkSelected (conn : Conn) : Except ImapError Unit :=
  if conn.state = .selected then .ok () else .error stateError

def checkWritableMailbox (conn : Conn) : Except ImapError Unit :=
  match conn.checkSelected with
  | .error err => .error err
  | .ok () => if conn.selectedReadOnly then .error readOnlyError else .ok ()

def select (backend : Backend) (id : MailboxId) (readOnly : Bool) : Conn :=
  let (session, mbox) := (backend.boxes id).newView
  { state := .selected
    selectedReadOnly := readOnly
    selectedPrivateStore := false
    mailbox := some (id,
      { session := session, searchRes := [] })
    backend := backend.setBox id mbox }

def poll (conn : Conn) (allowExpunge : Bool) : Conn :=
  match conn.state, conn.mailbox with
  | .selected, some (id, view) =>
    let mbox := conn.backend.boxes id
    { conn with
      backend := conn.backend.setBox id
        { mbox with tracker := mbox.tracker.pollSession view.session allowExpunge } }
  | _, _ => conn

def unselect (conn : Conn) : Conn :=
  match conn.mailbox with
  | none => conn
  | some (id, view) =>
    let mbox := conn.backend.boxes id
    { state := .authenticated
      selectedReadOnly := false
      selectedPrivateStore := false
      mailbox := none
      backend := conn.backend.setBox id
        { mbox with tracker := mbox.tracker.closeSession view.session } }

/-- FETCH, STORE, SEARCH and SORT by sequence number hold expunges back. -/
def mayExpunge (kind : NumKind) : Bool := kind = .uid

variable [CaseMapping]

def handleFetch (conn : Conn) (kind : NumKind) (numSet : MessageSet)
    (options : FetchOptions) (writeFails : Nat → Bool) :
    Conn × Option ImapError :=
  match conn.checkSelected, conn.mailbox with
  | .error err, _ => (conn, some err)
  | .ok (), none => (conn, none)
  | .ok (), some (id, view) =>
    let (mbox, result) := view.fetch (conn.backend.boxes id) numSet options writeFails
    let conn := { conn with backend := conn.backend.setBox id mbox }
    if result.failed then (conn, some internalError)
    else (conn.poll (mayExpunge kind), none)

def handleStore (conn : Conn) (kind : NumKind) (numSet : MessageSet)
    (flags : StoreFlags) (options : StoreOptions) :
    Conn × Option ImapError :=
  match conn.checkSelected with
  | .error err => (conn, some err)
  | .ok () =>
    match if conn.selectedPrivateStore then .ok ()
        else conn.checkWritableMailbox, conn.mailbox with
    | .error err, _ => (conn, some err)
    | .ok (), none => (conn, none)
    | .ok (), some (id, view) =>
      let (mbox, _) := view.store (conn.backend.boxes id) numSet flags options
      ({ conn with backend := conn.backend.setBox id mbox }.poll (mayExpunge kind), none)

def handleSearch (conn : Conn) (kind : NumKind)
    (found : SeqNum → Message → Bool) (options : SearchOptions) :
    Conn × Option ImapError :=
  match conn.checkSelected, conn.mailbox with
  | .error err, _ => (conn, some err)
  | .ok (), none => (conn, none)
  | .ok (), some (id, view) =>
    let (view, _) := view.search (conn.backend.boxes id) kind found options
    ({ conn with mailbox := some (id, view) }.poll (mayExpunge kind), none)

/-- A SEARCH refused before it reaches the session empties `$` if it was to
save its result. -/
def handleSearchRefused (conn : Conn) (options : SearchOptions) : Conn × Option ImapError :=
  match conn.checkSelected, conn.mailbox with
  | .error err, _ => (conn, some err)
  | .ok (), none => (conn, none)
  | .ok (), some (id, view) =>
    if options.returnSave then
      ({ conn with mailbox := some (id, view.resetSearchRes) }, some badCharsetError)
    else (conn, some badCharsetError)

def handleSort (conn : Conn) (kind : NumKind) : Conn × Option ImapError :=
  match conn.checkSelected with
  | .error err => (conn, some err)
  | .ok () => (conn.poll (mayExpunge kind), none)

def handleCopy (conn : Conn) (numSet : MessageSet) (destName : Bytes)
    (now : Time) : Conn × Option ImapError :=
  match conn.checkSelected, conn.mailbox with
  | .error err, _ => (conn, some err)
  | .ok (), none => (conn, none)
  | .ok (), some (id, view) =>
    match conn.backend.copy id view numSet destName now with
    | .error err => (conn, some err)
    | .ok (backend, _) =>
      ({ conn with backend := backend }.poll true, none)

def handleMove (conn : Conn) (numSet : MessageSet) (destName : Bytes)
    (now : Time) : Conn × Option ImapError :=
  match conn.checkSelected, conn.mailbox with
  | .error err, _ => (conn, some err)
  | .ok (), none => (conn, none)
  | .ok (), some (id, view) =>
    match conn.backend.move id view numSet destName now with
    | .error err => (conn, some err)
    | .ok (backend, _, _) =>
      ({ conn with backend := backend }.poll true, none)

def handleExpunge (conn : Conn) (uids : Option NumSet) : Conn × Option ImapError :=
  match conn.checkWritableMailbox, conn.mailbox with
  | .error err, _ => (conn, some err)
  | .ok (), none => (conn, none)
  | .ok (), some (id, _) =>
    let mbox := (conn.backend.boxes id).expunge uids
    ({ conn with backend := conn.backend.setBox id mbox }.poll true, none)

/-- CLOSE expunges silently, and not at all in a read-only mailbox. -/
def handleClose (conn : Conn) : Conn × Option ImapError :=
  match conn.checkSelected, conn.mailbox with
  | .error err, _ => (conn, some err)
  | .ok (), none => (conn, none)
  | .ok (), some (id, _) =>
    if conn.selectedReadOnly then (conn.unselect, none)
    else
      let mbox := (conn.backend.boxes id).expunge none
      ({ conn with backend := conn.backend.setBox id mbox }.unselect, none)

def handle (conn : Conn) : Command → Conn × Option ImapError
  | .fetch kind numSet options writeFails =>
    conn.handleFetch kind numSet options writeFails
  | .store kind numSet flags options =>
    conn.handleStore kind numSet flags options
  | .search kind found options => conn.handleSearch kind found options
  | .searchRefused options => conn.handleSearchRefused options
  | .sort kind => conn.handleSort kind
  | .copy numSet destName now => conn.handleCopy numSet destName now
  | .move numSet destName now => conn.handleMove numSet destName now
  | .expunge uids => conn.handleExpunge uids
  | .close => conn.handleClose

def step (conn : Conn) (command : Command) : Conn := (conn.handle command).1

end Conn

end GoImap.Server
