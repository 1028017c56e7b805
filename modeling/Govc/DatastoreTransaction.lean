import Govc.DatastoreModel

/-!
# Transactions of the data store

A transaction queues changes by key; all kinds of records share the keys.
`Commit` saves what is queued and then deletes; the kind of a deleted key is
guessed from its shape.  Updates change a record where it is and queue it.
-/

namespace Govc.Datastore

open Go

inductive Queued where
  | object (data : Bytes)
  | repository (pointer : Pointer)
  | user (pointer : Pointer)
  | reference (pointer : Pointer)
  | event (pointer : Pointer)
  | config (key value : GoString)
  deriving DecidableEq

namespace Queued

def asObject : Queued → Option Bytes
  | object data => some data
  | _ => none

def asRepository : Queued → Option Pointer
  | repository pointer => some pointer
  | _ => none

def asUser : Queued → Option Pointer
  | user pointer => some pointer
  | _ => none

def asReference : Queued → Option Pointer
  | reference pointer => some pointer
  | _ => none

end Queued

structure MemoryTransaction where
  mutations : GoMap GoString Queued
  deleted : GoMap GoString Bool
  committed : Bool
  rolledback : Bool

namespace MemoryTransaction

def closed (tx : MemoryTransaction) : Bool := tx.committed || tx.rolledback

def save (key : GoString) (value : Queued) (tx : MemoryTransaction) : MemoryTransaction :=
  { tx with mutations := tx.mutations.insert key value }

def put (hash : GoString) (data : Bytes) (tx : MemoryTransaction) : MemoryTransaction := { tx with
    mutations := tx.mutations.insert hash (.object data)
    deleted := tx.deleted.erase hash }

def delete (key : GoString) (tx : MemoryTransaction) : MemoryTransaction := { tx with
    mutations := tx.mutations.erase key
    deleted := tx.deleted.insert key true }

end MemoryTransaction

structure Session where
  process : Process
  tx : MemoryTransaction

def Process.beginTx (p : Process) : Session := ⟨p, ⟨∅, ∅, false, false⟩⟩

def errTransactionClosed : GoString := str "transaction is closed"

def Repository.revise (repo : Repository) (entry : GoString × Value) : Repository :=
  match entry.2 with
  | .string v =>
    if entry.1 = str "name" then { repo with name := v }
    else if entry.1 = str "description" then { repo with description := v }
    else repo
  | .bool _ => repo
  | .time _ => repo
  | .other => repo

def User.revise (user : User) (entry : GoString × Value) : User :=
  match entry.2 with
  | .string v =>
    if entry.1 = str "username" then { user with username := v }
    else if entry.1 = str "email" then { user with email := v }
    else user
  | .bool _ => user
  | .time _ => user
  | .other => user

namespace Session

def queue (change : MemoryTransaction → MemoryTransaction) : GoM Session Unit := fun s =>
  if s.tx.closed then (.error errTransactionClosed, s)
  else (.ok (), { s with tx := change s.tx })

def putObject (hash : GoString) (data : Bytes) : GoM Session Unit := queue (.put hash data)

def deleteObject (hash : GoString) : GoM Session Unit := queue (.delete hash)

/-! ## Repositories -/

def saveRepository (pointer : Pointer) : GoM Session Unit := fun s =>
  queue (.save (s.process.records.repositories pointer).id (.repository pointer)) s

def getRepository (id : GoString) (s : Session) : Except GoString Pointer :=
  match (s.tx.mutations.lookup id).bind Queued.asRepository with
  | some pointer => .ok pointer
  | none => s.process.getRepository id

def deleteRepository (id : GoString) : GoM Session Unit := queue (.delete id)

def updateRepository (order : RangeOrder) (id : GoString) (updates : Updates) :
    GoM Session Unit := fun s =>
  match s.getRepository id with
  | .error e => (.error e, s)
  | .ok pointer =>
    let repo := (updates.range order).foldl Repository.revise
      (s.process.records.repositories pointer)
    saveRepository pointer { s with process := s.process.setRepository pointer repo }

/-! ## Users -/

def saveUser (pointer : Pointer) : GoM Session Unit := fun s =>
  queue (.save (s.process.records.users pointer).id (.user pointer)) s

def getUser (id : GoString) (s : Session) : Except GoString Pointer :=
  match (s.tx.mutations.lookup id).bind Queued.asUser with
  | some pointer => .ok pointer
  | none => s.process.getUser id

def deleteUser (id : GoString) : GoM Session Unit := queue (.delete id)

def updateUser (order : RangeOrder) (id : GoString) (updates : Updates) :
    GoM Session Unit := fun s =>
  match s.getUser id with
  | .error e => (.error e, s)
  | .ok pointer =>
    let user := (updates.range order).foldl User.revise
      (s.process.records.users pointer)
    saveUser pointer { s with process := s.process.setUser pointer user }

/-! ## References -/

def saveRef (repoID : GoString) (pointer : Pointer) : GoM Session Unit := fun s =>
    queue (.save (Process.refKey repoID
      (s.process.records.references pointer).name) (.reference pointer)) s

def getRef (repoID name : GoString) (s : Session) : Except GoString Pointer :=
  match (s.tx.mutations.lookup (Process.refKey repoID name)).bind
      Queued.asReference with
  | some pointer => .ok pointer
  | none => s.process.getRef repoID name

def deleteRef (repoID name : GoString) : GoM Session Unit :=
  queue (.delete (Process.refKey repoID name))

def updateRef (repoID name newHash : GoString) : GoM Session Unit := fun s =>
  match s.getRef repoID name with
  | .error e => (.error e, s)
  | .ok pointer =>
    let ref := { s.process.records.references pointer with hash := newHash }
    saveRef repoID pointer { s with process := s.process.setReference pointer ref }

/-! ## Events and configuration -/

def logEvent (pointer : Pointer) : GoM Session Unit := fun s =>
  queue (.save (s.process.records.events pointer).id (.event pointer)) s

def setConfig (key value : GoString) : GoM Session Unit := queue (.save key (.config key value))

def deleteConfig (key : GoString) : GoM Session Unit := queue (.delete key)

/-! ## The end of a transaction -/

def errCommitted : GoString := str "transaction already committed"

def errRolledBack : GoString := str "transaction already rolled back"

def rollback : GoM Session Unit := fun s =>
  if s.tx.committed then (.error errCommitted, s)
  else if s.tx.rolledback then (.error errRolledBack, s)
  else
    (.ok (),
      { s with
        tx := { s.tx with mutations := ∅, deleted := ∅, rolledback := true } })

def isObjectKey (key : GoString) : Bool := decide (key.length = 40) || decide (key.length = 64)

def isRepoKey (key : GoString) : Bool := decide (key.length = 36)

def isUserKey (key : GoString) : Bool := decide (key.length = 36)

/-- The two parts of the key of a reference; other keys have none. -/
def splitRefKey (key : GoString) : Option (GoString × GoString) :=
  match indexByte key 58 with
  | some i => if 0 < i then some (key.take i, key.drop (i + 1)) else none
  | none => none

def dropError (m : GoM Process Unit) : GoM Process Unit := GoM.attempt m >>= fun _ => pure ()

def applyMutation (stamp : Stamp) (key : GoString) : Queued → GoM Process Unit
  | .object data => Process.putObject key data
  | .repository pointer => Process.saveRepository stamp pointer
  | .user pointer => Process.saveUser stamp pointer
  | .reference pointer =>
    match splitRefKey key with
    | some parts => Process.saveRef stamp.updated parts.1 pointer
    | none => pure ()
  | .event pointer => Process.logEvent stamp pointer
  | .config key value => Process.setConfig key value

def applyDeletion (order : RangeOrder) (key : GoString) : GoM Process Unit :=
  if isObjectKey key then dropError (Process.deleteObject key)
  else if isRepoKey key then dropError (Process.deleteRepository order key)
  else if isUserKey key then dropError (Process.deleteUser key)
  else
    match splitRefKey key with
    | some parts => dropError (Process.deleteRef parts.1 parts.2)
    | none => dropError (Process.deleteConfig key)

/-- The orders of the loops of `Commit`, and what the clock and `uuid.New` give
while a key is saved. -/
structure CommitRun where
  saves : RangeOrder
  deletes : RangeOrder
  refs : RangeOrder
  stamps : GoString → Stamp

def publish (run : CommitRun) (tx : MemoryTransaction) : GoM Process Unit :=
  GoM.forEach (tx.mutations.range run.saves) (fun entry =>
    applyMutation (run.stamps entry.1) entry.1 entry.2) >>= fun _ =>
  GoM.forEach (tx.deleted.range run.deletes) fun entry =>
    if entry.2 then applyDeletion run.refs entry.1 else pure ()

def commit (run : CommitRun) : GoM Session Unit := fun s =>
  if s.tx.committed then (.error errCommitted, s)
  else if s.tx.rolledback then (.error errRolledBack, s)
  else
    (GoM.zoom Session.process (fun s p => { s with process := p })
        (publish run s.tx) >>= fun _ =>
      GoM.update fun s => { s with tx := { s.tx with committed := true } }) s

end Session

/-! ## Operations -/

inductive TxOp where
  | putObject (hash : GoString) (data : Bytes)
  | deleteObject (hash : GoString)
  | saveRepository (pointer : Pointer)
  | deleteRepository (id : GoString)
  | updateRepository (order : RangeOrder) (id : GoString) (updates : Updates)
  | saveUser (pointer : Pointer)
  | deleteUser (id : GoString)
  | updateUser (order : RangeOrder) (id : GoString) (updates : Updates)
  | saveRef (repoID : GoString) (pointer : Pointer)
  | deleteRef (repoID name : GoString)
  | updateRef (repoID name newHash : GoString)
  | logEvent (pointer : Pointer)
  | setConfig (key value : GoString)
  | deleteConfig (key : GoString)
  | rollback

def TxOp.call : TxOp → GoM Session Unit
  | putObject hash data => Session.putObject hash data
  | deleteObject hash => Session.deleteObject hash
  | saveRepository pointer => Session.saveRepository pointer
  | deleteRepository id => Session.deleteRepository id
  | updateRepository order id updates =>
    Session.updateRepository order id updates
  | saveUser pointer => Session.saveUser pointer
  | deleteUser id => Session.deleteUser id
  | updateUser order id updates => Session.updateUser order id updates
  | saveRef repoID pointer => Session.saveRef repoID pointer
  | deleteRef repoID name => Session.deleteRef repoID name
  | updateRef repoID name newHash => Session.updateRef repoID name newHash
  | logEvent pointer => Session.logEvent pointer
  | setConfig key value => Session.setConfig key value
  | deleteConfig key => Session.deleteConfig key
  | rollback => Session.rollback

def Session.perform (s : Session) (op : TxOp) : Session := (op.call s).2

end Govc.Datastore
