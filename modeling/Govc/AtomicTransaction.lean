import Govc.RepositoryHistory

/-!
# Atomic transactions

`Prepare` runs the operations of a transaction against the one staging area of
the repository, `Commit` commits that staging area and `Abort` runs the
compensations in reverse.

The manager holds all transactions by identifier.  Fields that are only
written (contents, checksums, time stamps, messages, retry counts, the conflict
graph) are left out.
-/

namespace Govc

open Go GoM

inductive TxnState where
  | pending
  | preparing
  | prepared
  | committing
  | committed
  | aborting
  | aborted
  | conflicted
  deriving DecidableEq, Repr

def TxnState.text : TxnState → GoString
  | .pending => str "Pending"
  | .preparing => str "Preparing"
  | .prepared => str "Prepared"
  | .committing => str "Committing"
  | .committed => str "Committed"
  | .aborting => str "Aborting"
  | .aborted => str "Aborted"
  | .conflicted => str "Conflicted"

inductive FileOpType where
  | create
  | update
  | delete
  deriving DecidableEq, Repr

structure AtomicFileOp where
  type : FileOpType
  oldHash : GoString
  newHash : GoString
  deriving DecidableEq, Repr

structure AtomicOperation where
  path : GoString
  fileOp : AtomicFileOp
  executed : Bool
  deriving DecidableEq, Repr

namespace AtomicOperation

def execute (op : AtomicOperation) (staging : StagingArea) : StagingArea :=
  match op.fileOp.type with
  | .create => staging.addHash op.path op.fileOp.newHash
  | .update => staging.addHash op.path op.fileOp.newHash
  | .delete => staging.remove op.path

def compensate (op : AtomicOperation) (staging : StagingArea) : StagingArea :=
  match op.fileOp.type with
  | .create => staging.remove op.path
  | .update =>
    if op.fileOp.oldHash ≠ [] then
      staging.addHash op.path op.fileOp.oldHash
    else staging.remove op.path
  | .delete => staging.addHash op.path op.fileOp.oldHash

end AtomicOperation

structure AtomicTransaction where
  id : GoString
  state : TxnState
  fileStates : GoMap GoString GoString
  writeSet : GoMap GoString AtomicFileOp
  conflictSet : GoMap GoString GoString
  operations : List AtomicOperation
  preparedClosed : Bool
  completedClosed : Bool

namespace AtomicTransaction

def new (id : GoString) (fileStates : GoMap GoString GoString) : AtomicTransaction where
  id := id
  state := .pending
  fileStates := fileStates
  writeSet := ∅
  conflictSet := ∅
  operations := []
  preparedClosed := false
  completedClosed := false

def inState (txn : AtomicTransaction) (state : TxnState) : AtomicTransaction :=
  { txn with state := state }

def isActive (txn : AtomicTransaction) : Bool :=
  txn.state = .pending ∨ txn.state = .preparing ∨ txn.state = .prepared ∨ txn.state = .committing

def record (txn : AtomicTransaction) (path : GoString)
    (fileOp : AtomicFileOp) : AtomicTransaction :=
  { txn with
    writeSet := txn.writeSet.insert path fileOp
    operations := txn.operations ++ [⟨path, fileOp, false⟩] }

def execute (txn : AtomicTransaction) (staging : StagingArea) : StagingArea :=
  txn.operations.foldl (fun staging op => op.execute staging) staging

def markExecuted (txn : AtomicTransaction) : AtomicTransaction := { txn with
    operations := txn.operations.map fun op => { op with executed := true } }

def rollback (txn : AtomicTransaction) (staging : StagingArea) : StagingArea :=
  txn.operations.reverse.foldl
    (fun staging op => if op.executed then op.compensate staging else staging)
    staging

end AtomicTransaction

structure TransactionManager where
  txns : GoMap GoString AtomicTransaction
  activeTxns : GoMap GoString Unit
  committedTxns : GoMap GoString Unit
  nextTxnID : ℕ
  totalTxns : ℕ
  committedCount : ℕ
  abortedCount : ℕ

def TransactionManager.new : TransactionManager where
  txns := ∅
  activeTxns := ∅
  committedTxns := ∅
  nextTxnID := 0
  totalTxns := 0
  committedCount := 0
  abortedCount := 0

structure ManagedRepository (β : Type) where
  repo : Repository β
  manager : TransactionManager

namespace ManagedRepository

variable {β : Type}

def withBackend (backend : β) : ManagedRepository β where
  repo := Repository.withBackend backend
  manager := TransactionManager.new

def onRepo {α : Type} (m : GoM (Repository β) α) : GoM (ManagedRepository β) α :=
  zoom repo (fun managed repo => { managed with repo := repo }) m

def mapManager (f : TransactionManager → TransactionManager) : GoM (ManagedRepository β) Unit :=
  GoM.update fun managed => { managed with manager := f managed.manager }

def mapStaging (f : StagingArea → StagingArea) : GoM (ManagedRepository β) Unit :=
  onRepo (Repository.mapStaging f)

def getTxn (id : GoString) : GoM (ManagedRepository β) AtomicTransaction := fun managed =>
    match managed.manager.txns.lookup id with
    | some txn => (.ok txn, managed)
    | none => (.panic (str "nil pointer dereference"), managed)

def setTxn (txn : AtomicTransaction) : GoM (ManagedRepository β) Unit := mapManager fun manager =>
    { manager with txns := manager.txns.insert txn.id txn }

def closeOfClosed : GoString := str "close of closed channel"

/-! ## Begin -/

def generateTransactionID (unixNano : ℤ) (serial : ℕ) : GoString :=
  str "txn_" ++ formatInt unixNano ++ str "_" ++ formatNat serial

variable [Backend β]

/-- A tree entry with mode `040000` is a directory; its tree is found through
the repository of any active transaction, and skipped when there is none. -/
def collectFileStates (host : Host) (anyActive : Bool) :
    ℕ → Tree → GoString → GoMap GoString GoString → GoM (Repository β) (GoMap GoString GoString)
  | 0, _, _, _ => diverge
  | fuel + 1, tree, front, states =>
    tree.entries.foldlM (fun states entry => do
      let fullPath :=
        if front ≠ [] then front ++ str "/" ++ entry.name else entry.name
      if entry.mode = str "040000" then
        if anyActive then
          match ← attempt
              (Repository.onStore (Store.getTree host entry.hash)) with
          | .ok subTree =>
            collectFileStates host anyActive fuel subTree fullPath states
          | .error _ => pure states
        else pure states
      else pure (states.insert fullPath entry.hash)) states

/-- The files of the commit HEAD points to; an unreadable commit has none. -/
def committedStates (host : Host) (anyActive : Bool) :
    GoM (Repository β) (GoMap GoString GoString) := do
  match ← view fun repo => repo.refs.getHEAD with
  | .error _ => pure ∅
  | .ok hash =>
    if hash = [] then pure ∅
    else
      match ← attempt (Repository.loadTree host hash) with
      | .error _ => pure ∅
      | .ok tree => do
        let fuel ← Repository.walkFuel
        collectFileStates host anyActive fuel tree [] ∅

def createSnapshot (host : Host) (order : RangeOrder) (anyActive : Bool) :
    GoM (Repository β) (GoMap GoString GoString) := do
  let committed ← committedStates host anyActive
  let staged ← view fun repo => repo.staging.files.range order
  pure (staged.foldl (fun states file => states.insert file.1 file.2) committed)

def beginTransaction (host : Host) (call : Call) : GoM (ManagedRepository β) GoString := do
  mapManager fun manager => { manager with nextTxnID := manager.nextTxnID + 1 }
  let serial ← view fun managed => managed.manager.nextTxnID
  let id := generateTransactionID call.unixNano serial
  let anyActive ← view fun managed =>
    decide (managed.manager.activeTxns.keys ≠ [])
  let snapshot ← onRepo (createSnapshot host (call.order 0) anyActive)
  setTxn (AtomicTransaction.new id snapshot)
  mapManager fun manager =>
    { manager with
      activeTxns := manager.activeTxns.insert id ()
      totalTxns := manager.totalTxns + 1 }
  pure id

/-! ## File operations -/

/-- The blob is stored as it is: the compression step returns its input. -/
def storeBlobWithDelta (host : Host) (content : Bytes) : GoM (Repository β) GoString := do
  let hash := (Object.blob content).hash host
  let storedHash ← Repository.onStore (Store.storeBlob host content)
  if storedHash ≠ hash then
    fail (str "hash mismatch: expected " ++ hash ++ str ", got " ++ storedHash)
  else pure hash

def openForFileOp (id path : GoString) : GoM (ManagedRepository β) AtomicTransaction := do
  let txn ← getTxn id
  if txn.state ≠ .pending ∧ txn.state ≠ .preparing then
    fail (str "transaction " ++ id ++
      str " not in valid state for file operations: " ++ txn.state.text)
  else
    match txn.conflictSet.lookup path with
    | some conflictID =>
      fail (str "path " ++ path ++ str " conflicts with transaction " ++ conflictID)
    | none => pure txn

def storeFor (host : Host) (path : GoString) (content : Bytes) :
    GoM (ManagedRepository β) GoString :=
  mapError (fun e => str "failed to store blob for " ++ path ++ str ": " ++ e)
    (onRepo (storeBlobWithDelta host content))

/-- The content of the old version, if there is one, is read and kept nowhere
else. -/
def readOld (host : Host) : Option GoString → GoM (ManagedRepository β) Unit
  | none => pure ()
  | some oldHash => do
    let _ ← attempt
      (onRepo (Repository.onStore (Store.getBlob host oldHash)))
    pure ()

def atomicFileCreate (host : Host) (id path : GoString) (content : Bytes) :
    GoM (ManagedRepository β) Unit := do
  let txn ← openForFileOp id path
  if txn.writeSet.contains path then
    fail (str "path " ++ path ++ str " already modified in this transaction")
  else do
    let hash ← storeFor host path content
    setTxn (txn.record path ⟨.create, [], hash⟩)

def atomicFileUpdate (host : Host) (id path : GoString) (content : Bytes) :
    GoM (ManagedRepository β) Unit := do
  let txn ← openForFileOp id path
  readOld host (txn.fileStates.lookup path)
  let newHash ← storeFor host path content
  let oldHash := (txn.fileStates.lookup path).getD []
  setTxn (txn.record path ⟨.update, oldHash, newHash⟩)

def atomicFileDelete (host : Host) (id path : GoString) : GoM (ManagedRepository β) Unit := do
  let txn ← openForFileOp id path
  match txn.writeSet.lookup path with
  | some fileOp =>
    if fileOp.type = .delete then
      fail (str "file " ++ path ++ str " already being deleted in this transaction")
    else setTxn (txn.record path ⟨.delete, fileOp.newHash, []⟩)
  | none =>
    match txn.fileStates.lookup path with
    | none => fail (str "file " ++ path ++ str " does not exist")
    | some oldHash => do
      readOld host (some oldHash)
      setTxn (txn.record path ⟨.delete, oldHash, []⟩)

/-! ## Prepare, commit, abort -/

/-- One round of the scan: a path that both transactions write, if the other
one is preparing or prepared. -/
def conflictWith (order : RangeOrder) (txn other : AtomicTransaction) : Option GoString :=
  if other.state ≠ .preparing ∧ other.state ≠ .prepared then none
  else
    (order.visit txn.writeSet.keys).find? fun path =>
      other.writeSet.contains path

/-- The first path and transaction in conflict, in the order of the `range`
loops over the active transactions and over the write set. -/
def detectConflicts (call : Call) (manager : TransactionManager)
    (txn : AtomicTransaction) : Option (GoString × GoString) :=
  ((call.order 0).visit manager.activeTxns.keys).zipIdx.findSome?
    fun (otherID, turn) =>
      if otherID = txn.id then none
      else
        (manager.txns.lookup otherID).bind fun other =>
          (conflictWith (call.order (turn + 1)) txn other).map fun path =>
            (path, otherID)

def prepare (call : Call) (id : GoString) : GoM (ManagedRepository β) Unit := do
  let txn ← getTxn id
  if txn.state ≠ .pending ∧ txn.state ≠ .preparing then
    fail (str "transaction " ++ id ++ str " not in valid state for prepare: " ++ txn.state.text)
  else do
    setTxn (txn.inState .preparing)
    match ← view fun managed =>
        detectConflicts call managed.manager txn with
    | some (path, otherID) => do
      setTxn { txn with
        state := .conflicted
        conflictSet := txn.conflictSet.insert path otherID }
      fail (str "write-write conflict on path " ++ path ++ str " with transaction " ++ otherID)
    | none => do
      mapStaging txn.execute
      if txn.preparedClosed then do
        setTxn (txn.markExecuted.inState .prepared)
        crash closeOfClosed
      else
        setTxn { txn.markExecuted with
          state := .prepared
          preparedClosed := true }

def finishCommit (txn : AtomicTransaction) : GoM (ManagedRepository β) Unit := do
  mapManager fun manager =>
    { manager with
      committedCount := manager.committedCount + 1
      activeTxns := manager.activeTxns.erase txn.id
      committedTxns := manager.committedTxns.insert txn.id () }
  if txn.completedClosed then do
    setTxn (txn.inState .committed)
    crash closeOfClosed
  else
    setTxn { txn with state := .committed, completedClosed := true }

def commit (host : Host) (call : Call) (id message : GoString) :
    GoM (ManagedRepository β) Commit := do
  let txn ← getTxn id
  if txn.state ≠ .prepared ∧ txn.state ≠ .committing then
    fail (str "transaction " ++ id ++ str " not in valid state for commit: " ++ txn.state.text)
  else do
    setTxn (txn.inState .committing)
    match ← attempt (onRepo (Repository.commit host call message)) with
    | .error e => do
      mapStaging txn.rollback
      setTxn (txn.inState .aborted)
      fail (str "commit failed: " ++ e)
    | .ok made => do
      finishCommit txn
      pure made

/-- Only a committed transaction refuses to be aborted; the compensations run
again each time. -/
def abort (id : GoString) : GoM (ManagedRepository β) Unit := do
  let txn ← getTxn id
  if txn.state = .committed then
    fail (str "cannot abort committed transaction " ++ id)
  else do
    mapStaging txn.rollback
    mapManager fun manager =>
      { manager with
        abortedCount := manager.abortedCount + 1
        activeTxns := manager.activeTxns.erase txn.id }
    if txn.completedClosed then do
      setTxn (txn.inState .aborted)
      crash closeOfClosed
    else
      setTxn { txn with state := .aborted, completedClosed := true }

/-! ## One-call commits -/

inductive FileOperation where
  | create (path : GoString) (content : Bytes)
  | update (path : GoString) (content : Bytes)
  | delete (path : GoString)

def FileOperation.path : FileOperation → GoString
  | .create path _ => path
  | .update path _ => path
  | .delete path => path

def fileOperation (host : Host) (id : GoString) : FileOperation → GoM (ManagedRepository β) Unit
  | .create path content => atomicFileCreate host id path content
  | .update path content => atomicFileUpdate host id path content
  | .delete path => atomicFileDelete host id path

def abortIfActive (id : GoString) : GoM (ManagedRepository β) Unit := do
  let txn ← getTxn id
  if txn.isActive then abort id else pure ()

def atomicCommit (host : Host) (call : Call) (message : GoString)
    (operations : List FileOperation) : GoM (ManagedRepository β) Commit := do
  let id ← beginTransaction host (call.part 0)
  deferring (abortIfActive id) do
    mapError (fun e => str "transaction operations failed: " ++ e)
      (forEach operations (fileOperation host id))
    mapError (fun e => str "transaction prepare failed: " ++ e) (prepare (call.part 1) id)
    commit host (call.part 2) id message

end ManagedRepository

end Govc
