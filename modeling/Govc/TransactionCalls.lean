import Govc.GuardedRuns
import Govc.TransactionSteps

/-!
# Runs of the transaction calls

A program drives its transactions by five calls.  What each of them does to
the manager is said once, as a relation with one case for each way a call can
go; the life of the transactions follows from these cases.
-/

namespace Govc

open Go ManagedRepository
open Runs

open ManagedRepository (FileOperation)

inductive TransactionCall where
  | begin (call : Call)
  | fileOperation (id : GoString) (op : FileOperation)
  | prepare (call : Call) (id : GoString)
  | commit (call : Call) (id message : GoString)
  | abort (id : GoString)

namespace TransactionCall

variable {β : Type} [Backend β]

def run (host : Host) (s : ManagedRepository β) : TransactionCall → ManagedRepository β
  | begin call => (beginTransaction host call s).2
  | fileOperation id op => (ManagedRepository.fileOperation host id op s).2
  | prepare call id => (ManagedRepository.prepare call id s).2
  | commit call id message =>
    (ManagedRepository.commit host call id message s).2
  | abort id => (ManagedRepository.abort id s).2

end TransactionCall

/-- All runs of transaction calls on a repository without earlier
transactions. -/
def transactionSystem (β : Type) [Backend β] (host : Host) :
    System (ManagedRepository β) TransactionCall where
  init s := s.repo.store.Honest host ∧ s.manager = TransactionManager.new
  step s label s' := s' = label.run host s

/-! ## What a call does to the manager -/

def TransactionManager.put (manager : TransactionManager)
    (txn : AtomicTransaction) : TransactionManager :=
  { manager with txns := manager.txns.insert txn.id txn }

open ManagedRepository (Open Committable generateTransactionID
  detectConflicts)

section

variable {β : Type} [Backend β]

inductive ManagerStep (host : Host) (s : ManagedRepository β) :
    TransactionCall → TransactionManager → Prop where
  | refused (label : TransactionCall) : ManagerStep host s label s.manager
  | drawn (call : Call) :
      ManagerStep host s (.begin call) { s.manager with nextTxnID := s.manager.nextTxnID + 1 }
  | begun (call : Call) (snapshot : GoMap GoString GoString) :
      ManagerStep host s (.begin call)
        (s.manager.begun (generateTransactionID call.unixNano (s.manager.nextTxnID + 1)) snapshot)
  | recorded {id : GoString} {txn : AtomicTransaction} (op : FileOperation)
      (fileOp : AtomicFileOp)
      (hlookup : s.manager.txns.lookup id = some txn) (hopen : Open txn)
      (hclear : txn.conflictSet.lookup op.path = none) :
      ManagerStep host s (.fileOperation id op) (s.manager.put (txn.record op.path fileOp))
  | conflicted {id : GoString} {txn : AtomicTransaction} (call : Call)
      {path other : GoString}
      (hlookup : s.manager.txns.lookup id = some txn) (hopen : Open txn)
      (hfound : detectConflicts call s.manager txn = some (path, other)) :
      ManagerStep host s (.prepare call id) (s.manager.put (txn.conflicted path other))
  | prepared {id : GoString} {txn : AtomicTransaction} (call : Call)
      (hlookup : s.manager.txns.lookup id = some txn) (hopen : Open txn)
      (hfound : detectConflicts call s.manager txn = none) :
      ManagerStep host s (.prepare call id) (s.manager.put txn.prepared)
  | committed {id : GoString} {txn : AtomicTransaction} (call : Call)
      (message : GoString) (hlookup : s.manager.txns.lookup id = some txn)
      (hstate : Committable txn) :
      ManagerStep host s (.commit call id message)
        ((s.manager.committing txn.id).put (txn.completed .committed))
  | failed {id : GoString} {txn : AtomicTransaction} (call : Call)
      (message : GoString) {e : GoString}
      (hlookup : s.manager.txns.lookup id = some txn)
      (hstate : Committable txn)
      (herror : (Repository.commit host call message s.repo).1 = .error e) :
      ManagerStep host s (.commit call id message) (s.manager.put (txn.inState .aborted))
  | aborted {id : GoString} {txn : AtomicTransaction}
      (hlookup : s.manager.txns.lookup id = some txn)
      (hstate : txn.state ≠ .committed) :
      ManagerStep host s (.abort id) ((s.manager.aborting txn.id).put (txn.completed .aborted))

theorem TransactionCall.run_managerStep (host : Host)
    (label : TransactionCall) (s : ManagedRepository β) :
    ManagerStep host s label (label.run host s).manager := by
  cases label with
  | begin call =>
    obtain ⟨objects, after, _, ⟨snapshot, hbegun⟩ | ⟨_, hdrawn⟩⟩ := beginTransaction_run host s
    · rw [run, hbegun]
      exact .begun call snapshot
    · rw [run, hdrawn]
      exact .drawn call
  | fileOperation id op =>
    obtain ⟨objects, after, _, hrecorded | ⟨_, hsame⟩⟩ := fileOperation_run host s
    · obtain ⟨txn, fileOp, hlookup, hopen, hclear, _, hrun⟩ := hrecorded
      rw [run, hrun]
      exact .recorded op fileOp hlookup hopen hclear
    · rw [run, hsame]
      exact .refused _
  | prepare call id =>
    by_cases hready : ∃ txn, s.manager.txns.lookup id = some txn ∧ Open txn
    · obtain ⟨txn, hlookup, hopen⟩ := hready
      rw [run]
      rcases prepare_run_open call hlookup hopen with
        ⟨path, other, hfound, hrun⟩ | ⟨hfound, _, hrun⟩
      · rw [hrun]
        exact .conflicted call hlookup hopen hfound
      · rw [hrun]
        exact .prepared call hlookup hopen hfound
    · have hrefused := prepare_run_refused call
        (fun txn hlookup hopen => hready ⟨txn, hlookup, hopen⟩)
      rw [run, hrefused.1]
      exact .refused _
  | commit call id message =>
    by_cases hready : ∃ txn, s.manager.txns.lookup id = some txn ∧ Committable txn
    · obtain ⟨txn, hlookup, hstate⟩ := hready
      rw [run]
      rcases commit_run_committable host hlookup hstate with
        ⟨after, _, hrun⟩ | ⟨objects, after, e, _, herror, hrun⟩
      · rw [hrun]
        exact .committed call message hlookup hstate
      · rw [hrun]
        exact .failed call message hlookup hstate herror
    · have hrefused := commit_run_refused host call message
        (fun txn hlookup hstate => hready ⟨txn, hlookup, hstate⟩)
      rw [run, hrefused.1]
      exact .refused _
  | abort id =>
    by_cases hready : ∃ txn, s.manager.txns.lookup id = some txn ∧ txn.state ≠ .committed
    · obtain ⟨txn, hlookup, hstate⟩ := hready
      rw [run, abort_run hlookup hstate]
      exact .aborted hlookup hstate
    · have hrefused := abort_run_refused
        (fun txn hlookup => by_contra fun hstate =>
          hready ⟨txn, hlookup, hstate⟩)
      rw [run, hrefused.1]
      exact .refused _

end

end Govc
