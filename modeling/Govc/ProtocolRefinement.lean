import Govc.PrepareProtocol
import Govc.TransactionCalls

/-!
# Whole calls as runs of the protocol

A call that nobody interrupts is a run of the protocol.  So every sequence of
calls moves the manager as the protocol does, and what holds in all
interleavings holds between the calls.
-/

namespace Govc

open Go
open Runs

namespace Protocol

open ManagedRepository (generateTransactionID conflictWith detectConflicts
  Open Committable Flagged Overlap)

def calm (manager : TransactionManager) (past : GoString → List GoString) : Protocol :=
  ⟨manager, fun _ => .idle, past⟩

/-- Only the transaction `txn` is inside a call. -/
def busy (manager : TransactionManager) (past : GoString → List GoString)
    (txn : AtomicTransaction) (phase : Phase) : Protocol :=
  ⟨manager.put txn, Function.update (fun _ => .idle) txn.id phase, past⟩

variable (manager : TransactionManager)

variable (past : GoString → List GoString)

variable (txn : AtomicTransaction)

theorem busy_idle : busy manager past txn .idle = calm (manager.put txn) past := by
  unfold busy calm
  rw [Function.update_eq_self_iff.mpr rfl]

theorem calm_move (phase : Phase) :
    (calm manager past).move txn phase = busy manager past txn phase := rfl

theorem busy_move {txn txn' : AtomicTransaction}
    (hid : txn'.id = txn.id) (phase phase' : Phase) :
    (busy manager past txn phase).move txn' phase' = busy manager past txn' phase' := by
  simp only [move, busy, TransactionManager.put, hid, AList.insert_insert, Function.update_idem]

theorem busy_lookup (phase : Phase) :
    (busy manager past txn phase).manager.txns.lookup txn.id = some txn :=
  AList.lookup_insert _

theorem busy_phase (phase : Phase) : (busy manager past txn phase).phase txn.id = phase := by
  simp only [busy, Function.update_self]

abbrev Runs (first last : Protocol) : Prop := Steps protocolSystem (fun _ _ => True) first last

theorem Runs.own {first s s' : Protocol} {txn : AtomicTransaction}
    (step : OwnStep) (hfirst : Runs first s)
    (hlookup : s.manager.txns.lookup txn.id = some txn)
    (hnext : s.nextOf txn step = some s') : Runs first s' := by
  apply Steps.tail hfirst trivial
  show s.next (.own txn.id step) = some s'
  rw [next, hlookup]
  exact hnext

section Calls

variable {manager : TransactionManager} (past : GoString → List GoString)
  {txn : AtomicTransaction}

theorem busy_lookup_ne (hne : otherID ≠ txn.id) {phase : Phase} :
    (busy manager past txn phase).manager.txns.lookup otherID = manager.txns.lookup otherID :=
  AList.lookup_insert_ne hne

theorem check_runs (order : RangeOrder) {otherID : GoString} (rest : List GoString) :
    Runs (busy manager past txn (.scanning (otherID :: rest)))
      ((busy manager past txn (.scanning (otherID :: rest))).checkOne txn order otherID rest) := by
  apply Runs.own (.check order) .refl (busy_lookup _ _ _ _)
  simp only [nextOf, busy_phase]

def scanned (manager : TransactionManager) (past : GoString → List GoString)
    (txn : AtomicTransaction) : Option (GoString × GoString) → Protocol
  | none => busy manager past txn (.scanning [])
  | some (path, otherID) => busy manager past { txn with
      conflictSet := txn.conflictSet.insert path otherID } .clashed

theorem scan_runs {call : Call} {todo : List GoString} (turn : ℕ) :
    Runs (busy manager past txn (.scanning todo)) (scanned manager past txn
      ((todo.zipIdx turn).findSome? fun (otherID, turn) =>
        if otherID = txn.id then none
        else
          (manager.txns.lookup otherID).bind fun other =>
            (conflictWith (call.order (turn + 1)) txn other).map fun path =>
              (path, otherID))) := by
  induction todo generalizing turn with
  | nil => exact .refl
  | cons otherID rest ih =>
    refine Steps.trans (check_runs past (call.order (turn + 1)) rest) ?_
    rw [List.zipIdx_cons, List.findSome?_cons]
    unfold checkOne
    by_cases hself : otherID = txn.id
    · simp only [if_pos hself]
      rw [busy_move _ _ rfl]
      exact ih (turn + 1)
    · simp only [if_neg hself, busy_lookup_ne past hself]
      cases hother : manager.txns.lookup otherID with
      | none =>
        rw [busy_move _ _ rfl]
        exact ih (turn + 1)
      | some other =>
        simp only [Option.bind_some]
        cases hpath : conflictWith (call.order (turn + 1)) txn other with
        | none =>
          rw [busy_move _ _ rfl]
          exact ih (turn + 1)
        | some path =>
          simp only [Option.map_some]
          rw [busy_move]
          · exact .refl
          · rfl

theorem prepare_runs (call : Call)
    (hlookup : manager.txns.lookup txn.id = some txn) (hopen : Open txn) :
    Runs (calm manager past) (match detectConflicts call manager txn with
      | none => busy manager past txn.prepared .idle
      | some (path, otherID) =>
        busy manager past (txn.conflicted path otherID) .idle) := by
  have hflag : Runs (calm manager past) (busy manager past (txn.inState .preparing) .flagged) := by
    apply Runs.own .raiseFlag .refl hlookup
    rw [nextOf, if_pos ⟨rfl, hopen⟩, calm_move]
  have hstart : Runs (calm manager past)
      (busy manager past (txn.inState .preparing)
        (.scanning ((call.order 0).visit manager.activeTxns.keys))) := by
    apply Runs.own (.startScan (call.order 0)) hflag (busy_lookup _ _ _ _)
    rw [nextOf, if_pos (busy_phase _ _ _ _), busy_move _ _ rfl]
    rfl
  have hscan : Runs (calm manager past) (scanned manager past
      (txn.inState .preparing) (detectConflicts call manager txn)) :=
    hstart.trans (scan_runs past 0)
  cases hfound : detectConflicts call manager txn with
  | none =>
    rw [hfound] at hscan
    apply Runs.own .finishPrepare hscan (busy_lookup _ _ _ _)
    rw [nextOf, scanned, if_pos (busy_phase _ _ _ _)]
    exact congrArg some (busy_move manager past (by rfl) _ _)
  | some found =>
    rw [hfound] at hscan
    apply Runs.own .reportConflict hscan (busy_lookup _ _ _ _)
    rw [nextOf, scanned, if_pos (busy_phase _ _ _ _)]
    exact congrArg some (busy_move manager past (by rfl) _ _)

variable (hlookup : manager.txns.lookup txn.id = some txn)

include hlookup

theorem startCommit_runs (hstate : Committable txn) :
    Runs (calm manager past) (busy manager past (txn.inState .committing) .committing) := by
  apply Runs.own .startCommit .refl hlookup
  rw [nextOf, if_pos ⟨rfl, hstate⟩, calm_move]

theorem commit_runs (hstate : Committable txn) :
    Runs (calm manager past) (busy (manager.committing txn.id) past
      (txn.completed .committed) .idle) := by
  have hfinish : Runs (calm manager past) (busy { manager with
      committedCount := manager.committedCount + 1 } past (txn.inState .committed) .committed) := by
    apply Runs.own (.finishCommit true) (startCommit_runs past hlookup hstate) (busy_lookup _ _ _ _)
    rw [nextOf, if_pos (busy_phase _ _ _ _), if_pos rfl]
    exact congrArg some (busy_move { manager with
      committedCount := manager.committedCount + 1 } past (by rfl) _ _)
  apply Runs.own .retireCommitted hfinish (busy_lookup _ _ _ _)
  rw [nextOf, if_pos (busy_phase _ _ _ _)]
  exact congrArg some (busy_move (manager.committing txn.id) past (by rfl) _ _)

theorem failedCommit_runs (hstate : Committable txn) :
    Runs (calm manager past) (busy manager past (txn.inState .aborted) .idle) := by
  apply Runs.own (.finishCommit false) (startCommit_runs past hlookup hstate) (busy_lookup _ _ _ _)
  rw [nextOf, if_pos (busy_phase _ _ _ _), if_neg Bool.false_ne_true]
  exact congrArg some (busy_move manager past (by rfl) _ _)

theorem abort_runs (hstate : txn.state ≠ .committed) :
    Runs (calm manager past) (busy (manager.aborting txn.id) past
      (txn.completed .aborted) .idle) := by
  have hstart : Runs (calm manager past) (busy manager past (txn.inState .aborting) .aborting) := by
    apply Runs.own .startAbort .refl hlookup
    rw [nextOf, if_pos ⟨rfl, hstate⟩, calm_move]
  have hfinish : Runs (calm manager past) (busy { manager with
      abortedCount := manager.abortedCount + 1 } past (txn.inState .aborted) .aborted) := by
    apply Runs.own .finishAbort hstart (busy_lookup _ _ _ _)
    rw [nextOf, if_pos (busy_phase _ _ _ _)]
    exact congrArg some (busy_move { manager with
      abortedCount := manager.abortedCount + 1 } past (by rfl) _ _)
  apply Runs.own .retireAborted hfinish (busy_lookup _ _ _ _)
  rw [nextOf, if_pos (busy_phase _ _ _ _)]
  exact congrArg some (busy_move (manager.aborting txn.id) past (by rfl) _ _)

end Calls

/-! ## Runs of calls -/

def Keyed (manager : TransactionManager) : Prop :=
  ∀ id txn, manager.txns.lookup id = some txn → txn.id = id

theorem call_runs {β : Type} [Backend β] {host : Host}
    {s : ManagedRepository β} {label : TransactionCall}
    {manager : TransactionManager} (hstep : ManagerStep host s label manager)
    (hkeyed : Keyed s.manager) {past : GoString → List GoString} :
    ∃ past', Runs (calm s.manager past) (calm manager past') := by
  cases hstep with
  | refused => exact ⟨past, .refl⟩
  | drawn call =>
    exact ⟨past, Steps.tail .refl trivial (rfl : (calm s.manager past).next .draw = some _)⟩
  | begun call snapshot =>
    exact ⟨_, Steps.tail .refl trivial
      (rfl : (calm s.manager past).next (.begin call.unixNano snapshot) = some _)⟩
  | recorded op fileOp hlookup hopen hclear =>
    obtain rfl := hkeyed _ _ hlookup
    refine ⟨past, Runs.own (.fileOperation op.path fileOp) .refl hlookup ?_⟩
    rw [nextOf, if_pos ⟨rfl, hopen, hclear⟩, calm_move, busy_idle]
  | conflicted call hlookup hopen hfound =>
    obtain rfl := hkeyed _ _ hlookup
    have hruns := prepare_runs past call hlookup hopen
    simp only [hfound, busy_idle] at hruns
    exact ⟨past, hruns⟩
  | prepared call hlookup hopen hfound =>
    obtain rfl := hkeyed _ _ hlookup
    have hruns := prepare_runs past call hlookup hopen
    simp only [hfound, busy_idle] at hruns
    exact ⟨past, hruns⟩
  | committed call message hlookup hstate =>
    obtain rfl := hkeyed _ _ hlookup
    have hruns := commit_runs past hlookup hstate
    rw [busy_idle] at hruns
    exact ⟨past, hruns⟩
  | failed call message hlookup hstate =>
    obtain rfl := hkeyed _ _ hlookup
    have hruns := failedCommit_runs past hlookup hstate
    rw [busy_idle] at hruns
    exact ⟨past, hruns⟩
  | aborted hlookup hstate =>
    obtain rfl := hkeyed _ _ hlookup
    have hruns := abort_runs past hlookup hstate
    rw [busy_idle] at hruns
    exact ⟨past, hruns⟩

section

variable {β : Type} [Backend β] {host : Host}
  {guard : ManagedRepository β → TransactionCall → Prop}
  {s : ManagedRepository β}

theorem reachable_of_calls (hreach : Reachable (transactionSystem β host) guard s) :
    ∃ past, Reachable protocolSystem (fun _ _ => True) (calm s.manager past) := by
  refine hreach.invariant
    (I := fun s => ∃ past, Reachable protocolSystem (fun _ _ => True) (calm s.manager past)) ?_ ?_
  · rintro first ⟨_, hmanager⟩
    rw [hmanager]
    exact ⟨fun _ => [], new, rfl, .refl⟩
  · rintro before label _ ⟨past, start, hstart, hbefore⟩ _ rfl
    have hkeyed : Keyed before.manager := fun id txn hlookup =>
      ((ordered_of_reachable ⟨start, hstart, hbefore⟩).kept id txn hlookup).keyed
    obtain ⟨past', hcall⟩ := call_runs (label.run_managerStep host before) hkeyed
    exact ⟨past', start, hstart, hbefore.trans hcall⟩

theorem flagged_apart_of_calls (hreach : Reachable (transactionSystem β host) guard s)
    {id id' : GoString} {txn txn' : AtomicTransaction}
    (hlookup : s.manager.txns.lookup id = some txn)
    (hlookup' : s.manager.txns.lookup id' = some txn') (hne : id ≠ id')
    (hflagged : Flagged txn) (hflagged' : Flagged txn') :
    ¬ Overlap txn txn' := by
  obtain ⟨past, hprotocol⟩ := reachable_of_calls hreach
  have hordered := ordered_of_reachable hprotocol
  have hprepared : ∀ id txn, s.manager.txns.lookup id = some txn →
      Flagged txn → txn.state = .prepared := by
    intro id txn hlookup hflagged
    -- outside a call nobody is still `Preparing`
    have hidle : txn.state ≠ .preparing := (hordered.kept id txn hlookup).allowed
    exact hflagged.resolve_left hidle
  exact hordered.apart id txn id' txn' hlookup hlookup' hne hflagged hflagged'
    (.inl (hprepared id txn hlookup hflagged))
    (.inl (hprepared id' txn' hlookup' hflagged'))

end

end Protocol

end Govc
