import Govc.TransactionIsolation

/-!
# The life of a transaction

`Abort` refuses only committed transactions: a second one closes the completion
channel again and counts the transaction twice.  A conflicted `Prepare` leaves
the transaction in the active set.  Without these calls, and with a reliable
backend, every transaction has one final state and the counters add up.
-/

namespace Govc

open Go Host ManagedRepository Repository
open Runs

structure TransactionStats where
  totalTransactions : ℕ
  activeTransactions : ℕ
  committedTransactions : ℕ
  abortedTransactions : ℕ
  deriving DecidableEq, Repr

def TransactionManager.getStats (manager : TransactionManager) : TransactionStats where
  totalTransactions := manager.totalTxns
  activeTransactions := manager.activeTxns.keys.length
  committedTransactions := manager.committedCount
  abortedTransactions := manager.abortedCount

def TransactionStats.Balanced (stats : TransactionStats) : Prop :=
  stats.totalTransactions = stats.activeTransactions +
    stats.committedTransactions + stats.abortedTransactions

instance (stats : TransactionStats) : Decidable stats.Balanced := by
  unfold TransactionStats.Balanced
  infer_instance

namespace AtomicTransaction

def Final (txn : AtomicTransaction) : Prop :=
  txn.state = .committed ∨ txn.state = .aborted ∨ txn.state = .conflicted

instance (txn : AtomicTransaction) : Decidable txn.Final := by
  unfold Final
  infer_instance

end AtomicTransaction

open ManagedRepository (Open Committable Contended Flagged Overlap
  generateTransactionID detectConflicts
  contended_iff closeOfClosed)

/-- No `Prepare` meets a conflict, and no `Abort` comes after a final state
that `Abort` accepts. -/
def TransactionCall.Orderly {β : Type} (s : ManagedRepository β) : TransactionCall → Prop
  | .prepare _ id => ∀ txn, s.manager.txns.lookup id = some txn →
      ¬ Contended s.manager txn
  | .abort id => ∀ txn, s.manager.txns.lookup id = some txn →
      txn.state ≠ .aborted ∧ txn.state ≠ .conflicted
  | _ => True

instance {β : Type} (s : ManagedRepository β) (label : TransactionCall) :
    Decidable (label.Orderly s) :=
  match label with
  | .prepare call id =>
    decidable_of_iff ((s.manager.txns.lookup id).all (fun txn =>
        (detectConflicts call s.manager txn).isNone) = true) (by
      simp only [TransactionCall.Orderly, contended_iff call,
        Option.all_eq_true, Option.isNone_iff_eq_none, ne_eq, not_not])
  | .abort id =>
    decidable_of_iff ((s.manager.txns.lookup id).all (fun txn =>
        txn.state ≠ .aborted ∧ txn.state ≠ .conflicted) = true) (by
      simp only [TransactionCall.Orderly, Option.all_eq_true, decide_eq_true_eq])
  | .begin _ => .isTrue trivial
  | .fileOperation _ _ => .isTrue trivial
  | .commit _ _ _ => .isTrue trivial

/-! ## The invariant -/

namespace TransactionManager

/-- What holds of the transaction that the manager knows by `id`. -/
structure Living (manager : TransactionManager) (id : GoString)
    (txn : AtomicTransaction) : Prop where
  keyed : txn.id = id
  serial : serialOf id ≤ manager.nextTxnID
  active : manager.activeTxns.contains id = true ↔ txn.state = .pending ∨ txn.state = .prepared
  final : ¬ (txn.state = .pending ∨ txn.state = .prepared) ↔
    txn.state = .committed ∨ txn.state = .aborted
  closed : txn.completedClosed = true ↔ txn.state = .committed ∨ txn.state = .aborted

structure Accounted (manager : TransactionManager) : Prop where
  known : ∀ id, manager.activeTxns.contains id = true → (manager.txns.lookup id).isSome
  living : ∀ id txn, manager.txns.lookup id = some txn → manager.Living id txn
  balanced : manager.getStats.Balanced

variable {manager : TransactionManager}

variable (h : manager.Accounted)

include h

theorem Accounted.put (manager' : TransactionManager) (id : GoString) (txn : AtomicTransaction)
    (htxns : manager'.txns = manager.txns.insert id txn)
    (hnext : manager.nextTxnID ≤ manager'.nextTxnID)
    (hactive : ∀ other, other ≠ id → manager'.activeTxns.contains other =
      manager.activeTxns.contains other)
    (hliving : manager'.Living id txn)
    (hbalanced : manager'.getStats.Balanced) : manager'.Accounted := by
  refine ⟨?_, ?_, hbalanced⟩
  · intro other hother
    rw [htxns, GoMap.lookup_insert_eq]
    split_ifs with heq
    · rfl
    · rw [hactive other heq] at hother
      exact h.known other hother
  · intro other txn' hlookup
    rw [htxns, GoMap.lookup_insert_eq] at hlookup
    split_ifs at hlookup with heq
    · rw [heq, ← Option.some.inj hlookup]
      exact hliving
    · obtain ⟨hkeyed, hserial, hrunning, hfinal, hclosed⟩ := h.living other txn' hlookup
      refine ⟨hkeyed, hserial.trans hnext, ?_, hfinal, hclosed⟩
      rw [hactive other heq]
      exact hrunning

theorem Accounted.fresh (unixNano : ℤ) :
    manager.txns.lookup (generateTransactionID unixNano (manager.nextTxnID + 1)) = none := by
  by_contra hknown
  obtain ⟨txn, hlookup⟩ := Option.ne_none_iff_exists'.mp hknown
  have hserial := (h.living _ txn hlookup).serial
  rw [serialOf_generateTransactionID] at hserial
  omega

theorem Accounted.putState
    (hlookup : manager.txns.lookup txn.id = some txn) (hid : txn'.id = txn.id)
    (hclosed : txn'.completedClosed = txn.completedClosed)
    (hbefore : txn.state = .pending ∨ txn.state = .prepared)
    (hafter : txn'.state = .pending ∨ txn'.state = .prepared) :
    (manager.put txn').Accounted := by
  have hliving := h.living _ txn hlookup
  refine h.put _ txn'.id txn' rfl le_rfl (fun _ _ => rfl) ?_ h.balanced
  have hnot : ¬ (txn'.state = .committed ∨ txn'.state = .aborted) := by
    rcases hafter with hstate | hstate
    · simp [hstate]
    · simp [hstate]
  refine ⟨rfl, ?_, ?_, ?_, ?_⟩
  · rw [hid]
    exact hliving.serial
  · rw [hid]
    exact ⟨fun _ => hafter, fun _ => hliving.active.mpr hbefore⟩
  · exact ⟨fun hrunning => absurd hafter hrunning,
      fun hfinal => absurd hfinal hnot⟩
  · rw [hclosed, hliving.closed]
    exact ⟨fun hfinal => absurd hbefore (hliving.final.mpr hfinal),
      fun hfinal => absurd hfinal hnot⟩

theorem Accounted.complete (hlookup : manager.txns.lookup txn.id = some txn)
    (hbefore : txn.state = .pending ∨ txn.state = .prepared)
    (hstate : state = .committed ∨ state = .aborted)
    (manager' : TransactionManager)
    (htxns : manager'.txns = manager.txns.insert txn.id (txn.completed state))
    (hnext : manager'.nextTxnID = manager.nextTxnID)
    (hactive : manager'.activeTxns = manager.activeTxns.erase txn.id)
    (htotal : manager'.totalTxns = manager.totalTxns)
    (hcount : manager'.committedCount + manager'.abortedCount =
      manager.committedCount + manager.abortedCount + 1) :
    manager'.Accounted := by
  have hliving := h.living _ txn hlookup
  have hrunning := hliving.active.mpr hbefore
  have hnot : ¬ (state = .pending ∨ state = .prepared) := by
    rcases hstate with rfl | rfl
    · simp
    · simp
  refine h.put manager' txn.id (txn.completed state) htxns hnext.ge ?_ ?_ ?_
  · intro other hne
    rw [hactive, GoMap.contains, AList.lookup_erase_ne hne]
    rfl
  · refine ⟨rfl, ?_, ?_, ?_, ?_⟩
    · rw [hnext]
      exact hliving.serial
    · rw [hactive, GoMap.contains, AList.lookup_erase]
      constructor
      · intro hnone
        cases hnone
      · intro hopen
        exact absurd hopen hnot
    · exact ⟨fun _ => hstate, fun _ => hnot⟩
    · exact ⟨fun _ => hstate, fun _ => rfl⟩
  · have hbalanced := h.balanced
    have hlength := GoMap.length_keys_erase hrunning
    unfold TransactionStats.Balanced getStats at hbalanced ⊢
    dsimp only at hbalanced ⊢
    rw [htotal, hactive]
    omega

theorem Accounted.begun (unixNano : ℤ) (snapshot : GoMap GoString GoString) :
    (manager.begun (generateTransactionID unixNano (manager.nextTxnID + 1))
      snapshot).Accounted := by
  have hfresh : manager.activeTxns.contains
      (generateTransactionID unixNano (manager.nextTxnID + 1)) = false := by
    by_contra hactive
    rw [Bool.not_eq_false] at hactive
    have hknown := h.known _ hactive
    rw [h.fresh unixNano] at hknown
    cases hknown
  refine h.put _ _ (.new _ snapshot) rfl (Nat.le_succ _) ?_ ?_ ?_
  · intro other hne
    exact congrArg Option.isSome (AList.lookup_insert_ne hne)
  · refine ⟨rfl, ?_, ?_, ?_, ?_⟩
    · rw [serialOf_generateTransactionID]
      exact le_rfl
    · refine ⟨fun _ => .inl rfl, fun _ => ?_⟩
      exact congrArg Option.isSome (AList.lookup_insert _)
    · exact ⟨fun hnot => absurd (.inl rfl) hnot, by simp [AtomicTransaction.new]⟩
    · simp [AtomicTransaction.new]
  · have hbalanced := h.balanced
    have hlength := GoMap.length_keys_insert () hfresh
    unfold TransactionStats.Balanced getStats at hbalanced ⊢
    dsimp only [TransactionManager.begun] at hbalanced ⊢
    omega

end TransactionManager

/-! ## Steps and runs -/

section

variable {β : Type} [ReliableBackend β] {host : Host}
  {s : ManagedRepository β}

variable {manager : TransactionManager} {id : GoString}
  {txn : AtomicTransaction}

theorem TransactionManager.Living.running (h : manager.Living id txn)
    (hstate : txn.state ≠ .committed ∧ txn.state ≠ .aborted) :
    txn.state = .pending ∨ txn.state = .prepared := by
  by_contra hnot
  rcases h.final.mp hnot with hfinal | hfinal
  · exact hstate.1 hfinal
  · exact hstate.2 hfinal

theorem ManagerStep.accounted {label : TransactionCall}
    (hstep : ManagerStep host s label manager)
    (horderly : label.Orderly s) (h : s.manager.Accounted) :
    manager.Accounted := by
  cases hstep with
  | refused => exact h
  | drawn =>
    exact ⟨h.known, fun id txn hlookup =>
      { h.living id txn hlookup with
        serial := (h.living id txn hlookup).serial.trans (Nat.le_succ _) },
      h.balanced⟩
  | begun call snapshot => exact h.begun call.unixNano snapshot
  | recorded op fileOp hlookup hopen =>
    have hliving := h.living _ _ hlookup
    obtain rfl := hliving.keyed
    have hrunning := hliving.running (by rcases hopen with hstate | hstate <;> simp [hstate])
    exact h.putState hlookup rfl rfl hrunning hrunning
  | conflicted call hlookup hopen hfound =>
    refine absurd ?_ (horderly _ hlookup)
    rw [contended_iff call, hfound]
    exact nofun
  | prepared call hlookup hopen =>
    have hliving := h.living _ _ hlookup
    obtain rfl := hliving.keyed
    exact h.putState hlookup rfl rfl (hliving.running
      (by rcases hopen with hstate | hstate <;> simp [hstate])) (.inr rfl)
  | committed call message hlookup hstate =>
    have hliving := h.living _ _ hlookup
    obtain rfl := hliving.keyed
    exact h.complete hlookup (hliving.running
      (by rcases hstate with hstate | hstate <;> simp [hstate])) (.inl rfl) _
      rfl rfl rfl rfl (Nat.add_right_comm _ _ _)
  | failed call message hlookup hstate herror =>
    obtain ⟨after, _, hrun⟩ := commit_reliable host call message s.repo
    rw [hrun] at herror
    cases herror
  | aborted hlookup hstate =>
    have hliving := h.living _ _ hlookup
    obtain rfl := hliving.keyed
    exact h.complete hlookup (hliving.running
      ⟨hstate, (horderly _ hlookup).1⟩) (.inr rfl) _ rfl rfl rfl rfl rfl

theorem accounted_of_reachable (hreach : Reachable (transactionSystem β host)
      (fun s label => label.Orderly s) s) : s.manager.Accounted := by
  refine hreach.invariant (I := fun s => s.manager.Accounted) ?_ ?_
  · rintro first ⟨_, hmanager⟩
    rw [hmanager]
    exact ⟨fun id hactive => (nomatch hactive), fun id txn hlookup => (nomatch hlookup), rfl⟩
  · rintro before label _ hbefore horderly rfl
    exact (label.run_managerStep host before).accounted horderly hbefore

omit [ReliableBackend β] in
theorem AtomicTransaction.Final.apart
    (hfinal : txn.Final) (hlookup : manager.txns.lookup id = some txn)
    (hchanged : manager.txns.lookup changed.id = some changed)
    (hnot : ¬ changed.Final) : id ≠ changed.id := by
  rintro rfl
  rw [hchanged] at hlookup
  cases hlookup
  exact hnot hfinal

theorem ManagerStep.final_stays {label : TransactionCall}
    (hstep : ManagerStep host s label manager)
    (horderly : label.Orderly s) (h : s.manager.Accounted)
    (hlookup : s.manager.txns.lookup id = some txn) (hfinal : txn.Final) :
    manager.txns.lookup id = some txn := by
  have hopenNot : ∀ {changed : AtomicTransaction}, Open changed →
      ¬ changed.Final := by
    rintro changed (hstate | hstate)
    · simp [AtomicTransaction.Final, hstate]
    · simp [AtomicTransaction.Final, hstate]
  have hcommittableNot : ∀ {changed : AtomicTransaction},
      Committable changed → ¬ changed.Final := by
    rintro changed (hstate | hstate)
    · simp [AtomicTransaction.Final, hstate]
    · simp [AtomicTransaction.Final, hstate]
  cases hstep with
  | begun call snapshot =>
    have hne : id ≠ generateTransactionID call.unixNano (s.manager.nextTxnID + 1) := by
      rintro rfl
      rw [h.fresh call.unixNano] at hlookup
      cases hlookup
    exact (AList.lookup_insert_ne hne).trans hlookup
  | recorded op fileOp hchanged hopen =>
    obtain rfl := (h.living _ _ hchanged).keyed
    exact (AList.lookup_insert_ne (hfinal.apart hlookup hchanged (hopenNot hopen))).trans hlookup
  | conflicted call hchanged hopen =>
    obtain rfl := (h.living _ _ hchanged).keyed
    exact (AList.lookup_insert_ne (hfinal.apart hlookup hchanged (hopenNot hopen))).trans hlookup
  | prepared call hchanged hopen =>
    obtain rfl := (h.living _ _ hchanged).keyed
    exact (AList.lookup_insert_ne (hfinal.apart hlookup hchanged (hopenNot hopen))).trans hlookup
  | committed call message hchanged hstate =>
    obtain rfl := (h.living _ _ hchanged).keyed
    exact (AList.lookup_insert_ne (hfinal.apart hlookup hchanged
      (hcommittableNot hstate))).trans hlookup
  | failed call message hchanged hstate =>
    obtain rfl := (h.living _ _ hchanged).keyed
    exact (AList.lookup_insert_ne (hfinal.apart hlookup hchanged
      (hcommittableNot hstate))).trans hlookup
  | aborted hchanged hstate =>
    obtain rfl := (h.living _ _ hchanged).keyed
    obtain ⟨haborted, hconflicted⟩ := horderly _ hchanged
    exact (AList.lookup_insert_ne (hfinal.apart hlookup hchanged
      (by simp [AtomicTransaction.Final, hstate, haborted,
        hconflicted]))).trans hlookup
  | _ => exact hlookup

omit [ReliableBackend β] in
theorem abort_closes_once (h : s.manager.Accounted)
    (horderly : TransactionCall.Orderly s (.abort id)) :
    (ManagedRepository.abort id s).1 ≠ .panic closeOfClosed := by
  cases hlookup : s.manager.txns.lookup id with
  | none =>
    unfold ManagedRepository.abort
    rw [GoM.bind_apply, getTxn_of_none hlookup]
    intro hpanic
    exact absurd (Outcome.panic.inj hpanic) (by decide)
  | some txn =>
    by_cases hstate : txn.state = .committed
    · unfold ManagedRepository.abort
      rw [GoM.bind_of_ok (getTxn_of_some hlookup), if_pos hstate]
      exact nofun
    · have hopen : ¬ txn.completedClosed = true := by
        rw [(h.living id txn hlookup).closed]
        rintro (hfinal | hfinal)
        · exact hstate hfinal
        · exact (horderly txn hlookup).1 hfinal
      rw [abort_run hlookup hstate, if_neg hopen]
      exact nofun

theorem commit_closes_once (h : s.manager.Accounted) {call : Call} {id message : GoString} :
    (ManagedRepository.commit host call id message s).1 ≠ .panic closeOfClosed := by
  cases hlookup : s.manager.txns.lookup id with
  | none =>
    unfold ManagedRepository.commit
    rw [GoM.bind_apply, getTxn_of_none hlookup]
    intro hpanic
    exact absurd (Outcome.panic.inj hpanic) (by decide)
  | some txn =>
    by_cases hstate : Committable txn
    · have hopen : ¬ txn.completedClosed = true := by
        rw [(h.living id txn hlookup).closed]
        rcases hstate with hstate | hstate
        · simp [hstate]
        · simp [hstate]
      rcases commit_run_committable host
        hlookup hstate with ⟨after, _, hrun⟩ | ⟨_, after, e, _, _, hrun⟩
      · rw [hrun, if_neg hopen]
        exact nofun
      · rw [hrun]
        exact nofun
    · have hrefused : txn.state ≠ .prepared ∧ txn.state ≠ .committing := by
        unfold Committable at hstate
        tauto
      unfold ManagedRepository.commit
      rw [GoM.bind_of_ok (getTxn_of_some hlookup), if_pos hrefused]
      exact nofun

end

/-! ## AtomicCommit as a run of calls -/

section AtomicCommit

open GoM (Triple)
open ManagedRepository (FileOperation beginTransaction fileOperation prepare
  commit abort abortIfActive atomicCommit)

variable {β : Type} [Backend β] {host : Host} {s : ManagedRepository β}
  {operations : List FileOperation} {id : GoString}

abbrev OrderlyRun (host : Host) (s : ManagedRepository β) : ManagedRepository β → Prop :=
  Steps (transactionSystem β host) (fun s label => label.Orderly s) s

/-- No transaction past its scan writes a path of the operations. -/
def Uncontended (s : ManagedRepository β) (operations : List FileOperation) : Prop :=
  ∀ op ∈ operations, ∀ id other, s.manager.activeTxns.contains id = true →
    s.manager.txns.lookup id = some other → Flagged other →
    other.writeSet.contains op.path = false

/-- Since `s` only the transaction `id` has changed, and it writes only paths
of the operations. -/
structure Loading (s : ManagedRepository β) (operations : List FileOperation)
    (id : GoString) (now : ManagedRepository β) : Prop where
  others : ∀ other, other ≠ id → now.manager.txns.lookup other = s.manager.txns.lookup other
  active : ∀ other, other ≠ id → now.manager.activeTxns.contains other = true →
    s.manager.activeTxns.contains other = true
  own : ∀ txn, now.manager.txns.lookup id = some txn → txn.id = id ∧
    ∀ path, txn.writeSet.contains path = true → ∃ op ∈ operations, op.path = path

omit [Backend β] in
theorem Loading.orderly (huncontended : Uncontended s operations)
    {now : ManagedRepository β} (h : Loading s operations id now)
    {call : Call} : TransactionCall.Orderly now (.prepare call id) := by
  rintro txn hlookup ⟨other, txn', hactive, hne, hother, hflagged, path, hmine, htheirs⟩
  obtain ⟨hid, hpaths⟩ := h.own txn hlookup
  obtain ⟨op, hop, rfl⟩ := hpaths path hmine
  rw [hid] at hne
  rw [h.others other hne] at hother
  have hapart := huncontended op hop other txn' (h.active other hne hactive) hother hflagged
  rw [htheirs] at hapart
  cases hapart

theorem orderly_call {α : Type} (label : TransactionCall) {m : GoM (ManagedRepository β) α}
    (hm : ∀ now, label.run host now = (m now).2) :
    Triple (fun now => OrderlyRun host s now ∧ label.Orderly now) m
      (fun _ => OrderlyRun host s) (OrderlyRun host s) := by
  rintro now ⟨hrun, horderly⟩
  have hafter : OrderlyRun host s (m now).2 := .tail hrun horderly (hm now).symm
  exact ⟨fun _ _ => hafter, fun _ => hafter⟩

theorem begin_loading (operations : List FileOperation) {call : Call} :
    Triple (fun now => now = s) (beginTransaction host call : GoM (ManagedRepository β) GoString)
      (fun id now => OrderlyRun host s now ∧ Loading s operations id now)
      (OrderlyRun host s) := by
  rintro now rfl
  have hrun : OrderlyRun host now (beginTransaction host call now).2 :=
    (orderly_call (.begin call) fun _ => rfl).exit ⟨.refl, trivial⟩
  refine ⟨fun id hid => ⟨hrun, ?_⟩, fun _ => hrun⟩
  obtain ⟨objects, after, _, ⟨snapshot, hbegun⟩ | ⟨hbad, _⟩⟩ := beginTransaction_run host now
  · rw [hbegun] at hid ⊢
    cases hid
    refine ⟨?_, ?_, ?_⟩
    · intro other hne
      exact AList.lookup_insert_ne hne
    · intro other hne hactive
      rw [← hactive]
      exact congrArg Option.isSome (AList.lookup_insert_ne hne).symm
    · intro txn hlookup
      rw [← Option.some.inj ((AList.lookup_insert _).symm.trans hlookup)]
      exact ⟨rfl, fun path hnone => nomatch hnone⟩
  · exact absurd hid (hbad id)

theorem fileOperation_loading {op : FileOperation} (hop : op ∈ operations) :
    Triple (fun now => OrderlyRun host s now ∧ Loading s operations id now)
      (fileOperation host id op : GoM (ManagedRepository β) Unit)
      (fun _ now => OrderlyRun host s now ∧ Loading s operations id now)
      (OrderlyRun host s) := by
  rintro now ⟨hbefore, hloading⟩
  have hrun : OrderlyRun host s (fileOperation host id op now).2 :=
    (orderly_call (.fileOperation id op) fun _ => rfl).exit ⟨hbefore, trivial⟩
  refine ⟨fun _ hok => ⟨hrun, ?_⟩, fun _ => hrun⟩
  obtain ⟨objects, after, _, hrecorded | ⟨hbad, _⟩⟩ := fileOperation_run host now
  · obtain ⟨txn, fileOp, hlookup, _, _, _, hrun⟩ := hrecorded
    obtain ⟨hid, hpaths⟩ := hloading.own txn hlookup
    rw [hrun]
    refine ⟨?_, hloading.active, ?_⟩
    · intro other hne
      rw [← hid] at hne
      exact (AList.lookup_insert_ne hne).trans (hloading.others other (hid ▸ hne))
    · intro txn' hlookup'
      have hput : ((now.withStore after).putTxn
          (txn.record op.path fileOp)).manager.txns.lookup id =
            some (txn.record op.path fileOp) := by
        rw [← hid]
        exact AList.lookup_insert _
      rw [← Option.some.inj (hput.symm.trans hlookup')]
      refine ⟨hid, fun path hpath => ?_⟩
      simp only [AtomicTransaction.record, GoMap.contains, GoMap.lookup_insert_eq] at hpath
      by_cases heq : path = op.path
      · exact ⟨op, hop, heq.symm⟩
      · rw [if_neg heq] at hpath
        exact hpaths path hpath
  · exact absurd hok (hbad ())

theorem abortIfActive_orderly :
    Triple (OrderlyRun host s) (abortIfActive id : GoM (ManagedRepository β) Unit)
      (fun _ => OrderlyRun host s) (OrderlyRun host s) := by
  intro now hrun
  have hafter : OrderlyRun host s (abortIfActive id now).2 := by
    unfold abortIfActive
    cases hlookup : now.manager.txns.lookup id with
    | none =>
      rw [GoM.bind_apply, getTxn_of_none hlookup]
      exact hrun
    | some txn =>
      rw [GoM.bind_of_ok (getTxn_of_some hlookup)]
      split_ifs with hactive
      · refine (orderly_call (.abort id) fun _ => rfl).exit ⟨hrun, ?_⟩
        intro txn' hlookup'
        rw [← Option.some.inj (hlookup.symm.trans hlookup')]
        rcases of_decide_eq_true hactive with h | h | h | h
        · simp [h]
        · simp [h]
        · simp [h]
        · simp [h]
      · exact hrun
  exact ⟨fun _ _ => hafter, fun _ => hafter⟩

theorem atomicCommit_orderly (huncontended : Uncontended s operations)
    (call : Call) {message : GoString} :
    OrderlyRun host s (atomicCommit host call message operations s).2 := by
  have hrule : Triple (fun now => now = s)
      (atomicCommit host call message operations : GoM (ManagedRepository β) Commit)
      (fun _ => OrderlyRun host s) (OrderlyRun host s) := by
    apply Triple.bind (begin_loading operations)
    intro id
    apply Triple.deferring _ abortIfActive_orderly
    apply Triple.bind (Triple.mapError (Triple.forEach fun op hop => fileOperation_loading hop))
    intro _
    apply Triple.bind (Triple.mapError (Triple.consequence
      (orderly_call (.prepare (call.part 1) id) fun _ => rfl)
      (fun now h => ⟨h.1, h.2.orderly huncontended⟩)
      (fun _ _ h => h)))
    intro _
    exact Triple.consequence (orderly_call (.commit (call.part 2) id message) fun _ => rfl)
      (fun now h => ⟨h, trivial⟩) (fun _ _ h => h)
  exact hrule.exit rfl

end AtomicCommit

/-! ## Runs of client calls -/

inductive ClientCall where
  | single (label : TransactionCall)
  | atomicCommit (call : Call) (message : GoString)
      (operations : List ManagedRepository.FileOperation)

namespace ClientCall

variable {β : Type} [Backend β]

def run (host : Host) (s : ManagedRepository β) : ClientCall → ManagedRepository β
  | single label => label.run host s
  | atomicCommit call message operations =>
    (ManagedRepository.atomicCommit host call message operations s).2

def Orderly (s : ManagedRepository β) : ClientCall → Prop
  | single label => label.Orderly s
  | atomicCommit _ _ operations => Uncontended s operations

theorem orderlyRun {host : Host} {s : ManagedRepository β}
    {client : ClientCall} (horderly : client.Orderly s) :
    OrderlyRun host s (client.run host s) := by
  cases client with
  | single label => exact .tail .refl horderly rfl
  | atomicCommit call message operations =>
    exact atomicCommit_orderly horderly call

end ClientCall

/-- All runs of client calls on a repository without earlier transactions. -/
def clientSystem (β : Type) [Backend β] (host : Host) :
    System (ManagedRepository β) ClientCall where
  init := (transactionSystem β host).init
  step s client s' := s' = client.run host s

def TransactionCall.ClosesTwice {β : Type} [Backend β] (host : Host)
    (s : ManagedRepository β) : TransactionCall → Prop
  | .commit call id message =>
    (ManagedRepository.commit host call id message s).1 = .panic closeOfClosed
  | .abort id => (ManagedRepository.abort id s).1 = .panic closeOfClosed
  | _ => False

/-- The rules of a transaction's life, in one state and for the next call.
`AtomicCommit` is a run of orderly single calls, so the rules hold inside it
as well. -/
structure LifeCycle {β : Type} [Backend β] (host : Host)
    (s : ManagedRepository β) : Prop where
  balanced : s.manager.getStats.Balanced
  retired : ∀ id txn, s.manager.txns.lookup id = some txn → txn.Final →
    s.manager.activeTxns.contains id = false
  one_final : ∀ (client : ClientCall) id txn, client.Orderly s →
    s.manager.txns.lookup id = some txn → txn.Final →
    (client.run host s).manager.txns.lookup id = some txn
  closed_once : ∀ label : TransactionCall, label.Orderly s → ¬ label.ClosesTwice host s
  inside : ∀ call message operations, Uncontended s operations →
    OrderlyRun host s (ManagedRepository.atomicCommit host call message operations s).2

section

variable {β : Type} [ReliableBackend β] {host : Host}
  {s : ManagedRepository β}

theorem single_reachable (hreach : Reachable (clientSystem β host)
      (fun s client => client.Orderly s) s) :
    Reachable (transactionSystem β host) (fun s label => label.Orderly s) s := by
  obtain ⟨first, hinit, hsteps⟩ := hreach
  refine ⟨first, hinit, ?_⟩
  induction hsteps with
  | refl => exact .refl
  | tail _ horderly hmove ih =>
    rw [show _ = _ from hmove]
    exact ih.trans (ClientCall.orderlyRun horderly)

theorem OrderlyRun.final_stays {now : ManagedRepository β}
    (hrun : OrderlyRun host s now) (h : s.manager.Accounted) {id : GoString}
    {txn : AtomicTransaction}
    (hlookup : s.manager.txns.lookup id = some txn) (hfinal : txn.Final) :
    now.manager.Accounted ∧ now.manager.txns.lookup id = some txn := by
  induction hrun with
  | refl => exact ⟨h, hlookup⟩
  | @tail middle last label _ horderly hmove ih =>
    have hstep := label.run_managerStep host middle
    rw [show last = label.run host middle from hmove]
    exact ⟨hstep.accounted horderly ih.1, hstep.final_stays horderly ih.1 ih.2 hfinal⟩

/-- In every run of orderly calls the rules hold in every state reached. -/
theorem lifeCycle_of_orderly (hreach : Reachable (clientSystem β host)
      (fun s client => client.Orderly s) s) : LifeCycle host s := by
  have haccounted := accounted_of_reachable (single_reachable hreach)
  refine ⟨haccounted.balanced, ?_, ?_, ?_, ?_⟩
  · intro id txn hlookup hfinal
    have hliving := haccounted.living id txn hlookup
    by_contra hactive
    rw [Bool.not_eq_false] at hactive
    rcases hliving.active.mp hactive with hstate | hstate
    · simp [AtomicTransaction.Final, hstate] at hfinal
    · simp [AtomicTransaction.Final, hstate] at hfinal
  · intro client id txn horderly hlookup hfinal
    exact (OrderlyRun.final_stays (ClientCall.orderlyRun horderly) haccounted hlookup hfinal).2
  · intro label horderly htwice
    cases label with
    | commit call id message =>
      exact commit_closes_once haccounted htwice
    | abort id => exact abort_closes_once haccounted horderly htwice
    | _ => exact htwice
  · intro call message operations huncontended
    exact atomicCommit_orderly huncontended call

end

/-- The calls in sequence on an empty repository in memory, as long as they
are orderly. -/
def runOrderly (calls : List TransactionCall) : Option (ManagedRepository MemoryBackend) :=
  calls.foldlM (fun s label =>
    if label.Orderly s then some (label.run checksums s) else none)
    (ManagedRepository.withBackend MemoryBackend.new)

theorem runOrderly_reachable {calls : List TransactionCall}
    {s : ManagedRepository MemoryBackend} (hrun : runOrderly calls = some s) :
    Reachable (clientSystem MemoryBackend checksums) (fun s client => client.Orderly s) s := by
  refine ⟨ManagedRepository.withBackend MemoryBackend.new, ⟨Store.new_honest, rfl⟩, ?_⟩
  induction calls using List.reverseRecOn generalizing s with
  | nil =>
    cases hrun
    exact .refl
  | append_singleton calls label ih =>
    rw [runOrderly, List.foldlM_append] at hrun
    obtain ⟨before, hbefore, hlast⟩ := Option.bind_eq_some_iff.mp hrun
    simp only [List.foldlM_cons, List.foldlM_nil] at hlast
    split_ifs at hlast with horderly
    · cases hlast
      exact .tail (ih hbefore) (show ClientCall.Orderly before (.single label) from horderly) rfl
    · cases hlast

def twoLives : List TransactionCall :=
  [.begin epoch, .begin epoch, .fileOperation firstID (.create (str "a") (str "x")),
    .prepare epoch firstID,
    .commit epoch firstID (str "m"), .abort secondID]

theorem lifeCycle_of_twoLives :
    ∃ s, runOrderly twoLives = some s ∧
      s.manager.getStats = ⟨2, 0, 1, 1⟩ ∧ LifeCycle checksums s := by
  have hruns : (runOrderly twoLives).isSome = true := by decide +kernel
  have hstats : (runOrderly twoLives).all (fun s =>
      s.manager.getStats = ⟨2, 0, 1, 1⟩) = true := by decide +kernel
  obtain ⟨s, hrun⟩ := Option.isSome_iff_exists.mp hruns
  rw [hrun, Option.all_some, decide_eq_true_eq] at hstats
  exact ⟨s, hrun, hstats, lifeCycle_of_orderly (runOrderly_reachable hrun)⟩

def abortedOnce : ManagedRepository MemoryBackend := runCalls [.begin epoch, .abort firstID]

def contendedCommit : ManagedRepository MemoryBackend :=
  (ManagedRepository.atomicCommit checksums epoch (str "m")
    [.create (str "a") (str "y")] onePrepared).2

theorem runCalls_clients {calls : List TransactionCall} :
    Reachable (clientSystem MemoryBackend checksums) (fun _ _ => True) (runCalls calls) := by
  obtain ⟨first, hinit, hsteps⟩ := runCalls_reachable (fun _ _ => True) calls fun _ _ _ => trivial
  refine ⟨first, hinit, ?_⟩
  generalize runCalls calls = last at hsteps ⊢
  induction hsteps with
  | refl => exact .refl
  | @tail middle last label _ _ hmove ih =>
    exact .tail ih trivial (show last = ClientCall.run checksums middle (.single label) from hmove)

/-- A second `Abort` closes the channel again and unbalances the counters; a
conflicted `AtomicCommit` stays in the active set. -/
theorem abort_closes_twice :
    Reachable (clientSystem MemoryBackend checksums) (fun _ _ => True) abortedOnce ∧
      TransactionCall.ClosesTwice checksums abortedOnce (.abort firstID) ∧
      ¬ ((TransactionCall.abort firstID).run checksums abortedOnce).manager.getStats.Balanced ∧
      Reachable (clientSystem MemoryBackend checksums) (fun _ _ => True) contendedCommit ∧
      ∃ txn, contendedCommit.manager.txns.lookup secondID = some txn ∧ txn.Final ∧
        contendedCommit.manager.activeTxns.contains secondID = true := by
  have hknown : (contendedCommit.manager.txns.lookup secondID).isSome = true := by decide +kernel
  have hfinal : (contendedCommit.manager.txns.lookup secondID).all
      (fun txn => txn.Final) = true := by decide +kernel
  obtain ⟨txn, hlookup⟩ := Option.isSome_iff_exists.mp hknown
  rw [hlookup, Option.all_some, decide_eq_true_eq] at hfinal
  obtain ⟨first, hinit, hsteps⟩ := runCalls_clients
  have hcommit : contendedCommit = ClientCall.run checksums onePrepared
      (.atomicCommit epoch (str "m") [.create (str "a") (str "y")]) := rfl
  have htwice : (ManagedRepository.abort firstID abortedOnce).1 =
      .panic closeOfClosed := by decide +kernel
  exact ⟨runCalls_clients, htwice, by decide +kernel,
    ⟨first, hinit, .tail hsteps trivial hcommit⟩, txn, hlookup, hfinal,
    by decide +kernel⟩

end Govc
