import Govc.AtomicTransaction
import Govc.CommitExecution

/-!
# What the transaction calls do

One lemma for each call of the transaction manager says which states it can leave.
The number at the end of an identifier is the one that its transaction drew.
-/

namespace Govc

open Go GoM

/-! ## Identifiers -/

def serialOf (id : GoString) : ℕ := digitsValue (id.reverse.takeWhile isDigit).reverse

theorem serialOf_generateTransactionID (unixNano : ℤ) (serial : ℕ) :
    serialOf (ManagedRepository.generateTransactionID unixNano serial) = serial := by
  have hdigits : ∀ b ∈ (formatNat serial).reverse, isDigit b = true := by
    intro b hb
    exact formatNat_isDigit (List.mem_reverse.mp hb)
  have hunderscore : (str "_").reverse = [95] := by decide
  unfold serialOf ManagedRepository.generateTransactionID
  rw [List.reverse_append, List.reverse_append, hunderscore, List.takeWhile_append_of_pos hdigits]
  have hstop : ([95] ++ (str "txn_" ++ formatInt unixNano).reverse).takeWhile isDigit = [] := by
    simp [isDigit]
  rw [hstop, List.append_nil, List.reverse_reverse, digitsValue_formatNat]

def firstID : GoString := ManagedRepository.generateTransactionID 0 1

def secondID : GoString := ManagedRepository.generateTransactionID 0 2

namespace AtomicTransaction

def prepared (txn : AtomicTransaction) : AtomicTransaction :=
  { txn.markExecuted with state := .prepared, preparedClosed := true }

def conflicted (txn : AtomicTransaction) (path other : GoString) : AtomicTransaction := { txn with
    state := .conflicted
    conflictSet := txn.conflictSet.insert path other }

def completed (txn : AtomicTransaction) (state : TxnState) : AtomicTransaction :=
  { txn with state := state, completedClosed := true }

theorem prepared_of_closed {txn : AtomicTransaction}
    (hclosed : txn.preparedClosed = true) :
    txn.markExecuted.inState .prepared = txn.prepared := by
  simp [inState, prepared, markExecuted, hclosed]

theorem completed_of_closed {txn : AtomicTransaction}
    (hclosed : txn.completedClosed = true) (state : TxnState) :
    txn.inState state = txn.completed state := by
  simp [inState, completed, hclosed]

end AtomicTransaction

namespace TransactionManager

def begun (manager : TransactionManager) (id : GoString)
    (snapshot : GoMap GoString GoString) : TransactionManager :=
  { manager with
    nextTxnID := manager.nextTxnID + 1
    txns := manager.txns.insert id (.new id snapshot)
    activeTxns := manager.activeTxns.insert id ()
    totalTxns := manager.totalTxns + 1 }

def committing (manager : TransactionManager) (id : GoString) : TransactionManager := { manager with
    committedCount := manager.committedCount + 1
    activeTxns := manager.activeTxns.erase id
    committedTxns := manager.committedTxns.insert id () }

def aborting (manager : TransactionManager) (id : GoString) : TransactionManager := { manager with
    abortedCount := manager.abortedCount + 1
    activeTxns := manager.activeTxns.erase id }

end TransactionManager

namespace ManagedRepository

section

variable {β : Type}

def withStore (s : ManagedRepository β) (store : Store β) : ManagedRepository β :=
  { s with repo := { s.repo with store := store } }

def withStaging (s : ManagedRepository β) (staging : StagingArea) : ManagedRepository β :=
  { s with repo := { s.repo with staging := staging } }

def putTxn (s : ManagedRepository β) (txn : AtomicTransaction) : ManagedRepository β :=
  { s with manager :=
    { s.manager with txns := s.manager.txns.insert txn.id txn } }

theorem setTxn_apply {s : ManagedRepository β} :
    setTxn txn s = (.ok (), s.putTxn txn) := rfl

theorem mapStaging_apply {s : ManagedRepository β} :
    mapStaging f s = (.ok (), s.withStaging (f s.repo.staging)) := rfl

theorem mapManager_apply {f : TransactionManager → TransactionManager} {s : ManagedRepository β} :
    mapManager f s = (.ok (), { s with manager := f s.manager }) := rfl

variable {s : ManagedRepository β}

theorem onRepo_of_run {α : Type} {m : GoM (Repository β) α}
    {outcome : Outcome α} {repo : Repository β}
    (hrun : m s.repo = (outcome, repo)) :
    onRepo m s = (outcome, { s with repo := repo }) := by
  unfold onRepo
  rw [zoom_apply, hrun]

theorem putTxn_putTxn (s : ManagedRepository β)
    {first second : AtomicTransaction} (hid : first.id = second.id) :
    (s.putTxn first).putTxn second = s.putTxn second := by
  unfold putTxn
  simp only [hid, AList.insert_insert]

variable {id : GoString}

theorem getTxn_of_none (hlookup : s.manager.txns.lookup id = none) :
    getTxn id s = (.panic (str "nil pointer dereference"), s) := by
  unfold getTxn
  rw [hlookup]

variable {txn : AtomicTransaction}

theorem getTxn_of_some (hlookup : s.manager.txns.lookup id = some txn) :
    getTxn id s = (.ok txn, s) := by
  unfold getTxn
  rw [hlookup]

/-! ## Conflicts -/

/-- `other` is at work on the staging area, or about to be. -/
def Flagged (other : AtomicTransaction) : Prop := other.state = .preparing ∨ other.state = .prepared

def Overlap (txn other : AtomicTransaction) : Prop :=
  ∃ path, txn.writeSet.contains path ∧ other.writeSet.contains path

theorem Overlap.symm (hoverlap : Overlap txn other) : Overlap other txn := by
  obtain ⟨path, hmine, hother⟩ := hoverlap
  exact ⟨path, hother, hmine⟩

theorem contains_iff_mem_keys {ν : Type} (m : GoMap GoString ν)
    : m.contains key = true ↔ key ∈ m.keys := by
  rw [GoMap.contains, AList.lookup_isSome, AList.mem_keys]

theorem mem_visit (order : RangeOrder) (keys : List GoString)
    : key ∈ order.visit keys ↔ key ∈ keys :=
  (order.perm keys).mem_iff

theorem conflictWith_eq_none_iff (order : RangeOrder) (txn : AtomicTransaction) :
    conflictWith order txn other = none ↔ (Flagged other → ¬ Overlap txn other) := by
  unfold conflictWith
  by_cases hflag : Flagged other
  · have hstate : ¬ (other.state ≠ .preparing ∧ other.state ≠ .prepared) := by
      unfold Flagged at hflag
      tauto
    rw [if_neg hstate, List.find?_eq_none]
    constructor
    · intro hnone _ hoverlap
      obtain ⟨path, hmine, hother⟩ := hoverlap
      exact hnone path ((mem_visit order _).mpr
        ((contains_iff_mem_keys _).mp hmine)) hother
    · intro hnone path hpath hother
      exact hnone hflag ⟨path, (contains_iff_mem_keys _).mpr
        ((mem_visit order _).mp hpath), hother⟩
  · have hstate : other.state ≠ .preparing ∧ other.state ≠ .prepared := by
      unfold Flagged at hflag
      tauto
    rw [if_pos hstate]
    exact ⟨fun _ h => absurd h hflag, fun _ => rfl⟩

variable (call : Call)

theorem detectConflicts_eq_none_iff (manager : TransactionManager) (txn : AtomicTransaction) :
    detectConflicts call manager txn = none ↔
      ∀ id other, manager.activeTxns.contains id = true → id ≠ txn.id →
        manager.txns.lookup id = some other → Flagged other →
        ¬ Overlap txn other := by
  unfold detectConflicts
  rw [List.findSome?_eq_none_iff]
  constructor
  · intro hnone id other hactive hne hlookup
    have hmem : id ∈ (call.order 0).visit manager.activeTxns.keys :=
      (mem_visit _ _).mpr ((contains_iff_mem_keys _).mp hactive)
    obtain ⟨turn, hturn, hget⟩ := List.mem_iff_getElem.mp hmem
    have hindexed : (id, turn) ∈ ((call.order 0).visit manager.activeTxns.keys).zipIdx := by
      rw [List.mk_mem_zipIdx_iff_getElem?, List.getElem?_eq_getElem hturn, hget]
    have hround := hnone (id, turn) hindexed
    dsimp only at hround
    rw [if_neg hne, hlookup, Option.bind_some, Option.map_eq_none_iff] at hround
    exact (conflictWith_eq_none_iff _ _).mp hround
  · rintro hnone ⟨id, turn⟩ hmem
    dsimp only
    split_ifs with heq
    · rfl
    · have hactive : manager.activeTxns.contains id = true :=
        (contains_iff_mem_keys _).mpr ((mem_visit _ _).mp (List.fst_mem_of_mem_zipIdx hmem))
      cases hlookup : manager.txns.lookup id with
      | none => rfl
      | some other =>
        rw [Option.bind_some, Option.map_eq_none_iff]
        exact (conflictWith_eq_none_iff _ _).mpr (hnone id other hactive heq hlookup)

/-- Another transaction past its scan writes one of the paths. -/
def Contended (manager : TransactionManager) (txn : AtomicTransaction) : Prop :=
  ∃ id other, manager.activeTxns.contains id = true ∧ id ≠ txn.id ∧
    manager.txns.lookup id = some other ∧ Flagged other ∧ Overlap txn other

theorem contended_iff (manager : TransactionManager) (txn : AtomicTransaction) :
    Contended manager txn ↔ detectConflicts call manager txn ≠ none := by
  rw [Ne, detectConflicts_eq_none_iff]
  push Not
  rfl

theorem detectConflicts_putTxn {s : ManagedRepository β}
    {txn : AtomicTransaction} :
    detectConflicts call (s.putTxn (txn.inState state)).manager txn =
      detectConflicts call s.manager txn := by
  unfold detectConflicts
  congr 1
  funext ⟨otherID, turn⟩
  dsimp only
  split_ifs with heq
  · rfl
  · have hlookup : (s.putTxn (txn.inState state)).manager.txns.lookup otherID =
        s.manager.txns.lookup otherID :=
      AList.lookup_insert_ne heq
    rw [hlookup]

/-- A file operation or a `Prepare` is still possible. -/
def Open (txn : AtomicTransaction) : Prop := txn.state = .pending ∨ txn.state = .preparing

instance (txn : AtomicTransaction) : Decidable (Open txn) := by
  unfold Open
  infer_instance

theorem openForFileOp_run {id path : GoString} (s : ManagedRepository β) :
    (∃ txn, s.manager.txns.lookup id = some txn ∧ Open txn ∧ txn.conflictSet.lookup path = none ∧
      openForFileOp id path s = (.ok txn, s)) ∨
      (∀ txn, (openForFileOp id path s).1 ≠ .ok txn) ∧ (openForFileOp id path s).2 = s := by
  unfold openForFileOp
  cases hlookup : s.manager.txns.lookup id with
  | none =>
    rw [bind_apply, getTxn_of_none hlookup]
    exact .inr ⟨fun _ h => (nomatch h), rfl⟩
  | some txn =>
    rw [bind_of_ok (getTxn_of_some hlookup)]
    split
    · exact .inr ⟨fun _ h => (nomatch h), rfl⟩
    · have hopen : Open txn := by
        tauto
      cases hconflict : txn.conflictSet.lookup path with
      | some other => exact .inr ⟨fun _ h => (nomatch h), rfl⟩
      | none => exact .inl ⟨txn, rfl, hopen, hconflict, rfl⟩

/-! ## Prepare and abort -/

theorem prepare_run_open (hlookup : s.manager.txns.lookup id = some txn) (hopen : Open txn) :
    (∃ path other, detectConflicts call s.manager txn = some (path, other) ∧
      prepare call id s =
        (.error (str "write-write conflict on path " ++ path ++ str " with transaction " ++ other),
          s.putTxn (txn.conflicted path other))) ∨
      detectConflicts call s.manager txn = none ∧
        ((prepare call id s).1 = if txn.preparedClosed then .panic closeOfClosed else .ok ()) ∧
          (prepare call id s).2 =
            (s.withStaging (txn.execute s.repo.staging)).putTxn txn.prepared := by
  have hstate : ¬ (txn.state ≠ .pending ∧ txn.state ≠ .preparing) := by
    unfold Open at hopen
    tauto
  unfold prepare
  rw [bind_of_ok (getTxn_of_some hlookup), if_neg hstate,
    bind_of_ok (setTxn_apply), bind_of_ok (view_apply),
    detectConflicts_putTxn]
  cases hscan : detectConflicts call s.manager txn with
  | some found =>
    obtain ⟨path, other⟩ := found
    refine .inl ⟨path, other, rfl, ?_⟩
    exact congrArg (Prod.mk _) (putTxn_putTxn s rfl)
  | none =>
    refine .inr ⟨rfl, ?_⟩
    dsimp only
    rw [bind_of_ok (mapStaging_apply)]
    split_ifs with hclosed
    · rw [bind_of_ok (setTxn_apply), AtomicTransaction.prepared_of_closed hclosed]
      refine ⟨rfl, ?_⟩
      exact putTxn_putTxn (s.withStaging _) rfl
    · refine ⟨rfl, ?_⟩
      exact putTxn_putTxn (s.withStaging _) rfl

theorem prepare_run_refused (hrefused : ∀ txn, s.manager.txns.lookup id = some txn → ¬ Open txn) :
    (prepare call id s).2 = s ∧ ∀ a, (prepare call id s).1 ≠ .ok a := by
  unfold prepare
  cases hlookup : s.manager.txns.lookup id with
  | none =>
    rw [bind_apply, getTxn_of_none hlookup]
    exact ⟨rfl, fun _ h => nomatch h⟩
  | some txn =>
    have hstate : txn.state ≠ .pending ∧ txn.state ≠ .preparing := by
      have hclosed := hrefused txn hlookup
      unfold Open at hclosed
      tauto
    rw [bind_of_ok (getTxn_of_some hlookup), if_pos hstate]
    exact ⟨rfl, fun _ h => nomatch h⟩

def afterAbort (s : ManagedRepository β) (txn : AtomicTransaction) : ManagedRepository β :=
  ({ s.withStaging (txn.rollback s.repo.staging) with
    manager := s.manager.aborting txn.id }).putTxn (txn.completed .aborted)

theorem abort_run (hlookup : s.manager.txns.lookup id = some txn)
    (hstate : txn.state ≠ .committed) :
    abort id s =
      (if txn.completedClosed then .panic closeOfClosed else .ok (), s.afterAbort txn) := by
  unfold abort
  rw [bind_of_ok (getTxn_of_some hlookup), if_neg hstate, bind_of_ok (mapStaging_apply)]
  by_cases hclosed : txn.completedClosed = true
  · rw [bind_of_ok (mapManager_apply), if_pos hclosed, if_pos hclosed,
      AtomicTransaction.completed_of_closed hclosed]
    rfl
  · rw [bind_of_ok (mapManager_apply), if_neg hclosed, if_neg hclosed]
    rfl

theorem abort_run_refused
    (hrefused : ∀ txn, s.manager.txns.lookup id = some txn → txn.state = .committed) :
    (abort id s).2 = s ∧ ∀ a, (abort id s).1 ≠ .ok a := by
  unfold abort
  cases hlookup : s.manager.txns.lookup id with
  | none =>
    rw [bind_apply, getTxn_of_none hlookup]
    exact ⟨rfl, fun _ h => nomatch h⟩
  | some txn =>
    rw [bind_of_ok (getTxn_of_some hlookup), if_pos (hrefused txn hlookup)]
    exact ⟨rfl, fun _ h => nomatch h⟩

/-! ## Commit -/

def Committable (txn : AtomicTransaction) : Prop := txn.state = .prepared ∨ txn.state = .committing

instance (txn : AtomicTransaction) : Decidable (Committable txn) := by
  unfold Committable
  infer_instance

def afterCommit (s : ManagedRepository β) (repo : Repository β)
    (txn : AtomicTransaction) : ManagedRepository β :=
  (⟨repo, s.manager.committing txn.id⟩ : ManagedRepository β).putTxn (txn.completed .committed)

theorem finishCommit_run {s : ManagedRepository β} {repo : Repository β} {txn : AtomicTransaction} :
    finishCommit txn { s.putTxn (txn.inState .committing) with repo := repo } =
      (if txn.completedClosed then .panic closeOfClosed else .ok (), s.afterCommit repo txn) := by
  have hput : ∀ state : ManagedRepository β,
      (state.putTxn (txn.inState .committing)).putTxn
        (txn.completed .committed) = state.putTxn (txn.completed .committed) :=
    fun state => putTxn_putTxn state rfl
  have hafter := hput ⟨repo, s.manager.committing txn.id⟩
  unfold finishCommit
  rw [bind_of_ok (mapManager_apply)]
  split_ifs with hclosed
  · rw [bind_of_ok (setTxn_apply), AtomicTransaction.completed_of_closed hclosed .committed, crash_apply]
    exact congrArg (Prod.mk _) hafter
  · exact congrArg (Prod.mk _) hafter

end

section

variable {β : Type} [Backend β]

variable {id : GoString} {s : ManagedRepository β}

variable (host : Host)

theorem commit_run_committable {call : Call} {message : GoString}
    {txn : AtomicTransaction} (hlookup : s.manager.txns.lookup id = some txn)
    (hstate : Committable txn) :
    (∃ after, Store.Grown host (s.repo.nextObjects host call message) s.repo.store after ∧
      commit host call id message s =
        (if txn.completedClosed then .panic closeOfClosed
          else .ok (s.repo.nextCommit host call message),
          s.afterCommit (s.repo.committed after
            ((Object.commit (s.repo.nextCommit host call message)).hash host))
            txn)) ∨
      ∃ objects after e, Store.Grown host objects s.repo.store after ∧
        (Repository.commit host call message s.repo).1 = .error e ∧
        commit host call id message s =
          (.error (str "commit failed: " ++ e),
            ((s.withStore after).withStaging
              (txn.rollback s.repo.staging)).putTxn (txn.inState .aborted)) := by
  have hvalid : ¬ (txn.state ≠ .prepared ∧ txn.state ≠ .committing) := by
    unfold Committable at hstate
    tauto
  unfold commit
  rw [bind_of_ok (getTxn_of_some hlookup), if_neg hvalid, bind_of_ok (setTxn_apply)]
  rcases Repository.commit_run host call message s.repo with
    ⟨after, hgrown, hrun⟩ | ⟨objects, after, e, hgrown, hrun⟩
  · refine .inl ⟨after, hgrown, ?_⟩
    have hmade := attempt_of_ok (onRepo_of_run (s := s.putTxn (txn.inState .committing)) hrun)
    rw [bind_of_ok hmade]
    dsimp only
    rw [bind_apply, finishCommit_run]
    split_ifs
    · rfl
    · rfl
  · refine .inr ⟨objects, after, e, hgrown, by rw [hrun], ?_⟩
    have hfailed := attempt_of_error (onRepo_of_run (s := s.putTxn (txn.inState .committing)) hrun)
    rw [bind_of_ok hfailed]
    exact congrArg (Prod.mk _) (putTxn_putTxn
      ((s.withStore after).withStaging (txn.rollback s.repo.staging)) rfl)

theorem commit_run_refused (call : Call) (message : GoString)
    (hrefused : ∀ txn, s.manager.txns.lookup id = some txn → ¬ Committable txn) :
    (commit host call id message s).2 = s ∧
      ∀ made, (commit host call id message s).1 ≠ .ok made := by
  unfold commit
  cases hlookup : s.manager.txns.lookup id with
  | none =>
    rw [bind_apply, getTxn_of_none hlookup]
    exact ⟨rfl, fun _ h => nomatch h⟩
  | some txn =>
    have hstate : txn.state ≠ .prepared ∧ txn.state ≠ .committing := by
      have hclosed := hrefused txn hlookup
      unfold Committable at hclosed
      tauto
    rw [bind_of_ok (getTxn_of_some hlookup), if_pos hstate]
    exact ⟨rfl, fun _ h => nomatch h⟩

theorem commit_run_ok {host : Host}
    (hlookup : s.manager.txns.lookup id = some txn)
    (hrun : commit host call id message s = (.ok made, after)) :
    Committable txn ∧ made = s.repo.nextCommit host call message ∧
      ∃ store, Store.Grown host (s.repo.nextObjects host call message) s.repo.store store ∧
        after = s.afterCommit (s.repo.committed store ((Object.commit made).hash host)) txn := by
  by_cases hstate : Committable txn
  · rcases commit_run_committable host hlookup hstate with
      ⟨store, hgrown, hcommit⟩ | ⟨objects, store, e, hgrown, _, hcommit⟩
    · rw [hcommit] at hrun
      split_ifs at hrun
      · cases hrun
      · cases hrun
        exact ⟨hstate, rfl, store, hgrown, rfl⟩
    · rw [hcommit] at hrun
      cases hrun
  · have hrefused : ∀ other, s.manager.txns.lookup id = some other → ¬ Committable other := by
      intro other hother
      rw [hlookup] at hother
      cases hother
      exact hstate
    exact absurd (by rw [hrun]) ((commit_run_refused host call message hrefused).2 made)

/-! ## Begin -/

theorem collectFileStates_storeOnly (tree : Tree) (front : GoString)
    (states : GoMap GoString GoString) :
    Repository.StoreOnly host
      (collectFileStates host anyActive fuel tree front states :
        GoM (Repository β) (GoMap GoString GoString)) := by
  induction fuel generalizing tree front states with
  | zero => exact .of_same fun _ => rfl
  | succ fuel ih =>
    apply Repository.StoreOnly.foldlM
    intro states entry
    apply Repository.StoreOnly.ite
    · apply Repository.StoreOnly.ite
      · apply Repository.StoreOnly.bind (Repository.StoreOnly.getAs _ _ _).attempt
        intro result
        cases result with
        | ok subTree => exact ih subTree _ states
        | error e => exact .pure states
      · exact .pure states
    · exact .pure _

theorem createSnapshot_storeOnly {order : RangeOrder} {anyActive : Bool} :
    Repository.StoreOnly host (createSnapshot host order anyActive :
      GoM (Repository β) (GoMap GoString GoString)) := by
  have hcommitted : Repository.StoreOnly host
      (committedStates host anyActive : GoM (Repository β) (GoMap GoString GoString)) := by
    apply Repository.StoreOnly.bind (.view _)
    intro head
    cases head with
    | error e => exact .pure ∅
    | ok hash =>
      apply Repository.StoreOnly.ite (.pure ∅)
      have hload : Repository.StoreOnly host
          (Repository.loadTree host hash : GoM (Repository β) Tree) :=
        (Repository.StoreOnly.getAs _ _ _).bind fun _ => .getAs _ _ _
      apply Repository.StoreOnly.bind hload.attempt
      intro loaded
      cases loaded with
      | error e => exact .pure ∅
      | ok tree =>
        apply Repository.StoreOnly.bind (.view _)
        intro fuel
        exact collectFileStates_storeOnly host tree [] ∅
  apply Repository.StoreOnly.bind hcommitted
  intro committed
  apply Repository.StoreOnly.bind (.view _)
  intro staged
  exact .pure _

/-- A new transaction gets the next serial number; if the snapshot cannot be
taken, only the number is used up. -/
theorem beginTransaction_run {call : Call} (s : ManagedRepository β) :
    ∃ objects after, Store.Grown host objects s.repo.store after ∧
      ((∃ snapshot, beginTransaction host call s =
        (.ok (generateTransactionID call.unixNano (s.manager.nextTxnID + 1)),
          { s.withStore after with
            manager := s.manager.begun
              (generateTransactionID call.unixNano (s.manager.nextTxnID + 1))
              snapshot })) ∨
        (∀ id, (beginTransaction host call s).1 ≠ .ok id) ∧
          (beginTransaction host call s).2 =
            { s.withStore after with
              manager := { s.manager with
                nextTxnID := s.manager.nextTxnID + 1 } }) := by
  obtain ⟨objects, after, hgrown, hstate⟩ := createSnapshot_storeOnly host s.repo
  refine ⟨objects, after, hgrown, ?_⟩
  rcases hrun : createSnapshot host (call.order 0)
    (decide (s.manager.activeTxns.keys ≠ [])) s.repo with ⟨outcome, repo⟩
  rw [hrun] at hstate
  cases hstate
  have hsnapshot : onRepo (createSnapshot host (call.order 0)
      (decide (s.manager.activeTxns.keys ≠ [])))
        ({ s with manager := { s.manager with
          nextTxnID := s.manager.nextTxnID + 1 } } : ManagedRepository β) =
      (outcome, { s.withStore after with
        manager := { s.manager with
          nextTxnID := s.manager.nextTxnID + 1 } }) :=
    onRepo_of_run hrun
  unfold beginTransaction
  rw [bind_of_ok (mapManager_apply), bind_of_ok (view_apply), bind_of_ok (view_apply)]
  rw [bind_apply, hsnapshot]
  cases outcome with
  | ok snapshot => exact .inl ⟨snapshot, rfl⟩
  | _ => exact .inr ⟨fun _ h => (nomatch h), rfl⟩

/-! ## File operations -/

def FileOperation.Records (host : Host) (fileOp : AtomicFileOp) : FileOperation → Prop
  | .create _ content =>
    fileOp = ⟨.create, [], (Object.blob content).hash host⟩
  | .update _ content =>
    fileOp.type = .update ∧ fileOp.newHash = (Object.blob content).hash host
  | .delete _ => fileOp.type = .delete

theorem storeFor_run {path : GoString} {content : Bytes} (s : ManagedRepository β) :
    ∃ after, Store.Grown host [.blob content] s.repo.store after ∧
      (storeFor host path content s = (.ok ((Object.blob content).hash host), s.withStore after) ∨
        ∃ e, storeFor host path content s = (.error e, s.withStore after)) := by
  obtain ⟨after, hgrown, hrun⟩ := Store.storeObject_run s.repo.store
  refine ⟨after, hgrown, ?_⟩
  rcases hrun with hrun | ⟨e, -, hrun⟩
  · left
    have hstored : storeBlobWithDelta host content s.repo =
        (.ok ((Object.blob content).hash host), { s.repo with store := after }) := by
      have hblob : Repository.onStore (Store.storeBlob host content) s.repo =
          (.ok ((Object.blob content).hash host), { s.repo with store := after }) :=
        Repository.onStore_of_run hrun
      unfold storeBlobWithDelta
      rw [bind_of_ok hblob, if_neg (not_not.mpr rfl)]
      rfl
    unfold storeFor mapError
    rw [onRepo_of_run hstored]
    rfl
  · right
    have hstored : storeBlobWithDelta host content s.repo =
        (.error e, { s.repo with store := after }) := by
      exact bind_of_error (Repository.onStore_of_run hrun)
    refine ⟨str "failed to store blob for " ++ path ++ str ": " ++ e, ?_⟩
    unfold storeFor mapError
    rw [onRepo_of_run hstored]
    rfl

theorem readOld_run {old : Option GoString} (s : ManagedRepository β) :
    ∃ after, Store.Grown host [] s.repo.store after ∧
      readOld host old s = (.ok (), s.withStore after) := by
  cases old with
  | none => exact ⟨s.repo.store, Store.Grown.refl host _, rfl⟩
  | some hash =>
    obtain ⟨after, hsame, hrun⟩ := Store.getAs_run Store.asBlob (str "blob") host hash s.repo.store
    refine ⟨after, Store.Grown.of_sameContent hsame, ?_⟩
    rcases hrun with ⟨a, -, hrun⟩ | ⟨-, e, hrun⟩
    · exact bind_of_ok (attempt_of_ok (onRepo_of_run (Repository.onStore_of_run hrun)))
    · exact bind_of_ok (attempt_of_error (onRepo_of_run (Repository.onStore_of_run hrun)))

/-- A file operation may store a blob, and records one operation in its open
transaction or fails. -/
def FileStep (host : Host) (id : GoString) (op : FileOperation)
    (s : ManagedRepository β) (result : Outcome Unit × ManagedRepository β) :
    Prop :=
  ∃ objects after, Store.Grown host objects s.repo.store after ∧
    ((∃ txn fileOp, s.manager.txns.lookup id = some txn ∧ Open txn ∧
      txn.conflictSet.lookup op.path = none ∧ op.Records host fileOp ∧
      result = (.ok (), (s.withStore after).putTxn (txn.record op.path fileOp))) ∨
      (∀ a, result.1 ≠ .ok a) ∧ result.2 = s.withStore after)

theorem FileStep.refused {host : Host} {op : FileOperation}
    {result : Outcome Unit × ManagedRepository β}
    (hbad : ∀ a, result.1 ≠ .ok a) (hstate : result.2 = s) :
    FileStep host id op s result :=
  ⟨[], s.repo.store, Store.Grown.refl host _, .inr ⟨hbad, hstate⟩⟩

theorem atomicFileCreate_run {id path : GoString} {content : Bytes} {s : ManagedRepository β} :
    FileStep host id (.create path content) s (atomicFileCreate host id path content s) := by
  unfold atomicFileCreate
  rcases openForFileOp_run s with
    ⟨txn, hlookup, hopen, hconflict, hrun⟩ | ⟨hbad, hstate⟩
  · rw [bind_of_ok hrun]
    split_ifs with hwritten
    · exact .refused (fun _ h => nomatch h) rfl
    · obtain ⟨after, hgrown, hstored⟩ := storeFor_run host s
      refine ⟨_, after, hgrown, ?_⟩
      rcases hstored with hstored | ⟨e, hstored⟩
      · rw [bind_of_ok hstored]
        exact .inl ⟨txn, _, hlookup, hopen, hconflict, rfl, rfl⟩
      · rw [bind_of_error hstored]
        exact .inr ⟨fun _ h => (nomatch h), rfl⟩
  · exact .refused (bind_of_not_ok hbad).1 ((bind_of_not_ok hbad).2.trans hstate)

theorem atomicFileUpdate_run {id path : GoString} {content : Bytes} {s : ManagedRepository β} :
    FileStep host id (.update path content) s (atomicFileUpdate host id path content s) := by
  unfold atomicFileUpdate
  rcases openForFileOp_run s with
    ⟨txn, hlookup, hopen, hconflict, hrun⟩ | ⟨hbad, hstate⟩
  · obtain ⟨middle, hgrown, hread⟩ := readOld_run host s
    rw [bind_of_ok hrun, bind_of_ok hread]
    obtain ⟨after, hgrown', hstored⟩ := storeFor_run host (s.withStore middle)
    refine ⟨_, after, hgrown.trans hgrown', ?_⟩
    rcases hstored with hstored | ⟨e, hstored⟩
    · rw [bind_of_ok hstored]
      exact .inl ⟨txn, _, hlookup, hopen, hconflict, ⟨rfl, rfl⟩, rfl⟩
    · rw [bind_of_error hstored]
      exact .inr ⟨fun _ h => (nomatch h), rfl⟩
  · exact .refused (bind_of_not_ok hbad).1 ((bind_of_not_ok hbad).2.trans hstate)

theorem atomicFileDelete_run {id path : GoString} {s : ManagedRepository β} :
    FileStep host id (.delete path) s (atomicFileDelete host id path s) := by
  unfold atomicFileDelete
  rcases openForFileOp_run s with
    ⟨txn, hlookup, hopen, hconflict, hrun⟩ | ⟨hbad, hstate⟩
  · rw [bind_of_ok hrun]
    cases txn.writeSet.lookup path with
    | some fileOp =>
      dsimp only
      split_ifs with hdeleted
      · exact .refused (fun _ h => nomatch h) rfl
      · exact ⟨[], s.repo.store, Store.Grown.refl host _,
          .inl ⟨txn, ⟨.delete, fileOp.newHash, []⟩, hlookup, hopen, hconflict, rfl, rfl⟩⟩
    | none =>
      cases txn.fileStates.lookup path with
      | none => exact .refused (fun _ h => nomatch h) rfl
      | some oldHash =>
        obtain ⟨after, hgrown, hread⟩ := readOld_run host s
        refine ⟨[], after, hgrown, ?_⟩
        dsimp only
        rw [bind_of_ok hread]
        exact .inl ⟨txn, ⟨.delete, oldHash, []⟩, hlookup, hopen, hconflict, rfl, rfl⟩
  · exact .refused (bind_of_not_ok hbad).1 ((bind_of_not_ok hbad).2.trans hstate)

theorem fileOperation_run {id : GoString} {op : FileOperation} (s : ManagedRepository β) :
    FileStep host id op s (fileOperation host id op s) := by
  cases op with
  | create path content => exact atomicFileCreate_run host
  | update path content => exact atomicFileUpdate_run host
  | delete path => exact atomicFileDelete_run host

end

end ManagedRepository

end Govc
