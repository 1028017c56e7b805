import Govc.StagingEffects
import Govc.TransactionIsolation

/-!
# Abort as the undo of prepare

On each path the compensation of the first operation comes last and decides what
is staged afterwards: the hash it captured when the operation was recorded, not
the one staged before `Prepare`.  A deletion, and a compensation that removes the
path, leave it marked as removed.
-/

namespace Govc

open Go
open Repository (epoch)
open Runs

namespace AtomicOperation

def restored (op : AtomicOperation) : Option GoString :=
  match op.fileOp.type with
  | .create => none
  | .update => if op.fileOp.oldHash ≠ [] then some op.fileOp.oldHash else none
  | .delete => some op.fileOp.oldHash

/-- Neither the operation nor its compensation removes the path. -/
def Overwrites (op : AtomicOperation) : Prop := op.fileOp.type = .update ∧ op.fileOp.oldHash ≠ []

instance (op : AtomicOperation) : Decidable op.Overwrites := by
  unfold Overwrites
  infer_instance

variable (op : AtomicOperation)

variable (staging : StagingArea)

theorem files_compensate : (op.compensate staging).files.lookup op.path = op.restored := by
  unfold compensate restored
  cases op.fileOp.type with
  | create => exact AList.lookup_erase _ _
  | update =>
    dsimp only
    split
    · exact AList.lookup_insert _
    · exact AList.lookup_erase _ _
  | delete => exact AList.lookup_insert _

theorem overwrites_iff : op.Overwrites ↔ op.fileOp.type ≠ .delete ∧ op.restored ≠ none := by
  unfold Overwrites restored
  cases op.fileOp.type with
  | create => simp
  | update => by_cases hold : op.fileOp.oldHash = [] <;> simp [hold]
  | delete => simp

theorem removed_execute :
    (op.execute staging).removed.lookup op.path =
      if op.fileOp.type = .delete then some true
      else staging.removed.lookup op.path := by
  unfold execute
  cases op.fileOp.type with
  | create => rfl
  | update => rfl
  | delete => exact AList.lookup_insert _

theorem removed_compensate :
    (op.compensate staging).removed.lookup op.path =
      if op.restored = none then some true
      else staging.removed.lookup op.path := by
  unfold compensate restored
  cases op.fileOp.type with
  | create => exact AList.lookup_insert _
  | update =>
    dsimp only
    split
    · rfl
    · exact AList.lookup_insert _
  | delete => rfl

end AtomicOperation

/-! ## The operations and their compensations -/

def undone (operations : List AtomicOperation) (staging : StagingArea) : StagingArea :=
  operations.reverse.foldl (fun staging op => op.compensate staging)
    (operations.foldl (fun staging op => op.execute staging) staging)

theorem undone_cons {op : AtomicOperation} {staging : StagingArea} :
    undone (op :: rest) staging = op.compensate (undone rest (op.execute staging)) := by
  unfold undone
  rw [List.reverse_cons, List.foldl_append]
  rfl

def firstOp (operations : List AtomicOperation) (path : GoString) : Option AtomicOperation :=
  operations.find? fun op => op.path = path

theorem files_undone {staging : StagingArea} :
    (undone operations staging).files.lookup path =
      match firstOp operations path with
      | some op => op.restored
      | none => staging.files.lookup path := by
  induction operations generalizing staging with
  | nil => rfl
  | cons op rest ih =>
    rw [undone_cons, firstOp, List.find?_cons]
    by_cases heq : op.path = path
    · rw [decide_eq_true heq, ← heq]
      exact op.files_compensate _
    · rw [decide_eq_false heq, (op.agreeAt_compensate _ (Ne.symm heq)).1, ih,
        (op.agreeAt_execute staging (Ne.symm heq)).1]
      rfl

theorem removed_undone {staging : StagingArea} :
    (undone operations staging).removed.lookup path =
      if ∀ op ∈ operations, op.path = path → op.Overwrites then
        staging.removed.lookup path
      else some true := by
  induction operations generalizing staging with
  | nil => simp [undone]
  | cons op rest ih =>
    rw [undone_cons]
    by_cases heq : op.path = path
    · subst heq
      rw [op.removed_compensate, ih, op.removed_execute]
      by_cases hdelete : op.fileOp.type = .delete
      · simp [hdelete, op.overwrites_iff]
      · by_cases hnone : op.restored = none
        · simp [hnone, op.overwrites_iff]
        · simp [hdelete, hnone, op.overwrites_iff]
    · rw [(op.agreeAt_compensate _ (Ne.symm heq)).2, ih,
        (op.agreeAt_execute staging (Ne.symm heq)).2]
      simp [heq]

namespace AtomicTransaction

/-- On every path the transaction writes, the first compensation puts back
what is staged, and the path is marked as removed already or only
overwritten. -/
def Undoable (txn : AtomicTransaction) (staging : StagingArea) : Prop :=
  ∀ path op, firstOp txn.operations path = some op →
    staging.files.lookup path = op.restored ∧
      (staging.removed.lookup path = some true ∨
        ∀ other ∈ txn.operations, other.path = path → other.Overwrites)

instance (txn : AtomicTransaction) (staging : StagingArea) :
    Decidable (txn.Undoable staging) := by
  apply decidable_of_iff (∀ op ∈ txn.operations,
    firstOp txn.operations op.path = some op →
      staging.files.lookup op.path = op.restored ∧
        (staging.removed.lookup op.path = some true ∨
          ∀ other ∈ txn.operations, other.path = op.path → other.Overwrites))
  constructor
  · intro hops path op hfirst
    have hpath : op.path = path := by
      simpa using List.find?_some hfirst
    rw [← hpath] at hfirst ⊢
    exact hops op (List.mem_of_find?_eq_some hfirst) hfirst
  · intro hundoable op _ hfirst
    exact hundoable op.path op hfirst

theorem agreeAt_undone_iff (txn : AtomicTransaction) {staging : StagingArea} :
    (∀ path, (undone txn.operations staging).AgreeAt staging path) ↔ txn.Undoable staging := by
  constructor
  · intro hagree path op hfirst
    obtain ⟨hfiles, hremoved⟩ := hagree path
    rw [files_undone, hfirst] at hfiles
    rw [removed_undone] at hremoved
    refine ⟨hfiles.symm, ?_⟩
    by_cases hover : ∀ other ∈ txn.operations, other.path = path → other.Overwrites
    · exact .inr hover
    · rw [if_neg hover] at hremoved
      exact .inl hremoved.symm
  · intro hundoable path
    unfold StagingArea.AgreeAt
    rw [files_undone, removed_undone]
    cases hfirst : firstOp txn.operations path with
    | none =>
      have hunwritten : ∀ op ∈ txn.operations, op.path ≠ path := by
        simpa [firstOp] using hfirst
      rw [if_pos fun op hop heq => absurd heq (hunwritten op hop)]
      exact ⟨rfl, rfl⟩
    | some op =>
      obtain ⟨hfiles, hremoved⟩ := hundoable path op hfirst
      refine ⟨hfiles.symm, ?_⟩
      split_ifs with hover
      · rfl
      · rw [hremoved.resolve_right hover]

theorem rollback_prepared (txn : AtomicTransaction) {staging : StagingArea} :
    txn.prepared.rollback (txn.execute staging) = undone txn.operations staging := by
  unfold rollback undone execute
  simp only [AtomicTransaction.prepared, markExecuted, ← List.map_reverse, List.foldl_map, if_true]
  rfl

end AtomicTransaction

namespace ManagedRepository

/-- `Abort` undoes `Prepare` exactly when `Prepare` stopped at a conflict or
the staging area was as the compensations will leave it. -/
theorem abort_undoes_prepare_iff {β : Type} (call : Call)
    {s : ManagedRepository β} {txn : AtomicTransaction}
    (hlookup : s.manager.txns.lookup txn.id = some txn) (hopen : Open txn)
    (hnew : ∀ op ∈ txn.operations, op.executed = false) :
    (∀ path, (abort txn.id (prepare call txn.id s).2).2.repo.staging.AgreeAt s.repo.staging path) ↔
      Contended s.manager txn ∨ txn.Undoable s.repo.staging := by
  rw [contended_iff call]
  rcases prepare_run_open call hlookup hopen with
    ⟨path, other, hfound, hrun⟩ | ⟨hfound, _, hrun⟩
  · have hlookup' : (s.putTxn (txn.conflicted path other)).manager.txns.lookup
        txn.id = some (txn.conflicted path other) := AList.lookup_insert _
    have hback : (txn.conflicted path other).rollback s.repo.staging = s.repo.staging :=
      (txn.conflicted path other).rollback_of_unexecuted _ hnew
    have hstaging : (abort txn.id (prepare call txn.id s).2).2.repo.staging = s.repo.staging := by
      rw [hrun, abort_run hlookup' (nofun)]
      exact hback
    rw [hstaging, hfound]
    exact ⟨fun _ => .inl nofun, fun _ _ => ⟨rfl, rfl⟩⟩
  · have hlookup' : (prepare call txn.id s).2.manager.txns.lookup txn.id = some txn.prepared := by
      rw [hrun]
      exact AList.lookup_insert _
    have hstaging : (abort txn.id (prepare call txn.id s).2).2.repo.staging =
        undone txn.operations s.repo.staging := by
      rw [abort_run hlookup' (nofun), hrun]
      exact txn.rollback_prepared
    rw [hstaging, hfound, txn.agreeAt_undone_iff]
    simp

def stagedUpdate : ManagedRepository MemoryBackend :=
  [TransactionCall.begin epoch,
    .fileOperation firstID (.update (str "a") (str "x"))].foldl
      (fun s label => label.run Host.checksums s)
      ((withBackend MemoryBackend.new).withStaging (StagingArea.new.addHash (str "a") (str "h")))

def createdFile : ManagedRepository MemoryBackend :=
  runCalls [.begin epoch, .fileOperation firstID (.create (str "a") (str "x"))]

theorem abort_undoes_update :
    ∃ txn, stagedUpdate.manager.txns.lookup txn.id = some txn ∧
      txn.Undoable stagedUpdate.repo.staging ∧
      ∀ path, (abort txn.id (prepare epoch txn.id
        stagedUpdate).2).2.repo.staging.AgreeAt stagedUpdate.repo.staging path := by
  have hknown : (stagedUpdate.manager.txns.lookup firstID).isSome = true := by
    decide +kernel
  have hready : (stagedUpdate.manager.txns.lookup firstID).all (fun txn =>
      txn.id = firstID ∧ Open txn ∧ (∀ op ∈ txn.operations, op.executed = false) ∧
        txn.Undoable stagedUpdate.repo.staging) = true := by decide +kernel
  obtain ⟨txn, hlookup⟩ := Option.isSome_iff_exists.mp hknown
  rw [hlookup, Option.all_some, decide_eq_true_eq] at hready
  obtain ⟨hid, hopen, hnew, hundoable⟩ := hready
  rw [← hid] at hlookup
  exact ⟨txn, hlookup, hundoable, (abort_undoes_prepare_iff epoch
    hlookup hopen hnew).mpr (.inr hundoable)⟩

/-- The compensation of a creation leaves the new path marked as removed. -/
theorem abort_leaves_removed :
    Reachable (transactionSystem MemoryBackend Host.checksums) (fun _ _ => True) createdFile ∧
      (∃ txn, createdFile.manager.txns.lookup firstID = some txn ∧ Open txn) ∧
      ¬ ∀ path, (abort firstID (prepare epoch firstID
        createdFile).2).2.repo.staging.AgreeAt createdFile.repo.staging path := by
  have hknown : (createdFile.manager.txns.lookup firstID).isSome = true := by
    decide +kernel
  have hopen : (createdFile.manager.txns.lookup firstID).all
      (fun txn => Open txn) = true := by decide +kernel
  obtain ⟨txn, hlookup⟩ := Option.isSome_iff_exists.mp hknown
  rw [hlookup, Option.all_some, decide_eq_true_eq] at hopen
  refine ⟨runCalls_reachable _ _ fun _ _ _ => trivial, ⟨txn, hlookup, hopen⟩, ?_⟩
  intro hagree
  have hbefore : createdFile.repo.staging.removed.lookup (str "a") = none := by
    decide +kernel
  have hafter : (abort firstID (prepare epoch firstID
      createdFile).2).2.repo.staging.removed.lookup (str "a") = some true := by decide +kernel
  have hremoved := (hagree (str "a")).2
  rw [hbefore, hafter] at hremoved
  cases hremoved

end ManagedRepository

/-! ## Open transactions have executed nothing -/

namespace TransactionManager

def Unexecuted (manager : TransactionManager) : Prop :=
  ∀ id txn, manager.txns.lookup id = some txn → ManagedRepository.Open txn →
    ∀ op ∈ txn.operations, op.executed = false

theorem Unexecuted.insert {manager : TransactionManager}
    (h : manager.Unexecuted) {manager' : TransactionManager} {id : GoString}
    (htxns : manager'.txns = manager.txns.insert id txn)
    (htxn : ManagedRepository.Open txn →
      ∀ op ∈ txn.operations, op.executed = false) : manager'.Unexecuted := by
  unfold Unexecuted
  rw [htxns]
  exact GoMap.forall_insert h htxn

end TransactionManager

section

variable {β : Type} [Backend β] {host : Host} {s : ManagedRepository β}

theorem ManagerStep.unexecuted
    {manager : TransactionManager} (hstep : ManagerStep host s label manager)
    (h : s.manager.Unexecuted) : manager.Unexecuted := by
  cases hstep with
  | refused => exact h
  | drawn => exact h
  | begun => exact h.insert rfl fun _ op hop => absurd hop List.not_mem_nil
  | recorded op fileOp hlookup hopen =>
    refine h.insert rfl fun _ op hop => ?_
    rcases List.mem_append.mp hop with hold | hnew
    · exact h _ _ hlookup hopen op hold
    · rw [List.mem_singleton.mp hnew]
  | conflicted =>
    exact h.insert rfl fun hopen => by
      simp [ManagedRepository.Open, AtomicTransaction.conflicted] at hopen
  | prepared =>
    exact h.insert rfl fun hopen => by
      simp [ManagedRepository.Open, AtomicTransaction.prepared] at hopen
  | failed =>
    exact h.insert rfl fun hopen => by
      simp [ManagedRepository.Open, AtomicTransaction.inState] at hopen
  | _ =>
    exact h.insert rfl fun hopen => by
      simp [ManagedRepository.Open, AtomicTransaction.completed] at hopen

theorem unexecuted_of_reachable {guard : ManagedRepository β → TransactionCall → Prop}
    (hreach : Reachable (transactionSystem β host) guard s) :
    s.manager.Unexecuted := by
  refine hreach.invariant (I := fun s => s.manager.Unexecuted) ?_ ?_
  · rintro first ⟨_, hmanager⟩ id txn hlookup
    rw [hmanager] at hlookup
    cases hlookup
  · rintro before label _ hbefore _ rfl
    exact (label.run_managerStep host before).unexecuted hbefore

end

end Govc
