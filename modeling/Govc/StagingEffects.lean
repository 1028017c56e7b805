import Govc.AtomicTransaction

/-!
# What transactions do to the staging area

An operation and its compensation change what is staged for one path.  A
prepared transaction leaves the effect of its last operation on each path it
writes, and executing or rolling it back leaves every other path alone.
-/

namespace Govc

open Go

namespace StagingArea

/-- The two areas say the same about `path`. -/
def AgreeAt (a b : StagingArea) (path : GoString) : Prop :=
  a.files.lookup path = b.files.lookup path ∧ a.removed.lookup path = b.removed.lookup path

def Carries (staging : StagingArea) (path : GoString) (fileOp : AtomicFileOp) : Prop :=
  match fileOp.type with
  | .create => staging.files.lookup path = some fileOp.newHash
  | .update => staging.files.lookup path = some fileOp.newHash
  | .delete => staging.files.lookup path = none ∧ staging.isRemoved path

def Touches (staging : StagingArea) (path : GoString) : Prop :=
  staging.contains path ∨ staging.isRemoved path

variable {path : GoString}

theorem AgreeAt.trans (hab : AgreeAt a b path) (hbc : AgreeAt b c path) : AgreeAt a c path :=
  ⟨hab.1.trans hbc.1, hab.2.trans hbc.2⟩

theorem AgreeAt.carries (h : AgreeAt a b path)
    (hcarries : b.Carries path fileOp) : a.Carries path fileOp := by
  unfold Carries isRemoved at hcarries ⊢
  rw [h.1, h.2]
  exact hcarries

theorem Carries.touches {staging : StagingArea}
    (hcarries : staging.Carries path fileOp) :
    staging.Touches path := by
  have hstaged : ∀ hash, staging.files.lookup path = some hash → staging.contains path = true := by
    intro hash hlookup
    rw [contains, GoMap.contains, hlookup]
    rfl
  unfold Carries at hcarries
  cases hkind : fileOp.type with
  | delete =>
    rw [hkind] at hcarries
    exact .inr hcarries.2
  | _ =>
    rw [hkind] at hcarries
    exact .inl (hstaged _ hcarries)

theorem agreeAt_addHash (staging : StagingArea) {hash : GoString} (hne : other ≠ path) :
    AgreeAt (staging.addHash path hash) staging other :=
  ⟨AList.lookup_insert_ne hne, rfl⟩

theorem agreeAt_remove (staging : StagingArea)
    (hne : other ≠ path) : AgreeAt (staging.remove path) staging other :=
  ⟨AList.lookup_erase_ne hne, AList.lookup_insert_ne hne⟩

end StagingArea

namespace AtomicOperation

variable (op : AtomicOperation) (staging : StagingArea)

theorem agreeAt_execute {path : GoString} (hne : path ≠ op.path) :
    (op.execute staging).AgreeAt staging path := by
  unfold execute
  cases op.fileOp.type with
  | delete => exact staging.agreeAt_remove hne
  | _ => exact staging.agreeAt_addHash hne

theorem agreeAt_compensate {path : GoString} (hne : path ≠ op.path) :
    (op.compensate staging).AgreeAt staging path := by
  unfold compensate
  cases op.fileOp.type with
  | create => exact staging.agreeAt_remove hne
  | update =>
    split_ifs with hold
    · exact staging.agreeAt_addHash hne
    · exact staging.agreeAt_remove hne
  | delete => exact staging.agreeAt_addHash hne

theorem carries_execute : (op.execute staging).Carries op.path op.fileOp := by
  unfold execute StagingArea.Carries
  cases op.fileOp.type with
  | create => exact AList.lookup_insert _
  | update => exact AList.lookup_insert _
  | delete =>
    simp [StagingArea.isRemoved, StagingArea.remove]

end AtomicOperation

namespace AtomicTransaction

def lastOp (operations : List AtomicOperation) (path : GoString) : Option AtomicOperation :=
  operations.reverse.find? fun op => op.path = path

theorem lastOp_append {operations : List AtomicOperation} {op : AtomicOperation} {path : GoString} :
    lastOp (operations ++ [op]) path =
      if op.path = path then some op else lastOp operations path := by
  simp only [lastOp, List.reverse_append, List.reverse_cons, List.reverse_nil,
    List.nil_append, List.singleton_append, List.find?_cons]
  by_cases heq : op.path = path
  · simp [heq]
  · simp [heq]

theorem lastOp_eq_none_iff {operations : List AtomicOperation} {path : GoString} :
    lastOp operations path = none ↔ ∀ op ∈ operations, op.path ≠ path := by
  simp [lastOp]

variable {path : GoString}

variable (txn : AtomicTransaction)

variable (staging : StagingArea)

theorem agreeAt_execute (hpath : lastOp txn.operations path = none) :
    (txn.execute staging).AgreeAt staging path := by
  rw [lastOp_eq_none_iff] at hpath
  unfold execute
  generalize txn.operations = operations at hpath ⊢
  induction operations generalizing staging with
  | nil => exact ⟨rfl, rfl⟩
  | cons op rest ih =>
    have hop : path ≠ op.path := (hpath op (by simp)).symm
    exact (ih (op.execute staging)
      fun other hother => hpath other (by simp [hother])).trans (op.agreeAt_execute staging hop)

theorem agreeAt_rollback (hpath : lastOp txn.operations path = none) :
    (txn.rollback staging).AgreeAt staging path := by
  have hops : ∀ op ∈ txn.operations.reverse, op.path ≠ path := by
    intro op hop
    exact (lastOp_eq_none_iff).mp hpath op (List.mem_reverse.mp hop)
  unfold rollback
  generalize txn.operations.reverse = operations at hops ⊢
  induction operations generalizing staging with
  | nil => exact ⟨rfl, rfl⟩
  | cons op rest ih =>
    have hstep : (if op.executed then op.compensate staging
        else staging).AgreeAt staging path := by
      split_ifs
      · exact op.agreeAt_compensate staging (hops op (by simp)).symm
      · exact ⟨rfl, rfl⟩
    exact (ih _ fun other hother => hops other (by simp [hother])).trans hstep

theorem carries_execute (hlast : lastOp txn.operations path = some op) :
    (txn.execute staging).Carries path op.fileOp := by
  unfold execute
  generalize txn.operations = operations at hlast ⊢
  induction operations using List.reverseRecOn with
  | nil => cases hlast
  | append_singleton rest last ih =>
    rw [lastOp_append] at hlast
    rw [List.foldl_append]
    split_ifs at hlast with heq
    · rw [← heq, ← Option.some.inj hlast]
      exact last.carries_execute _
    · exact (last.agreeAt_execute _ (Ne.symm heq)).carries (ih hlast)

theorem rollback_of_unexecuted (hnone : ∀ op ∈ txn.operations, op.executed = false) :
    txn.rollback staging = staging := by
  have hops : ∀ op ∈ txn.operations.reverse, op.executed = false :=
    fun op hop => hnone op (List.mem_reverse.mp hop)
  unfold rollback
  generalize txn.operations.reverse = operations at hops ⊢
  induction operations with
  | nil => rfl
  | cons op rest ih =>
    rw [List.foldl_cons, if_neg (by simp [hops op (by simp)])]
    exact ih fun other hother => hops other (by simp [hother])

def Latest (txn : AtomicTransaction) : Prop :=
  ∀ path, txn.writeSet.lookup path = (lastOp txn.operations path).map AtomicOperation.fileOp

theorem Latest.new (id : GoString) (fileStates : GoMap GoString GoString) :
    (AtomicTransaction.new id fileStates).Latest := by
  intro path
  rfl

variable {txn : AtomicTransaction}

theorem Latest.record (hlatest : txn.Latest) (path : GoString) (fileOp : AtomicFileOp) :
    (txn.record path fileOp).Latest := by
  intro other
  simp only [AtomicTransaction.record]
  rw [GoMap.lookup_insert_eq, lastOp_append]
  by_cases heq : other = path
  · rw [if_pos heq, if_pos heq.symm]
    rfl
  · rw [if_neg heq, if_neg (Ne.symm heq)]
    exact hlatest other

theorem Latest.markExecuted (hlatest : txn.Latest) : txn.markExecuted.Latest := by
  intro path
  have hlast : lastOp txn.markExecuted.operations path =
      (lastOp txn.operations path).map fun op =>
        { op with executed := true } := by
    simp only [lastOp, AtomicTransaction.markExecuted, ← List.map_reverse, List.find?_map]
    rfl
  rw [hlast, Option.map_map]
  exact hlatest path

theorem Latest.lastOp_eq_none (hlatest : txn.Latest) (hnone : txn.writeSet.contains path ≠ true) :
    lastOp txn.operations path = none := by
  cases hlast : lastOp txn.operations path with
  | none => rfl
  | some op =>
    have hlookup := hlatest path
    rw [hlast] at hlookup
    simp [GoMap.contains, hlookup] at hnone

end AtomicTransaction

end Govc
