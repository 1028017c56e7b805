import Govc.CommitContract
import Govc.RepositoryHistory

/-!
# The three-way merge of trees

A merge decides every path by itself, from the hash the path has in the base
and on the two sides.  `mergeLaw` is the rule a three-way merge stands for;
`mergeVerdict` is what the loop of `mergeTrees` does.  The two part in one
case: a path of the base that one side deleted and the other modified.
-/

namespace Govc

open Go

inductive MergeVerdict (α : Type) where
  | keep (value : Option α)
  | conflict
  deriving DecidableEq

def MergeVerdict.value {α : Type} : MergeVerdict α → Option α
  | .keep value => value
  | .conflict => none

section Paths

variable {α : Type} [DecidableEq α] (base ours theirs : Option α)

/-- A side that did not change the path gives way to the other one; two
different changes are a conflict. -/
def mergeLaw : MergeVerdict α :=
  if ours = theirs then .keep ours
  else if base = ours then .keep theirs
  else if base = theirs then .keep ours
  else .conflict

def mergeVerdict : MergeVerdict α :=
  match ours, theirs with
  | none, none => .keep none
  | some our, none => if base.isSome then .keep none else .keep (some our)
  | none, some their => if base.isSome then .keep none else .keep (some their)
  | some our, some their =>
    if our = their then .keep (some our)
    else if base = some our then .keep (some their)
    else if base = some their then .keep (some our)
    else .conflict

def ModifiedAndDeleted : Prop :=
  base ≠ none ∧
    ((ours = none ∧ theirs ≠ none ∧ theirs ≠ base) ∨ (theirs = none ∧ ours ≠ none ∧ ours ≠ base))

theorem mergeVerdict_eq_mergeLaw_iff :
    mergeVerdict base ours theirs = mergeLaw base ours theirs ↔
      ¬ ModifiedAndDeleted base ours theirs := by
  cases base <;> cases ours <;> cases theirs <;>
    simp [mergeVerdict, mergeLaw, ModifiedAndDeleted, eq_comm]

theorem mergeVerdict_comm : mergeVerdict base ours theirs = mergeVerdict base theirs ours := by
  cases ours <;> cases theirs <;> simp [mergeVerdict]
  split_ifs <;> simp_all

theorem mergeVerdict_base_left : mergeVerdict base base theirs = .keep theirs := by
  cases base <;> cases theirs <;> simp [mergeVerdict]

theorem mergeVerdict_same : mergeVerdict base ours ours = .keep ours := by
  cases ours <;> simp [mergeVerdict]

end Paths

namespace Repository

variable (order : RangeOrder) (base ours theirs : Tree) (path : GoString)

def verdictAt : MergeVerdict GoString :=
  mergeVerdict (base.toMap path) (ours.toMap path) (theirs.toMap path)

/-- The loop of `mergeTrees` does what the verdict says, for the file it is
at. -/
theorem mergeFile_cases :
    (∃ entry, mergeFile base ours theirs path = .ok entry ∧
      verdictAt base ours theirs path = .keep (entry.map TreeEntry.hash) ∧
      ∀ e ∈ entry, e.name = path) ∨
    (mergeFile base ours theirs path = .error path ∧
      verdictAt base ours theirs path = .conflict) := by
  have hname : ∀ tree entry, findTreeEntry tree path = some entry → entry.name = path := by
    intro tree entry hfind
    simpa using List.find?_some hfind
  have hmap : ∀ tree : Tree, tree.toMap path =
      (findTreeEntry tree path).map TreeEntry.hash := fun _ => rfl
  unfold mergeFile verdictAt
  rw [hmap, hmap, hmap]
  cases hours : findTreeEntry ours path <;> cases findTreeEntry base path <;> simp [mergeVerdict]
  all_goals grind

def mergedNames : List GoString :=
  order.visit ((base.entries ++ ours.entries ++ theirs.entries).map TreeEntry.name).dedup

/-- A path that no tree has gets nothing. -/
theorem verdictAt_of_not_mem {path : GoString}
    (hpath : path ∉ mergedNames order base ours theirs) :
    verdictAt base ours theirs path = .keep none := by
  rw [mergedNames, (order.perm _).mem_iff, List.mem_dedup] at hpath
  have hnone : base.toMap path = none ∧ ours.toMap path = none ∧ theirs.toMap path = none := by
    simp [Tree.toMap] at hpath ⊢
    grind
  simp [verdictAt, hnone, mergeVerdict]

theorem toMap_merged {names : List GoString} (hnodup : names.Nodup) :
    Tree.toMap ⟨(names.map (mergeFile base ours theirs)).filterMap fun
        | .ok entry => entry
        | .error _ => none⟩ path =
      if path ∈ names then (verdictAt base ours theirs path).value else none := by
  induction names with
  | nil => rfl
  | cons name names ih =>
    rw [List.nodup_cons] at hnodup
    have hrest := ih hnodup.2
    unfold Tree.toMap at hrest ⊢
    rcases mergeFile_cases base ours theirs name with
      ⟨_ | entry, hfile, hverdict, hname⟩ | ⟨hfile, hverdict⟩
    all_goals
      by_cases hpath : path = name
      · simp_all [MergeVerdict.value]
      · have hother : ¬ name = path := Ne.symm hpath
        simp_all

theorem toMap_mergeTrees :
    (mergeTrees order base ours theirs).1.toMap path = (verdictAt base ours theirs path).value := by
  have hnodup : (mergedNames order base ours theirs).Nodup :=
    (order.perm _).nodup_iff.mpr (List.nodup_dedup _)
  refine (toMap_merged base ours theirs path hnodup).trans ?_
  split_ifs with hpath
  · rfl
  · rw [verdictAt_of_not_mem order base ours theirs hpath]
    rfl

theorem mem_merged_conflicts {names : List GoString} :
    path ∈ (names.map (mergeFile base ours theirs)).filterMap (fun
        | .ok _ => none
        | .error file => some file) ↔
      path ∈ names ∧ verdictAt base ours theirs path = .conflict := by
  induction names with
  | nil => simp
  | cons name names ih =>
    rcases mergeFile_cases base ours theirs name with
      ⟨entry, hfile, hverdict, -⟩ | ⟨hfile, hverdict⟩
    all_goals
      by_cases hpath : path = name
      · simp_all
      · simp_all

theorem mem_conflicts_iff :
    path ∈ (mergeTrees order base ours theirs).2 ↔ verdictAt base ours theirs path = .conflict := by
  refine (mem_merged_conflicts base ours theirs path).trans ?_
  refine and_iff_right_of_imp fun hverdict => ?_
  by_contra hpath
  rw [verdictAt_of_not_mem order base ours theirs hpath] at hverdict
  cases hverdict

def MergedByLaw : Prop :=
  match mergeLaw (base.toMap path) (ours.toMap path) (theirs.toMap path) with
  | .keep value =>
    (mergeTrees order base ours theirs).1.toMap path = value ∧
      path ∉ (mergeTrees order base ours theirs).2
  | .conflict => path ∈ (mergeTrees order base ours theirs).2

theorem mergedByLaw_iff :
    MergedByLaw order base ours theirs path ↔
      ¬ ModifiedAndDeleted (base.toMap path) (ours.toMap path) (theirs.toMap path) := by
  rw [← mergeVerdict_eq_mergeLaw_iff, MergedByLaw, toMap_mergeTrees, mem_conflicts_iff]
  unfold verdictAt
  cases mergeLaw (base.toMap path) (ours.toMap path) (theirs.toMap path) <;>
    cases mergeVerdict (base.toMap path) (ours.toMap path)
      (theirs.toMap path) <;> simp [MergeVerdict.value]

/-- The merge follows the law at every path exactly when no path of the base
was deleted on one side and modified on the other. -/
theorem mergeTrees_law_iff :
    (∀ path, MergedByLaw order base ours theirs path) ↔
      ∀ path, ¬ ModifiedAndDeleted (base.toMap path) (ours.toMap path) (theirs.toMap path) :=
  forall_congr' fun path => mergedByLaw_iff order base ours theirs path

def oneFile (name hash : GoString) : Tree := ⟨[⟨str "100644", name, hash⟩]⟩

/-- Our side modified the file and their side deleted it: the file is gone
and no conflict is reported. -/
theorem mergeTrees_drops_modified :
    let base := oneFile (str "a") (str "1")
    let ours := oneFile (str "a") (str "2")
    base.Distinct ∧ ours.Distinct ∧ (⟨[]⟩ : Tree).Distinct ∧
      mergeTrees .inserted base ours ⟨[]⟩ = (⟨[]⟩, []) ∧
      ¬ MergedByLaw .inserted base ours ⟨[]⟩ (str "a") := by
  intro base ours
  refine ⟨List.nodup_singleton _, List.nodup_singleton _, List.nodup_nil, ?_, ?_⟩
  · decide +kernel
  · rw [mergedByLaw_iff, not_not]
    simp only [ModifiedAndDeleted]
    decide +kernel

theorem mergeTrees_of_keep {left right result : Tree}
    (hkeep : ∀ path, verdictAt base left right path = .keep (result.toMap path)) :
    (mergeTrees order base left right).1.toMap = result.toMap ∧
      (mergeTrees order base left right).2 = [] := by
  constructor
  · funext path
    rw [toMap_mergeTrees, hkeep]
    rfl
  · rw [List.eq_nil_iff_forall_not_mem]
    simp [mem_conflicts_iff, hkeep]

/-- Exchanging the sides changes neither the merged map nor the conflicts,
and a side that equals the base, or the other side, leaves the other one as
it is; the orders of iteration play no part. -/
theorem mergeTrees_algebra (order' : RangeOrder) :
    ((mergeTrees order base ours theirs).1.toMap = (mergeTrees order' base theirs ours).1.toMap ∧
      ∀ path, path ∈ (mergeTrees order base ours theirs).2 ↔
        path ∈ (mergeTrees order' base theirs ours).2) ∧
    ((mergeTrees order base base theirs).1.toMap = theirs.toMap ∧
      (mergeTrees order base base theirs).2 = []) ∧
    ((mergeTrees order base ours base).1.toMap = ours.toMap ∧
      (mergeTrees order base ours base).2 = []) ∧
    ((mergeTrees order base ours ours).1.toMap = ours.toMap ∧
      (mergeTrees order base ours ours).2 = []) := by
  refine ⟨⟨?_, ?_⟩, ?_, ?_, ?_⟩
  · funext path
    simp only [toMap_mergeTrees, verdictAt]
    rw [mergeVerdict_comm]
  · intro path
    simp only [mem_conflicts_iff, verdictAt]
    rw [mergeVerdict_comm]
  · exact mergeTrees_of_keep order base fun path => mergeVerdict_base_left _ _
  · refine mergeTrees_of_keep order base fun path => ?_
    rw [verdictAt, mergeVerdict_comm, mergeVerdict_base_left]
  · exact mergeTrees_of_keep order base fun path => mergeVerdict_same _ _

end Repository

end Govc
