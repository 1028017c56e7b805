import Govc.CheckoutFrames
import Govc.CommitContract
import Govc.MergeRecord

/-!
# Cherry-picks and reverts

Both stage the files that a commit has changed and hand over to
`commitInternal`, which makes a tree of the staged files alone and moves HEAD
to its commit.  So the branch stays where it was, HEAD is detached, and the
new tree lacks every file that was not staged.
-/

namespace Govc

open Go GoM Host

namespace Repository

variable {β : Type} [Backend β] {host : Host} {call : Call}
  {repo after : Repository β} {made : Commit} {ref branch tip : GoString}

/-- HEAD is detached at a commit of these files on top of the old HEAD. -/
structure MadeFrom (host : Host) (refs : RefStore)
    (files : GoString → Option GoString) (made : Commit) (after : RefStore) :
    Prop where
  detached : after = refs.setHEAD ((Object.commit made).hash host)
  parent : ∀ hash, refs.getHEAD = .ok hash → made.parentHash = hash
  tree : ∃ tree : Tree, made.treeHash = (Object.tree tree).hash host ∧
    ∀ path, tree.toMap path = files path

theorem commitInternal_ok {order : RangeOrder} {commit : Commit}
    (hrun : commitInternal host order commit repo = (.ok made, after)) :
    MadeFrom host repo.refs (repo.staging.files.lookup ·) made after.refs := by
  rw [commitInternal, bind_of_ok (view_apply ..), bind_of_ok (view_apply ..)] at hrun
  obtain ⟨_, _, htree, hrun⟩ := bind_eq_ok hrun
  obtain ⟨rfl, _, -, rfl⟩ := storeObject_ok (mapError_eq_ok htree)
  obtain ⟨_, _, hcommit, hrun⟩ := bind_eq_ok hrun
  obtain ⟨rfl, _, -, rfl⟩ := storeObject_ok (mapError_eq_ok hcommit)
  cases hrun
  refine ⟨rfl, fun hash hhead => ?_, _, rfl, find_stagedEntries _ _⟩
  simp [headHash, hhead]

/-- What stays the same until files are staged. -/
def unstaged (repo : Repository β) : RefStore × StagingArea := (repo.refs, repo.staging)

theorem unstaged_steady : Steady (unstaged : Repository β → _) where
  read := fun _ _ _ => rfl

theorem loadChange_ok {verb : GoString}
    {loaded : GoString × Commit × Tree × Tree}
    (hrun : loadChange host verb ref repo = (.ok loaded, after)) :
    after.refs = repo.refs ∧ after.staging = repo.staging := by
  have hleaves : (loadChange host verb ref : GoM (Repository β) _).Leaves unstaged := by
    refine ((unstaged_steady.resolveRef host ref).mapError _).bind fun _ => ?_
    refine ((unstaged_steady.getAs _ _ _ _).mapError _).bind fun _ => ?_
    refine .ite (.fail _) ?_
    refine ((unstaged_steady.getAs _ _ _ _).mapError _).bind fun _ => ?_
    refine ((unstaged_steady.getAs _ _ _ _).mapError _).bind fun _ => ?_
    exact ((unstaged_steady.getAs _ _ _ _).mapError _).bind fun _ => .pure _
  exact Prod.mk.inj (hleaves.of_run hrun)

/-- The end of both calls, behind the staging. -/
theorem rewritten_ok {order : RangeOrder} {hash : GoString}
    {message : GoString → GoString} (hrun : (do
      let short ← shortHash hash
      let newCommit ← view fun repo =>
        repo.rewrittenCommit call 0 (message short)
      commitInternal host order newCommit : GoM (Repository β) Commit) repo = (.ok made, after)) :
    MadeFrom host repo.refs (repo.staging.files.lookup ·) made after.refs := by
  obtain ⟨_, mid, hshort, hrun⟩ := bind_eq_ok hrun
  unfold shortHash at hshort
  split at hshort
  · cases hshort
    exact commitInternal_ok hrun
  · cases hshort

/-- The branch has been moved from `tip` to a new commit on top of it, with
these files. -/
def MovedTo (host : Host) (branch tip : GoString)
    (files : GoString → Option GoString) (after : Repository β) : Prop :=
  ∃ new commit tree, after.refs.getBranch branch = .ok new ∧ new ≠ tip ∧
    after.store.commitAt host new = some commit ∧ commit.parentHash = tip ∧
    after.store.treeAt host commit.treeHash = some tree ∧ tree.toMap = files

variable {refs : RefStore} {files : GoString → Option GoString}

theorem MadeFrom.branch_stays (hmade : MadeFrom host refs files made after.refs)
    (hattached : refs.head = str "ref: refs/heads/" ++ branch)
    (htip : refs.getBranch branch = .ok tip) :
    after.refs.getBranch branch = .ok tip ∧ made.parentHash = tip ∧
      after.refs.head = (Object.commit made).hash host ∧
      ∀ files, ¬ MovedTo host branch tip files after := by
  have hbranch : after.refs.getBranch branch = .ok tip := by
    rw [hmade.detached]
    exact htip
  have hhead : refs.getHEAD = .ok tip := by
    have hlookup := (RefStore.getBranch_eq_ok_iff _ _ _).mp htip
    have href : refs.head = str "ref: " ++ RefStore.branchRef branch := by
      rw [hattached, RefStore.branchRef, ← List.append_assoc]
      rfl
    have hnonempty : refs.head ≠ [] := by
      rw [href]
      exact List.append_ne_nil_of_left_ne_nil (by decide) _
    rw [RefStore.getHEAD, if_neg hnonempty, href, if_pos (hasPrefix_append),
      trimPrefix_append, hlookup]
  refine ⟨hbranch, hmade.parent tip hhead, by rw [hmade.detached]; rfl, ?_⟩
  rintro files ⟨new, _, _, hnew, hne, -⟩
  rw [hbranch] at hnew
  cases hnew
  exact hne rfl

/-! ## CherryPick -/

/-- The change from `before` to `after`, made to `base`. -/
def patched (base before after : GoString → Option GoString) (path : GoString) : Option GoString :=
  if after path = before path then base path else after path

/-- A successful `CherryPick` never moves the branch.  HEAD is detached at a
commit that has the added and modified files and nothing else. -/
theorem cherryPick_never (host : Host) (call : Call) (ref : GoString)
    {before after : Repository β} {made commit : Commit} (base : Tree)
    {branch tip hash : GoString} {commitTree parentTree : Tree}
    (hattached : before.refs.head = str "ref: refs/heads/" ++ branch)
    (htip : before.refs.getBranch branch = .ok tip)
    (hempty : before.staging.files = ∅)
    (hload : (loadChange host (str "cherry-pick") ref before).1 =
      .ok (hash, commit, commitTree, parentTree))
    (hrun : cherryPick host call ref before = (.ok made, after)) :
    ¬ MovedTo host branch tip (patched base.toMap parentTree.toMap commitTree.toMap) after ∧
      after.refs.getBranch branch = .ok tip ∧ made.parentHash = tip ∧
      after.refs.head = (Object.commit made).hash host ∧
      ∃ tree : Tree, made.treeHash = (Object.tree tree).hash host ∧
        ∀ path, tree.toMap path = (changedFiles commitTree parentTree).lookup path := by
  obtain ⟨loaded, mid, hloaded, hrun⟩ := bind_eq_ok hrun
  obtain ⟨hrefs, hstaging⟩ := loadChange_ok hloaded
  rw [hloaded] at hload
  cases hload
  obtain ⟨_, staged, hstage, hrun⟩ := bind_eq_ok hrun
  have hstaged : staged.refs = mid.refs ∧ staged.staging =
      ((changedFiles commitTree parentTree).range (call.order 0)).foldl
        (fun staging change => staging.addHash change.1 change.2) mid.staging :=
    forEach_tracks (fun _ _ => ⟨rfl, rfl⟩) hstage
  have hmade := rewritten_ok hrun
  rw [hstaged.1, hstaged.2, hrefs, hstaging] at hmade
  obtain ⟨hbranch, hparent, hhead, hnever⟩ := hmade.branch_stays hattached htip
  obtain ⟨tree, htree, hfiles⟩ := hmade.tree
  refine ⟨hnever _, hbranch, hparent, hhead, tree, htree, fun path => ?_⟩
  have hlookup := GoMap.foldl_range_get
    (fun (staging : StagingArea) key => staging.files.lookup key)
    (fun staging change => staging.addHash change.1 change.2)
    (fun change _ => some change.2)
    (fun _ _ _ => GoMap.lookup_insert_eq _ _ _ _) (call.order 0)
  rw [hfiles, hlookup, hempty]
  cases (changedFiles commitTree parentTree).lookup path <;> rfl

theorem ok_of_isSome {σ α : Type} {result : Outcome α × σ}
    (hsome : result.1.toOption.isSome) : ∃ a, result = (.ok a, result.2) := by
  obtain ⟨outcome, after⟩ := result
  cases outcome <;> simp_all [Outcome.toOption]

theorem diverged_unstaged : diverged.staging.files = ∅ := AList.ext (by decide +kernel)

/-- The tip of `dev` adds a file to that of the root commit. -/
theorem cherryPick_never_diverged :
    (cherryPick checksums epoch (diverged.branchTip (str "dev"))
      diverged).2.refs.getBranch (str "main") = .ok (diverged.branchTip (str "main")) := by
  obtain ⟨made, hrun⟩ := ok_of_isSome (by decide +kernel :
    (cherryPick checksums epoch (diverged.branchTip (str "dev")) diverged).1.toOption.isSome)
  obtain ⟨loaded, hload⟩ := ok_of_isSome (by decide +kernel :
    (loadChange checksums (str "cherry-pick") (diverged.branchTip (str "dev"))
      diverged).1.toOption.isSome)
  exact (cherryPick_never checksums epoch _ ⟨[]⟩ (by decide +kernel)
    (by decide +kernel) diverged_unstaged (by rw [hload]) hrun).2.1

/-- The commit on top of `main` has the picked file only, and `main` does not
move. -/
theorem cherryPick_drops_files :
    let picked := cherryPick checksums epoch
      (diverged.branchTip (str "dev")) diverged
    picked.2.branchTip (str "main") = diverged.branchTip (str "main") ∧
      (picked.1.toOption.bind fun made => picked.2.store.treeAt checksums
        made.treeHash).map (fun tree => tree.entries.map TreeEntry.name) = some [str "c"] ∧
      ((diverged.store.treeOfCommit checksums
        (diverged.branchTip (str "main"))).map fun tree =>
          tree.entries.map TreeEntry.name) = some [str "a", str "b"] := by
  decide +kernel

/-! ## Revert -/

/-- What `undoEntry` does to the staging area. -/
def undone (parentTree : Tree) (staging : StagingArea) (entry : TreeEntry) : StagingArea :=
  match findTreeEntry parentTree entry.name with
  | some parentEntry =>
    if parentEntry.hash ≠ entry.hash then
      staging.addHash entry.name parentEntry.hash
    else staging
  | none => staging.remove entry.name

theorem restoreEntry_stages (name hash : GoString) (repo : Repository β) :
    (restoreEntry host name hash repo).2.refs = repo.refs ∧
      (restoreEntry host name hash repo).2.staging = repo.staging.addHash name hash := by
  obtain ⟨after, _, ⟨content, -, hrun⟩ | ⟨-, e, hrun⟩⟩ := Store.getAs_run
    Store.asBlob (str "blob") host hash repo.store
  · simp [restoreEntry, Store.getBlob, bind_apply, mapStaging, attempt,
      onStore_apply, hrun, mapWorktree]
  · simp [restoreEntry, Store.getBlob, bind_apply, mapStaging, attempt, onStore_apply, hrun]

theorem undoEntry_stages (parentTree : Tree) (entry : TreeEntry) (repo : Repository β) :
    (undoEntry host parentTree entry repo).2.refs = repo.refs ∧
      (undoEntry host parentTree entry repo).2.staging = undone parentTree repo.staging entry := by
  unfold undoEntry undone
  cases findTreeEntry parentTree entry.name with
  | none => exact ⟨rfl, rfl⟩
  | some parentEntry =>
    dsimp only
    split_ifs
    · exact restoreEntry_stages _ _ repo
    · exact ⟨rfl, rfl⟩

theorem toMap_eq (tree : Tree) (path : GoString) :
    tree.toMap path = (findTreeEntry tree path).map TreeEntry.hash := rfl

/-- The commit has the path, as its parent has it. -/
def UnchangedAt (commitTree parentTree : Tree) (path : GoString) : Prop :=
  (commitTree.toMap path).isSome ∧ ∀ entry ∈ commitTree.entries,
    entry.name = path → parentTree.toMap path = some entry.hash

theorem lookup_undone {parentTree : Tree} {path : GoString} {entry : TreeEntry}
    (hsame : entry.name = path → parentTree.toMap path = some entry.hash)
    {staging : StagingArea} (hnone : staging.files.lookup path = none) :
    (undone parentTree staging entry).files.lookup path = none := by
  unfold undone
  cases hfind : findTreeEntry parentTree entry.name with
  | none =>
    simp [StagingArea.remove, GoMap.lookup_erase_eq, hnone]
  | some parentEntry =>
    by_cases hpath : entry.name = path
    · subst hpath
      have hhash : parentEntry.hash = entry.hash := by
        simpa [toMap_eq, hfind] using hsame rfl
      simp [hhash, hnone]
    · dsimp only
      split_ifs
      · simp [StagingArea.addHash, Ne.symm hpath, hnone]
      · exact hnone

/-- A successful `Revert` never moves the branch.  HEAD is detached at a commit
without the files that the reverted one left unchanged. -/
theorem revert_never (host : Host) (call : Call) (ref : GoString)
    {before after : Repository β} {made commit : Commit}
    {branch tip hash : GoString} {commitTree parentTree : Tree}
    (hattached : before.refs.head = str "ref: refs/heads/" ++ branch)
    (htip : before.refs.getBranch branch = .ok tip)
    (hempty : before.staging.files = ∅)
    (hload : (loadChange host (str "revert") ref before).1 =
      .ok (hash, commit, commitTree, parentTree))
    (hrun : revert host call ref before = (.ok made, after)) :
    ¬ MovedTo host branch tip parentTree.toMap after ∧
      after.refs.getBranch branch = .ok tip ∧ made.parentHash = tip ∧
      after.refs.head = (Object.commit made).hash host ∧
      ∃ tree : Tree, made.treeHash = (Object.tree tree).hash host ∧
        ∀ path, UnchangedAt commitTree parentTree path → tree.toMap path = none := by
  obtain ⟨loaded, mid, hloaded, hrun⟩ := bind_eq_ok hrun
  obtain ⟨hrefs, hstaging⟩ := loadChange_ok hloaded
  rw [hloaded] at hload
  cases hload
  obtain ⟨_, first, hfirst, hrun⟩ := bind_eq_ok hrun
  have hundone : first.refs = mid.refs ∧ first.staging =
      commitTree.entries.foldl (undone parentTree) mid.staging :=
    forEach_tracks (undoEntry_stages parentTree) hfirst
  obtain ⟨_, second, hsecond, hrun⟩ := bind_eq_ok hrun
  have hrestored : second.refs = first.refs ∧ second.staging =
      (parentTree.entries.filter fun entry =>
        (findTreeEntry commitTree entry.name).isNone).foldl
        (fun staging entry => staging.addHash entry.name entry.hash)
        first.staging :=
    forEach_tracks (fun _ => restoreEntry_stages _ _) hsecond
  have hmade := rewritten_ok hrun
  rw [hrestored.1, hrestored.2, hundone.1, hundone.2, hrefs, hstaging] at hmade
  obtain ⟨hbranch, hparent, hhead, hnever⟩ := hmade.branch_stays hattached htip
  obtain ⟨tree, htree, hfiles⟩ := hmade.tree
  refine ⟨hnever _, hbranch, hparent, hhead, tree, htree, ?_⟩
  intro path hsame
  rw [hfiles]
  refine List.foldlRecOn (motive := fun staging : StagingArea =>
    staging.files.lookup path = none) _ _ ?_ ?_
  · exact List.foldlRecOn (motive := fun staging : StagingArea =>
      staging.files.lookup path = none) _ _ (by rw [hempty]; rfl)
      fun _ hnone entry hmem => lookup_undone (hsame.2 entry hmem) hnone
  · intro staging hnone entry hmem
    have hpath : path ≠ entry.name := by
      rintro rfl
      have hfound := hsame.1
      rw [toMap_eq, Option.isSome_map] at hfound
      have hmissing := (List.mem_filter.mp hmem).2
      simp [Option.isNone_iff_eq_none.mp hmissing] at hfound
    simp [StagingArea.addHash, hpath, hnone]

theorem revert_never_diverged :
    (revert checksums epoch (diverged.branchTip (str "main"))
      diverged).2.refs.getBranch (str "main") = .ok (diverged.branchTip (str "main")) := by
  obtain ⟨made, hrun⟩ := ok_of_isSome (by decide +kernel :
    (revert checksums epoch (diverged.branchTip (str "main")) diverged).1.toOption.isSome)
  obtain ⟨loaded, hload⟩ := ok_of_isSome (by decide +kernel :
    (loadChange checksums (str "revert") (diverged.branchTip (str "main"))
      diverged).1.toOption.isSome)
  exact (revert_never checksums epoch _ (by decide +kernel)
    (by decide +kernel) diverged_unstaged (by rw [hload]) hrun).2.1

/-- Reverting the commit that added `b` leaves no file at all; its parent has
the file `a`. -/
theorem revert_drops_files :
    let reverted := revert checksums epoch
      (diverged.branchTip (str "main")) diverged
    reverted.2.branchTip (str "main") = diverged.branchTip (str "main") ∧
      (reverted.1.toOption.bind fun made => reverted.2.store.treeAt
        checksums made.treeHash).map Tree.entries = some [] := by
  decide +kernel

end Repository

end Govc
