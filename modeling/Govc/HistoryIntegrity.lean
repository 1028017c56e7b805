import Govc.BranchIntegrity
import Govc.CommitExecution

/-!
# Commits and history rewriting keep a repository intact

The entries of a new tree come from trees of stored commits and from the staging
area.  `Commit`, `CherryPick` and `Revert` ask for a restorable staging area;
`Merge` and `Rebase` take nothing from the one they start with.
-/

namespace Govc

open Go Store
open Go.GoM (Triple)

namespace Repository

variable {β : Type} [ReliableBackend β] {host : Host}

variable {A : Repository β → Prop}

theorem loadTree_rule (hA : Stable A) (hash : GoString) :
    Triple (Inv host A) (loadTree host hash)
      (fun tree => Inv host fun s => A s ∧ TreeKnown host tree s ∧
        (s.store.commitAt host hash).isSome) (Inv host A) := by
  apply Triple.bind (read_rule hA)
  intro commit
  apply anyConsequence (read_rule hA.andRead)
  · intro s _ h
    exact h
  · intro tree s hintact h
    exact ⟨h.1.1, hintact.entries_of_commit h.1.2 h.2, Option.isSome_of_mem h.1.2⟩
  · intro s _ h
    exact h.1

theorem loadTree_reads {hash : GoString} :
    Reads host (loadTree host hash : GoM (Repository β) Tree) :=
  (Reads.getAs _ _ _).bind fun _ => Reads.getAs _ _ _

/-! ## Commit -/

variable {repo : Repository β}

theorem Intact.tipEntries_known (hintact : repo.Intact host) :
    TreeKnown host ⟨repo.tipEntries host⟩ repo := by
  intro entry hentry
  simp only [tipEntries] at hentry
  split_ifs at hentry with hempty
  · cases hentry
  · cases htree : repo.store.treeOfCommit host repo.tip with
    | none =>
      rw [htree] at hentry
      cases hentry
    | some tree =>
      rw [htree] at hentry
      obtain ⟨commit, hcommit, hat⟩ := Option.bind_eq_some_iff.mp htree
      exact hintact.entries_of_commit hcommit hat entry hentry

theorem Intact.nextTree_known (hintact : repo.Intact host) (hrestorable : Restorable host repo)
    (call : Call) : TreeKnown host (repo.nextTree host call) repo := by
  intro entry hentry
  rcases List.mem_append.mp hentry with hinherited | hstaged
  · exact hintact.tipEntries_known entry (List.mem_filter.mp hinherited).1
  · exact hrestorable.stagedEntries hintact (call.order 0) entry hstaged

theorem Intact.nextObjects (hintact : repo.Intact host) (hrestorable : Restorable host repo)
    (hgrown : Store.Grown host (repo.nextObjects host call message) repo.store after)
    (hfaithful : host.Faithful after.hashed) :
    ({ repo with store := after } : Repository β).Intact host ∧
      (after.commitAt host
        ((Object.commit (repo.nextCommit host call message)).hash host)).isSome := by
  have hgains := hgrown.gains hintact.honest hfaithful
  have hknown := hintact.nextTree_known hrestorable call
  have htree : after.treeAt host
      ((Object.tree (repo.nextTree host call)).hash host) = some (repo.nextTree host call) :=
    hgrown.treeAt hintact.honest hfaithful (by simp [Repository.nextObjects])
      (fun e he => (hknown e he).1)
  have hready : (repo.nextCommit host call message).Ready host after := by
    apply ready_of_files hgains.honest
    · refine ⟨_, htree, ?_⟩
      intro entry hentry
      exact hgains.kept.isSome (hknown entry hentry).2
    · rcases hintact.known_sound hintact.tip_known with hroot | hparent
      · exact .inl hroot
      · exact .inr (hparent.mono hgains.kept)
    · exact hintact.author_safe
    · exact hintact.author_safe
  constructor
  · apply hintact.grown hgrown hfaithful
    intro commit hmem
    simp only [Repository.nextObjects, List.mem_cons, List.not_mem_nil,
      or_false, reduceCtorEq, false_or, Object.commit.injEq] at hmem
    rw [hmem]
    exact hready
  · rw [hgrown.commitAt hintact.honest hfaithful (by simp [Repository.nextObjects]) hready.safe]
    rfl

variable {hash : GoString}

theorem Intact.committedRefs (hintact : repo.Intact host)
    (hstored : (repo.store.commitAt host hash).isSome) :
    ({ repo with refs := repo.committedRefs hash } :
      Repository β).Intact host := by
  unfold Repository.committedRefs
  split_ifs with hbranch
  · exact (hintact.setBranch repo.branchToMove (.inr hstored)).attach repo.branchToMove
  · exact hintact.detach hstored

variable (call : Call)

theorem commit_rule :
    Triple (Inv host (Restorable host)) (commit host call message : GoM (Repository β) Commit)
      (fun _ => Inv host Any) (Inv host Any) := by
  intro repo hrepo
  obtain ⟨after, hgrown, hrun⟩ := commit_reliable host call message repo
  have hinv : Inv host Any (repo.committed after
      ((Object.commit (repo.nextCommit host call message)).hash host)) := by
    intro hfaithful
    obtain ⟨hintact, hrestorable⟩ := hrepo (hfaithful.of_suffix hgrown.suffix)
    obtain ⟨hstored, hcommit⟩ := hintact.nextObjects hrestorable hgrown hfaithful
    exact ⟨(hstored.committedRefs hcommit).congr rfl rfl rfl, trivial⟩
  rw [hrun]
  exact ⟨fun _ _ => hinv, fun _ => hinv⟩

/-! ## Staging -/

theorem addFile_keeps : Keeps host (addFile host file : GoM (Repository β) Unit) := by
  apply Keeps.bind (Reads.query _).keeps
  intro content
  apply Triple.bind (storeBlob_rule stable_any content)
  intro hash
  exact mapStaging_rule fun _ _ _ => trivial

theorem add_keeps :
    Keeps host (add host call patterns : GoM (Repository β) Unit) := by
  apply Triple.forEach
  intro pattern _
  apply Keeps.bind (Reads.view _).keeps
  intro files
  exact Triple.forEach fun file _ => addFile_keeps

theorem writeFile_keeps :
    Keeps host (writeFile path content : GoM (Repository β) Unit) :=
  (Reads.mapWorktree _).keeps

theorem remove_keeps : Keeps host (remove path : GoM (Repository β) Unit) := by
  apply Keeps.bind (Keeps.mapStaging _)
  intro _
  exact (Reads.mapWorktree _).keeps

/-! ## Merge -/

variable {name : GoString} {entry : TreeEntry}

theorem mem_of_findTreeEntry (hfind : findTreeEntry tree name = some entry) :
    entry ∈ tree.entries :=
  List.mem_of_find?_eq_some hfind

variable {base ours theirs : Tree}

theorem mem_of_mergeFile (hmerge : mergeFile base ours theirs file = .ok (some entry)) :
    entry ∈ ours.entries ∨ entry ∈ theirs.entries := by
  unfold mergeFile at hmerge
  cases hours : findTreeEntry ours file with
  | none =>
    cases htheirs : findTreeEntry theirs file with
    | none => simp [hours, htheirs] at hmerge
    | some theirEntry =>
      simp only [hours, htheirs] at hmerge
      split_ifs at hmerge
      · cases hmerge
      · cases hmerge
        exact .inr (mem_of_findTreeEntry htheirs)
  | some ourEntry =>
    cases htheirs : findTreeEntry theirs file with
    | none =>
      simp only [hours, htheirs] at hmerge
      split_ifs at hmerge
      · cases hmerge
      · cases hmerge
        exact .inl (mem_of_findTreeEntry hours)
    | some theirEntry =>
      have hboth : ∀ found, (.ok (some found) : Except GoString _) =
          .ok (some entry) → found = ourEntry ∨ found = theirEntry →
          entry ∈ ours.entries ∨ entry ∈ theirs.entries := by
        intro found heq hfound
        cases heq
        rcases hfound with rfl | rfl
        · exact .inl (mem_of_findTreeEntry hours)
        · exact .inr (mem_of_findTreeEntry htheirs)
      simp only [hours, htheirs] at hmerge
      split at hmerge
      · exact hboth _ hmerge (.inl rfl)
      · cases hbase : findTreeEntry base file with
        | none => simp [hbase] at hmerge
        | some baseEntry =>
          simp only [hbase] at hmerge
          split_ifs at hmerge
          · exact hboth _ hmerge (.inr rfl)
          · exact hboth _ hmerge (.inl rfl)

theorem mem_of_mergeTrees (hentry : entry ∈ (mergeTrees order base ours theirs).1.entries) :
    entry ∈ ours.entries ∨ entry ∈ theirs.entries := by
  obtain ⟨result, hresult, hok⟩ := List.mem_filterMap.mp hentry
  obtain ⟨file, -, hfile⟩ := List.mem_map.mp hresult
  cases result with
  | error e => cases hok
  | ok found =>
    cases hok
    exact mem_of_mergeFile hfile

theorem mergeTrees_known {order : RangeOrder}
    {s : Repository β} (hours : TreeKnown host ours s)
    (htheirs : TreeKnown host theirs s) :
    TreeKnown host (mergeTrees order base ours theirs).1 s := by
  intro entry hentry
  rcases mem_of_mergeTrees hentry with hmem | hmem
  · exact hours entry hmem
  · exact htheirs entry hmem

theorem newCommit_rule (hA : Stable A) (commit : Commit)
    (hcommit : ∀ s, s.Intact host → A s →
      TreeKnown host tree s ∧ s.store.Known host commit.parentHash ∧
        commit.author.HeaderSafe ∧ commit.committer.HeaderSafe) :
    Triple
      (Inv host fun s =>
        A s ∧ s.store.treeAt host commit.treeHash = some tree)
      (onStore (storeCommit host commit))
      (fun hash => Inv host fun s : Repository β =>
        (s.store.commitAt host hash).isSome) (Inv host Any) := by
  have hready : ∀ s : Repository β, s.Intact host →
      A s ∧ s.store.treeAt host commit.treeHash = some tree →
      commit.Ready host s.store := by
    intro s hintact h
    obtain ⟨hknown, hparent, hauthor, hcommitter⟩ := hcommit s hintact h.1
    exact hintact.ready h.2 hknown hparent hauthor hcommitter
  apply anyConsequence (storeCommit_rule hA.andRead commit hready)
  · intro s _ h
    exact h
  · intro hash s _ h
    exact h.2
  · intro _ _ _
    trivial

theorem stable_const (p : Prop) : Stable fun _ : Repository β => p :=
  fun _ _ _ _ h => h

/-- What `threeWayMerge` knows once it has read the three trees. -/
def Mergeable (host : Host) (ourHash : GoString) (ours theirs : Tree) (s : Repository β) : Prop :=
  (s.store.commitAt host ourHash).isSome ∧ TreeKnown host ours s ∧ TreeKnown host theirs s

theorem stable_mergeable (theirs : Tree) :
    Stable (Mergeable host ourHash ours theirs : Repository β → Prop) :=
  stable_and (stable_isSome) (stable_and (stable_treeKnown) (stable_treeKnown))

theorem loadTrees_rule (ours : Tree) :
    Triple
      (Inv host fun s : Repository β => TreeKnown host ours s ∧
        (s.store.commitAt host ourHash).isSome)
      (loadTree host theirHash)
      (fun theirs => Inv host (Mergeable host ourHash ours theirs))
      (Inv host Any) := by
  have hours : Stable fun s : Repository β => TreeKnown host ours s ∧
      (s.store.commitAt host ourHash).isSome :=
    stable_and (stable_treeKnown) (stable_isSome)
  apply anyConsequence (loadTree_rule hours theirHash)
  · intro s _ h
    exact h
  · intro theirs s _ h
    exact ⟨h.1.2, h.1.1, h.2.1⟩
  · intro _ _ _
    trivial

theorem threeWayMerge_keeps {ourHash theirHash baseHash branchName : GoString} :
    Keeps host (threeWayMerge host call ourHash theirHash baseHash
      branchName : GoM (Repository β) Unit) := by
  apply Triple.bind (loadTree_rule stable_any baseHash)
  intro baseTree
  apply Triple.bind (consequence (loadTree_rule stable_any ourHash)
    (fun _ _ _ => trivial) (fun _ _ _ h => h.2))
  intro ourTree
  apply Triple.bind (loadTrees_rule ourTree)
  intro theirTree
  dsimp only
  split_ifs with hconflicts
  · exact fail_rule
  · apply Triple.bind (anyExit (storeTree_rule (stable_mergeable theirTree) _
      fun s _ h => mergeTrees_known h.2.1 h.2.2))
    intro treeHash
    apply Triple.bind (view_rule (Q := fun author s =>
      (Mergeable host ourHash ourTree theirTree s ∧ author.HeaderSafe) ∧
        s.store.treeAt host treeHash = some
          (mergeTrees (call.order 0) baseTree ourTree theirTree).1)
      fun s hintact h => ⟨⟨h.1, hintact.author_safe⟩, h.2⟩)
    intro author
    apply Triple.bind (newCommit_rule
      (stable_and (stable_mergeable theirTree) (stable_const author.HeaderSafe))
      ⟨treeHash, ourHash, author, author, _⟩
      fun s _ h =>
        ⟨mergeTrees_known h.1.2.1 h.1.2.2, .inr h.1.1, h.2, h.2⟩)
    intro mergeHash
    apply Triple.bind (anyExit (Reads.view _ _ (stable_isSome)))
    intro current
    exact updateRef_rule fun _ _ h => .inr h

theorem findMergeBase_rule (hA : Stable A)
    (hknown : ∀ s, s.Intact host → A s → s.store.Known host hash1) :
    Triple (Inv host A) (findMergeBase host hash1 hash2) (fun _ => Inv host A) (Inv host A) := by
  apply Triple.bind (consequence (commonCommit_rule hA hknown)
    (fun _ _ h => h) (fun _ _ _ h => h.1))
  intro found
  cases found with
  | none => exact Reads.fail _ A hA
  | some hash => exact Reads.pure hash A hA

theorem mergeInto_keeps : Keeps host (mergeInto host call source : GoM (Repository β) Unit) := by
  apply Triple.bind (getBranch_rule)
  intro targetHash
  have htarget : Stable fun s : Repository β =>
      Any s ∧ s.store.Known host targetHash :=
    stable_and stable_any (stable_known)
  apply Triple.bind (anyExit (Reads.view _ _ htarget))
  intro name
  apply Triple.bind (getBranch_rule)
  intro currentHash
  have hboth : Stable fun s : Repository β =>
      (Any s ∧ s.store.Known host targetHash) ∧ s.store.Known host currentHash :=
    stable_and htarget (stable_known)
  apply Triple.bind (anyExit (canFastForward_reads _ hboth))
  intro fastForward
  split_ifs with hforward
  · exact updateRef_rule fun _ _ h => h.1.2
  · apply Triple.bind (anyExit (findMergeBase_rule hboth fun _ _ h => h.2))
    intro mergeBase
    split_ifs with huptodate hbehind
    · exact fail_rule
    · exact updateRef_rule fun _ _ h => h.1.2
    · exact consequence (threeWayMerge_keeps call) (fun _ _ _ => trivial) (fun _ _ _ h => h)

theorem merge_keeps :
    Keeps host (merge host call source target : GoM (Repository β) Unit) := by
  apply Keeps.bind (Reads.query _).mapError.keeps
  intro currentBranch
  apply Keeps.ite
  · apply Triple.bind (Triple.mapError (checkout_keeps))
    intro _
    exact Triple.deferring (mergeInto_keeps _) (checkout_keeps)
  · exact mergeInto_keeps call

/-! ## Commits made from other commits -/

theorem rewrittenCommit_rule :
    Triple (Inv host A) (GoM.view fun repo => repo.rewrittenCommit call turn message)
      (fun commit => Inv host fun s =>
        A s ∧ commit.author.HeaderSafe ∧ commit.committer.HeaderSafe)
      (Inv host Any) :=
  view_rule fun _ hintact h =>
    ⟨h, hintact.author_safe, hintact.author_safe⟩

theorem Intact.headHash_known {s : Repository β} (hintact : s.Intact host) :
    s.store.Known host s.headHash := by
  unfold headHash
  cases hget : s.refs.getHEAD with
  | ok hash => exact hintact.getHEAD hget
  | error e => exact .inl rfl

theorem commitInternal_rule (order : RangeOrder) {commit : Commit} :
    Triple
      (Inv host fun s : Repository β => Restorable host s ∧
        commit.author.HeaderSafe ∧ commit.committer.HeaderSafe)
      (commitInternal host order commit)
      (fun _ => Inv host (Restorable host)) (Inv host Any) := by
  have hsafe : Stable fun _ : Repository β =>
      commit.author.HeaderSafe ∧ commit.committer.HeaderSafe :=
    stable_const _
  refine Triple.bind (view_rule (Q := fun hash s =>
    s.store.Known host hash ∧ Restorable host s ∧
      commit.author.HeaderSafe ∧ commit.committer.HeaderSafe) ?_) ?_
  · intro s hintact h
    exact ⟨hintact.headHash_known, h⟩
  intro currentHash
  apply Triple.bind (view_rule (Q := fun staging s =>
    s.store.Known host currentHash ∧ TreeKnown host ⟨stagedEntries staging order⟩ s ∧
      commit.author.HeaderSafe ∧ commit.committer.HeaderSafe)
    fun s hintact h => ⟨h.1, h.2.1.stagedEntries hintact order, h.2.2⟩)
  intro staging
  have hready : Stable fun s : Repository β =>
      s.store.Known host currentHash ∧ TreeKnown host ⟨stagedEntries staging order⟩ s ∧
        commit.author.HeaderSafe ∧ commit.committer.HeaderSafe :=
    stable_and (stable_known) (stable_and (stable_treeKnown) hsafe)
  apply Triple.bind (Triple.mapError (anyExit (storeTree_rule hready _ fun _ _ h => h.2.1)))
  intro treeHash
  apply Triple.bind (Triple.mapError (newCommit_rule hready
    { commit with treeHash := treeHash, parentHash := currentHash }
    fun _ _ h => ⟨h.2.1, h.1, h.2.2⟩))
  intro commitHash
  apply Triple.bind (detach_rule)
  intro _
  apply Triple.bind (mapStaging_rule fun s _ _ => restorable_new)
  intro _
  exact pure_rule fun _ _ h => h

theorem loadChange_rule (hA : Stable A) (ref : GoString) :
    Triple (Inv host A) (loadChange host verb ref)
      (fun change => Inv host fun s => A s ∧
        TreeKnown host change.2.2.1 s ∧ TreeKnown host change.2.2.2 s)
      (Inv host Any) := by
  apply Triple.bind (Triple.mapError (anyExit (resolveRef_reads A hA)))
  intro targetHash
  apply Triple.bind (Triple.mapError (anyExit (read_rule hA)))
  intro commit
  split_ifs with hroot
  · exact fail_rule
  · apply Triple.bind (Triple.mapError (anyExit
      (read_rule hA.andRead)))
    intro parent
    apply Triple.bind (Triple.mapError (anyExit
      (read_rule hA.andRead.andRead)))
    intro commitTree
    apply Triple.bind (Triple.mapError (anyExit
      (read_rule hA.andRead.andRead.andRead)))
    intro parentTree
    apply pure_rule
    intro s hintact h
    exact ⟨h.1.1.1.1, hintact.entries_of_commit h.1.1.1.2 h.1.2,
      hintact.entries_of_commit h.1.1.2 h.2⟩

theorem shortHash_reads :
    Reads host (shortHash hash : GoM (Repository β) GoString) := by
  apply Reads.ite
  · exact Reads.pure _
  · intro A _
    exact Triple.crash fun _ hs => hs

variable {parentTree : Tree}

theorem lookup_noteChange {changes : GoMap GoString GoString}
    (hlookup : (noteChange parentTree changes entry).lookup name = some hash) :
    changes.lookup name = some hash ∨ entry.name = name ∧ entry.hash = hash := by
  have hinsert : (changes.insert entry.name entry.hash).lookup name =
      some hash → changes.lookup name = some hash ∨ entry.name = name ∧ entry.hash = hash := by
    intro hin
    rcases GoMap.lookup_insert_cases hin with ⟨rfl, rfl⟩ | ⟨-, hold⟩
    · exact .inr ⟨rfl, rfl⟩
    · exact .inl hold
  unfold noteChange at hlookup
  split at hlookup
  · exact hinsert hlookup
  · split_ifs at hlookup
    · exact hinsert hlookup
    · exact .inl hlookup

theorem lookup_foldl_noteChange {entries : List TreeEntry} (changes : GoMap GoString GoString)
    (hlookup : (entries.foldl (noteChange parentTree) changes).lookup name = some hash) :
    changes.lookup name = some hash ∨ ∃ entry ∈ entries, entry.name = name ∧ entry.hash = hash := by
  induction entries generalizing changes with
  | nil => exact .inl hlookup
  | cons first rest ih =>
    rcases ih _ hlookup with hkept | ⟨entry, hmem, hentry⟩
    · rcases lookup_noteChange hkept with hold | hfirst
      · exact .inl hold
      · exact .inr ⟨first, by simp, hfirst⟩
    · exact .inr ⟨entry, List.mem_cons_of_mem first hmem, hentry⟩

theorem entry_of_changedFiles
    (hlookup : (changedFiles commitTree parentTree).lookup name = some hash) :
    ∃ entry ∈ commitTree.entries, entry.name = name ∧ entry.hash = hash := by
  rcases lookup_foldl_noteChange ∅ hlookup with
    hempty | hentry
  · cases hempty
  · exact hentry

/-- Entries of the tree can be staged. -/
def Stageable (host : Host) (tree : Tree) (s : Repository β) : Prop :=
  TreeKnown host tree s ∧ Restorable host s

theorem stable_stageable : Stable (Stageable host tree : Repository β → Prop) :=
  stable_and (stable_treeKnown) stable_restorable

theorem stageEntry_rule (hentry : ∃ entry ∈ tree.entries, entry.name = name ∧ entry.hash = hash) :
    Triple (Inv host (Stageable host tree)) (mapStaging fun staging => staging.addHash name hash)
      (fun _ => Inv host (Stageable host tree : Repository β → Prop)) (Inv host Any) := by
  apply mapStaging_rule
  intro s _ h
  obtain ⟨entry, hmem, rfl, rfl⟩ := hentry
  obtain ⟨hencodable, hblob⟩ := h.1 entry hmem
  exact ⟨h.1, h.2.addHash hencodable.name_noNul hblob⟩

theorem cherryPick_rule :
    Triple (Inv host (Restorable host)) (cherryPick host call commitHash)
      (fun _ => Inv host (Any : Repository β → Prop)) (Inv host Any) := by
  apply Triple.bind (loadChange_rule stable_restorable commitHash)
  rintro ⟨targetHash, commit, commitTree, parentTree⟩
  apply Triple.bind (Triple.consequence (Triple.forEach (E := Inv host Any)
    (I := Inv host (Stageable host commitTree))
    ?_) (fun s hs => hs.mono fun _ _ h => ⟨h.2.1, h.1⟩) (fun _ _ hs => hs))
  · intro _
    apply Triple.bind (anyExit (shortHash_reads _ (stable_stageable)))
    intro short
    apply Triple.bind (rewrittenCommit_rule call)
    intro newCommit
    apply consequence (commitInternal_rule (call.order 1))
    · intro s _ h
      exact ⟨h.1.2, h.2⟩
    · intro _ _ _ _
      trivial
  · intro change hchange
    exact stageEntry_rule (entry_of_changedFiles ((GoMap.mem_range _ _ _).mp hchange))

theorem restoreEntry_rule (hentry : ∃ entry ∈ tree.entries, entry.name = name ∧ entry.hash = hash) :
    Triple (Inv host (Stageable host tree)) (restoreEntry host name hash)
      (fun _ => Inv host (Stageable host tree : Repository β → Prop)) (Inv host Any) := by
  apply Triple.bind (stageEntry_rule hentry)
  intro _
  apply anyExit
  refine (?_ : Reads host _) _ (stable_stageable)
  apply Reads.bind (Reads.getAs _ _ _).attempt
  intro result
  cases result with
  | ok content => exact Reads.mapWorktree _
  | error e => exact Reads.pure ()

theorem undoEntry_rule (parentTree : Tree) (entry : TreeEntry) :
    Triple (Inv host (Stageable host parentTree)) (undoEntry host parentTree entry)
      (fun _ => Inv host (Stageable host parentTree : Repository β → Prop)) (Inv host Any) := by
  unfold undoEntry
  cases hfind : findTreeEntry parentTree entry.name with
  | some parentEntry =>
    dsimp only
    split_ifs with hchanged
    · apply restoreEntry_rule
      have hname := List.find?_some hfind
      exact ⟨parentEntry, mem_of_findTreeEntry hfind, by simpa using hname,
        rfl⟩
    · exact pure_rule fun _ _ h => h
  | none =>
    apply Triple.bind (mapStaging_rule (E := Inv host Any) (B := Stageable host parentTree)
      fun s _ h => ⟨h.1, h.2.remove entry.name⟩)
    intro _
    exact mapWorktree_rule (stable_stageable)

theorem revert_rule (commitHash : GoString) :
    Triple (Inv host (Restorable host)) (revert host call commitHash)
      (fun _ => Inv host (Any : Repository β → Prop)) (Inv host Any) := by
  apply Triple.bind (loadChange_rule stable_restorable commitHash)
  rintro ⟨targetHash, commit, commitTree, parentTree⟩
  have hundo := Triple.forEach (E := Inv host (Any : Repository β → Prop))
    (fun entry (_ : entry ∈ commitTree.entries) => undoEntry_rule parentTree entry)
  apply Triple.bind (Triple.consequence hundo
    (fun s hs => hs.mono fun _ _ h => ⟨h.2.2, h.1⟩) (fun _ _ hs => hs))
  intro _
  apply Triple.bind (Triple.forEach fun entry hentry =>
    restoreEntry_rule ⟨entry, List.mem_of_mem_filter hentry, rfl, rfl⟩)
  intro _
  apply Triple.bind (anyExit (shortHash_reads _ (stable_stageable)))
  intro short
  apply Triple.bind (rewrittenCommit_rule call)
  intro newCommit
  apply consequence (commitInternal_rule (call.order 0))
  · intro s _ h
    exact ⟨h.1.2, h.2⟩
  · intro _ _ _ _
    trivial

/-! ## Reset and rebase -/

theorem resetWorktree_reads :
    Reads host (resetWorktree host call targetHash : GoM (Repository β) Unit) := by
  apply Reads.bind loadTree_reads.attempt
  intro loaded
  cases loaded with
  | error e => exact Reads.pure ()
  | ok tree =>
    apply Reads.bind (Reads.view _)
    intro files
    apply Reads.bind (removeFiles_reads)
    intro _
    apply Reads.forEach
    intro entry
    apply Reads.bind (Reads.getAs _ _ _).attempt
    intro result
    cases result with
    | ok content => exact Reads.mapWorktree _
    | error e => exact Reads.pure ()

theorem reset_keeps :
    Keeps host (reset host call target mode : GoM (Repository β) Unit) := by
  apply Keeps.ite
  · exact (Reads.fail _).keeps
  · apply Keeps.bind resolveRef_reads.mapError.keeps
    intro targetHash
    apply Triple.bind (Triple.mapError (read_rule stable_any))
    intro commit
    apply Triple.bind (consequence (detach_rule)
      (fun s _ h => by
        rw [show s.store.commitAt host targetHash = some commit from h.2]
        rfl)
      (fun _ _ _ h => h))
    intro _
    apply Keeps.ite
    · exact Keeps.mapStaging _
    · apply Keeps.ite
      · apply Keeps.bind (Keeps.mapStaging _)
        intro _
        exact (resetWorktree_reads call).keeps
      · exact (Reads.pure ()).keeps

theorem stageReplayed_rule {hash : GoString} {commit : Commit} :
    Triple
      (Inv host fun s : Repository β => Restorable host s ∧
        s.store.commitAt host hash = some commit)
      (stageReplayed host commit)
      (fun _ => Inv host (Restorable host)) (Inv host Any) := by
  have hcommit : Stable fun s : Repository β => Restorable host s ∧
      s.store.commitAt host hash = some commit :=
    stable_and stable_restorable (stable_readAs)
  unfold stageReplayed
  split_ifs with hroot
  · exact pure_rule fun _ _ h => h.1
  · apply Triple.bind (anyExit ((Reads.getAs asCommit _ commit.parentHash).attempt _ hcommit))
    intro parent
    cases parent with
    | error e => exact pure_rule fun _ _ h => h.1
    | ok parent =>
      apply Triple.bind (anyExit (tryRead_rule hcommit))
      intro result
      cases result with
      | error e => exact pure_rule fun _ _ h => h.1.1
      | ok tree =>
        have hstage := Triple.forEach (E := Inv host Any)
          (I := Inv host (Stageable host tree : Repository β → Prop))
          (fun entry (hentry : entry ∈ tree.entries) => stageEntry_rule ⟨entry, hentry, rfl, rfl⟩)
        apply Triple.consequence hstage
        · intro s hs
          exact hs.mono fun t hintact h =>
            ⟨hintact.entries_of_commit h.1.2 h.2, h.1.1⟩
        · intro _ s hs
          exact hs.mono fun _ _ h => h.2

theorem replayCommit_rule (turn : ℕ) {commitHash : GoString} :
    Triple (Inv host (Restorable host))
      (replayCommit host call turn commitHash : GoM (Repository β) (Option GoString))
      (fun _ => Inv host (Restorable host)) (Inv host Any) := by
  apply Triple.bind (anyExit (tryRead_rule stable_restorable))
  intro result
  cases result with
  | error e => exact pure_rule fun _ _ h => h.1
  | ok commit =>
    apply Triple.bind (stageReplayed_rule)
    intro _
    apply Triple.bind (rewrittenCommit_rule call)
    intro newCommit
    apply Triple.bind (Triple.attempt (Q := fun made => match made with
        | .ok _ => Inv host (Restorable host)
        | .error _ => Inv host Any)
      (commitInternal_rule (call.order turn))
      (fun _ _ hs => hs))
    intro made
    cases made with
    | error e =>
      apply Triple.bind (shortHash_reads _ stable_any)
      intro short
      exact fail_rule
    | ok rebased => exact pure_rule fun _ _ h => h

theorem replay_rule (turn : ℕ) :
    Triple (Inv host (Restorable host))
      (replay host call turn commits : GoM (Repository β) (List GoString))
      (fun _ => Inv host (Restorable host)) (Inv host Any) := by
  induction commits generalizing turn with
  | nil => exact pure_rule fun _ _ h => h
  | cons commitHash rest ih =>
    apply Triple.bind (replayCommit_rule call turn)
    intro rebased
    apply Triple.bind (ih (turn + 1))
    intro others
    exact pure_rule fun _ _ h => h

theorem replayOnto_keeps : Keeps host (do
      mapStaging StagingArea.clear
      let rebasedCommits ← replay host call 0 commits
      let newHead ← GoM.view headHash
      mapRefs fun refs => refs.deleteBranch currentBranch
      mapRefs fun refs => refs.createBranch currentBranch newHead
      mapRefs fun refs => refs.setHEADToBranch currentBranch
      pure rebasedCommits : GoM (Repository β) (List GoString)) := by
  apply Triple.bind (mapStaging_rule fun s _ _ => restorable_new)
  intro _
  apply Triple.bind (replay_rule call 0)
  intro rebased
  apply Triple.bind (view_rule (Q := fun hash s => s.store.Known host hash)
    fun s hintact _ => hintact.headHash_known)
  intro newHead
  apply Triple.bind (mapRefs_rule (B := fun s : Repository β => s.store.Known host newHead)
    fun s hintact h => ⟨hintact.deleteBranch currentBranch, h⟩)
  intro _
  apply Triple.bind (setBranch_rule fun _ _ h => h)
  intro _
  apply Keeps.bind (attach_keeps)
  intro _
  exact (Reads.pure _).keeps

theorem rebase_keeps :
    Keeps host (rebase host call onto : GoM (Repository β) (List GoString)) := by
  apply Keeps.bind (Reads.query _).mapError.keeps
  intro currentBranch
  apply Triple.bind (Triple.mapError getHEAD_rule)
  intro currentHead
  have hhead : Stable fun s : Repository β =>
      s.store.Known host currentHead := stable_known
  apply Triple.bind (Triple.mapError (anyExit (resolveRef_reads _ hhead)))
  intro ontoHash
  have hancestor : Triple (Inv host fun s : Repository β => s.store.Known host currentHead)
      (findCommonAncestor host currentHead ontoHash)
      (fun ancestor => Inv host fun s => ancestor ≠ [] →
        (s.store.commitAt host ontoHash).isSome) (Inv host Any) := by
    apply Triple.bind (anyExit (commonCommit_rule hhead fun _ _ h => h))
    intro found
    cases found with
    | none => exact pure_rule fun _ _ _ hne => absurd rfl hne
    | some hash => exact pure_rule fun _ _ h _ => h.2 rfl
  apply Triple.bind hancestor
  intro ancestor
  split_ifs with hnone hcurrent
  · exact fail_rule
  · exact pure_rule fun _ _ _ => trivial
  · have hcollect : Reads host (collectCommitsBetween host ancestor
        currentHead : GoM (Repository β) (List GoString)) :=
      (Reads.view _).bind fun _ => collectBetween_reads _ _
    apply Triple.bind (Triple.mapError (anyConsequence
      (hcollect _ (stable_isSome)) (fun _ _ h => h hnone)
      (fun _ _ _ h => h) (fun _ _ _ => trivial)))
    intro commits
    apply Triple.bind (detach_rule)
    intro _
    exact replayOnto_keeps call

end Repository

end Govc
