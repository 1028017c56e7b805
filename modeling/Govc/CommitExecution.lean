import Govc.RepositoryModel

/-!
# What a commit does

`Repository.Commit` as one equation.  The tree it stores, the commit it
stores and the references it leaves are pure functions of the repository
before the call (`nextTree`, `nextCommit`, `committedRefs`); a call that
returns has stored exactly those two objects.
-/

namespace Govc

open Go GoM Store

variable {β : Type}

theorem Store.getCommit_run [Backend β] {host : Host} {hash : GoString} (store : Store β) :
    ∃ after, Store.SameContent store after ∧
      ((∃ c, store.commitAt host hash = some c ∧ getCommit host hash store = (.ok c, after)) ∨
        (store.commitAt host hash = none ∧ ∃ e, getCommit host hash store = (.error e, after))) :=
  getAs_run asCommit (str "commit") host hash store

theorem Store.getTree_run [Backend β] {host : Host} {hash : GoString} (store : Store β) :
    ∃ after, Store.SameContent store after ∧
      ((∃ t, store.treeAt host hash = some t ∧ getTree host hash store = (.ok t, after)) ∨
        (store.treeAt host hash = none ∧ ∃ e, getTree host hash store = (.error e, after))) :=
  getAs_run asTree (str "tree") host hash store

def Store.treeOfCommit {β : Type} [Backend β]
    (host : Host) (store : Store β) (hash : GoString) : Option Tree :=
  (store.commitAt host hash).bind fun commit =>
    store.treeAt host commit.treeHash

namespace Repository

variable {β : Type}

def tip (repo : Repository β) : GoString :=
  match repo.refs.getCurrentBranch with
  | .error _ => []
  | .ok currentBranch =>
    if currentBranch = [] then []
    else
      match repo.refs.getBranch currentBranch with
      | .error _ => []
      | .ok parentHash => parentHash

theorem withParent_new {repo : Repository β} {treeHash : GoString}
    :
    repo.withParent (Commit.new treeHash author message) =
      { treeHash := treeHash
        parentHash := repo.tip
        author := author
        committer := author
        message := message } := by
  unfold withParent tip
  cases repo.refs.getCurrentBranch with
  | error e => rfl
  | ok branch =>
    by_cases hbranch : branch = []
    · simp [hbranch, Commit.new]
    · simp only [if_neg hbranch]
      cases repo.refs.getBranch branch <;> rfl

def committedRefs (repo : Repository β) (commitHash : GoString) : RefStore :=
  if repo.branchToMove ≠ [] then
    (repo.refs.setRef (RefStore.branchRef repo.branchToMove)
      commitHash).setHEADToBranch repo.branchToMove
  else repo.refs.setHEADToCommit commitHash

def committed (repo : Repository β) (store : Store β) (commitHash : GoString) : Repository β :=
  { repo with
    store := store
    refs := repo.committedRefs commitHash
    staging := StagingArea.new }

theorem advance_run (repo : Repository β) (commitHash : GoString) :
    advance repo.branchToMove commitHash repo =
      (.ok (), { repo with refs := repo.committedRefs commitHash }) := by
  unfold advance committedRefs
  by_cases hbranch : repo.branchToMove = []
  · simp [hbranch, mapRefs]
  · rw [if_pos hbranch, if_pos hbranch, updateRef]
    simp only [bind_apply, query_apply, RefStore.updateRef_of_empty,
      ofExcept_ok, mapRefs, update_apply]

variable {α : Type}

theorem onStore_apply (m : GoM (Store β) α) (repo : Repository β) :
    onStore m repo = ((m repo.store).1, { repo with store := (m repo.store).2 }) := rfl

variable {repo : Repository β}

theorem onStore_of_run (hrun : m repo.store = (outcome, after)) :
    onStore m repo = (outcome, { repo with store := after }) := by
  rw [onStore_apply, hrun]

theorem onStore_eq_ok (hrun : onStore m repo = (.ok a, repo')) :
    ∃ after, m repo.store = (.ok a, after) ∧ repo' = { repo with store := after } := by
  rw [onStore_apply] at hrun
  simp only [Prod.mk.injEq] at hrun
  exact ⟨(m repo.store).2, Prod.ext hrun.1 rfl, hrun.2.symm⟩

theorem updateRef_ok {after : Repository β} {ref new old : GoString}
    (hrun : updateRef ref new old repo = (.ok (), after)) :
    after = { repo with refs := repo.refs.setRef ref new } := by
  obtain ⟨refs, mid, hquery, hset⟩ := bind_eq_ok hrun
  obtain ⟨hrefs, rfl⟩ := query_eq_ok hquery
  cases hset
  unfold RefStore.updateRef at hrefs
  split at hrefs
  · split at hrefs
    · cases hrefs
    · split at hrefs
      · cases hrefs
      · cases hrefs
        rfl
  · cases hrefs
    rfl

variable [Backend β]

theorem getAs_ok {after : Repository β} {host : Host}
    {select : Object → Option α} {kind hash : GoString}
    (hrun : onStore (getAs select kind host hash) repo = (.ok a, after)) :
    ∃ store, Store.SameContent repo.store store ∧ after = { repo with store := store } ∧
      readAs select host repo.store hash = some a := by
  obtain ⟨store, hget, rfl⟩ := onStore_eq_ok hrun
  obtain ⟨other, hsame, ⟨b, hread, hok⟩ | ⟨-, e, herror⟩⟩ :=
    getAs_run select kind host hash repo.store
  · rw [hok] at hget
    cases hget
    exact ⟨store, hsame, rfl, hread⟩
  · rw [herror] at hget
    cases hget

theorem storeObject_ok {after : Repository β} {host : Host} {object : Object}
    {hash : GoString}
    (hrun : onStore (storeObject host object) repo = (.ok hash, after)) :
    hash = object.hash host ∧ ∃ store, Store.Grown host [object] repo.store store ∧
      after = { repo with store := store } := by
  obtain ⟨store, hstore, rfl⟩ := onStore_eq_ok hrun
  obtain ⟨rfl, hgrown⟩ := Store.storeObject_ok hstore
  exact ⟨rfl, store, hgrown, rfl⟩

def tipEntries (host : Host) (repo : Repository β) : List TreeEntry :=
  if repo.tip = [] then []
  else
    match repo.store.treeOfCommit host repo.tip with
    | none => []
    | some tree => tree.entries

theorem loadEntries_run {host : Host} (repo : Repository β) {hash : GoString} :
    ∃ after, Store.SameContent repo.store after ∧
      loadEntries host hash repo =
        (.ok (match repo.store.treeOfCommit host hash with
          | none => []
          | some tree => tree.entries), { repo with store := after }) := by
  unfold loadEntries
  obtain ⟨mid, hmid, hcommit⟩ := getCommit_run repo.store
  rcases hcommit with ⟨c, hat, hrun⟩ | ⟨hat, e, hrun⟩
  · obtain ⟨after, hafter, htree⟩ := getTree_run mid
    refine ⟨after, hmid.trans hafter, ?_⟩
    have hsame : mid.treeAt host c.treeHash = repo.store.treeAt host c.treeHash := hmid.readAs _ _ _
    rw [bind_of_ok (attempt_of_ok (onStore_of_run hrun))]
    rcases htree with ⟨t, htat, htrun⟩ | ⟨htat, e, htrun⟩
    · have htrun' : onStore (getTree host c.treeHash)
          { repo with store := mid } = (.ok t, { repo with store := after }) :=
        onStore_of_run htrun
      simp only []
      rw [bind_of_ok (attempt_of_ok htrun')]
      simp [treeOfCommit, hat, ← hsame, htat]
    · have htrun' : onStore (getTree host c.treeHash)
          { repo with store := mid } =
            (.error e, { repo with store := after }) :=
        onStore_of_run htrun
      simp only []
      rw [bind_of_ok (attempt_of_error htrun')]
      simp [treeOfCommit, hat, ← hsame, htat]
  · refine ⟨mid, hmid, ?_⟩
    rw [bind_of_ok (attempt_of_error (onStore_of_run hrun))]
    simp [treeOfCommit, hat]

theorem parentEntries_run (repo : Repository β) :
    ∃ after, Store.SameContent repo.store after ∧
      parentEntries host repo = (.ok (repo.tipEntries host), { repo with store := after }) := by
  have hempty : ∀ {m : GoM (Repository β) (List TreeEntry)},
      m repo = (.ok [], repo) → repo.tip = [] →
      ∃ after, Store.SameContent repo.store after ∧
        m repo = (.ok (repo.tipEntries host), { repo with store := after }) := by
    intro m hm htip
    refine ⟨repo.store, Store.SameContent.refl _, ?_⟩
    rw [hm, tipEntries, if_pos htip]
  cases hcurrent : repo.refs.getCurrentBranch with
  | error e =>
    apply hempty
    · simp [parentEntries, bind_apply, hcurrent]
    · simp [tip, hcurrent]
  | ok branch =>
    by_cases hbranch : branch = []
    · apply hempty
      · simp [parentEntries, bind_apply, hcurrent, hbranch]
      · simp [tip, hcurrent, hbranch]
    · cases hget : repo.refs.getBranch branch with
      | error e =>
        apply hempty
        · simp [parentEntries, bind_apply, hcurrent, hbranch, hget]
        · simp [tip, hcurrent, hget]
      | ok hash =>
        have htip : repo.tip = hash := by
          simp [tip, hcurrent, hbranch, hget]
        by_cases hhash : hash = []
        · apply hempty
          · simp [parentEntries, bind_apply, hcurrent, hbranch, hget, hhash]
          · rw [htip, hhash]
        · obtain ⟨after, hsame, hrun⟩ := loadEntries_run repo
          refine ⟨after, hsame, ?_⟩
          rw [tipEntries, htip, if_neg hhash, ← hrun]
          unfold parentEntries
          rw [bind_of_ok (view_apply)]
          simp only [hcurrent, if_neg hbranch]
          rw [bind_of_ok (view_apply)]
          simp only [hget, if_neg hhash]

/-! ## The two objects of a commit -/

def nextTree (host : Host) (call : Call) (repo : Repository β) : Tree where
  entries := (repo.tipEntries host).filter (keeps repo.staging) ++
    stagedEntries repo.staging (call.order 0)

def nextCommit (host : Host) (call : Call) (message : GoString) (repo : Repository β) : Commit where
  treeHash := (Object.tree (repo.nextTree host call)).hash host
  parentHash := repo.tip
  author := repo.configuredAuthor call
  committer := repo.configuredAuthor call
  message := message

def nextObjects (host : Host) (call : Call) (message : GoString)
    (repo : Repository β) : List Object :=
  [.tree (repo.nextTree host call), .commit (repo.nextCommit host call message)]

theorem createTreeFromStaging_run (host : Host) (call : Call) (repo : Repository β) :
    ∃ after, Store.SameContent repo.store after ∧
      createTreeFromStaging host call repo =
        (.ok (repo.nextTree host call), { repo with store := after }) := by
  obtain ⟨after, hsame, hrun⟩ := parentEntries_run repo
  refine ⟨after, hsame, ?_⟩
  unfold createTreeFromStaging
  rw [bind_of_ok hrun, bind_of_ok (view_apply)]
  rfl

theorem commit_of_tree
    (hcreate : createTreeFromStaging host call repo =
      (.ok (repo.nextTree host call), { repo with store := mid }))
    (htree : storeTree host (repo.nextTree host call) mid =
      (.ok ((Object.tree (repo.nextTree host call)).hash host), withTree)) :
    commit host call message repo = (do
      let commitHash ← onStore
        (storeCommit host (repo.nextCommit host call message))
      advance repo.branchToMove commitHash
      mapStaging StagingArea.clear
      pure (repo.nextCommit host call message)) { repo with store := withTree } := by
  have htree' : onStore (storeTree host (repo.nextTree host call))
      { repo with store := mid } = (.ok _, { repo with store := withTree }) :=
    onStore_of_run htree
  have hparent : ({ repo with store := withTree } : Repository β).withParent
      (Commit.new ((Object.tree (repo.nextTree host call)).hash host)
        (repo.configuredAuthor call) message) =
        repo.nextCommit host call message :=
    withParent_new
  unfold commit
  rw [bind_of_ok (view_apply), bind_of_ok hcreate,
    bind_of_ok htree', bind_of_ok (view_apply), hparent,
    bind_of_ok (view_apply)]
  rfl

theorem commit_of_stored
    (hcreate : createTreeFromStaging host call repo =
      (.ok (repo.nextTree host call), { repo with store := mid }))
    (htree : storeTree host (repo.nextTree host call) mid =
      (.ok ((Object.tree (repo.nextTree host call)).hash host), withTree))
    (hcommit : storeCommit host (repo.nextCommit host call message) withTree =
      (.ok ((Object.commit (repo.nextCommit host call message)).hash host), withCommit)) :
    commit host call message repo =
      (.ok (repo.nextCommit host call message),
        repo.committed withCommit
          ((Object.commit (repo.nextCommit host call message)).hash host)) := by
  have hadvance : ∀ hash, advance repo.branchToMove hash
      { repo with store := withCommit } =
        (.ok (), { repo with
          store := withCommit
          refs := repo.committedRefs hash }) :=
    advance_run { repo with store := withCommit }
  rw [commit_of_tree hcreate htree, bind_of_ok (onStore_of_run hcommit), bind_of_ok (hadvance _)]
  rfl

end Repository

theorem Repository.commit_reliable [ReliableBackend β]
    (host : Host) (call : Call) (message : GoString) (repo : Repository β) :
    ∃ after, Store.Grown host (repo.nextObjects host call message) repo.store after ∧
      Repository.commit host call message repo =
        (.ok (repo.nextCommit host call message),
          repo.committed after
            ((Object.commit (repo.nextCommit host call message)).hash host)) := by
  obtain ⟨mid, hsame, hcreate⟩ := Repository.createTreeFromStaging_run host call repo
  obtain ⟨withTree, hgrownTree, htree⟩ :=
    storeObject_reliable mid
  obtain ⟨withCommit, hgrownCommit, hcommit⟩ :=
    storeObject_reliable withTree
  exact ⟨withCommit, ((Store.Grown.of_sameContent hsame).trans hgrownTree).trans hgrownCommit,
    Repository.commit_of_stored hcreate htree hcommit⟩

/-! ## Calls that only grow the store -/

namespace Repository

variable {β : Type} [Backend β] {host : Host} {α γ : Type}

/-- The call changes nothing but the store, and the store only grows. -/
def StoreOnly (host : Host) (m : GoM (Repository β) α) : Prop :=
  ∀ repo, ∃ objects after, Store.Grown host objects repo.store after ∧
    (m repo).2 = { repo with store := after }

variable {m : GoM (Repository β) α}

theorem StoreOnly.of_same (hm : ∀ repo, (m repo).2 = repo) : StoreOnly host m := by
  intro repo
  exact ⟨[], repo.store, Store.Grown.refl host repo.store, hm repo⟩

theorem StoreOnly.pure (a : α) : StoreOnly host (Pure.pure a : GoM (Repository β) α) :=
  .of_same fun _ => rfl

theorem StoreOnly.view (f : Repository β → α) : StoreOnly host (view f) := .of_same fun _ => rfl

theorem StoreOnly.getAs (select : Object → Option α) (kind hash : GoString) :
    StoreOnly host (onStore (getAs select kind host hash) : GoM (Repository β) α) := by
  intro repo
  obtain ⟨after, hsame, hrun⟩ := getAs_run select kind host hash repo.store
  refine ⟨[], after, Store.Grown.of_sameContent hsame, ?_⟩
  rcases hrun with ⟨a, -, hrun⟩ | ⟨-, e, hrun⟩
  · rw [onStore_of_run hrun]
  · rw [onStore_of_run hrun]

theorem StoreOnly.attempt (hm : StoreOnly host m) : StoreOnly host (GoM.attempt m) := by
  intro repo
  obtain ⟨objects, after, hgrown, hstate⟩ := hm repo
  refine ⟨objects, after, hgrown, ?_⟩
  rw [← hstate]
  unfold GoM.attempt
  rcases m repo with ⟨outcome, repo'⟩
  cases outcome <;> rfl

theorem StoreOnly.bind (hm : StoreOnly host m) (hf : ∀ a, StoreOnly host (f a)) :
    StoreOnly host (m >>= f) := by
  intro repo
  obtain ⟨objects, middle, hgrown, hstate⟩ := hm repo
  rw [bind_apply]
  rcases hrun : m repo with ⟨outcome, repo'⟩
  rw [hrun] at hstate
  cases hstate
  cases outcome with
  | ok a =>
    obtain ⟨more, after, hgrown', hstate'⟩ := hf a { repo with store := middle }
    exact ⟨objects ++ more, after, hgrown.trans hgrown', hstate'⟩
  | _ => exact ⟨objects, middle, hgrown, rfl⟩

theorem StoreOnly.ite [Decidable c] (hm : StoreOnly host m) (hn : StoreOnly host n) :
    StoreOnly host (if c then m else n) := by
  split
  · exact hm
  · exact hn

theorem StoreOnly.foldlM {items : List γ} {body : α → γ → GoM (Repository β) α}
    (hbody : ∀ a c, StoreOnly host (body a c)) (first : α) :
    StoreOnly host (items.foldlM body first) := by
  induction items generalizing first with
  | nil => exact StoreOnly.pure first
  | cons item rest ih =>
    exact (hbody first item).bind ih

/-- A commit stores its two objects and advances, or fails on the way and
leaves everything but the store alone. -/
theorem commit_run (host : Host) (call : Call) (message : GoString) (repo : Repository β) :
    (∃ after, Store.Grown host (repo.nextObjects host call message) repo.store after ∧
      commit host call message repo =
        (.ok (repo.nextCommit host call message),
          repo.committed after ((Object.commit (repo.nextCommit host call message)).hash host))) ∨
      ∃ objects after e, Store.Grown host objects repo.store after ∧
        commit host call message repo = (.error e, { repo with store := after }) := by
  obtain ⟨mid, hsame, hcreate⟩ := createTreeFromStaging_run host call repo
  have hread : Store.Grown host [] repo.store mid := Store.Grown.of_sameContent hsame
  obtain ⟨withTree, hgrownTree, htree⟩ := storeObject_run mid
  rcases htree with htree | ⟨e, -, htree⟩
  · obtain ⟨withCommit, hgrownCommit, hcommit⟩ :=
      storeObject_run withTree
    have hgrown := (hread.trans hgrownTree).trans hgrownCommit
    rcases hcommit with hcommit | ⟨e, -, hcommit⟩
    · exact .inl ⟨withCommit, hgrown, commit_of_stored hcreate htree hcommit⟩
    · refine .inr ⟨_, withCommit, e, hgrown, ?_⟩
      rw [commit_of_tree hcreate htree, bind_of_error (onStore_of_run hcommit)]
  · refine .inr ⟨_, withTree, e, hread.trans hgrownTree, ?_⟩
    have htree' : onStore (storeTree host (repo.nextTree host call))
        { repo with store := mid } =
          (.error e, { repo with store := withTree }) :=
      onStore_of_run htree
    unfold commit
    rw [bind_of_ok (view_apply), bind_of_ok hcreate, bind_of_error htree']

theorem commit_ok {repo repo' : Repository β}
    (hrun : commit host call message repo = (.ok made, repo')) :
    made = repo.nextCommit host call message ∧ ∃ after,
      Store.Grown host (repo.nextObjects host call message) repo.store after ∧
      repo' = repo.committed after ((Object.commit made).hash host) := by
  rcases commit_run host call message repo with
    ⟨after, hgrown, hok⟩ | ⟨_, _, _, -, hfailed⟩
  · rw [hok] at hrun
    cases hrun
    exact ⟨rfl, after, hgrown, rfl⟩
  · rw [hfailed] at hrun
    cases hrun

end Repository

end Govc
