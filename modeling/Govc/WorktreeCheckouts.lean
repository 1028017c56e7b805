import Govc.CoreOperations
import Govc.PatchedCommits

/-!
# Checkouts, resets and new branches

Both implementations of `Checkout` write the files of a tree one after the
other and stop at the first blob that they cannot read.  `Reset` and
`BranchBuilder` move references: `Reset` that of HEAD instead of the branch,
and `Create` a branch that exists already.
-/

namespace Go.GoM

theorem bind_eq_error {σ α γ : Type} {m : GoM σ α} {f : α → GoM σ γ} {s s' : σ}
    (hrun : (m >>= f) s = (.error e, s')) :
    m s = (.error e, s') ∨ ∃ a mid, m s = (.ok a, mid) ∧ f a mid = (.error e, s') := by
  rw [bind_apply] at hrun
  rcases hm : m s with ⟨outcome, mid⟩
  rw [hm] at hrun
  cases outcome <;> simp_all

end Go.GoM

namespace Govc

open Go GoM Host Outcome RefStore Store

/-- What a loop over the entries has written to the path when it ends, which is
at the first entry without a readable blob. -/
def restored (blob : GoString → Option Bytes) (path : GoString) : List TreeEntry → Option Bytes
  | [] => none
  | entry :: rest =>
    match blob entry.hash with
    | none => none
    | some content => (restored blob path rest).or
        (if path = entry.name then some content else none)

section

variable {σ : Type} {blob : GoString → Option Bytes} {path : GoString}
  {content : Bytes} {entries : List TreeEntry}

theorem forEach_restores (I : σ → Prop) (files : σ → GoString → Option Bytes)
    (read : GoString → GoM σ Bytes) (write : GoString → Bytes → σ → σ)
    (blob : GoString → Option Bytes) (hread : ∀ hash s, I s →
      (read hash s).1.toOption = blob hash ∧ I (read hash s).2 ∧ files (read hash s).2 = files s)
    (hwrite : ∀ name content s, I s → I (write name content s) ∧
      ∀ path, files (write name content s) path =
        if path = name then some content else files s path)
    (hs : I s) :
    ∃ outcome s', GoM.forEach entries (fun entry => do
        let content ← read entry.hash
        GoM.update (write entry.name content)) s = (outcome, s') ∧ I s' ∧
      (∀ path, files s' path = (restored blob path entries).or (files s path)) ∧
      (outcome.toOption.isSome ↔ ∀ entry ∈ entries, (blob entry.hash).isSome) := by
  induction entries generalizing s with
  | nil => exact ⟨_, s, rfl, hs, fun path => rfl, by simp [toOption]⟩
  | cons entry rest ih =>
    obtain ⟨hblob, hmid, hsame⟩ := hread entry.hash s hs
    rcases hrun : read entry.hash s with ⟨outcome, mid⟩
    rw [hrun] at hblob hmid hsame
    cases outcome with
    | ok content =>
      obtain ⟨hnext, hwritten⟩ := hwrite entry.name content mid hmid
      obtain ⟨outcome, s', hrest, hs', hseen, hend⟩ := ih hnext
      refine ⟨outcome, s', ?_, hs', fun path => ?_, ?_⟩
      · simpa [GoM.forEach, GoM.bind, GoM.bind_apply, hrun] using hrest
      · rw [hseen, hwritten, hsame, restored, ← hblob]
        split_ifs <;> simp [toOption]
      · rw [hend, List.forall_mem_cons, ← hblob]
        simp [toOption]
    | _ =>
      refine ⟨_, mid, by simp [GoM.forEach, GoM.bind, GoM.bind_apply, hrun]; rfl,
        hmid, fun path => ?_, ?_⟩
      · simp [restored, ← hblob, hsame, toOption]
      · simp [← hblob, toOption]

theorem restored_isNamed (hsome : restored blob path entries = some content) :
    path ∈ entries.map TreeEntry.name := by
  induction entries with
  | nil => cases hsome
  | cons entry rest ih =>
    unfold restored at hsome
    split at hsome
    · cases hsome
    · rcases Option.or_eq_some_iff.mp hsome with hrest | ⟨-, hhead⟩
      · exact List.mem_cons_of_mem _ (ih hrest)
      · simp_all

/-- With distinct names and readable blobs every file is there. -/
theorem restored_eq_toMap (hnames : (entries.map TreeEntry.name).Nodup)
    (hblobs : ∀ entry ∈ entries, (blob entry.hash).isSome) :
    restored blob path entries = (Tree.toMap ⟨entries⟩ path).bind blob := by
  induction entries with
  | nil => rfl
  | cons entry rest ih =>
    obtain ⟨hnew, hrest⟩ := List.nodup_cons.mp hnames
    obtain ⟨hhead, htail⟩ := List.forall_mem_cons.mp hblobs
    obtain ⟨content, hblob⟩ := Option.isSome_iff_exists.mp hhead
    rw [restored, hblob]
    by_cases hpath : path = entry.name
    · subst hpath
      have hnone : restored blob entry.name rest = none := by
        by_contra hsome
        obtain ⟨other, hother⟩ := Option.ne_none_iff_exists'.mp hsome
        exact hnew (restored_isNamed hother)
      simp [hnone, Tree.toMap, hblob]
    · simp [ih hrest htail, hpath, Tree.toMap, Ne.symm hpath]

end

namespace Repository

variable {β : Type}

theorem removeFiles_run (files : List GoString) (repo : Repository β) :
    removeFiles files repo = (.ok (), { repo with
      worktree := ⟨files.foldl (fun m file => m.erase file) repo.worktree.files⟩ }) := by
  induction files generalizing repo with
  | nil => rfl
  | cons file rest ih => exact ih _

variable [Backend β] {host : Host} {call : Call} {repo after : Repository β}
  {branch hash ref e : GoString}

theorem updateWorktree_run (host : Host) (call : Call) (tree : Tree) (repo : Repository β) :
    ∃ outcome store worktree,
      updateWorktree host call tree repo = (outcome, { repo with
        store := store, worktree := worktree }) ∧
      (∀ path, worktree.files.lookup path =
        (restored (repo.store.blobAt host) path tree.entries).or
          (if path ∈ tree.entries.map TreeEntry.name then
            repo.worktree.files.lookup path else none)) ∧
      (outcome.toOption.isSome ↔ ∀ entry ∈ tree.entries,
        (repo.store.blobAt host entry.hash).isSome) := by
  rw [updateWorktree, bind_of_ok (view_apply ..),
    bind_of_ok (removeFiles_run _ _), List.foldl_filter, Worktree.listFiles]
  obtain ⟨outcome, _, hrun, ⟨store, worktree, -, rfl⟩, hfiles, hend⟩ :=
    forEach_restores (fun s : Repository β => ∃ store worktree,
        Store.SameContent repo.store store ∧
        s = { repo with store := store, worktree := worktree })
      (fun s path => s.worktree.files.lookup path)
      (fun hash => onStore (Store.getBlob host hash))
      (fun name content s => { s with
        worktree := s.worktree.writeFile name content })
      (repo.store.blobAt host) (by
        rintro hash _ ⟨store, worktree, hsame, rfl⟩
        obtain ⟨last, hlast, hcases⟩ := getAs_run asBlob (str "blob") host hash store
        rw [hsame.readAs] at hcases
        rw [Store.getBlob]
        rcases hcases with ⟨content, hblob, hrun⟩ | ⟨hblob, e, hrun⟩
        · rw [onStore_of_run hrun]
          exact ⟨hblob.symm, ⟨last, worktree, hsame.trans hlast, rfl⟩, rfl⟩
        · rw [onStore_of_run hrun]
          exact ⟨hblob.symm, ⟨last, worktree, hsame.trans hlast, rfl⟩, rfl⟩) (by
        rintro name content _ ⟨store, worktree, hsame, rfl⟩
        exact ⟨⟨store, _, hsame, rfl⟩, fun path => GoMap.lookup_insert_eq _ _ _ _⟩)
      ⟨repo.store, _, .refl _, rfl⟩
  refine ⟨outcome, store, worktree, hrun, fun path => ?_, hend⟩
  rw [hfiles, GoMap.lookup_erase_where]
  by_cases hpath : path ∈ tree.entries.map TreeEntry.name
  · rw [if_pos hpath, if_neg (by simpa using hpath)]
  · rw [if_neg hpath, if_pos (by simpa using hpath)]

/-- The part of a checkout behind the name of the branch. -/
theorem restore_run {host : Host} {call : Call} {hash : GoString} (repo : Repository β) :
    ∃ store, Store.SameContent repo.store store ∧
      ((∃ tree, repo.store.treeOfCommit host hash = some tree ∧
          restore host call hash repo =
            updateWorktree host call tree { repo with store := store }) ∨
        repo.store.treeOfCommit host hash = none ∧ ∃ e,
          restore host call hash repo = (.error e, { repo with store := store })) := by
  unfold treeOfCommit
  obtain ⟨mid, hmid, ⟨commit, hcommit, hrun⟩ | ⟨hcommit, e, hrun⟩⟩ :=
    getCommit_run repo.store
  · rw [hcommit, Option.bind_some, treeAt, ← hmid.readAs]
    obtain ⟨last, hlast, ⟨tree, htree, hrun'⟩ | ⟨htree, e, hrun'⟩⟩ :=
      getTree_run mid
    · refine ⟨last, hmid.trans hlast, .inl ⟨tree, htree, ?_⟩⟩
      rw [restore, bind_of_ok (onStore_of_run hrun), bind_of_ok (onStore_of_run hrun')]
    · refine ⟨last, hmid.trans hlast, .inr ⟨htree, e, ?_⟩⟩
      rw [restore, bind_of_ok (onStore_of_run hrun), bind_of_error (onStore_of_run hrun')]
  · refine ⟨mid, hmid, .inr ⟨by rw [hcommit]; rfl, e, ?_⟩⟩
    exact bind_of_error (onStore_of_run hrun)

theorem checkout_of_branch (call : Call) (hne : hash ≠ [])
    (hbranch : repo.refs.getBranch (trimPrefix ref (str "refs/heads/")) = .ok hash) :
    checkout host call ref repo = (do
      restore host call hash
      mapRefs fun refs => refs.setHEADToBranch
        (trimPrefix ref (str "refs/heads/")) : GoM (Repository β) Unit) repo := by
  rw [checkout_eq fun hfull => ⟨hash, by
    simpa [trimPrefix, hfull] using hbranch⟩]
  simp [checkoutBranch, GoM.bind_apply, GoM.mapError, query_apply, hbranch, hne]

/-- `Checkout` of a branch with a readable commit, tree and blobs makes the
worktree that tree. -/
theorem checkout_establishes (host : Host) (call : Call) (repo : Repository β)
    {branch hash : GoString} {tree : Tree}
    (hname : hasPrefix branch (str "refs/heads/") = false)
    (hbranch : repo.refs.getBranch branch = .ok hash) (hne : hash ≠ [])
    (htree : repo.store.treeOfCommit host hash = some tree)
    (hnames : (tree.entries.map TreeEntry.name).Nodup)
    (hblobs : ∀ entry ∈ tree.entries, (repo.store.blobAt host entry.hash).isSome) :
    ∃ after, checkout host call branch repo = (.ok (), after) ∧
      (∀ path, after.worktree.files.lookup path = (tree.toMap path).bind (repo.store.blobAt host)) ∧
      after.refs.head = str "ref: refs/heads/" ++ branch ∧
      after.refs.refs = repo.refs.refs := by
  have hsame : trimPrefix branch (str "refs/heads/") = branch := by
    simp [trimPrefix, hname]
  rw [checkout_of_branch call hne (hsame.symm ▸ hbranch), hsame]
  obtain ⟨store, hstore, ⟨_, htree', hrestore⟩ | ⟨hnone, -⟩⟩ := restore_run repo
  · cases htree.symm.trans htree'
    obtain ⟨outcome, last, worktree, hrun, hfiles, hend⟩ :=
      updateWorktree_run host call tree { repo with store := store }
    have hblob : store.blobAt host = repo.store.blobAt host := funext (hstore.readAs asBlob host)
    rw [hblob] at hfiles hend
    obtain ⟨_, hok⟩ := Option.isSome_iff_exists.mp (hend.mpr hblobs)
    cases eq_ok_of_toOption hok
    refine ⟨_, bind_of_ok (hrestore.trans hrun), fun path => ?_, rfl, rfl⟩
    rw [← restored_eq_toMap hnames hblobs]
    refine (hfiles path).trans ?_
    split_ifs with hpath
    · have hsome : (findTreeEntry tree path).isSome := by
        simpa [findTreeEntry] using hpath
      obtain ⟨entry, hfound⟩ := Option.isSome_iff_exists.mp hsome
      obtain ⟨content, hblob⟩ := Option.isSome_iff_exists.mp
        (hblobs entry (List.mem_of_find?_eq_some hfound))
      simp [restored_eq_toMap hnames hblobs, toMap_eq, hfound, hblob]
    · simp
  · cases htree.symm.trans hnone

/-- One commit with the file `a`, whose blob need not be there, and a file `z`
in the worktree. -/
def stocked (blobs : GoMap GoString Bytes) : Repository MemoryBackend :=
  let file := List.replicate 40 48
  { newRepository with
    store := Store.new ⟨(blobs.insert [99] (Object.commit
      { Commit.zero with treeHash := [116] }).serialize).insert [116]
        (Object.tree ⟨[⟨str "100644", str "a", file⟩]⟩).serialize⟩
    refs := newRepository.refs.setRef (branchRef (str "main")) [99]
    worktree := Worktree.new.writeFile (str "z") [4] }

theorem checkout_establishes_stocked :
    (checkout checksums epoch (str "main") (stocked
      ((∅ : GoMap GoString Bytes).insert (List.replicate 40 48)
        (Object.blob [1]).serialize))).1 = .ok () := by
  obtain ⟨after, hrun, -⟩ := checkout_establishes checksums epoch (stocked
      ((∅ : GoMap GoString Bytes).insert (List.replicate 40 48) (Object.blob [1]).serialize))
    (by decide : hasPrefix (str "main") (str "refs/heads/") = false)
    (by decide +kernel) (by decide : ([99] : GoString) ≠ [])
    (by decide +kernel : _ = some (Tree.mk
      [⟨str "100644", str "a", List.replicate 40 48⟩]))
    (by decide) (by decide +kernel)
  rw [hrun]

/-- Every file of the worktree has an entry in the tree of the commit, and the
entries up to the first one without a readable blob are there already. -/
def Settled (host : Host) (hash : GoString) (repo : Repository β) : Prop :=
  ∀ tree, repo.store.treeOfCommit host hash = some tree →
    (∀ path content, repo.worktree.files.lookup path = some content →
      path ∈ tree.entries.map TreeEntry.name) ∧
    ∀ path content, restored (repo.store.blobAt host) path tree.entries = some content →
      repo.worktree.files.lookup path = some content

/-- A checkout that fails has removed the files without an entry and written
the entries up to the first blob that it cannot read. -/
theorem checkout_failed (hne : hash ≠ [])
    (hbranch : repo.refs.getBranch (trimPrefix ref (str "refs/heads/")) = .ok hash)
    (hrun : checkout host call ref repo = (.error e, after)) :
    after.staging = repo.staging ∧ after.refs = repo.refs ∧
      ((∀ path, after.worktree.files.lookup path =
        repo.worktree.files.lookup path) ↔ repo.Settled host hash) := by
  unfold Settled
  rw [checkout_of_branch call hne hbranch] at hrun
  obtain ⟨store, hstore, ⟨tree, htree, hrestore⟩ | ⟨hnone, _, hrestore⟩⟩ :=
    restore_run repo
  · obtain ⟨outcome, last, worktree, hupdate, hfiles, -⟩ :=
      updateWorktree_run host call tree { repo with store := store }
    have hblob : store.blobAt host = repo.store.blobAt host := funext (hstore.readAs asBlob host)
    rw [hblob] at hfiles
    rw [GoM.bind_apply, hrestore.trans hupdate] at hrun
    cases outcome with
    | error _ =>
      cases hrun
      refine ⟨rfl, rfl, ?_⟩
      simp only [hfiles, htree, Option.some.injEq, forall_eq']
      constructor
      · intro hkept
        refine ⟨fun path content hold => ?_, fun path content hnew => ?_⟩
        · by_contra hpath
          have hlost := hkept path
          rw [hold, if_neg hpath, Option.or_none] at hlost
          exact hpath (restored_isNamed hlost)
        · simpa [hnew] using (hkept path).symm
      · rintro ⟨hnamed, hwritten⟩ path
        cases hnew : restored (repo.store.blobAt host) path tree.entries with
        | some content => rw [hwritten path content hnew, Option.some_or]
        | none =>
          split_ifs with hpath
          · rfl
          · cases hold : repo.worktree.files.lookup path with
            | none => rfl
            | some content => exact absurd (hnamed path content hold) hpath
    | _ => cases hrun
  · rw [bind_of_error hrestore] at hrun
    cases hrun
    exact ⟨rfl, rfl, by simp [hnone]⟩

end Repository

namespace Core

variable {ω ρ : Type}

/-- `Get` answers from what the store holds and does not change that. -/
def ObjectStore.Answers (objectStore : ObjectStore ω)
    (held : ω → GoString → Option Object) : Prop :=
  ∀ hash s, (objectStore.get hash s).1.toOption = held s hash ∧
    held (objectStore.get hash s).2 = held s

theorem memoryObjectStore_answers {host : Host} :
    (memoryObjectStore host).Answers fun objects hash => objects.lookup hash := by
  intro hash objects
  cases hfound : objects.lookup hash <;> simp [memoryObjectStore, query_apply, hfound, toOption]

namespace Operations

variable (objectStore : ObjectStore ω) (refStore : RefStore ρ)

def getBlob (hash : GoString) : GoM ω Bytes := getAs objectStore asBlob (str "blob") hash

/-- `CleanWorkspace.Checkout`: the working files are cleared in front of the
first read of a blob. -/
def checkout (branch : GoString) : GoM (Operations ω ρ) Unit := do
  let commitHash ← (GoM.query fun ops => getBranch refStore ops branch).mapError
    fun _ => str "branch not found: " ++ branch
  let commit ← onObjects (getCommit objectStore commitHash)
  let tree ← onObjects (getTree objectStore commit.treeHash)
  GoM.update fun ops => { ops with working := ∅ }
  GoM.forEach tree.entries fun entry => do
    let content ← onObjects (getBlob objectStore entry.hash)
    writeFile entry.name content
  GoM.update fun ops => { ops with branch := branch, staging := .new }

variable {objectStore refStore} {held : ω → GoString → Option Object}
  {ops after : Operations ω ρ} {branch e : GoString}

theorem getAs_answers {α : Type} (hstore : objectStore.Answers held)
    (select : Object → Option α) (kind hash : GoString) (s : ω) :
    (getAs objectStore select kind hash s).1.toOption = (held s hash).bind select ∧
      held (getAs objectStore select kind hash s).2 = held s := by
  obtain ⟨hheld, hsame⟩ := hstore hash s
  rcases hrun : objectStore.get hash s with ⟨outcome, s'⟩
  rw [hrun] at hheld hsame
  rw [getAs, GoM.bind_apply, hrun, ← hheld]
  cases outcome with
  | ok object => cases hselect : select object <;> simp [hselect, hsame, toOption]
  | _ => exact ⟨rfl, hsame⟩

/-- The tree at the tip of a branch. -/
def treeOf (refStore : RefStore ρ) (held : GoString → Option Object)
    (ops : Operations ω ρ) (branch : GoString) : Option Tree := do
  let hash ← (getBranch refStore ops branch).toOption
  let commit ← (held hash).bind asCommit
  (held commit.treeHash).bind asTree

/-- A read that is made inside of a call on the workspace. -/
theorem onObjects_answers {α : Type} (hstore : objectStore.Answers held)
    {select : Object → Option α} {kind hash : GoString} {outcome : Outcome α}
    (hrun : onObjects (getAs objectStore select kind hash) ops = (outcome, after)) :
    outcome.toOption = (held ops.objects hash).bind select ∧
      ∃ objects, held objects = held ops.objects ∧ after = { ops with objects := objects } := by
  obtain ⟨hread, hsame⟩ := getAs_answers hstore select kind hash ops.objects
  cases hrun
  exact ⟨hread, _, hsame, rfl⟩

/-- The working files are the entries of that tree up to the first one without
a readable blob. -/
def Settled (refStore : RefStore ρ) (held : GoString → Option Object)
    (branch : GoString) (ops : Operations ω ρ) : Prop :=
  ∀ tree, treeOf refStore held ops branch = some tree → ∀ path,
    ops.working.lookup path = restored (fun hash => (held hash).bind asBlob) path tree.entries

theorem checkout_failed (hstore : objectStore.Answers held)
    (hrun : checkout objectStore refStore branch ops = (.error e, after)) :
    after.staging = ops.staging ∧ after.branch = ops.branch ∧
      ((∀ path, after.working.lookup path = ops.working.lookup path) ↔
        ops.Settled refStore (held ops.objects) branch) := by
  unfold Settled treeOf
  obtain hbranch | ⟨hash, _, hbranch, hrun⟩ := GoM.bind_eq_error hrun
  · cases hhash : getBranch refStore ops branch with
    | ok hash => simp [GoM.mapError, query_apply, hhash] at hbranch
    | error _ =>
      simp only [GoM.mapError, query_apply, hhash] at hbranch
      cases hbranch
      exact ⟨rfl, rfl, by simp [Except.toOption]⟩
  obtain ⟨hhash, rfl⟩ := query_eq_ok (mapError_eq_ok hbranch)
  rw [hhash]
  obtain hcommit | ⟨commit, _, hcommit, hrun⟩ := GoM.bind_eq_error hrun
  · obtain ⟨hread, objects, -, rfl⟩ := onObjects_answers hstore hcommit
    refine ⟨rfl, rfl, ?_⟩
    simp [Except.toOption, ← hread, toOption]
  obtain ⟨hread, objects, hsame, rfl⟩ := onObjects_answers hstore hcommit
  obtain htree | ⟨tree, _, htree, hrun⟩ := GoM.bind_eq_error hrun
  · obtain ⟨hread', last, -, rfl⟩ := onObjects_answers hstore htree
    rw [hsame] at hread'
    refine ⟨rfl, rfl, ?_⟩
    simp [Except.toOption, ← hread, ← hread', toOption]
  obtain ⟨hread', last, hlast, rfl⟩ := onObjects_answers hstore htree
  obtain ⟨outcome, _, hloop, ⟨final, working, -, rfl⟩, hfiles, -⟩ :=
    forEach_restores (fun s : Operations ω ρ => ∃ objects working,
        held objects = held ops.objects ∧
        s = { ops with objects := objects, working := working })
      (fun s path => s.working.lookup path)
      (fun hash => onObjects (getBlob objectStore hash))
      (fun name content s => { s with
        working := s.working.insert name content })
      (fun hash => (held ops.objects hash).bind asBlob) (by
        rintro hash _ ⟨objects, working, hsame, rfl⟩
        obtain ⟨hread, objects, hkept, hafter⟩ := onObjects_answers hstore
          (Prod.eta (onObjects (getBlob objectStore hash) _)).symm
        rw [hafter]
        exact ⟨hsame ▸ hread, ⟨objects, working, hkept.trans hsame, rfl⟩, rfl⟩) (by
        rintro name content _ ⟨objects, working, hsame, rfl⟩
        exact ⟨⟨objects, _, hsame, rfl⟩, fun path => GoMap.lookup_insert_eq _ _ _ _⟩)
      ⟨last, ∅, hlast.trans hsame, rfl⟩
  rw [bind_of_ok (update_apply ..)] at hrun
  obtain hfailed | ⟨_, _, -, hrun⟩ := GoM.bind_eq_error hrun
  · cases hloop.symm.trans hfailed
    refine ⟨rfl, rfl, ?_⟩
    rw [hsame] at hread'
    simp [Except.toOption, ← hread, ← hread', toOption, hfiles, eq_comm]
  · cases hrun

end Operations

end Core

/-- A failed `Checkout` of the repository loses nothing exactly if every file
of the worktree has an entry in the tree and the entries up to the first
unreadable blob are there already.  The one of the core clears the working
files, so they must be these entries. -/
theorem failed_checkout_keeps_iff {β ω ρ : Type} [Backend β] (host : Host)
    (call : Call) (ref branch : GoString) (objectStore : Core.ObjectStore ω)
    (refStore : Core.RefStore ρ) {repo after : Repository β}
    {ops after' : Core.Operations ω ρ} {hash e e' : GoString}
    {held : ω → GoString → Option Object} (hne : hash ≠ [])
    (hbranch : repo.refs.getBranch (trimPrefix ref (str "refs/heads/")) = .ok hash)
    (hrun : Repository.checkout host call ref repo = (.error e, after))
    (hstore : objectStore.Answers held)
    (hrun' : Core.Operations.checkout objectStore refStore branch ops = (.error e', after')) :
    ((∀ path, after.worktree.files.lookup path = repo.worktree.files.lookup path) ∧
        after.staging = repo.staging ∧ after.refs.head = repo.refs.head ↔
      repo.Settled host hash) ∧
    ((∀ path, after'.working.lookup path = ops.working.lookup path) ∧
        after'.staging = ops.staging ∧ after'.branch = ops.branch ↔
      ops.Settled refStore (held ops.objects) branch) := by
  obtain ⟨hstaging, hrefs, hiff⟩ := Repository.checkout_failed hne hbranch hrun
  obtain ⟨hstaging', hbranch', hiff'⟩ := Core.Operations.checkout_failed hstore hrun'
  rw [← hiff, ← hiff']
  exact ⟨⟨And.left, fun h => ⟨h, hstaging, by rw [hrefs]⟩⟩,
    And.left, fun h => ⟨h, hstaging', hbranch'⟩⟩

def unreadable : Core.Operations (GoMap GoString Object) (GoMap GoString GoString) :=
  { Core.Operations.new
      (((∅ : GoMap GoString Object).insert [1]
        (.commit { Commit.zero with treeHash := [2] })).insert [2]
        (.tree ⟨[⟨str "100644", str "a", [3]⟩]⟩))
      ((∅ : GoMap GoString GoString).insert (str "refs/heads/main") [1]) with
    working := (∅ : GoMap GoString Bytes).insert (str "b") [4] }

theorem failed_checkout_keeps_same_tips :
    (Repository.checkout checksums Repository.epoch (str "dev")
      Repository.sameTips).2.refs.head = Repository.sameTips.refs.head := by
  have hrun : Repository.checkout checksums Repository.epoch (str "dev")
      Repository.sameTips = (.error (str "object not found: x"),
        (Repository.checkout checksums Repository.epoch (str "dev")
          Repository.sameTips).2) := Prod.ext (by decide +kernel) rfl
  have hrun' : Core.Operations.checkout (Core.memoryObjectStore checksums)
      Core.memoryRefStore (str "dev") unreadable =
        (.error (str "branch not found: dev"), _) := Prod.ext (by decide +kernel) rfl
  have hnone : Repository.sameTips.store.treeOfCommit checksums [120] = none := by decide +kernel
  exact ((failed_checkout_keeps_iff checksums Repository.epoch (str "dev")
    (str "dev") _ _ (by decide : ([120] : GoString) ≠ []) (by decide +kernel) hrun
    (Core.memoryObjectStore_answers) hrun').1.mpr (by simp [Repository.Settled, hnone])).2.2

/-- Neither repository holds the blob of the first entry. -/
theorem failed_checkout_loses_files :
    let failed := Repository.checkout checksums Repository.epoch (str "main")
      (Repository.stocked ∅)
    let failed' := Core.Operations.checkout (Core.memoryObjectStore checksums)
      Core.memoryRefStore (str "main") unreadable
    failed.1.toOption = none ∧ failed'.1.toOption = none ∧
      (Repository.stocked ∅).worktree.files.lookup (str "z") = some [4] ∧
      failed.2.worktree.files.lookup (str "z") = none ∧
      unreadable.working.lookup (str "b") = some [4] ∧
      failed'.2.working.lookup (str "b") = none := by
  decide +kernel

/-! ## Create -/

namespace Repository

variable {β : Type}

/-- Where `Create` puts the branch. -/
def creationPoint (repo : Repository β) : Except GoString GoString :=
  match repo.refs.getCurrentBranch with
  | .error _ => repo.refs.getHEAD
  | .ok currentBranch =>
    match repo.refs.getBranch currentBranch with
    | .error _ => .ok []
    | .ok branchHash => .ok branchHash

theorem branchCreate_eq {repo : Repository β} :
    branchCreate name repo =
      match repo.creationPoint with
      | .error e => (.error e, repo)
      | .ok point => (.ok (), { repo with
          refs := repo.refs.createBranch name point }) := by
  cases hcurrent : repo.refs.getCurrentBranch with
  | error e =>
    cases hhead : repo.refs.getHEAD <;> simp [branchCreate, creationPoint,
      GoM.bind_apply, getHEAD, query_apply, hcurrent, hhead, mapRefs]
  | ok current =>
    cases hbranch : repo.refs.getBranch current <;> simp [branchCreate,
      creationPoint, GoM.bind_apply, hcurrent, hbranch, mapRefs]

variable [Backend β]

theorem branchCheckout_cases (repo : Repository β) :
    branchCheckout host call name repo = checkout host call name (branchCreate name repo).2 ∨
      ∃ e, branchCheckout host call name repo = (.error e, (branchCreate name repo).2) := by
  rw [branchCheckout, GoM.bind_apply, GoM.attempt, branchCreate_eq]
  cases repo.creationPoint with
  | ok point => exact .inl rfl
  | error e =>
    by_cases hexists : contains e (str "already exists") = true
    · simp [hexists]
    · simp [hexists]

/-- `Create` moves a branch that exists already, so it stays where it is only
if it is at the commit where `Create` puts it. -/
theorem branchCreate_keeps_iff (host : Host) (call : Call) (repo : Repository β)
    {name old : GoString} (hold : repo.refs.getBranch name = .ok old) :
    ((branchCreate name repo).2.refs.getBranch name = .ok old ↔
      ∀ point, repo.creationPoint = .ok point → point = old) ∧
    ((branchCheckout host call name repo).2.refs.getBranch name = .ok old ↔
      ∀ point, repo.creationPoint = .ok point → point = old) ∧
    ((branchCheckout host call name repo).1 = .ok () →
      ((branchCheckout host call name repo).2.refs.getCurrentBranch = .ok name ↔
        hasPrefix name (str "refs/heads/") = false)) := by
  have hcreate : (branchCreate name repo).2.refs.getBranch name = .ok old ↔
      ∀ point, repo.creationPoint = .ok point → point = old := by
    rw [branchCreate_eq]
    cases repo.creationPoint with
    | error e => simpa using hold
    | ok point =>
      simp [getBranch_eq_ok_iff, RefStore.createBranch, lookup_setRef_branchRef]
  have hkept : (branchCheckout host call name repo).2.refs.refs =
      (branchCreate name repo).2.refs.refs := by
    obtain hrun | ⟨e, hrun⟩ := branchCheckout_cases repo
    · rw [hrun]
      exact (sameContent_of_merging (merging_lasting.checkout host call name _)).2.1
    · rw [hrun]
  refine ⟨hcreate, ?_, fun hok => ?_⟩
  · rw [← hcreate, getBranch_eq_ok_iff, getBranch_eq_ok_iff, hkept]
  obtain hrun | ⟨e, hrun⟩ := branchCheckout_cases repo
  · rw [hrun] at hok ⊢
    have hthere : ∃ hash, (branchCreate name repo).2.refs.getBranch name = .ok hash := by
      rw [branchCreate_eq]
      cases repo.creationPoint with
      | error e => exact ⟨old, hold⟩
      | ok point => exact ⟨point, by simp [getBranch_eq_ok_iff,
          RefStore.createBranch, lookup_setRef_branchRef]⟩
    rw [checkout_eq fun _ => hthere] at hok ⊢
    rw [checkoutBranch_ok (Prod.ext hok rfl)]
    cases hfull : hasPrefix name (str "refs/heads/") with
    | false => simp [trimPrefix, hfull]
    | true =>
      obtain ⟨rest, rfl⟩ := hasPrefix_iff.mp hfull
      have hne : str "refs/heads/" ≠ [] := by decide
      simp [hne]
  · rw [hrun] at hok
    cases hok

theorem branchCreate_keeps_same_tips :
    (branchCreate (str "dev") sameTips).2.refs.getBranch (str "dev") = .ok [120] := by
  refine (branchCreate_keeps_iff checksums epoch sameTips
    (by decide +kernel)).1.mpr fun point hpoint => ?_
  have hhere : sameTips.creationPoint = .ok [120] := by decide +kernel
  rw [hhere] at hpoint
  exact (Except.ok.inj hpoint).symm

def twoTips : Repository MemoryBackend := { sameTips with
    refs := sameTips.refs.setRef (branchRef (str "dev")) [121] }

/-- `Branch("dev").Create()` drops the commit of `dev`. -/
theorem branchCreate_rewinds_two_tips :
    (branchCreate (str "dev") twoTips).1 = .ok () ∧ twoTips.refs.getBranch (str "dev") = .ok [121] ∧
      (branchCreate (str "dev") twoTips).2.refs.getBranch (str "dev") = .ok [120] := by
  decide +kernel

/-! ## Reset -/

/-- `Reset` has moved the branch to the commit and left HEAD on it. -/
def ResetTo (host : Host) (branch hash mode : GoString) (before after : Repository β) : Prop :=
  after.refs.head = str "ref: refs/heads/" ++ branch ∧
    (∀ ref, after.refs.refs.lookup ref =
      (before.refs.setRef (branchRef branch) hash).refs.lookup ref) ∧
    after.staging = (if mode = str "soft" then before.staging else StagingArea.new) ∧
    ∀ path, after.worktree.files.lookup path =
      if mode = str "hard" then
        (before.store.treeOfCommit host hash).bind fun tree =>
          (tree.toMap path).bind (before.store.blobAt host)
      else before.worktree.files.lookup path

theorem resetWorktree_leaves {host : Host} {call : Call} {hash : GoString} :
    (resetWorktree host call hash).Leaves (fun repo : Repository β => repo.refs) := by
  have hsteady : Steady (fun repo : Repository β => repo.refs) := ⟨fun _ _ _ => rfl⟩
  have hload : (loadTree host hash).Leaves fun repo : Repository β => repo.refs :=
    (hsteady.getAs host _ _ _).bind fun commit => hsteady.getAs host _ _ _
  refine hload.attempt.bind fun result => ?_
  cases result with
  | error e => exact .pure _
  | ok tree =>
    refine (GoM.Leaves.view _).bind fun files => ?_
    have hremove : (removeFiles files).Leaves
        fun repo : Repository β => repo.refs := .forEach fun _ => .update fun _ => rfl
    refine hremove.bind fun _ => ?_
    refine .forEach fun entry => (hsteady.getAs host _ _ _).attempt.bind ?_
    intro content
    cases content with
    | ok content => exact .update fun _ => rfl
    | error e => exact .pure _

/-- `Reset` sets HEAD itself to the hash, so it never moves the branch and
leaves HEAD detached. -/
theorem reset_never (host : Host) (call : Call) (target mode : GoString)
    {repo after : Repository β} {hash : GoString}
    (hhonest : repo.store.Honest host)
    (htarget : (resolveRef host target repo).1 = .ok hash)
    (hrun : reset host call target mode repo = (.ok (), after)) :
    (∀ branch mode, ¬ ResetTo host branch hash mode repo after) ∧
      after.refs = repo.refs.setHEAD hash := by
  have hreset : after.refs = repo.refs.setHEAD hash ∧ IsHexDigest hash := by
    unfold reset at hrun
    generalize (if mode = [] then str "mixed" else mode) = mode at hrun
    split at hrun
    · cases hrun
    obtain ⟨found, mid, hresolved, hrun⟩ := bind_eq_ok hrun
    obtain ⟨hrefs, hsame⟩ := resolveRef_run host target repo
    rw [mapError_eq_ok hresolved] at hrefs hsame htarget
    cases htarget
    obtain ⟨_, _, hcommit, hrun⟩ := bind_eq_ok hrun
    obtain ⟨store, -, rfl, hread⟩ := getAs_ok (mapError_eq_ok hcommit)
    obtain ⟨_, _, hset, hrun⟩ := bind_eq_ok hrun
    cases hset
    have htail : after.refs = mid.refs.setHEAD hash := by
      split_ifs at hrun
      · cases hrun
        rfl
      · obtain ⟨_, _, hclear, hrun⟩ := bind_eq_ok hrun
        cases hclear
        exact resetWorktree_leaves.of_run hrun
      · cases hrun
        rfl
    rw [hrefs] at htail
    obtain ⟨data, hfind, -⟩ := parse_of_commitAt hread
    refine ⟨htail, ?_⟩
    rw [← (hhonest.of_sameContent hsame).addressed _ _ hfind]
    exact host.hashObject_isHexDigest data
  obtain ⟨hrefs, hdigest⟩ := hreset
  refine ⟨fun branch mode hmoved => ?_, hrefs⟩
  have hhead := hmoved.1
  rw [hrefs] at hhead
  have hbyte : isLowerHex 114 = true := by
    refine List.all_eq_true.mp hdigest.2 114 ?_
    rw [show hash = _ from hhead]
    exact List.mem_append_left _ (by decide)
  cases hbyte

/-- Only the keys of the two maps have to be looked at. -/
theorem honest_of_keys {host : Host} {store : Store MemoryBackend}
    (hkeys : ∀ hash ∈ store.cache.objects.keys ++ store.backend.objects.keys,
      ∀ data ∈ store.find hash, host.hashObject data = hash ∧ data ∈ store.hashed) :
    store.Honest host := by
  have hboth : ∀ hash data, store.find hash = some data →
      host.hashObject data = hash ∧ data ∈ store.hashed := by
    intro hash data hfind
    refine hkeys hash ?_ data hfind
    rw [List.mem_append, ← AList.mem_keys, ← AList.mem_keys,
      ← AList.lookup_isSome, ← AList.lookup_isSome]
    by_contra hnone
    simp_all [find, MemoryBackend.readObject, Backend.readObject, Except.toOption]
  exact ⟨fun hash data hfind => (hboth hash data hfind).1,
    fun hash data hfind => (hboth hash data hfind).2⟩

/-- One commit, stored under its hash. -/
def rooted : Repository MemoryBackend :=
  let stored := storeCommit checksums Commit.zero (Store.new .new)
  { newRepository with
    store := stored.2
    refs := newRepository.refs.setRef (branchRef (str "main")) (stored.1.toOption.getD []) }

theorem rooted_honest : rooted.store.Honest checksums := honest_of_keys (by decide +kernel)

theorem reset_never_rooted :
    ¬ ResetTo checksums (str "main") (rooted.branchTip (str "main")) (str "hard") rooted
      (reset checksums epoch (str "HEAD") (str "hard") rooted).2 := by
  have htarget : (resolveRef checksums (str "HEAD") rooted).1 =
      .ok (rooted.branchTip (str "main")) := by decide +kernel
  obtain ⟨_, hrun⟩ := ok_of_isSome (by decide +kernel : (reset checksums
    epoch (str "HEAD") (str "hard") rooted).1.toOption.isSome)
  exact (reset_never checksums epoch _ _ rooted_honest htarget hrun).1 _ _

theorem reset_detaches_rooted :
    (reset checksums epoch (str "HEAD") [] rooted).1 = .ok () ∧
      rooted.refs.getCurrentBranch = .ok (str "main") ∧
      (reset checksums epoch (str "HEAD") [] rooted
        ).2.refs.getCurrentBranch = .error (str "HEAD is detached") := by
  decide +kernel

end Repository

end Govc
