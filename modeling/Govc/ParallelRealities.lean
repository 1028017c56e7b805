import Govc.CheckoutFrames
import Govc.CommitContract
import Govc.GuardedRuns
import Govc.RepositoryHistory

/-!
# Parallel realities

`Apply` checks a branch out, stages its changes and checks the old branch out
again, each under a lock of its own.  There is one staging area for all branches,
so the changes wait for the next commit on whatever branch.  If at each commit
what is staged was applied to its branch, every entry of its tree comes from it.
-/

namespace Govc

open Go RefStore

namespace Repository

variable {β : Type}

/-- `ParallelReality` up to the record it returns: the name of the branch. -/
def parallelReality (name : GoString) : GoM (Repository β) GoString := do
  let branchName := str "parallel/" ++ name
  let currentHash ← GoM.view headHash
  mapRefs fun refs => refs.createBranch branchName currentHash
  pure branchName

/-! ## Checkouts leave branches and staged files alone -/

def shared (repo : Repository β) : GoMap GoString GoString × StagingArea :=
  (repo.refs.refs, repo.staging)

variable [Backend β]

/-- One round of the loop in `Apply`; an error of `StoreBlob` is dropped. -/
def stageChange (host : Host) (path : GoString) (content : Bytes) :
    GoM (Repository β) GoString := do
  let stored ← GoM.attempt (onStore (Store.storeBlob host content))
  let hash := match stored with
    | .ok hash => hash
    | .error _ => []
  mapStaging fun staging => staging.addHash path hash
  pure hash

variable (host : Host)

theorem shared_lasting : Lasting (shared : Repository β → _) where
  read := fun _ _ _ => rfl
  worktree := fun _ _ => rfl
  head := fun _ _ => rfl

theorem stageChange_run (path : GoString) (content : Bytes) (repo : Repository β) :
    ∃ hash store, stageChange host path content repo =
      (.ok hash, { repo with
        store := store
        staging := repo.staging.addHash path hash }) := by
  unfold stageChange
  rw [GoM.bind_apply]
  obtain ⟨after, _, hrun | ⟨e, _, hrun⟩⟩ := Store.storeObject_run repo.store
  · have hstored := GoM.attempt_of_ok (onStore_of_run hrun)
    rw [show Store.storeBlob host content =
      (Store.storeObject host (.blob content) : GoM (Store β) GoString)
      from rfl, hstored]
    exact ⟨_, after, rfl⟩
  · have hstored := GoM.attempt_of_error (onStore_of_run hrun)
    rw [show Store.storeBlob host content =
      (Store.storeObject host (.blob content) : GoM (Store β) GoString)
      from rfl, hstored]
    exact ⟨[], after, rfl⟩

end Repository

/-! ## Runs -/

structure RealityChange where
  reality : GoString
  path : GoString
  hash : GoString

/-- The repository, and the changes applied since the last commit that was
made. -/
structure RealityRun (β : Type) where
  repo : Repository β
  pending : List RealityChange

namespace RealityRun

inductive Step where
  | create (name : GoString)
  | checkout (call : Call) (ref : GoString)
  | stage (reality path : GoString) (content : Bytes)
  | commit (call : Call) (message : GoString)

/-- What `Apply` is given; the function that it may call is left out. -/
inductive Changes where
  | files (files : GoMap GoString Bytes)
  | unsupported

def applySteps (order : RangeOrder) (back forth : Call)
    (oldBranch reality : GoString) : Changes → List Step
  | .files files =>
    .checkout forth reality :: (files.range order).map (fun file => .stage reality file.1 file.2) ++
      [.checkout back oldBranch]
  | .unsupported => [.checkout forth reality, .checkout back oldBranch]

variable {β : Type}

def Tracks (initial : StagingArea) (run : RealityRun β) : Prop :=
  ∀ path hash, run.repo.staging.files.lookup path = some hash →
    initial.files.lookup path = some hash ∨
      ∃ change ∈ run.pending, change.path = path ∧ change.hash = hash

variable {initial : StagingArea} {run : RealityRun β}

theorem Tracks.of_staging (h : run.Tracks initial) {repo : Repository β}
    (hsame : repo.staging = run.repo.staging) :
    Tracks initial ⟨repo, run.pending⟩ := by
  intro path hash hstaged
  rw [hsame] at hstaged
  exact h path hash hstaged

variable [Backend β]

/-- Checkouts that fail are ignored, and so are failed commits. -/
def step (host : Host) (run : RealityRun β) : Step → RealityRun β
  | .create name =>
    { run with repo := (Repository.parallelReality name run.repo).2 }
  | .checkout call ref =>
    { run with repo := (Repository.checkout host call ref run.repo).2 }
  | .stage reality path content =>
    match Repository.stageChange host path content run.repo with
    | (.ok hash, repo) => ⟨repo, ⟨reality, path, hash⟩ :: run.pending⟩
    | (_, repo) => ⟨repo, run.pending⟩
  | .commit call message =>
    match Repository.commit host call message run.repo with
    | (.ok _, repo) => ⟨repo, []⟩
    | (_, repo) => ⟨repo, run.pending⟩

/-- No change of another reality is staged when a commit is made, and no
reality is created over a branch that is elsewhere. -/
def Separate (run : RealityRun β) : Step → Prop
  | .create name => ∀ hash,
      run.repo.refs.getBranch (str "parallel/" ++ name) = .ok hash → hash = run.repo.headHash
  | .commit _ _ => ∀ change ∈ run.pending,
      run.repo.staging.files.lookup change.path = some change.hash →
        change.reality = run.repo.branchToMove
  | _ => True

/-- The entry is in the parent's tree, was staged before the run, or was
applied to the branch of the commit. -/
def Explains (host : Host) (initial : StagingArea) (run : RealityRun β)
    (entry : TreeEntry) : Prop :=
  entry ∈ run.repo.tipEntries host ∨ initial.files.lookup entry.name = some entry.hash ∨
    ∃ change ∈ run.pending, change.reality = run.repo.branchToMove ∧
      change.path = entry.name ∧ change.hash = entry.hash

/-- Creating a reality moves no branch, no more than a step of `Apply` does,
and the tree of a commit has nothing from other realities. -/
def Isolates (host : Host) (initial : StagingArea) (run : RealityRun β) : Step → Prop
  | .commit call message => ∀ made repo,
      Repository.commit host call message run.repo = (.ok made, repo) →
      ∃ tree, made.treeHash = (Object.tree tree).hash host ∧
        ∀ entry ∈ tree.entries, run.Explains host initial entry
  | label => ∀ branch hash, run.repo.refs.getBranch branch = .ok hash →
      (run.step host label).repo.refs.getBranch branch = .ok hash

theorem Tracks.step (h : run.Tracks initial) (host : Host) (label : Step) :
    (run.step host label).Tracks initial := by
  cases label with
  | create name => exact h.of_staging rfl
  | checkout call ref =>
    have hsame := Repository.shared_lasting.checkout host call ref run.repo
    exact h.of_staging (congrArg Prod.snd hsame)
  | stage reality path content =>
    obtain ⟨hash, store, hrun⟩ := Repository.stageChange_run host path content run.repo
    simp only [RealityRun.step, hrun]
    intro other found hstaged
    simp only [StagingArea.addHash, GoMap.lookup_insert_eq] at hstaged
    split_ifs at hstaged with hother
    · simp only [Option.some.injEq] at hstaged
      exact .inr ⟨⟨reality, path, hash⟩, List.mem_cons_self, hother.symm, hstaged⟩
    · rcases h other found hstaged with hbefore | ⟨change, hmem, hmatch⟩
      · exact .inl hbefore
      · exact .inr ⟨change, List.mem_cons_of_mem _ hmem, hmatch⟩
  | commit call message =>
    rcases Repository.commit_run host call message run.repo with
      ⟨after, _, hrun⟩ | ⟨_, after, e, _, hrun⟩
    · simp only [RealityRun.step, hrun]
      intro path hash hstaged
      simp [Repository.committed, StagingArea.new] at hstaged
    · simp only [RealityRun.step, hrun]
      exact h.of_staging rfl

theorem isolates_of_separate (h : run.Tracks initial)
    (hseparate : run.Separate label) : run.Isolates host initial label := by
  cases label with
  | create name =>
    intro branch hash hbranch
    have hrefs : (run.step host (.create name)).repo.refs =
        run.repo.refs.setRef (branchRef (str "parallel/" ++ name)) run.repo.headHash := rfl
    rw [hrefs, getBranch_eq_ok_iff, lookup_setRef_branchRef]
    by_cases hsame : branch = str "parallel/" ++ name
    · rw [hsame] at hbranch
      simp [hsame, hseparate hash hbranch]
    · have hother : branchRef branch ≠ branchRef (str "parallel/" ++ name) :=
        fun heq => hsame (List.append_cancel_left heq)
      rw [if_neg hother]
      exact (getBranch_eq_ok_iff _ _ _).mp hbranch
  | checkout call ref =>
    intro branch hash hbranch
    have hsame : (run.step host (.checkout call ref)).repo.refs.refs =
        run.repo.refs.refs := congrArg Prod.fst
      (Repository.shared_lasting.checkout host call ref run.repo)
    rw [getBranch_eq_ok_iff] at hbranch ⊢
    rw [hsame]
    exact hbranch
  | stage reality path content =>
    intro branch hash hbranch
    obtain ⟨staged, store, hrun⟩ := Repository.stageChange_run host path content run.repo
    simpa only [RealityRun.step, hrun] using hbranch
  | commit call message =>
    intro made repo hcommit
    refine ⟨run.repo.nextTree host call, ?_, ?_⟩
    · rw [(Repository.commit_ok hcommit).1]
      rfl
    · intro entry hentry
      rcases List.mem_append.mp hentry with hinherited | hstaged
      · exact .inl (List.mem_of_mem_filter hinherited)
      · have hlookup := ((Repository.mem_stagedEntries _ _ entry).mp hstaged).2
        rcases h _ _ hlookup with hbefore | ⟨change, hmem, hpath, hhash⟩
        · exact .inr (.inl hbefore)
        · have hown := hseparate change hmem (by rw [hpath, hhash, hlookup])
          exact .inr (.inr ⟨change, hmem, hown, hpath, hhash⟩)

/-- In every interleaving whose steps are separate, realities are
isolated. -/
theorem realities_isolated (host : Host) (repo : Repository β) {labels : List Step}
    (hseparate : Runs.Admits (step host) Separate ⟨repo, []⟩ labels) :
    Runs.Admits (step host) (Isolates host repo.staging) ⟨repo, []⟩ labels := by
  have hstart : Tracks repo.staging ⟨repo, []⟩ := fun _ _ hstaged => .inl hstaged
  exact hseparate.steps (I := Tracks repo.staging)
    (fun run label htracks _ => htracks.step host label)
    (fun run label htracks hlabel => isolates_of_separate htracks hlabel)
    hstart

def quiet : Call where
  clock := fun _ => .zero
  unixNano := 0
  order := fun _ => .inserted

def appliedOnce : List Step :=
  .create (str "r") ::
    applySteps .inserted quiet quiet (str "main") (str "parallel/r")
      (.files ((∅ : GoMap GoString Bytes).insert (str "a") (str "new")))

def runOf (labels : List Step) : RealityRun MemoryBackend :=
  labels.foldl (step .checksums) ⟨Repository.newRepository, []⟩

/-- The reality is checked out again for its commit. -/
theorem realities_isolated_own_commit :
    Runs.Admits (step .checksums) (Isolates .checksums StagingArea.new)
      (⟨Repository.newRepository, []⟩ : RealityRun MemoryBackend)
      (appliedOnce ++ [.checkout quiet (str "parallel/r"), .commit quiet (str "m")]) := by
  refine realities_isolated .checksums Repository.newRepository ?_
  refine ⟨?_, trivial, trivial, trivial, trivial, ?_, trivial⟩
  · intro hash hbranch
    cases hbranch
  · intro change hchange _
    have hown : ∀ reality ∈ (runOf (appliedOnce ++
        [.checkout quiet (str "parallel/r")])).pending.map RealityChange.reality,
        reality = (runOf (appliedOnce ++
          [.checkout quiet (str "parallel/r")])).repo.branchToMove := by
      decide +kernel
    exact hown _ (List.mem_map_of_mem hchange)

/-- A commit on main right after the change was applied. -/
theorem commit_takes_other_reality :
    (runOf appliedOnce).repo.branchToMove = str "main" ∧
      (Repository.commit .checksums quiet (str "m")
        (runOf appliedOnce).repo).1.toOption.isSome = true ∧
      Tree.toMap ⟨(runOf appliedOnce).repo.tipEntries .checksums⟩ (str "a") = none ∧
      ∃ change ∈ (runOf appliedOnce).pending,
        change.reality = str "parallel/r" ∧
          ((runOf appliedOnce).repo.nextTree .checksums quiet).toMap
            change.path = some change.hash := by
  decide +kernel

end RealityRun

end Govc
