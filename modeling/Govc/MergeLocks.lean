import Govc.GoLocks
import Govc.RepositoryHistory

/-!
# Merges that wait for themselves

`Merge` keeps the lock of the repository, which `Checkout` and `getConfigValue`
take once more.  So only merges that fail or fast-forward return, and the parent
chains they follow have to end: the number of turns is a parameter, and a merge
returns if it does so with some number.
-/

namespace Govc

open Go GoM Store

namespace Repository

variable {β : Type} [Backend β]

/-! ## Merge up to its commit -/

/-- `Merge` behind the checkout.  Nothing is left to do, or there are three
commits to merge: ours, theirs and the base. -/
def mergeDecision (host : Host) (turns : ℕ) (source : GoString) :
    GoM (Repository β) (Option (GoString × GoString × GoString)) := do
  let targetHash ← mapError (fun _ => str "branch not found: " ++ source)
    (query fun repo => repo.refs.getBranch source)
  let name ← view getCurrentBranchName
  let currentHash ← mapError (fun _ => str "current branch has no commits")
    (query fun repo => repo.refs.getBranch name)
  let ahead ← findOnChain host (· = currentHash) turns targetHash
  if ahead.isSome then do
    updateRef (RefStore.branchRef name) targetHash currentHash
    pure none
  else do
    let ancestors1 ← chain host turns currentHash
    match ← findOnChain host (· ∈ ancestors1) turns targetHash with
    | none => GoM.fail (str "no common ancestor found")
    | some mergeBase =>
      if mergeBase = targetHash then GoM.fail (str "already up to date")
      else if mergeBase = currentHash then do
        updateRef (RefStore.branchRef name) targetHash currentHash
        pure none
      else pure (some (currentHash, targetHash, mergeBase))

/-- `threeWayMerge` up to the author of its commit. -/
def storeMerged (host : Host) (call : Call) (ourHash theirHash baseHash : GoString) :
    GoM (Repository β) GoString := do
  let baseTree ← loadTree host baseHash
  let ourTree ← loadTree host ourHash
  let theirTree ← loadTree host theirHash
  let merged := mergeTrees (call.order 0) baseTree ourTree theirTree
  if merged.2 ≠ [] then
    GoM.fail (str "merge conflicts in files: [" ++ join merged.2 [space] ++ str "]")
  else onStore (storeTree host merged.1)

theorem loadTree_ends : (loadTree host commitHash : GoM (Repository β) Tree).Ends := by
  have hget : ∀ {α : Type} (select : Object → Option α) (kind hash : GoString),
      (getAs select kind host hash : GoM (Store β) α).Ends := by
    intro α select kind hash store
    obtain ⟨after, _, ⟨a, _, hrun⟩ | ⟨_, e, hrun⟩⟩ := getAs_run select kind host hash store
    · simp [hrun]
    · simp [hrun]
  exact ((hget asCommit _ _).zoom _ _).bind fun commit =>
    (hget asTree _ _).zoom _ _

theorem storeMerged_ends (host : Host) (call : Call) (ourHash theirHash baseHash : GoString) :
    (storeMerged host call ourHash theirHash baseHash : GoM (Repository β) GoString).Ends := by
  have hstore : ∀ object, (storeObject host object : GoM (Store β) GoString).Ends := by
    intro object store
    unfold storeObject
    simp only []
    split_ifs with hcached
    · simp
    · split
      · simp
      · simp
  refine loadTree_ends.bind fun baseTree => ?_
  refine loadTree_ends.bind fun ourTree => ?_
  refine loadTree_ends.bind fun theirTree => ?_
  dsimp only
  split_ifs with hconflicts
  · exact fun repo => by simp
  · exact (hstore _).zoom _ _

end Repository

structure SharedRepository (β : Type) where
  repo : Repository β
  mu : Bool

namespace SharedRepository

variable {β : Type}

def mutex : Mutex (SharedRepository β) where
  held := mu
  hold := fun shared taken => { shared with mu := taken }
  hold_held := fun _ => rfl

def onRepo {α : Type} (m : GoM (Repository β) α) : GoM (SharedRepository β) α :=
  zoom repo (fun shared repo => { shared with repo := repo }) m

def getConfigValue (key defaultValue : GoString) : GoM (SharedRepository β) GoString :=
  mutex.reading (view fun shared => shared.repo.getConfigValue key defaultValue)

theorem getConfigValue_of_held (shared : SharedRepository β) (hheld : shared.mu = true) :
    getConfigValue key defaultValue shared = (.diverge, shared) :=
  mutex.reading_of_held hheld

variable [Backend β]

def checkout (host : Host) (call : Call) (ref : GoString) : GoM (SharedRepository β) Unit :=
  mutex.locking (onRepo (Repository.checkout host call ref))

def threeWayMerge (host : Host) (call : Call) (ourHash theirHash baseHash branchName : GoString) :
    GoM (SharedRepository β) Unit := do
  let mergedTreeHash ← onRepo
    (Repository.storeMerged host call ourHash theirHash baseHash)
  let name ← getConfigValue (str "user.name") (str "Unknown")
  let email ← getConfigValue (str "user.email") (str "unknown@example.com")
  let author : Author := ⟨name, email, call.clock 0⟩
  let mergeCommit : Commit :=
    { treeHash := mergedTreeHash
      parentHash := ourHash
      author := author
      committer := author
      message := str "Merge branch '" ++ branchName ++ str "'" }
  let mergeCommitHash ← onRepo
    (Repository.onStore (storeCommit host mergeCommit))
  let current ← view fun shared => shared.repo.refs.getCurrentBranch
  let currentBranch := match current with
    | .ok branch => branch
    | .error _ => []
  onRepo (Repository.updateRef (RefStore.branchRef currentBranch) mergeCommitHash ourHash)

def mergeInto (host : Host) (call : Call) (turns : ℕ) (source : GoString) :
    GoM (SharedRepository β) Unit := do
  match ← onRepo (Repository.mergeDecision host turns source) with
  | none => pure ()
  | some (ourHash, theirHash, baseHash) =>
    threeWayMerge host call ourHash theirHash baseHash source

def mergeHeld (host : Host) (call : Call) (turns : ℕ)
    (source target : GoString) : GoM (SharedRepository β) Unit := do
  let currentBranch ← mapError (fun _ => str "not on a branch")
    (query fun shared => shared.repo.refs.getCurrentBranch)
  if target ≠ [] ∧ target ≠ currentBranch then do
    mapError (fun e => str "failed to checkout " ++ target ++ str ": " ++ e)
      (checkout host call target)
    deferring (checkout host (call.drop 2) currentBranch)
      (mergeInto host (call.drop 1) turns source)
  else mergeInto host call turns source

def merge (host : Host) (call : Call) (turns : ℕ)
    (source target : GoString) : GoM (SharedRepository β) Unit :=
  mutex.locking (mergeHeld host call turns source target)

/-! ## The merges that return -/

/-- Behind the checkout: the walks end, and no commit is to be made. -/
def EndsEarly (host : Host) (call : Call) (turns : ℕ) (source : GoString)
    (repo : Repository β) : Prop :=
  match Repository.mergeDecision host turns source repo with
  | (.diverge, _) => False
  | (.ok (some (ourHash, theirHash, baseHash)), after) => ∀ treeHash,
      (Repository.storeMerged host call ourHash theirHash baseHash after).1 ≠ .ok treeHash
  | _ => True

/-- HEAD is detached, or there is no branch to check out and the merge ends
early. -/
def Avoids (host : Host) (call : Call) (turns : ℕ)
    (source target : GoString) (repo : Repository β) : Prop :=
  match repo.refs.getCurrentBranch with
  | .error _ => True
  | .ok currentBranch =>
    (target = [] ∨ target = currentBranch) ∧ EndsEarly host call turns source repo

theorem threeWayMerge_diverges (host : Host) (call : Call)
    (ourHash theirHash baseHash branchName : GoString)
    (shared : SharedRepository β) (hheld : shared.mu = true) :
    (threeWayMerge host call ourHash theirHash baseHash branchName shared).1 = .diverge ↔
      ∃ treeHash, (Repository.storeMerged host call ourHash theirHash baseHash
        shared.repo).1 = .ok treeHash := by
  have hends := Repository.storeMerged_ends host call ourHash theirHash baseHash shared.repo
  unfold threeWayMerge
  rw [bind_apply, onRepo, zoom_apply]
  rcases hrun : Repository.storeMerged host call ourHash theirHash baseHash
    shared.repo with ⟨outcome, after⟩
  rw [hrun] at hends
  cases outcome with
  | ok treeHash =>
    dsimp only
    rw [bind_of_diverge (getConfigValue_of_held ⟨after, shared.mu⟩ hheld)]
    simp
  | error e => simp
  | panic e => simp
  | diverge => exact absurd rfl hends

theorem mergeInto_returns_iff {shared : SharedRepository β}
    (hheld : shared.mu = true) :
    (mergeInto host call turns source shared).1 ≠ .diverge ↔
      EndsEarly host call turns source shared.repo := by
  unfold mergeInto EndsEarly
  rw [bind_apply, onRepo, zoom_apply]
  rcases Repository.mergeDecision host turns source shared.repo with
    ⟨outcome, after⟩
  cases outcome with
  | ok decision =>
    cases decision with
    | none => simp
    | some commits =>
      obtain ⟨ourHash, theirHash, baseHash⟩ := commits
      have hwaits := threeWayMerge_diverges host call ourHash theirHash
        baseHash source ⟨after, shared.mu⟩ hheld
      simp [hwaits]
  | _ => simp

theorem mergeHeld_returns_iff {shared : SharedRepository β}
    (hheld : shared.mu = true) :
    (mergeHeld host call turns source target shared).1 ≠ .diverge ↔
      Avoids host call turns source target shared.repo := by
  unfold mergeHeld Avoids
  cases hcurrent : shared.repo.refs.getCurrentBranch with
  | error e =>
    have hquery : mapError (fun _ => str "not on a branch")
        (query fun shared : SharedRepository β =>
          shared.repo.refs.getCurrentBranch) shared =
        (.error (str "not on a branch"), shared) := by
      simp [mapError, query_apply, hcurrent]
    rw [bind_of_error hquery]
    simp
  | ok currentBranch =>
    have hquery : mapError (fun _ => str "not on a branch")
        (query fun shared : SharedRepository β =>
          shared.repo.refs.getCurrentBranch) shared =
        (.ok currentBranch, shared) := by
      simp [mapError, query_apply, hcurrent]
    rw [bind_of_ok hquery]
    by_cases hswitch : target ≠ [] ∧ target ≠ currentBranch
    · have hwaits : checkout host call target shared = (.diverge, shared) :=
        mutex.locking_of_held hheld
      rw [if_pos hswitch, bind_of_diverge (mapError_of_diverge hwaits)]
      simp [hswitch.1, hswitch.2]
    · rw [if_neg hswitch, mergeInto_returns_iff hheld]
      have hstays : target = [] ∨ target = currentBranch := by
        by_contra hother
        exact hswitch (not_or.mp hother)
      simp [hstays]

/-- With the lock free, `Merge` returns if and only if it comes to no lock
that it holds and its walks along the parents end. -/
theorem merge_returns_iff (host : Host) (call : Call)
    (source target : GoString) {shared : SharedRepository β}
    (hfree : shared.mu = false) :
    (∃ turns, (merge host call turns source target shared).1 ≠ .diverge) ↔
      ∃ turns, Avoids host call turns source target shared.repo := by
  refine exists_congr fun turns => ?_
  unfold merge
  rw [mutex.locking_fst hfree]
  exact mergeHeld_returns_iff rfl

def fresh : SharedRepository MemoryBackend where
  repo := Repository.newRepository
  mu := false

def anyCall : Call where
  clock := fun _ => .zero
  unixNano := 0
  order := fun _ => .inserted

/-- The only branch, which has no commits. -/
theorem merge_returns_without_commits :
    ∃ turns, (merge .checksums anyCall turns (str "main") [] fresh).1 ≠ .diverge :=
  (merge_returns_iff .checksums anyCall (str "main") [] rfl).mpr ⟨1, .inl rfl, trivial⟩

/-- The target is not checked out. -/
theorem merge_waits_for_itself :
    fresh.mu = false ∧ ∀ turns,
      (merge .checksums anyCall turns (str "main") (str "feature") fresh).1 = .diverge := by
  refine ⟨rfl, fun turns => ?_⟩
  rfl

end SharedRepository

end Govc
