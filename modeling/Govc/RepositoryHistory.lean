import Govc.RepositoryModel

/-!
# Branches, checkout and history rewriting

The operations of the repository that move references.  A loop that follows
parent links is given as many turns as there are stored objects and one more; a
longer walk has met a commit twice.  The mutex is taken to be always free.
-/

namespace Govc

open Go GoM RefStore Store

/-! ## Names of commits -/

def isHexByte (b : UInt8) : Bool := isLowerHex b || (65 ≤ b && b ≤ 70)

/-- The expression `^[a-fA-F0-9]{7,40}$`. -/
def isCommitHash (ref : GoString) : Bool := 7 ≤ ref.length && ref.length ≤ 40 && ref.all isHexByte

/-- `fmt.Sscanf(s, "%d", &n)`: leading blanks other than a newline, a sign
and a run of digits.  The variable keeps its value when nothing is read. -/
def scanInt (s : GoString) (default : ℤ) : ℤ :=
  let blanks := spaceEncodings.filter (· ≠ [newline])
  let rest := trimLeftWith blanks s.length s
  let digits := (splitSign rest).2.takeWhile isDigit
  match parseDigits digits with
  | none => default
  | some n =>
    if InInt64 (signed (splitSign rest).1 n) then
      signed (splitSign rest).1 n
    else default

def Store.fuel {β : Type} [Backend β] (store : Store β) : ℕ :=
  store.cache.objects.keys.length +
    (match Backend.listObjects store.backend with
      | .ok hashes => hashes.length
      | .error _ => 0) + 1

namespace Repository

variable {β : Type}

def getHEAD : GoM (Repository β) GoString := query fun repo => repo.refs.getHEAD

def getCurrentBranchName (repo : Repository β) : GoString :=
  match repo.refs.getCurrentBranch with
  | .ok branch => branch
  | .error _ => str "HEAD"

/-- The slice `hash[:8]`. -/
def shortHash (hash : GoString) : GoM (Repository β) GoString :=
  if 8 ≤ hash.length then pure (hash.take 8)
  else crash (str "runtime error: slice bounds out of range")

/-! ## Branches -/

def branchCreate (name : GoString) : GoM (Repository β) Unit := do
  match ← view fun repo => repo.refs.getCurrentBranch with
  | .error _ => do
    let headHash ← getHEAD
    mapRefs fun refs => refs.createBranch name headHash
  | .ok currentBranch =>
    match ← view fun repo => repo.refs.getBranch currentBranch with
    | .error _ => mapRefs fun refs => refs.createBranch name []
    | .ok branchHash => mapRefs fun refs => refs.createBranch name branchHash

def branchDelete (name : GoString) : GoM (Repository β) Unit := do
  let current ← view fun repo => repo.refs.getCurrentBranch
  if current = .ok name then fail (str "cannot delete current branch")
  else mapRefs fun refs => refs.deleteBranch name

def startPoint (fromCommit : GoString) : GoM (Repository β) GoString :=
  if fromCommit = [] then
    mapError (fun e => str "failed to get HEAD: " ++ e) getHEAD
  else pure fromCommit

/-- `Repository.CreateBranch`: the commit is taken as it is given. -/
def createBranch (name fromCommit : GoString) : GoM (Repository β) Unit := do
  let target ← startPoint fromCommit
  mapError (fun e => str "failed to create branch: " ++ e) (updateRef (branchRef name) target [])

def switchBranch (name : GoString) : GoM (Repository β) Unit := do
  let _ ← mapError
    (fun e => str "branch " ++ name ++ str " does not exist: " ++ e)
    (query fun repo => repo.refs.getBranch name)
  mapRefs fun refs => refs.setHEADToBranch name

def mergeBranch (branchName : GoString) : GoM (Repository β) Unit := do
  let sourceHash ← mapError
    (fun e => str "source branch " ++ branchName ++ str " not found: " ++ e)
    (query fun repo => repo.refs.getBranch branchName)
  let currentBranch ← mapError
    (fun e => str "failed to get current branch: " ++ e)
    (query fun repo => repo.refs.getCurrentBranch)
  mapError (fun e => str "failed to merge: " ++ e)
    (updateRef (branchRef currentBranch) sourceHash [])

def createTag (name : GoString) : GoM (Repository β) Unit := do
  let commitHash ← mapError
    (fun e => str "failed to get HEAD: " ++ e) getHEAD
  mapRefs fun refs => refs.createTag name commitHash

variable [Backend β]

/-! ## Resolving a reference -/

/-- `HEAD~n`: `total` is the number written, the first argument what is left
of it. -/
def walkBack (host : Host) (ref : GoString) (total : ℤ) : ℕ → GoString → GoM (Repository β) GoString
  | 0, currentHash => pure currentHash
  | n + 1, currentHash => do
    let commit ← mapError
      (fun e => str "cannot resolve " ++ ref ++ str ": " ++ e)
      (onStore (getCommit host currentHash))
    if commit.parentHash = [] then
      fail (str "cannot go back " ++ formatInt total ++ str " commits from HEAD")
    else walkBack host ref total n commit.parentHash

def resolveName (ref : GoString) : GoM (Repository β) GoString := do
  if ref.length = 40 then pure ref
  else
    match ← view fun repo => repo.refs.getBranch ref with
    | .ok hash => pure hash
    | .error _ =>
      match ← view fun repo => repo.refs.getTag ref with
      | .ok hash => pure hash
      | .error _ =>
        if 4 ≤ ref.length ∧ ref.length < 40 ∧ ref.all isHexByte then
          fail (str "shortened commit hash not yet supported: " ++ ref)
        else fail (str "ref not found: " ++ ref)

def resolveRef (host : Host) (ref : GoString) : GoM (Repository β) GoString :=
  if ref = str "HEAD" then getHEAD
  else if hasPrefix ref (str "HEAD") then do
    let headHash ← getHEAD
    if hasPrefix ref (str "HEAD~") then
      let n := if 5 < ref.length then scanInt (ref.drop 5) 1 else 1
      walkBack host ref n n.toNat headHash
    else if ref = str "HEAD^" then do
      let commit ← onStore (getCommit host headHash)
      if commit.parentHash = [] then fail (str "HEAD has no parent")
      else pure commit.parentHash
    else resolveName ref
  else resolveName ref

/-! ## Checkout -/

def removeFiles (files : List GoString) : GoM (Repository β) Unit := forEach files fun file =>
    mapWorktree fun worktree => worktree.removeFile file

def updateWorktree (host : Host) (call : Call) (tree : Tree) : GoM (Repository β) Unit := do
  let currentFiles ← view fun repo =>
    repo.worktree.listFiles (call.order 0)
  removeFiles (currentFiles.filter fun file =>
    tree.entries.all fun entry => entry.name ≠ file)
  forEach tree.entries fun entry => do
    let content ← onStore (getBlob host entry.hash)
    mapWorktree fun worktree => worktree.writeFile entry.name content

def restore (host : Host) (call : Call) (commitHash : GoString) : GoM (Repository β) Unit := do
  let commit ← onStore (getCommit host commitHash)
  let tree ← onStore (getTree host commit.treeHash)
  updateWorktree host call tree

def checkoutBranch (host : Host) (call : Call) (branchName : GoString) :
    GoM (Repository β) Unit := do
  let branchHash ← mapError
    (fun _ => str "branch not found: " ++ branchName)
    (query fun repo => repo.refs.getBranch branchName)
  if branchHash = [] then do
    let files ← view fun repo => repo.worktree.listFiles (call.order 0)
    removeFiles files
    mapRefs fun refs => refs.setHEADToBranch branchName
  else do
    restore host call branchHash
    mapRefs fun refs => refs.setHEADToBranch branchName

def checkoutCommit (host : Host) (call : Call) (ref : GoString) : GoM (Repository β) Unit := do
  let commitHash ← resolveRef host ref
  restore host call commitHash
  mapRefs fun refs => refs.setHEADToCommit commitHash

/-- A reference that is neither a branch nor looks like a hash is tried as a
branch, so that the error names one. -/
def checkout (host : Host) (call : Call) (ref : GoString) : GoM (Repository β) Unit := do
  if hasPrefix ref (str "refs/heads/") then
    checkoutBranch host call (trimPrefix ref (str "refs/heads/"))
  else
    match ← view fun repo => repo.refs.getBranch ref with
    | .ok _ => checkoutBranch host call ref
    | .error _ =>
      if isCommitHash ref then checkoutCommit host call ref
      else checkoutBranch host call ref

def branchCheckout (host : Host) (call : Call) (name : GoString) : GoM (Repository β) Unit := do
  match ← attempt (branchCreate name) with
  | .ok _ => checkout host call name
  | .error e =>
    if contains e (str "already exists") then checkout host call name
    else fail e

/-! ## Chains of parents -/

/-- The first commit on the parent chain of `hash` that satisfies `p`. -/
def findOnChain (host : Host) (p : GoString → Bool) :
    ℕ → GoString → GoM (Repository β) (Option GoString)
  | 0, _ => diverge
  | fuel + 1, hash =>
    if hash = [] then pure none
    else if p hash then pure (some hash)
    else do
      match ← attempt (onStore (getCommit host hash)) with
      | .error _ => pure none
      | .ok commit => findOnChain host p fuel commit.parentHash

/-- All hashes on the parent chain of `hash`, the unreadable last one
included. -/
def chain (host : Host) : ℕ → GoString → GoM (Repository β) (List GoString)
  | 0, _ => diverge
  | fuel + 1, hash =>
    if hash = [] then pure []
    else do
      match ← attempt (onStore (getCommit host hash)) with
      | .error _ => pure [hash]
      | .ok commit => do
        let rest ← chain host fuel commit.parentHash
        pure (hash :: rest)

def walkFuel : GoM (Repository β) ℕ := view fun repo => repo.store.fuel

def canFastForward (host : Host) (currentHash targetHash : GoString) : GoM (Repository β) Bool := do
  let fuel ← walkFuel
  let found ← findOnChain host (· = currentHash) fuel targetHash
  pure found.isSome

/-- The first commit on the chain of `hash2` that is on the chain of
`hash1`. -/
def commonCommit (host : Host) (hash1 hash2 : GoString) : GoM (Repository β) (Option GoString) := do
  let fuel ← walkFuel
  let ancestors1 ← chain host fuel hash1
  findOnChain host (· ∈ ancestors1) fuel hash2

def findMergeBase (host : Host) (hash1 hash2 : GoString) : GoM (Repository β) GoString := do
  match ← commonCommit host hash1 hash2 with
  | some hash => pure hash
  | none => fail (str "no common ancestor found")

def findCommonAncestor (host : Host) (hash1 hash2 : GoString) : GoM (Repository β) GoString := do
  let found ← commonCommit host hash1 hash2
  pure (found.getD [])

def collectBetween (host : Host) (start : GoString) :
    ℕ → GoString → List GoString → GoM (Repository β) (List GoString)
  | 0, _, _ => diverge
  | fuel + 1, current, commits =>
    if current = [] ∨ current = start then pure commits
    else do
      let commit ← onStore (getCommit host current)
      collectBetween host start fuel commit.parentHash (current :: commits)

def collectCommitsBetween (host : Host) (start stop : GoString) :
    GoM (Repository β) (List GoString) := do
  let fuel ← walkFuel
  collectBetween host start fuel stop []

/-! ## Merge -/

def findTreeEntry (tree : Tree) (name : GoString) : Option TreeEntry :=
  tree.entries.find? fun entry => entry.name = name

/-- What the loop of `mergeTrees` does with one file: an entry to add,
nothing, or a conflict. -/
def mergeFile (base ours theirs : Tree) (file : GoString) : Except GoString (Option TreeEntry) :=
  match findTreeEntry ours file, findTreeEntry theirs file with
  | none, none => .ok none
  | some ourEntry, none =>
    if (findTreeEntry base file).isSome then .ok none
    else .ok (some ourEntry)
  | none, some theirEntry =>
    if (findTreeEntry base file).isSome then .ok none
    else .ok (some theirEntry)
  | some ourEntry, some theirEntry =>
    if ourEntry.hash = theirEntry.hash then .ok (some ourEntry)
    else
      match findTreeEntry base file with
      | none => .error file
      | some baseEntry =>
        if baseEntry.hash = ourEntry.hash then .ok (some theirEntry)
        else if baseEntry.hash = theirEntry.hash then
          .ok (some ourEntry)
        else .error file

def mergeTrees (order : RangeOrder) (base ours theirs : Tree) : Tree × List GoString :=
  let names := (base.entries ++ ours.entries ++ theirs.entries).map
    TreeEntry.name
  let results := (order.visit names.dedup).map (mergeFile base ours theirs)
  (⟨results.filterMap fun
      | .ok entry => entry
      | .error _ => none⟩,
    results.filterMap fun
      | .ok _ => none
      | .error file => some file)

def loadTree (host : Host) (commitHash : GoString) : GoM (Repository β) Tree := do
  let commit ← onStore (getCommit host commitHash)
  onStore (getTree host commit.treeHash)

def threeWayMerge (host : Host) (call : Call) (ourHash theirHash baseHash branchName : GoString) :
    GoM (Repository β) Unit := do
  let baseTree ← loadTree host baseHash
  let ourTree ← loadTree host ourHash
  let theirTree ← loadTree host theirHash
  let merged := mergeTrees (call.order 0) baseTree ourTree theirTree
  if merged.2 ≠ [] then
    fail (str "merge conflicts in files: [" ++ join merged.2 [space] ++ str "]")
  else do
    let mergedTreeHash ← onStore (storeTree host merged.1)
    let author ← view fun repo => repo.configuredAuthor call
    let mergeCommit : Commit :=
      { treeHash := mergedTreeHash
        parentHash := ourHash
        author := author
        committer := author
        message := str "Merge branch '" ++ branchName ++ str "'" }
    let mergeCommitHash ← onStore (storeCommit host mergeCommit)
    let current ← view fun repo => repo.refs.getCurrentBranch
    let currentBranch := match current with
      | .ok branch => branch
      | .error _ => []
    updateRef (branchRef currentBranch) mergeCommitHash ourHash

/-- The part of `Merge` after the switch to the target branch. -/
def mergeInto (host : Host) (call : Call) (source : GoString) : GoM (Repository β) Unit := do
  let targetHash ← mapError (fun _ => str "branch not found: " ++ source)
    (query fun repo => repo.refs.getBranch source)
  let name ← view getCurrentBranchName
  let currentHash ← mapError (fun _ => str "current branch has no commits")
    (query fun repo => repo.refs.getBranch name)
  if ← canFastForward host currentHash targetHash then
    updateRef (branchRef name) targetHash currentHash
  else do
    let mergeBase ← findMergeBase host currentHash targetHash
    if mergeBase = targetHash then fail (str "already up to date")
    else if mergeBase = currentHash then
      updateRef (branchRef name) targetHash currentHash
    else threeWayMerge host call currentHash targetHash mergeBase source

def merge (host : Host) (call : Call) (source target : GoString) : GoM (Repository β) Unit := do
  let currentBranch ← mapError (fun _ => str "not on a branch")
    (query fun repo => repo.refs.getCurrentBranch)
  if target ≠ [] ∧ target ≠ currentBranch then do
    mapError (fun e => str "failed to checkout " ++ target ++ str ": " ++ e)
      (checkout host call target)
    deferring (checkout host (call.drop 2) currentBranch) (mergeInto host (call.drop 1) source)
  else mergeInto host call source

/-! ## Commits made from other commits -/

/-- The author and the committer of a rewritten commit read the clock one
after the other. -/
def rewrittenCommit (repo : Repository β) (call : Call) (turn : ℕ) (message : GoString) : Commit :=
  let name := repo.getConfigValue (str "user.name") (str "Unknown")
  let email :=
    repo.getConfigValue (str "user.email") (str "unknown@example.com")
  { treeHash := []
    parentHash := []
    author := ⟨name, email, call.clock (2 * turn)⟩
    committer := ⟨name, email, call.clock (2 * turn + 1)⟩
    message := message }

/-- The commit at HEAD with the error of `GetHEAD` ignored. -/
def headHash (repo : Repository β) : GoString :=
  match repo.refs.getHEAD with
  | .ok hash => hash
  | .error _ => []

/-- Builds the tree from the staged files alone and leaves HEAD detached at
the new commit. -/
def commitInternal (host : Host) (order : RangeOrder) (commit : Commit) :
    GoM (Repository β) Commit := do
  let currentHash ← view headHash
  let staging ← view staging
  let treeHash ← mapError (fun e => str "failed to store tree: " ++ e)
    (onStore (storeTree host ⟨stagedEntries staging order⟩))
  let commit := { commit with treeHash := treeHash, parentHash := currentHash }
  let commitHash ← mapError (fun e => str "failed to store commit: " ++ e)
    (onStore (storeCommit host commit))
  mapRefs fun refs => refs.setHEAD commitHash
  mapStaging StagingArea.clear
  pure commit

/-- The commit named by `ref`, its hash, and the trees of the commit and of
its parent. -/
def loadChange (host : Host) (verb ref : GoString) :
    GoM (Repository β) (GoString × Commit × Tree × Tree) := do
  let targetHash ← mapError (fun _ => str "commit not found: " ++ ref)
    (resolveRef host ref)
  let commit ← mapError (fun e => str "failed to get commit: " ++ e)
    (onStore (getCommit host targetHash))
  if commit.parentHash = [] then
    fail (str "cannot " ++ verb ++ str " root commit")
  else do
    let parentCommit ← mapError
      (fun e => str "failed to get parent commit: " ++ e)
      (onStore (getCommit host commit.parentHash))
    let commitTree ← mapError
      (fun e => str "failed to get commit tree: " ++ e)
      (onStore (getTree host commit.treeHash))
    let parentTree ← mapError
      (fun e => str "failed to get parent tree: " ++ e)
      (onStore (getTree host parentCommit.treeHash))
    pure (targetHash, commit, commitTree, parentTree)

/-- A file that the parent lacks or has with another hash is a change. -/
def noteChange (parentTree : Tree) (changes : GoMap GoString GoString)
    (entry : TreeEntry) : GoMap GoString GoString :=
  match findTreeEntry parentTree entry.name with
  | none => changes.insert entry.name entry.hash
  | some parentEntry =>
    if parentEntry.hash ≠ entry.hash then
      changes.insert entry.name entry.hash
    else changes

def changedFiles (commitTree parentTree : Tree) : GoMap GoString GoString :=
  commitTree.entries.foldl (noteChange parentTree) ∅

def firstLine (message : GoString) : GoString := (message.splitOn newline).headD []

def cherryPick (host : Host) (call : Call) (commitHash : GoString) : GoM (Repository β) Commit := do
  let (targetHash, commit, commitTree, parentTree) ←
    loadChange host (str "cherry-pick") commitHash
  forEach ((changedFiles commitTree parentTree).range (call.order 0))
    fun change => mapStaging fun staging => staging.addHash change.1 change.2
  let short ← shortHash targetHash
  let message := str "Cherry-pick: " ++ firstLine commit.message ++
    str "\n\n" ++ commit.message ++ str "\n\n(cherry picked from commit " ++
    short ++ str ")"
  let newCommit ← view fun repo => repo.rewrittenCommit call 0 message
  commitInternal host (call.order 1) newCommit

/-- Stage a hash and, if its blob can be read, write it to the worktree. -/
def restoreEntry (host : Host) (name hash : GoString) : GoM (Repository β) Unit := do
  mapStaging fun staging => staging.addHash name hash
  match ← attempt (onStore (getBlob host hash)) with
  | .ok content => mapWorktree fun worktree => worktree.writeFile name content
  | .error _ => pure ()

def undoEntry (host : Host) (parentTree : Tree) (entry : TreeEntry) : GoM (Repository β) Unit :=
  match findTreeEntry parentTree entry.name with
  | some parentEntry =>
    if parentEntry.hash ≠ entry.hash then
      restoreEntry host entry.name parentEntry.hash
    else pure ()
  | none => do
    mapStaging fun staging => staging.remove entry.name
    mapWorktree fun worktree => worktree.removeFile entry.name

def revert (host : Host) (call : Call) (commitHash : GoString) : GoM (Repository β) Commit := do
  let (targetHash, commit, commitTree, parentTree) ←
    loadChange host (str "revert") commitHash
  forEach commitTree.entries (undoEntry host parentTree)
  forEach (parentTree.entries.filter fun entry =>
      (findTreeEntry commitTree entry.name).isNone)
    fun entry => restoreEntry host entry.name entry.hash
  let short ← shortHash targetHash
  let message := str "Revert \"" ++ firstLine commit.message ++
    str "\"\n\nThis reverts commit " ++ short ++ str "."
  let newCommit ← view fun repo => repo.rewrittenCommit call 0 message
  commitInternal host (call.order 0) newCommit

/-! ## Reset and rebase -/

/-- The working directory part of a hard reset; unreadable blobs are
skipped. -/
def resetWorktree (host : Host) (call : Call) (targetHash : GoString) :
    GoM (Repository β) Unit := do
  match ← attempt (loadTree host targetHash) with
  | .error _ => pure ()
  | .ok tree => do
    let files ← view fun repo => repo.worktree.listFiles (call.order 0)
    removeFiles files
    forEach tree.entries fun entry => do
      match ← attempt (onStore (getBlob host entry.hash)) with
      | .ok content =>
        mapWorktree fun worktree => worktree.writeFile entry.name content
      | .error _ => pure ()

def reset (host : Host) (call : Call) (target mode : GoString) : GoM (Repository β) Unit := do
  let mode := if mode = [] then str "mixed" else mode
  if mode ≠ str "soft" ∧ mode ≠ str "mixed" ∧ mode ≠ str "hard" then
    fail (str "invalid reset mode: " ++ mode ++ str " (must be soft, mixed, or hard)")
  else do
    let targetHash ← mapError
      (fun e => str "failed to resolve target: " ++ e) (resolveRef host target)
    let _ ← mapError (fun _ => str "target commit not found: " ++ target)
      (onStore (getCommit host targetHash))
    mapRefs fun refs => refs.setHEAD targetHash
    if mode = str "mixed" then mapStaging StagingArea.clear
    else if mode = str "hard" then do
      mapStaging StagingArea.clear
      resetWorktree host call targetHash
    else pure ()

/-- Stage what one replayed commit brings: its whole tree, unless it is a
root commit or its parent or tree cannot be read. -/
def stageReplayed (host : Host) (commit : Commit) : GoM (Repository β) Unit := do
  if commit.parentHash = [] then pure ()
  else
    match ← attempt
        (onStore (getCommit host commit.parentHash)) with
    | .error _ => pure ()
    | .ok _ =>
      match ← attempt
          (onStore (getTree host commit.treeHash)) with
      | .error _ => pure ()
      | .ok tree =>
        forEach tree.entries fun entry =>
          mapStaging fun staging => staging.addHash entry.name entry.hash

def replayCommit (host : Host) (call : Call) (turn : ℕ)
    (commitHash : GoString) : GoM (Repository β) (Option GoString) := do
  match ← attempt (onStore (getCommit host commitHash)) with
  | .error _ => pure none
  | .ok commit => do
    stageReplayed host commit
    let newCommit ← view fun repo =>
      repo.rewrittenCommit call turn commit.message
    match ← attempt
        (commitInternal host (call.order turn) newCommit) with
    | .error e => do
      let short ← shortHash commitHash
      fail (str "failed to rebase commit " ++ short ++ str ": " ++ e)
    | .ok rebasedCommit =>
      pure (some ((Object.commit rebasedCommit).hash host))

def replay (host : Host) (call : Call) : ℕ → List GoString → GoM (Repository β) (List GoString)
  | _, [] => pure []
  | turn, commitHash :: rest => do
    let rebased ← replayCommit host call turn commitHash
    let others ← replay host call (turn + 1) rest
    pure (rebased.toList ++ others)

def rebase (host : Host) (call : Call) (onto : GoString) : GoM (Repository β) (List GoString) := do
  let currentBranch ← mapError (fun _ => str "not on a branch")
    (query fun repo => repo.refs.getCurrentBranch)
  let currentHead ← mapError (fun e => str "failed to get HEAD: " ++ e)
    getHEAD
  let ontoHash ← mapError
    (fun e => str "failed to resolve onto ref: " ++ e) (resolveRef host onto)
  let commonAncestor ← findCommonAncestor host currentHead ontoHash
  if commonAncestor = [] then fail (str "no common ancestor found")
  else if commonAncestor = currentHead then pure []
  else do
    let commitsToRebase ← mapError
      (fun e => str "failed to collect commits: " ++ e)
      (collectCommitsBetween host commonAncestor currentHead)
    mapRefs fun refs => refs.setHEAD ontoHash
    mapStaging StagingArea.clear
    let rebasedCommits ← replay host call 0 commitsToRebase
    let newHead ← view headHash
    mapRefs fun refs => refs.deleteBranch currentBranch
    mapRefs fun refs => refs.createBranch currentBranch newHead
    mapRefs fun refs => refs.setHEADToBranch currentBranch
    pure rebasedCommits

end Repository

end Govc
