import Govc.ObjectStore
import Govc.RefStore

/-!
# The in-memory repository

The repository that `NewRepository` builds.  Operations are `GoM` calls; a call
receives the clock and the order in which its `range` loops visit map keys.
Locks, hooks, events and search indexes are left out; they neither read nor write
what is modelled here.
-/

namespace Govc

open Go GoM

structure StagingArea where
  files : GoMap GoString GoString
  removed : GoMap GoString Bool

namespace StagingArea

def new : StagingArea where
  files := ∅
  removed := ∅

def addHash (staging : StagingArea) (path hash : GoString) : StagingArea :=
  { staging with files := staging.files.insert path hash }

/-- Records the SHA-256 of the content; the content itself is not stored. -/
def add (host : Host) (staging : StagingArea) (path : GoString) (content : Bytes) : StagingArea :=
  staging.addHash path (hexEncode (host.sha256 content))

def remove (staging : StagingArea) (path : GoString) : StagingArea where
  files := staging.files.erase path
  removed := staging.removed.insert path true

def clear (_ : StagingArea) : StagingArea := new

def isRemoved (staging : StagingArea) (path : GoString) : Bool :=
  (staging.removed.lookup path).getD false

def contains (staging : StagingArea) (path : GoString) : Bool := staging.files.contains path

end StagingArea

structure Worktree where
  files : GoMap GoString Bytes

namespace Worktree

def new : Worktree where
  files := ∅

def listFiles (worktree : Worktree) (order : RangeOrder) : List GoString :=
  order.visit worktree.files.keys

def matchFiles (host : Host) (worktree : Worktree) (order : RangeOrder)
    (pattern : GoString) : List GoString :=
  (worktree.listFiles order).filter fun path =>
    pattern = str "*" ∨ pattern = str "." ∨ host.matchPath pattern path

def readFile (worktree : Worktree) (path : GoString) : Except GoString Bytes :=
  match worktree.files.lookup path with
  | some content => .ok content
  | none => .error (str "file not found in memory worktree: " ++ path)

def writeFile (worktree : Worktree) (path : GoString) (content : Bytes) : Worktree where
  files := worktree.files.insert path content

def removeFile (worktree : Worktree) (path : GoString) : Worktree where
  files := worktree.files.erase path

end Worktree

structure Repository (β : Type) where
  store : Store β
  refs : RefStore
  staging : StagingArea
  worktree : Worktree
  config : GoMap GoString GoString

/-- What one call reads from outside the repository: its successive readings
of the clock, one reading in nanoseconds, and the orders of its successive
`range` loops. -/
structure Call where
  clock : ℕ → Time
  unixNano : ℤ
  order : ℕ → RangeOrder

def Call.drop (call : Call) (n : ℕ) : Call where
  clock := fun i => call.clock (n + i)
  unixNano := call.unixNano
  order := fun i => call.order (n + i)

def Call.part (call : Call) (k : ℕ) : Call where
  clock := fun i => call.clock (Nat.pair k i)
  unixNano := call.unixNano
  order := fun i => call.order (Nat.pair k i)

namespace Repository

variable {β : Type}

def withBackend (backend : β) : Repository β where
  store := Store.new backend
  refs := (RefStore.new.setHEADToBranch (str "main")).createBranch (str "main") []
  staging := StagingArea.new
  worktree := Worktree.new
  config := ∅

def newRepository : Repository MemoryBackend := withBackend MemoryBackend.new

def onStore {α : Type} (m : GoM (Store β) α) : GoM (Repository β) α :=
  zoom store (fun repo store => { repo with store := store }) m

def mapRefs (f : RefStore → RefStore) : GoM (Repository β) Unit :=
  update fun repo => { repo with refs := f repo.refs }

def mapStaging (f : StagingArea → StagingArea) : GoM (Repository β) Unit :=
  update fun repo => { repo with staging := f repo.staging }

def mapWorktree (f : Worktree → Worktree) : GoM (Repository β) Unit :=
  update fun repo => { repo with worktree := f repo.worktree }

def updateRef (name newHash oldHash : GoString) : GoM (Repository β) Unit := do
  let refs ← query fun repo => repo.refs.updateRef name newHash oldHash
  mapRefs fun _ => refs

def getConfigValue (repo : Repository β) (key defaultValue : GoString) : GoString :=
  (repo.config.lookup key).getD defaultValue

def configuredAuthor (repo : Repository β) (call : Call) : Author where
  name := repo.getConfigValue (str "user.name") (str "Unknown")
  email := repo.getConfigValue (str "user.email") (str "unknown@example.com")
  time := call.clock 0

def writeFile (path : GoString) (content : Bytes) : GoM (Repository β) Unit :=
  mapWorktree fun worktree => worktree.writeFile path content

def remove (path : GoString) : GoM (Repository β) Unit := do
  mapStaging fun staging => staging.remove path
  mapWorktree fun worktree => worktree.removeFile path

variable [Backend β]

def addFile (host : Host) (file : GoString) : GoM (Repository β) Unit := do
  let content ← query fun repo => repo.worktree.readFile file
  let hash ← onStore (Store.storeBlob host content)
  mapStaging fun staging => staging.addHash file hash

def add (host : Host) (call : Call) (patterns : List GoString) : GoM (Repository β) Unit :=
  let patterns := if patterns = [] then [str "."] else patterns
  forEach patterns.zipIdx fun pattern => do
    let files ← view fun repo =>
      repo.worktree.matchFiles host (call.order pattern.2) pattern.1
    forEach files (addFile host)

/-! ## Commit -/

/-- The entries of a commit's tree; an unreadable commit or tree counts as an
empty one. -/
def loadEntries (host : Host) (commitHash : GoString) : GoM (Repository β) (List TreeEntry) := do
  match ← attempt (onStore (Store.getCommit host commitHash)) with
  | .error _ => pure []
  | .ok commit =>
    match ← attempt
        (onStore (Store.getTree host commit.treeHash)) with
    | .error _ => pure []
    | .ok tree => pure tree.entries

/-- The entries of the tree at the tip of the current branch. -/
def parentEntries (host : Host) : GoM (Repository β) (List TreeEntry) := do
  match ← view fun repo => repo.refs.getCurrentBranch with
  | .error _ => pure []
  | .ok currentBranch =>
    if currentBranch = [] then pure []
    else
      match ← view fun repo => repo.refs.getBranch currentBranch with
      | .error _ => pure []
      | .ok parentHash =>
        if parentHash = [] then pure []
        else loadEntries host parentHash

def stagedEntries (staging : StagingArea) (order : RangeOrder) : List TreeEntry :=
  (staging.files.range order).map fun staged =>
    ⟨str "100644", staged.1, staged.2⟩

/-- An inherited entry survives unless its path is staged or removed. -/
def keeps (staging : StagingArea) (entry : TreeEntry) : Bool :=
  !staging.contains entry.name && !staging.isRemoved entry.name

def createTreeFromStaging (host : Host) (call : Call) : GoM (Repository β) Tree := do
  let inherited ← parentEntries host
  let staging ← view staging
  pure ⟨inherited.filter (keeps staging) ++ stagedEntries staging (call.order 0)⟩

/-- The parent of the next commit: the tip of the current branch, if any. -/
def withParent (repo : Repository β) (commit : Commit) : Commit :=
  match repo.refs.getCurrentBranch with
  | .error _ => commit
  | .ok currentBranch =>
    if currentBranch = [] then commit
    else
      match repo.refs.getBranch currentBranch with
      | .error _ => commit
      | .ok parentHash => commit.setParent parentHash

/-- The branch that a commit moves; a detached HEAD falls back to `main`. -/
def branchToMove (repo : Repository β) : GoString :=
  match repo.refs.getCurrentBranch with
  | .error _ => str "main"
  | .ok currentBranch => currentBranch

def advance (branch commitHash : GoString) : GoM (Repository β) Unit :=
  if branch ≠ [] then do
    updateRef (RefStore.branchRef branch) commitHash []
    mapRefs fun refs => refs.setHEADToBranch branch
  else
    mapRefs fun refs => refs.setHEADToCommit commitHash

def commit (host : Host) (call : Call) (message : GoString) : GoM (Repository β) Commit := do
  let author ← view fun repo => repo.configuredAuthor call
  let tree ← createTreeFromStaging host call
  let treeHash ← onStore (Store.storeTree host tree)
  let commit ← view fun repo =>
    repo.withParent (Commit.new treeHash author message)
  let branch ← view branchToMove
  let commitHash ← onStore (Store.storeCommit host commit)
  advance branch commitHash
  mapStaging StagingArea.clear
  pure commit

end Repository

end Govc
