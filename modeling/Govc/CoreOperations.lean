import Govc.CommitContract

/-!
# Commits of the clean architecture

`Operations.Commit` of `pkg/core` builds the tree of a commit from the staged
entries alone, while `Repository.Commit` overlays the parent's tree with them.
So a core commit drops every file that is not staged.
-/

namespace Govc

open Go GoM

namespace Core

structure StagedEntry where
  hash : GoString
  mode : GoString

structure CleanStagingArea where
  entries : GoMap GoString StagedEntry
  removed : GoMap GoString Bool

namespace CleanStagingArea

def new : CleanStagingArea where
  entries := ∅
  removed := ∅

def isEmpty (staging : CleanStagingArea) : Bool :=
  staging.entries.keys.length = 0 && staging.removed.keys.length = 0

def toMap (staging : CleanStagingArea) (path : GoString) : Option GoString :=
  (staging.entries.lookup path).map StagedEntry.hash

def isRemoved (staging : CleanStagingArea) (path : GoString) : Bool :=
  (staging.removed.lookup path).getD false

def overlay (staging : CleanStagingArea) (base : GoString → Option GoString)
    (path : GoString) : Option GoString :=
  match staging.toMap path with
  | some hash => some hash
  | none => if staging.isRemoved path then none else base path

end CleanStagingArea

structure ObjectStore (ω : Type) where
  get : GoString → GoM ω Object
  put : Object → GoM ω GoString

structure RefStore (ρ : Type) where
  getRef : ρ → GoString → Except GoString GoString
  updateRef : GoString → GoString → GoM ρ Unit

def objectStoreAdapter {β : Type} [Backend β] (host : Host) : ObjectStore (Store β) where
  get := Store.getObject host
  put := Store.storeObject host

def memoryObjectStore (host : Host) : ObjectStore (GoMap GoString Object) where
  get hash := query fun objects =>
    match objects.lookup hash with
    | some object => .ok object
    | none => .error (str "object not found: " ++ hash)
  put object := do
    update fun objects => objects.insert (object.hash host) object
    pure (object.hash host)

def refStoreAdapter : RefStore Govc.RefStore where
  getRef := Govc.RefStore.getRef
  updateRef name hash := update fun refs => refs.setRef name hash

def memoryRefStore : RefStore (GoMap GoString GoString) where
  getRef refs name :=
    match refs.lookup name with
    | some hash => .ok hash
    | none => .error (str "ref not found: " ++ name)
  updateRef name hash := update fun refs => refs.insert name hash

structure Operations (ω ρ : Type) where
  objects : ω
  refs : ρ
  working : GoMap GoString Bytes
  staging : CleanStagingArea
  branch : GoString
  config : GoMap GoString GoString

namespace Operations

section

variable {ω ρ α : Type}

def new (objects : ω) (refs : ρ) : Operations ω ρ where
  objects := objects
  refs := refs
  working := ∅
  staging := .new
  branch := str "main"
  config := ∅

def onObjects (m : GoM ω α) : GoM (Operations ω ρ) α :=
  zoom objects (fun ops objects => { ops with objects := objects }) m

def onRefs (m : GoM ρ α) : GoM (Operations ω ρ) α :=
  zoom refs (fun ops refs => { ops with refs := refs }) m

def mapStaging (f : CleanStagingArea → CleanStagingArea) : GoM (Operations ω ρ) Unit :=
  update fun ops => { ops with staging := f ops.staging }

end

variable {ω ρ : Type} (objectStore : ObjectStore ω) (refStore : RefStore ρ)

/-! ## The workspace -/

def writeFile (path : GoString) (content : Bytes) : GoM (Operations ω ρ) Unit := update fun ops =>
    { ops with working := ops.working.insert path content }

def add (path : GoString) : GoM (Operations ω ρ) Unit := do
  let content ← query fun ops =>
    match ops.working.lookup path with
    | some content => .ok content
    | none => .error (str "cannot read file " ++ path ++
        str ": file not found: " ++ path)
  let hash ← (onObjects (objectStore.put (.blob content))).mapError fun e =>
    str "cannot store blob: " ++ e
  mapStaging fun staging =>
    { entries := staging.entries.insert path ⟨hash, str "100644"⟩
      removed := staging.removed.erase path }

def remove (path : GoString) : GoM (Operations ω ρ) Unit := do
  mapStaging fun staging =>
    { entries := staging.entries.erase path
      removed := staging.removed.insert path true }
  update fun ops => { ops with working := ops.working.erase path }

/-! ## Commit -/

def configuredAuthor (now : Time) (ops : Operations ω ρ) : Author :=
  let authorName := (ops.config.lookup (str "user.name")).getD []
  let authorEmail := (ops.config.lookup (str "user.email")).getD []
  { name := if authorName = [] then str "Unknown" else authorName
    email := if authorEmail = [] then str "unknown@example.com" else authorEmail
    time := now }

def buildTreeFromStaging (order : RangeOrder) (staging : CleanStagingArea) : Tree where
  entries := (staging.entries.range order).map fun staged =>
    ⟨staged.2.mode, staged.1, staged.2.hash⟩

def getBranch (ops : Operations ω ρ) (name : GoString) : Except GoString GoString :=
  refStore.getRef ops.refs (str "refs/heads/" ++ name)

/-- An error of `GetBranch` is dropped. -/
def parentHash (ops : Operations ω ρ) : GoString :=
  if ops.branch ≠ [] then
    match getBranch refStore ops ops.branch with
    | .ok hash => hash
    | .error _ => []
  else []

def newCommit (now : Time) (message treeHash : GoString) (ops : Operations ω ρ) : Commit :=
  let commit := Commit.new treeHash (ops.configuredAuthor now) message
  if parentHash refStore ops ≠ [] then
    commit.setParent (parentHash refStore ops)
  else commit

def commit (order : RangeOrder) (now : Time) (message : GoString) :
    GoM (Operations ω ρ) GoString := do
  let staging ← view staging
  if staging.isEmpty then fail (str "nothing to commit")
  else
    let treeHash ← onObjects
      (objectStore.put (.tree (buildTreeFromStaging order staging)))
    let commit ← view (newCommit refStore now message treeHash)
    let commitHash ← onObjects (objectStore.put (.commit commit))
    let branch ← view branch
    onRefs (refStore.updateRef (str "refs/heads/" ++ branch) commitHash)
    mapStaging fun _ => .new
    pure commitHash

/-! ## The parent's tree -/

def getAs {α : Type} (select : Object → Option α) (kind hash : GoString) : GoM ω α := do
  let object ← objectStore.get hash
  match select object with
  | some a => pure a
  | none => fail (str "object " ++ hash ++ str " is not a " ++ kind)

def getCommit (hash : GoString) : GoM ω Commit :=
  getAs objectStore Store.asCommit (str "commit") hash

def getTree (hash : GoString) : GoM ω Tree := getAs objectStore Store.asTree (str "tree") hash

/-- The tree that the next commit builds on; a parent that cannot be read
counts as an empty one. -/
def parentTree (ops : Operations ω ρ) : Tree :=
  if parentHash refStore ops = [] then Tree.new
  else
    let read : GoM ω Tree := do
      let commit ← getCommit objectStore (parentHash refStore ops)
      getTree objectStore commit.treeHash
    (read ops.objects).1.toOption.getD Tree.new

/-- The call stores the tree, and a commit with the tree's hash under the hash
that it returns. -/
def Produces (now : Time) (message : GoString) (ops : Operations ω ρ)
    (tree : Tree) (commitHash : GoString) : Prop :=
  ∃ treeHash withTree withCommit,
    objectStore.put (.tree tree) ops.objects = (.ok treeHash, withTree) ∧
      objectStore.put (.commit (ops.newCommit refStore now message treeHash))
        withTree = (.ok commitHash, withCommit)

end Operations

end Core

/-! ## Trees as maps -/

theorem toMap_staged {ν : Type} {order : RangeOrder} {m : GoMap GoString ν}
    {mode hash : ν → GoString} {path : GoString} :
    Tree.toMap ⟨(m.range order).map fun staged =>
        ⟨mode staged.2, staged.1, hash staged.2⟩⟩ path =
      (m.lookup path).map hash := by
  unfold Tree.toMap
  rw [List.find?_map, Option.map_map]
  have hfind := m.find?_range order path
  simp only [Function.comp_def] at hfind ⊢
  rw [hfind, Option.map_map]
  rfl

theorem toMap_eq_none_iff {tree : Tree} {path : GoString} :
    tree.toMap path = none ↔ ∀ entry ∈ tree.entries, entry.name ≠ path := by
  simp [Tree.toMap]

theorem Repository.commit_overlays {β : Type} [Backend β] {host : Host}
    {call : Call} {message : GoString} {repo repo' : Repository β}
    {made : Commit}
    (hcommit : commit host call message repo = (.ok made, repo')) :
    ∃ tree, made.treeHash = (Object.tree tree).hash host ∧
      tree.toMap = repo.staging.overlay (Tree.toMap ⟨repo.tipEntries host⟩) := by
  refine ⟨repo.nextTree host call, ?_, ?_⟩
  · rw [(commit_ok hcommit).1]
    rfl
  · funext path
    exact toMap_overlay repo.staging (call.order 0) _ path

namespace Core.Operations

variable {ω ρ : Type} {objectStore : ObjectStore ω} {refStore : RefStore ρ}

theorem onObjects_eq_ok {α : Type} {m : GoM ω α} {ops ops' : Operations ω ρ}
    {a : α} (hrun : onObjects m ops = (.ok a, ops')) :
    ∃ after, m ops.objects = (.ok a, after) ∧ ops' = { ops with objects := after } := by
  unfold onObjects at hrun
  rw [zoom_apply, Prod.mk.injEq] at hrun
  exact ⟨(m ops.objects).2, Prod.ext hrun.1 rfl, hrun.2.symm⟩

theorem produces_of_commit {order : RangeOrder} {now : Time}
    {message commitHash : GoString} {ops ops' : Operations ω ρ}
    (hcommit : commit objectStore refStore order now message ops = (.ok commitHash, ops')) :
    Produces objectStore refStore now message ops
      (buildTreeFromStaging order ops.staging) commitHash := by
  unfold commit at hcommit
  rw [bind_of_ok (view_apply)] at hcommit
  by_cases hempty : ops.staging.isEmpty = true
  · simp [hempty] at hcommit
  · rw [if_neg hempty] at hcommit
    obtain ⟨treeHash, mid, hput, hcommit⟩ := bind_eq_ok hcommit
    obtain ⟨withTree, htree, rfl⟩ := onObjects_eq_ok hput
    rw [bind_of_ok (view_apply)] at hcommit
    obtain ⟨hash, mid, hput, hcommit⟩ := bind_eq_ok hcommit
    obtain ⟨withCommit, hstored, rfl⟩ := onObjects_eq_ok hput
    rw [bind_of_ok (view_apply)] at hcommit
    obtain ⟨_, _, _, hcommit⟩ := bind_eq_ok hcommit
    cases hcommit
    exact ⟨treeHash, withTree, withCommit, htree, hstored⟩

theorem buildTreeFromStaging_toMap {order : RangeOrder} {staging : CleanStagingArea} :
    (buildTreeFromStaging order staging).toMap = staging.toMap := by
  funext path
  exact toMap_staged

theorem staged_eq_overlay_iff {parent : Tree} {staging : CleanStagingArea} :
    staging.toMap = staging.overlay parent.toMap ↔
      ∀ entry ∈ parent.entries, staging.entries.contains entry.name = true ∨
        staging.isRemoved entry.name = true := by
  constructor
  · intro heq entry hentry
    have hpath := congrFun heq entry.name
    unfold CleanStagingArea.overlay CleanStagingArea.toMap at hpath
    unfold GoMap.contains
    cases hstaged : staging.entries.lookup entry.name with
    | some staged => simp
    | none =>
      by_contra hkept
      have hnone : parent.toMap entry.name = none := by
        simp only [Option.isSome_none, Bool.false_eq_true, false_or] at hkept
        simpa [hstaged, hkept] using hpath.symm
      exact toMap_eq_none_iff.mp hnone entry hentry rfl
  · intro hcovered
    funext path
    unfold CleanStagingArea.overlay CleanStagingArea.toMap
    cases hstaged : staging.entries.lookup path with
    | some staged => simp
    | none =>
      by_cases hremoved : staging.isRemoved path = true
      · simp [hremoved]
      · have hnone : parent.toMap path = none := by
          rw [toMap_eq_none_iff]
          rintro entry hentry rfl
          simpa [GoMap.contains, hstaged, hremoved] using hcovered entry hentry
        simp [hremoved, hnone]

/-- A core commit overlays the tree of its parent if and only if every path
of that tree is staged or removed.  The commit of the original repository
always does. -/
theorem core_commit_overlays_iff {β : Type} [Backend β] {order : RangeOrder}
    {now : Time} {message commitHash : GoString} {ops ops' : Operations ω ρ}
    (hcommit : commit objectStore refStore order now message ops = (.ok commitHash, ops')) :
    (∃ tree, Produces objectStore refStore now message ops tree commitHash ∧
      (tree.toMap = ops.staging.overlay (parentTree objectStore refStore ops).toMap ↔
        ∀ entry ∈ (parentTree objectStore refStore ops).entries,
          ops.staging.entries.contains entry.name = true ∨
            ops.staging.isRemoved entry.name = true)) ∧
      ∀ (host : Host) (call : Call) (repo repo' : Repository β) (made : Commit),
        Repository.commit host call message repo = (.ok made, repo') →
        ∃ tree, made.treeHash = (Object.tree tree).hash host ∧
          tree.toMap = repo.staging.overlay (Tree.toMap ⟨repo.tipEntries host⟩) := by
  constructor
  · refine ⟨_, produces_of_commit hcommit, ?_⟩
    rw [buildTreeFromStaging_toMap]
    exact staged_eq_overlay_iff
  · intro host call repo repo' made hmade
    exact Repository.commit_overlays hmade

abbrev InMemory := Operations (GoMap GoString Object) (GoMap GoString GoString)

def stageFile (path : GoString) (ops : InMemory) : InMemory :=
  (add (memoryObjectStore .checksums) path (writeFile path path ops).2).2

def commitAll (ops : InMemory) : Outcome GoString × InMemory :=
  commit (memoryObjectStore .checksums) memoryRefStore .inserted .zero (str "message") ops

def firstFile : InMemory := stageFile (str "a") (.new ∅ ∅)

def secondFile : InMemory := stageFile (str "b") (commitAll firstFile).2

/-- The first commit has no parent whose files it could drop. -/
theorem core_commit_overlays_first :
    ∃ tree commitHash,
      Produces (memoryObjectStore .checksums) memoryRefStore .zero
        (str "message") firstFile tree commitHash ∧
      tree.toMap = firstFile.staging.overlay
        (parentTree (memoryObjectStore .checksums) memoryRefStore firstFile).toMap := by
  have hreturned : (commitAll firstFile).1.toOption.isSome = true := by
    decide +kernel
  obtain ⟨commitHash, hhash⟩ := Option.isSome_iff_exists.mp hreturned
  have hcommit : commitAll firstFile = (.ok commitHash, (commitAll firstFile).2) :=
    Prod.ext (Outcome.eq_ok_of_toOption hhash) rfl
  obtain ⟨⟨tree, hproduces, hiff⟩, _⟩ := core_commit_overlays_iff (β := MemoryBackend) hcommit
  have hnoParent : (parentTree (memoryObjectStore .checksums) memoryRefStore
      firstFile).entries = [] := by
    decide +kernel
  refine ⟨tree, commitHash, hproduces, hiff.mpr ?_⟩
  simp [hnoParent]

/-- The second commit drops the first file. -/
theorem core_commit_drops_file :
    (parentTree (memoryObjectStore .checksums) memoryRefStore secondFile).toMap (str "a") ≠ none ∧
      secondFile.staging.isRemoved (str "a") = false ∧
      (commitAll secondFile).1.toOption.isSome = true ∧
      (buildTreeFromStaging .inserted secondFile.staging).toMap (str "a") = none := by
  decide +kernel

end Core.Operations

end Govc
