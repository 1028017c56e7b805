import Govc.GoMaps

/-!
# References

The in-memory reference store and the manager on top of it.  HEAD is one
text: `ref: refs/heads/b` when it is attached to branch `b`, a commit hash
when it is detached.  A branch without commits is a reference to the empty
hash.
-/

namespace Govc

open Go

structure RefStore where
  refs : GoMap GoString GoString
  head : GoString

namespace RefStore

def new : RefStore where
  refs := ∅
  head := str "refs/heads/main"

def normalizeRefName (name : GoString) : GoString :=
  if hasPrefix name (str "refs/") then name
  else if contains name (str "/") then name
  else str "refs/heads/" ++ name

def getRef (store : RefStore) (name : GoString) : Except GoString GoString :=
  match store.refs.lookup (normalizeRefName name) with
  | some hash => .ok hash
  | none => .error (str "ref not found: " ++ name)

def setRef (store : RefStore) (name hash : GoString) : RefStore :=
  { store with refs := store.refs.insert (normalizeRefName name) hash }

def deleteRef (store : RefStore) (name : GoString) : RefStore :=
  { store with refs := store.refs.erase (normalizeRefName name) }

def getHEAD (store : RefStore) : Except GoString GoString :=
  if store.head = [] then .error (str "HEAD not set")
  else if hasPrefix store.head (str "ref: ") then
    match store.refs.lookup (trimPrefix store.head (str "ref: ")) with
    | some hash => .ok hash
    | none => .ok []
  else if hasPrefix store.head (str "refs/") then
    match store.refs.lookup store.head with
    | some hash => .ok hash
    | none =>
      .error (str "HEAD points to non-existent ref: " ++ store.head)
  else .ok store.head

def setHEAD (store : RefStore) (ref : GoString) : RefStore := { store with head := ref }

/-! ## The manager -/

def branchRef (name : GoString) : GoString := str "refs/heads/" ++ name

def tagRef (name : GoString) : GoString := str "refs/tags/" ++ name

def createBranch (store : RefStore) (name commitHash : GoString) : RefStore :=
  store.setRef (branchRef name) commitHash

def deleteBranch (store : RefStore) (name : GoString) : RefStore := store.deleteRef (branchRef name)

def getBranch (store : RefStore) (name : GoString) : Except GoString GoString :=
  store.getRef (branchRef name)

def createTag (store : RefStore) (name objectHash : GoString) : RefStore :=
  store.setRef (tagRef name) objectHash

def getTag (store : RefStore) (name : GoString) : Except GoString GoString :=
  store.getRef (tagRef name)

def setHEADToBranch (store : RefStore) (branchName : GoString) : RefStore :=
  store.setHEAD (str "ref: refs/heads/" ++ branchName)

def setHEADToCommit (store : RefStore) (commitHash : GoString) : RefStore :=
  store.setHEAD commitHash

def getCurrentBranch (store : RefStore) : Except GoString GoString :=
  if hasPrefix store.head (str "ref: refs/heads/") then
    .ok (trimPrefix store.head (str "ref: refs/heads/"))
  else .error (str "HEAD is detached")

def updateRef (store : RefStore) (name newHash oldHash : GoString) : Except GoString RefStore :=
  if oldHash ≠ [] then
    match store.getRef name with
    | .error e => .error e
    | .ok currentHash =>
      if currentHash ≠ oldHash then
        .error (str "ref " ++ name ++ str " has changed")
      else .ok (store.setRef name newHash)
  else .ok (store.setRef name newHash)

/-! ## Names -/

theorem normalizeRefName_branchRef : normalizeRefName (branchRef name) = branchRef name := by
  have hfull : branchRef name = str "refs/" ++ (str "heads/" ++ name) := by
    rfl
  unfold normalizeRefName
  rw [if_pos]
  rw [hfull, hasPrefix_append]

theorem getBranch_eq_ok_iff (store : RefStore) (name hash : GoString) :
    store.getBranch name = .ok hash ↔ store.refs.lookup (branchRef name) = some hash := by
  unfold getBranch getRef
  rw [normalizeRefName_branchRef]
  cases store.refs.lookup (branchRef name) <;> simp

theorem getBranch_of_lookup_none {store : RefStore}
    (hnone : store.refs.lookup (branchRef name) = none) :
    ∃ e, store.getBranch name = .error e := by
  unfold getBranch getRef
  rw [normalizeRefName_branchRef, hnone]
  exact ⟨_, rfl⟩

theorem getCurrentBranch_of_attached {store : RefStore}
    (hhead : store.head = str "ref: refs/heads/" ++ name) :
    store.getCurrentBranch = .ok name := by
  unfold getCurrentBranch
  rw [hhead, hasPrefix_append, trimPrefix_append, if_pos rfl]

theorem lookup_setRef_branchRef (store : RefStore) (name hash other : GoString) :
    (store.setRef (branchRef name) hash).refs.lookup other =
      if other = branchRef name then some hash
      else store.refs.lookup other := by
  unfold setRef
  rw [normalizeRefName_branchRef, GoMap.lookup_insert_eq]

theorem updateRef_of_empty (store : RefStore) (name newHash : GoString) :
    store.updateRef name newHash [] = .ok (store.setRef name newHash) := by
  simp [updateRef]

end RefStore

end Govc
