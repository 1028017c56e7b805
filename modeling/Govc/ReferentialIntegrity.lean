import Govc.CommitContract
import Govc.GuardedRuns
import Govc.TransactionIntegrity

/-!
# Referential integrity of a repository

An operation is one call of a public mutator.  Runs start from an empty repository
on a backend that never fails, and a step leaves the state that the call leaves.

A commit takes over every staged hash, and `CreateBranch` takes a hash from its
caller.  Under a guard on just these calls, every hash held by a ref or by HEAD is
that of a complete commit with a complete history.
-/

namespace Govc

open Go Host ManagedRepository
open Runs

open ManagedRepository (FileOperation)

inductive Operation where
  | writeFile (path : GoString) (content : Bytes)
  | add (call : Call) (patterns : List GoString)
  | stagingAdd (path : GoString) (content : Bytes)
  | remove (path : GoString)
  | commit (call : Call) (message : GoString)
  | branchCreate (name : GoString)
  | branchCheckout (call : Call) (name : GoString)
  | branchDelete (name : GoString)
  | createBranch (name fromCommit : GoString)
  | switchBranch (name : GoString)
  | mergeBranch (name : GoString)
  | createTag (name : GoString)
  | checkout (call : Call) (ref : GoString)
  | merge (call : Call) (source target : GoString)
  | cherryPick (call : Call) (commitHash : GoString)
  | revert (call : Call) (commitHash : GoString)
  | rebase (call : Call) (onto : GoString)
  | reset (call : Call) (target mode : GoString)
  | beginTransaction (call : Call)
  | fileOperation (id : GoString) (op : FileOperation)
  | prepare (call : Call) (id : GoString)
  | commitTransaction (call : Call) (id message : GoString)
  | abort (id : GoString)
  | atomicCommit (call : Call) (message : GoString)
      (operations : List FileOperation)

namespace Operation

variable {β : Type} [ReliableBackend β]

def run (host : Host) (op : Operation) (s : ManagedRepository β) : ManagedRepository β :=
  match op with
  | writeFile path content =>
    (onRepo (Repository.writeFile path content) s).2
  | add call patterns =>
    (onRepo (Repository.add host call patterns) s).2
  | stagingAdd path content =>
    (ManagedRepository.mapStaging (fun staging => staging.add host path content) s).2
  | remove path => (onRepo (Repository.remove path) s).2
  | commit call message =>
    (onRepo (Repository.commit host call message) s).2
  | branchCreate name =>
    (onRepo (Repository.branchCreate name) s).2
  | branchCheckout call name =>
    (onRepo (Repository.branchCheckout host call name) s).2
  | branchDelete name =>
    (onRepo (Repository.branchDelete name) s).2
  | createBranch name fromCommit =>
    (onRepo (Repository.createBranch name fromCommit) s).2
  | switchBranch name =>
    (onRepo (Repository.switchBranch name) s).2
  | mergeBranch name =>
    (onRepo (Repository.mergeBranch name) s).2
  | createTag name =>
    (onRepo (Repository.createTag name) s).2
  | checkout call ref =>
    (onRepo (Repository.checkout host call ref) s).2
  | merge call source target =>
    (onRepo (Repository.merge host call source target) s).2
  | cherryPick call commitHash =>
    (onRepo (Repository.cherryPick host call commitHash) s).2
  | revert call commitHash =>
    (onRepo (Repository.revert host call commitHash) s).2
  | rebase call onto =>
    (onRepo (Repository.rebase host call onto) s).2
  | reset call target mode =>
    (onRepo (Repository.reset host call target mode) s).2
  | beginTransaction call => (ManagedRepository.beginTransaction host call s).2
  | fileOperation id op => (ManagedRepository.fileOperation host id op s).2
  | prepare call id => (ManagedRepository.prepare call id s).2
  | commitTransaction call id message =>
    (ManagedRepository.commit host call id message s).2
  | abort id => (ManagedRepository.abort id s).2
  | atomicCommit call message operations =>
    (ManagedRepository.atomicCommit host call message operations s).2

/-- The calls that turn staged hashes into a commit find readable ones, and a
branch is created at a stored commit. -/
def Guard (host : Host) (s : ManagedRepository β) : Operation → Prop
  | commit _ _ | cherryPick _ _ | revert _ _ | commitTransaction _ _ _ =>
    Repository.Restorable host s.repo
  | createBranch _ fromCommit => s.repo.store.Known host fromCommit
  | atomicCommit _ _ operations =>
    Repository.Restorable host s.repo ∧ ∀ op ∈ operations, 0 ∉ op.path
  | _ => True

end Operation

def repositorySystem (β : Type) [ReliableBackend β] (host : Host) :
    System (ManagedRepository β) Operation where
  init s := s = ManagedRepository.withBackend ReliableBackend.empty
  step s op s' := s' = op.run host s

def Repository.Refers {β : Type} (repo : Repository β) (hash : GoString) : Prop :=
  (∃ name, repo.refs.refs.lookup name = some hash) ∨ repo.refs.getHEAD = .ok hash

namespace Operation

open ManagedRepository (AnyManaged)

variable {β : Type} [ReliableBackend β] {host : Host}

theorem run_intact (op : Operation) {s : ManagedRepository β}
    (hs : ManagedRepository.Holds host AnyManaged s)
    (hguard : op.Guard host s) :
    ManagedRepository.Holds host AnyManaged (op.run host s) := by
  have hkeeps : ∀ {α : Type} {m : GoM (Repository β) α},
      Repository.Keeps host m →
      ManagedRepository.Holds host AnyManaged (onRepo m s).2 :=
    fun hm => (onRepo_keeps hm).exit hs
  have hpre : ∀ {A : Repository β → Prop}, A s.repo →
      ManagedRepository.Holds host (fun _ => A) s :=
    fun hA hfaithful => ⟨(hs hfaithful).1, hA⟩
  have hguarded : ∀ {α : Type} {m : GoM (Repository β) α}
      {A : Repository β → Prop}, A s.repo →
      GoM.Triple (Repository.Inv host A) m (fun _ => Repository.Inv host Repository.Any)
        (Repository.Inv host Repository.Any) →
      ManagedRepository.Holds host AnyManaged (onRepo m s).2 :=
    fun hA hm => hm.exit (hpre hA)
  cases op with
  | writeFile path content =>
    exact hkeeps (Repository.writeFile_keeps)
  | add call patterns => exact hkeeps (Repository.add_keeps call)
  | stagingAdd path content =>
    exact mapStaging_keeps.exit hs
  | remove path => exact hkeeps (Repository.remove_keeps)
  | commit call message =>
    exact hguarded hguard (Repository.commit_rule call)
  | branchCreate name => exact hkeeps (Repository.branchCreate_keeps)
  | branchCheckout call name =>
    exact hkeeps (Repository.branchCheckout_keeps)
  | branchDelete name => exact hkeeps (Repository.branchDelete_keeps)
  | createBranch name fromCommit =>
    exact hguarded hguard (Repository.createBranch_rule)
  | switchBranch name => exact hkeeps (Repository.switchBranch_keeps)
  | mergeBranch name => exact hkeeps (Repository.mergeBranch_keeps)
  | createTag name => exact hkeeps (Repository.createTag_keeps)
  | checkout call ref => exact hkeeps (Repository.checkout_keeps)
  | merge call source target =>
    exact hkeeps (Repository.merge_keeps call)
  | cherryPick call commitHash =>
    exact hguarded hguard (Repository.cherryPick_rule call)
  | revert call commitHash =>
    exact hguarded hguard (Repository.revert_rule call commitHash)
  | rebase call onto => exact hkeeps (Repository.rebase_keeps call)
  | reset call target mode =>
    exact hkeeps (Repository.reset_keeps call)
  | beginTransaction call =>
    have hbegin : ManagedRepository.KeepsManaged host
        (ManagedRepository.beginTransaction host call : GoM (ManagedRepository β) GoString) :=
      GoM.Triple.consequence (beginTransaction_rule Repository.stable_any)
        (fun _ hs => hs) (fun _ _ hs => hs.any)
    exact hbegin.exit hs
  | fileOperation id op =>
    exact (fileOperation_rule (anyManaged_tracks)).exit hs
  | prepare call id =>
    have hprepare : ManagedRepository.KeepsManaged host
        (ManagedRepository.prepare call id : GoM (ManagedRepository β) Unit) :=
      prepare_rule fun _ _ _ _ _ => trivial
    exact hprepare.exit hs
  | commitTransaction call id message =>
    exact commitTransaction_rule.exit (hpre hguard)
  | abort id => exact abort_keeps.exit hs
  | atomicCommit call message operations =>
    exact (atomicCommit_rule hguard.2).exit (hpre hguard.1)

end Operation

section

variable {β : Type} [ReliableBackend β] {host : Host}

theorem withBackend_intact :
    (Repository.withBackend ReliableBackend.empty : Repository β).Intact host := by
  have hempty : ∀ hash, (Repository.withBackend ReliableBackend.empty :
      Repository β).store.find hash = none := Store.find_new
  refine ⟨Store.new_honest, ?_, ?_, .inl ⟨str "main", rfl⟩, rfl⟩
  · intro hash hcommit
    simp [Store.commitAt, Store.readAs, hempty] at hcommit
  · intro name hash hlookup
    simp only [Repository.withBackend, RefStore.createBranch,
      RefStore.setRef, GoMap.lookup_insert_eq] at hlookup
    split_ifs at hlookup
    · cases hlookup
      exact .inl rfl
    · cases hlookup

theorem Repository.Intact.refers {repo : Repository β}
    (hintact : repo.Intact host) {hash : GoString}
    (hrefers : repo.Refers hash) (hne : hash ≠ []) :
    repo.store.Sound host hash := by
  have hknown : repo.store.Known host hash := by
    rcases hrefers with ⟨name, hlookup⟩ | hhead
    · exact hintact.refs name hash hlookup
    · exact hintact.getHEAD hhead
  exact (hintact.known_sound hknown).resolve_left hne

end

/-! ## Checks that can be evaluated -/


def Store.complete {β : Type} [Backend β] (host : Host) (store : Store β)
    (hash : GoString) : Bool :=
  match store.commitAt host hash with
  | none => false
  | some commit =>
    match store.treeAt host commit.treeHash with
    | none => false
    | some tree =>
      tree.entries.all fun entry => (store.blobAt host entry.hash).isSome

theorem Store.Sound.complete {β : Type} [ReliableBackend β] {host : Host}
    {store : Store β} {hash : GoString} (hsound : store.Sound host hash) :
    store.complete host hash = true := by
  obtain ⟨commit, hcommit, ⟨tree, htree, hfiles⟩, -⟩ := hsound.stored
  rw [Store.complete, hcommit]
  simp only [htree]
  exact List.all_eq_true.mpr hfiles

instance {β : Type} [ReliableBackend β] (host : Host)
    (repo : Repository β) : Decidable (Repository.Restorable host repo) :=
  decidable_of_iff
    (∀ path ∈ repo.staging.files.keys, 0 ∉ path ∧
      ((repo.staging.files.lookup path).bind (repo.store.blobAt host)).isSome) <| by
    constructor
    · intro h path hash hlookup
      have hmem : path ∈ repo.staging.files.keys :=
        AList.mem_keys.mpr (AList.lookup_isSome.mp (by rw [hlookup]; rfl))
      have hpath := h path hmem
      rw [hlookup] at hpath
      exact hpath
    · intro h path hmem
      obtain ⟨hash, hlookup⟩ := Option.isSome_iff_exists.mp
        (AList.lookup_isSome.mpr (AList.mem_keys.mp hmem))
      rw [hlookup]
      exact h path hash hlookup

/-! ## Runs -/

section

variable {β : Type} [ReliableBackend β] {host : Host}

/-- In every guarded run, what a ref or HEAD holds can be read completely. -/
theorem refs_sound_of_guarded {s : ManagedRepository β}
    (hreach : Reachable (repositorySystem β host) (fun s op => op.Guard host s) s)
    (hfaithful : host.Faithful s.repo.store.hashed) {hash : GoString}
    (hrefers : s.repo.Refers hash) (hne : hash ≠ []) :
    s.repo.store.Sound host hash := by
  have hinv : ManagedRepository.Holds host ManagedRepository.AnyManaged s := by
    apply hreach.invariant
    · intro first hfirst _
      rw [hfirst]
      exact ⟨withBackend_intact, trivial⟩
    · intro before op after hbefore hguard hstep
      rw [hstep]
      exact op.run_intact hbefore hguard
  exact (hinv hfaithful).1.refers hrefers hne

end

def addedFiles : ManagedRepository MemoryBackend :=
  (Operation.add Repository.epoch [str "a"]).run checksums
    ((Operation.writeFile (str "a") (str "x")).run checksums
      (ManagedRepository.withBackend ReliableBackend.empty))

def addedRun : ManagedRepository MemoryBackend :=
  (Operation.commit Repository.epoch (str "m")).run checksums addedFiles

def mainTip (s : ManagedRepository MemoryBackend) : GoString :=
  (s.repo.refs.refs.lookup (str "refs/heads/main")).getD []

theorem lookup_mainTip {s : ManagedRepository MemoryBackend}
    (htip : mainTip s ≠ []) :
    s.repo.refs.refs.lookup (str "refs/heads/main") = some (mainTip s) := by
  unfold mainTip at htip ⊢
  cases hmain : s.repo.refs.refs.lookup (str "refs/heads/main") with
  | none =>
    rw [hmain] at htip
    exact absurd rfl htip
  | some hash => rfl

theorem addedRun_reachable :
    Reachable (repositorySystem MemoryBackend checksums)
      (fun s op => op.Guard checksums s) addedRun := by
  have hrestorable : Repository.Restorable checksums addedFiles.repo := by decide +kernel
  have hwrite : (Operation.writeFile (str "a") (str "x")).Guard checksums
      (ManagedRepository.withBackend (ReliableBackend.empty : MemoryBackend)) :=
    trivial
  have hadd : ∀ s : ManagedRepository MemoryBackend,
      (Operation.add Repository.epoch [str "a"]).Guard checksums s :=
    fun _ => trivial
  have hcommit : (Operation.commit Repository.epoch (str "m")).Guard
      checksums addedFiles := hrestorable
  exact ⟨_, rfl, .tail (.tail (.tail .refl hwrite rfl) (hadd _) rfl) hcommit rfl⟩

theorem addedRun_refers : addedRun.repo.Refers (mainTip addedRun) ∧ mainTip addedRun ≠ [] := by
  have htip : mainTip addedRun ≠ [] := by decide +kernel
  exact ⟨.inl ⟨_, lookup_mainTip htip⟩, htip⟩

theorem addedRun_sound : addedRun.repo.store.Sound checksums (mainTip addedRun) :=
  refs_sound_of_guarded addedRun_reachable (by decide +kernel) addedRun_refers.1 addedRun_refers.2

def stagedRun : ManagedRepository MemoryBackend :=
  (Operation.commit Repository.epoch (str "m")).run checksums
    ((Operation.stagingAdd (str "a") (str "x")).run checksums
      (ManagedRepository.withBackend ReliableBackend.empty))

theorem stagedRun_refs_unsound :
    Reachable (repositorySystem MemoryBackend checksums) (fun _ _ => True) stagedRun ∧
      checksums.Faithful stagedRun.repo.store.hashed ∧
      stagedRun.repo.Refers (mainTip stagedRun) ∧
      mainTip stagedRun ≠ [] ∧
      ¬ stagedRun.repo.store.Sound checksums (mainTip stagedRun) := by
  have htip : mainTip stagedRun ≠ [] := by decide +kernel
  have hincomplete : stagedRun.repo.store.complete checksums
      (mainTip stagedRun) = false := by decide +kernel
  refine ⟨⟨_, rfl, .tail (.tail .refl trivial rfl) trivial rfl⟩,
    by decide +kernel, .inl ⟨_, lookup_mainTip htip⟩, htip, ?_⟩
  intro hsound
  rw [hsound.complete] at hincomplete
  cases hincomplete

end Govc
