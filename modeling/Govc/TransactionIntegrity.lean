import Govc.AtomicTransaction
import Govc.HistoryIntegrity

/-!
# Transactions keep a repository intact

Beginning a transaction reads, its file operations store blobs, preparing and
aborting it change only the staging area.  `Commit` of a transaction is an
ordinary commit and needs a restorable staging area.  A one-call commit keeps
such an area restorable: each recorded operation carries the hash of a blob
that it has just stored.
-/

namespace Govc

open Go
open Go.GoM (Triple)

namespace ManagedRepository

open Repository (Inv Any Stable Restorable Keeps Reads Intact)

variable {β : Type} [ReliableBackend β] {host : Host}

/-- An assertion about a managed repository, for an intact one. -/
def Holds (host : Host) (A : TransactionManager → Repository β → Prop)
    (s : ManagedRepository β) : Prop :=
  Inv host (A s.manager) s.repo

def AnyManaged (_ : TransactionManager) (_ : Repository β) : Prop := True

/-- The call keeps the repository intact, whatever its outcome. -/
def KeepsManaged {α : Type} (host : Host) (m : GoM (ManagedRepository β) α) : Prop :=
  Triple (Holds host AnyManaged) m (fun _ => Holds host AnyManaged) (Holds host AnyManaged)

variable {A : TransactionManager → Repository β → Prop}

theorem Holds.mono {B : TransactionManager → Repository β → Prop}
    {s : ManagedRepository β} (hs : Holds host A s)
    (h : ∀ repo : Repository β, repo.Intact host → A s.manager repo →
      B s.manager repo) : Holds host B s :=
  Inv.mono hs h

theorem Holds.any (hs : Holds host A s) :
    Holds host AnyManaged s :=
  hs.mono fun _ _ _ => trivial

variable {α : Type}

theorem onRepo_rule {m : GoM (Repository β) α}
    {Q : α → TransactionManager → Repository β → Prop}
    {E : TransactionManager → Repository β → Prop}
    (hm : ∀ manager, Triple (Inv host (A manager)) m
      (fun a => Inv host (Q a manager)) (Inv host (E manager))) :
    Triple (Holds host A) (onRepo m) (fun a => Holds host (Q a)) (Holds host E) := by
  intro s hs
  exact hm s.manager s.repo hs

theorem mapManager_rule
    (h : ∀ manager repo, A manager repo → B (f manager) repo) :
    Triple (Holds host A) (mapManager f) (fun _ => Holds host B) E := by
  apply Triple.update
  intro s hs
  exact Inv.mono hs fun repo _ hA => h s.manager repo hA

theorem onRepo_keeps {m : GoM (Repository β) α}
    (hm : Keeps host m) : KeepsManaged host (onRepo m) :=
  onRepo_rule fun _ => hm

theorem mapManager_keeps {f : TransactionManager → TransactionManager} :
    KeepsManaged host (mapManager f : GoM (ManagedRepository β) Unit) :=
  mapManager_rule fun _ _ _ => trivial

theorem mapStaging_keeps {f : StagingArea → StagingArea} :
    KeepsManaged host (mapStaging f : GoM (ManagedRepository β) Unit) :=
  onRepo_keeps (Keeps.mapStaging f)

theorem KeepsManaged.bind {γ : Type} {m : GoM (ManagedRepository β) α}
    {f : α → GoM (ManagedRepository β) γ}
    (hm : KeepsManaged host m) (hf : ∀ a, KeepsManaged host (f a)) :
    KeepsManaged host (m >>= f) :=
  Triple.bind hm hf

theorem KeepsManaged.ite {c : Prop} [Decidable c]
    {m n : GoM (ManagedRepository β) α}
    (hm : KeepsManaged host m) (hn : KeepsManaged host n) :
    KeepsManaged host (if c then m else n) :=
  Triple.ite (fun _ => hm) (fun _ => hn)

theorem pure_keeps {a : α} : KeepsManaged host (pure a : GoM (ManagedRepository β) α) :=
  Triple.pure fun _ hs => hs

theorem fail_keeps {text : GoString} :
    KeepsManaged host (GoM.fail text : GoM (ManagedRepository β) α) :=
  Triple.fail fun _ hs => hs

theorem crash_keeps {text : GoString} :
    KeepsManaged host (GoM.crash text : GoM (ManagedRepository β) α) :=
  Triple.crash fun _ hs => hs

theorem getTxn_keeps {id : GoString} :
    KeepsManaged host (getTxn id : GoM (ManagedRepository β) AtomicTransaction) := by
  intro s hs
  have hafter : (getTxn id s).2 = s := by
    unfold getTxn
    split <;> rfl
  rw [hafter]
  exact ⟨fun _ _ => hs, fun _ => hs⟩

/-! ## Snapshots -/

theorem collectFileStates_reads (tree : Tree)
    (front : GoString) (states : GoMap GoString GoString) :
    Reads host (collectFileStates host anyActive fuel tree front states :
      GoM (Repository β) (GoMap GoString GoString)) := by
  induction fuel generalizing tree front states with
  | zero => exact Reads.diverge
  | succ fuel ih =>
    intro A hA
    apply Triple.foldlM
    intro states entry _
    refine (?_ : Reads host _) A hA
    apply Reads.ite
    · apply Reads.ite
      · apply Reads.bind (Reads.getAs _ _ _).attempt
        intro result
        cases result with
        | ok subTree => exact ih subTree _ states
        | error e => exact Reads.pure states
      · exact Reads.pure states
    · exact Reads.pure _

theorem committedStates_reads :
    Reads host (committedStates host anyActive : GoM (Repository β) (GoMap GoString GoString)) := by
  apply Reads.bind (Reads.view _)
  intro head
  cases head with
  | error e => exact Reads.pure ∅
  | ok hash =>
    apply Reads.ite
    · exact Reads.pure ∅
    · apply Reads.bind Repository.loadTree_reads.attempt
      intro loaded
      cases loaded with
      | error e => exact Reads.pure ∅
      | ok tree =>
        apply Reads.bind (Reads.view _)
        intro fuel
        exact collectFileStates_reads tree [] ∅

theorem createSnapshot_reads :
    Reads host (createSnapshot host order anyActive :
      GoM (Repository β) (GoMap GoString GoString)) := by
  apply Reads.bind (committedStates_reads)
  intro committed
  apply Reads.bind (Reads.view _)
  intro staged
  exact Reads.pure _

/-! ## File operations -/

/-- An assertion that survives the recording of an operation on `path` in
transaction `id`, once the new content is readable. -/
structure Tracks (host : Host) (id path : GoString)
    (A : TransactionManager → Repository β → Prop) : Prop where
  stable : ∀ manager, Stable (A manager)
  record : ∀ manager repo txn fileOp, A manager repo → manager.txns.lookup id = some txn →
    (fileOp.type ≠ .delete → (repo.store.blobAt host fileOp.newHash).isSome) →
    A { manager with
      txns := manager.txns.insert txn.id (txn.record path fileOp) } repo

theorem anyManaged_tracks {id path : GoString} :
    Tracks host id path (AnyManaged : _ → Repository β → Prop) where
  stable := fun _ => Repository.stable_any
  record := fun _ _ _ _ _ _ _ => trivial

section FileOperations

variable {id path : GoString} {A : TransactionManager → Repository β → Prop}

def Opened (id : GoString) (A : TransactionManager → Repository β → Prop)
    (txn : AtomicTransaction) (manager : TransactionManager)
    (repo : Repository β) : Prop :=
  A manager repo ∧ manager.txns.lookup id = some txn

theorem Tracks.opened (hA : Tracks host id path A) {txn : AtomicTransaction}
    {manager : TransactionManager} : Stable (Opened id A txn manager) :=
  Repository.stable_and (hA.stable manager) (Repository.stable_const _)

theorem getTxn_rule {id : GoString} :
    Triple (Holds host A) (getTxn id) (fun txn => Holds host (Opened id A txn)) (Holds host A) := by
  intro s hs
  unfold getTxn
  cases hlookup : s.manager.txns.lookup id with
  | none => exact ⟨fun _ hok => (nomatch hok), fun _ => hs⟩
  | some txn =>
    refine ⟨?_, fun hne => absurd rfl (hne txn)⟩
    intro found hfound
    cases hfound
    exact hs.mono fun _ _ h => ⟨h, hlookup⟩

theorem openForFileOp_rule {id path : GoString} :
    Triple (Holds host A) (openForFileOp id path)
      (fun txn => Holds host (Opened id A txn)) (Holds host AnyManaged) := by
  apply Triple.bind (getTxn_rule.weaken fun _ => Holds.any)
  intro txn
  split_ifs with hstate
  · exact Triple.fail fun _ => Holds.any
  · cases txn.conflictSet.lookup path with
    | some conflictID => exact Triple.fail fun _ => Holds.any
    | none => exact Triple.pure fun _ hs => hs

variable (hA : Tracks host id path A)

include hA

variable (txn : AtomicTransaction) (content : Bytes)

theorem storeFor_rule :
    Triple (Holds host (Opened id A txn)) (storeFor host path content)
      (fun hash => Holds host fun manager repo =>
        Opened id A txn manager repo ∧
          (repo.store.blobAt host hash).isSome) (Holds host AnyManaged) := by
  apply Triple.mapError
  apply onRepo_rule
  intro manager
  apply Triple.bind (Repository.anyExit (Repository.storeBlob_rule (hA.opened) content))
  intro storedHash
  split_ifs with hmismatch
  · exact Repository.fail_rule
  · apply Repository.pure_rule
    intro repo _ h
    rw [← not_ne_iff.mp hmismatch]
    exact h

theorem readOld_rule {old : Option GoString} :
    Triple (Holds host (Opened id A txn)) (readOld host old)
      (fun _ => Holds host (Opened id A txn)) (Holds host AnyManaged) := by
  cases old with
  | none => exact Triple.pure fun _ hs => hs
  | some oldHash =>
    have hread : Triple (Holds host (Opened id A txn))
        (onRepo (Repository.onStore (Store.getBlob host oldHash)))
        (fun _ => Holds host (Opened id A txn))
        (Holds host (Opened id A txn)) :=
      onRepo_rule fun manager =>
        Reads.getAs _ _ _ _ (hA.opened)
    apply Triple.bind (Triple.weaken
      (Triple.attempt (Q := fun _ => Holds host (Opened id A txn)) hread fun _ _ hs => hs)
      fun _ => Holds.any)
    intro _
    exact Triple.pure fun _ hs => hs

theorem record_rule {fileOp : AtomicFileOp} :
    Triple
      (Holds host fun manager repo => Opened id A txn manager repo ∧
        (fileOp.type ≠ .delete → (repo.store.blobAt host fileOp.newHash).isSome))
      (setTxn (txn.record path fileOp)) (fun _ => Holds host A)
      (Holds host AnyManaged) :=
  mapManager_rule fun manager repo h =>
    hA.record manager repo txn fileOp h.1.1 h.1.2 h.2

theorem atomicFileCreate_rule :
    Triple (Holds host A) (atomicFileCreate host id path content)
      (fun _ => Holds host A) (Holds host AnyManaged) := by
  apply Triple.bind (openForFileOp_rule)
  intro txn
  split_ifs with hwritten
  · exact Triple.fail fun _ => Holds.any
  · apply Triple.bind (storeFor_rule hA txn content)
    intro hash
    apply Triple.consequence (record_rule hA txn)
    · intro s hs
      exact hs.mono fun _ _ h => ⟨h.1, fun _ => h.2⟩
    · exact fun _ _ hs => hs

theorem atomicFileUpdate_rule :
    Triple (Holds host A) (atomicFileUpdate host id path content)
      (fun _ => Holds host A) (Holds host AnyManaged) := by
  apply Triple.bind (openForFileOp_rule)
  intro txn
  apply Triple.bind (readOld_rule hA txn)
  intro _
  apply Triple.bind (storeFor_rule hA txn content)
  intro newHash
  apply Triple.consequence (record_rule hA txn)
  · intro s hs
    exact hs.mono fun _ _ h => ⟨h.1, fun _ => h.2⟩
  · exact fun _ _ hs => hs

theorem atomicFileDelete_rule :
    Triple (Holds host A) (atomicFileDelete host id path)
      (fun _ => Holds host A) (Holds host AnyManaged) := by
  have hrecord : ∀ txn oldHash,
      Triple (Holds host (Opened id A txn)) (setTxn (txn.record path ⟨.delete, oldHash, []⟩))
        (fun _ => Holds host A) (Holds host AnyManaged) := by
    intro txn oldHash
    apply Triple.consequence (record_rule hA txn)
    · intro s hs
      exact hs.mono fun _ _ h => ⟨h, fun hne => absurd rfl hne⟩
    · exact fun _ _ hs => hs
  apply Triple.bind (openForFileOp_rule)
  intro txn
  cases txn.writeSet.lookup path with
  | some fileOp =>
    dsimp only
    split_ifs with hdeleted
    · exact Triple.fail fun _ => Holds.any
    · exact hrecord txn _
  | none =>
    cases txn.fileStates.lookup path with
    | none => exact Triple.fail fun _ => Holds.any
    | some oldHash =>
      apply Triple.bind (readOld_rule hA txn)
      intro _
      exact hrecord txn oldHash

end FileOperations

variable {id : GoString}

theorem fileOperation_rule {op : FileOperation} (hA : Tracks host id op.path A) :
    Triple (Holds host A) (fileOperation host id op)
      (fun _ => Holds host A) (Holds host AnyManaged) := by
  cases op with
  | create path content => exact atomicFileCreate_rule hA content
  | update path content => exact atomicFileUpdate_rule hA content
  | delete path => exact atomicFileDelete_rule hA

/-! ## Begin, prepare, commit, abort -/

theorem setTxn_rule {A : Repository β → Prop} {E : ManagedRepository β → Prop}
    {txn : AtomicTransaction} :
    Triple (Holds host fun _ => A) (setTxn txn) (fun _ => Holds host fun _ => A) E :=
  mapManager_rule fun _ _ h => h

def opsOf (manager : TransactionManager) (id : GoString) : List AtomicOperation :=
  match manager.txns.lookup id with
  | some txn => txn.operations
  | none => []

theorem beginTransaction_rule {A : Repository β → Prop} (hA : Stable A)
    {call : Call} :
    Triple (Holds host fun _ => A) (beginTransaction host call)
      (fun id => Holds host fun manager repo =>
        A repo ∧ opsOf manager id = []) (Holds host AnyManaged) := by
  apply Triple.bind (mapManager_rule (B := fun _ => A) fun _ _ h => h)
  intro _
  apply Triple.bind (Triple.view (Q := fun _ => Holds host fun _ => A) fun _ hs => hs)
  intro serial
  apply Triple.bind (Triple.view (Q := fun _ => Holds host fun _ => A) fun _ hs => hs)
  intro anyActive
  apply Triple.bind (Triple.weaken (onRepo_rule fun _ => createSnapshot_reads A hA)
    fun _ => Holds.any)
  intro snapshot
  have hfresh : ∀ (manager : TransactionManager) (txn : AtomicTransaction),
      txn.operations = [] → opsOf { manager with
        txns := manager.txns.insert txn.id txn } txn.id = [] := by
    intro manager txn hempty
    rw [opsOf, GoMap.lookup_insert_eq, if_pos rfl]
    exact hempty
  apply Triple.bind (mapManager_rule
    (B := fun manager repo => A repo ∧ opsOf manager
      (generateTransactionID call.unixNano serial) = [])
    fun manager _ h => ⟨h, hfresh manager (.new _ snapshot) rfl⟩)
  intro _
  refine Triple.bind (mapManager_rule
    (B := fun manager repo => A repo ∧ opsOf manager
      (generateTransactionID call.unixNano serial) = []) ?_) ?_
  · intro _ _ h
    exact h
  · intro _
    exact Triple.pure fun _ hs => hs

theorem prepare_rule {B : Repository β → Prop} {call : Call}
    (hB : ∀ manager repo txn, A manager repo → manager.txns.lookup id = some txn →
      B { repo with staging := txn.execute repo.staging }) :
    Triple (Holds host A) (prepare call id)
      (fun _ => Holds host fun _ => B) (Holds host AnyManaged) := by
  apply Triple.bind (getTxn_rule.weaken fun _ => Holds.any)
  intro txn
  apply Triple.ite
  · intro _
    exact Triple.fail fun _ => Holds.any
  · intro _
    apply Triple.bind (mapManager_rule
      (B := fun _ repo => B { repo with staging := txn.execute repo.staging })
      fun manager repo h => hB manager repo txn h.1 h.2)
    intro _
    apply Triple.bind (Triple.view
      (Q := fun _ => Holds host fun _ repo =>
        B { repo with staging := txn.execute repo.staging }) fun _ hs => hs)
    intro conflict
    cases conflict with
    | some found =>
      apply Triple.bind (setTxn_rule)
      intro _
      exact Triple.fail fun _ => Holds.any
    | none =>
      apply Triple.bind (onRepo_rule
        (Q := fun _ _ => B) (E := AnyManaged) fun _ =>
          Repository.mapStaging_rule fun _ _ h => h)
      intro _
      apply Triple.ite
      · intro _
        apply Triple.bind (setTxn_rule)
        intro _
        exact Triple.crash fun _ => Holds.any
      · intro _
        exact setTxn_rule

theorem finishCommit_keeps {txn : AtomicTransaction} :
    KeepsManaged host (finishCommit txn : GoM (ManagedRepository β) Unit) := by
  apply KeepsManaged.bind (mapManager_keeps)
  intro _
  apply KeepsManaged.ite
  · apply KeepsManaged.bind (mapManager_keeps)
    intro _
    exact crash_keeps
  · exact mapManager_keeps

theorem commitTransaction_rule {call : Call} {id message : GoString} :
    Triple (Holds host fun _ => Restorable host)
      (commit host call id message : GoM (ManagedRepository β) Commit)
      (fun _ => Holds host AnyManaged) (Holds host AnyManaged) := by
  apply Triple.bind (getTxn_rule.weaken fun _ => Holds.any)
  intro txn
  split_ifs with hstate
  · exact Triple.fail fun _ => Holds.any
  · apply Triple.bind (mapManager_rule (B := fun _ => Restorable host) fun _ _ h => h.1)
    intro _
    apply Triple.bind (Triple.attempt (Q := fun _ => Holds host AnyManaged)
      (onRepo_rule fun _ => Repository.commit_rule call)
      fun _ _ hs => hs)
    intro made
    cases made with
    | error e =>
      apply KeepsManaged.bind (mapStaging_keeps)
      intro _
      apply KeepsManaged.bind (mapManager_keeps)
      intro _
      exact fail_keeps
    | ok commit =>
      apply KeepsManaged.bind (finishCommit_keeps)
      intro _
      exact pure_keeps

theorem abort_keeps {id : GoString} :
    KeepsManaged host (abort id : GoM (ManagedRepository β) Unit) := by
  apply KeepsManaged.bind (getTxn_keeps)
  intro txn
  apply KeepsManaged.ite
  · exact fail_keeps
  · apply KeepsManaged.bind (mapStaging_keeps)
    intro _
    apply KeepsManaged.bind (mapManager_keeps)
    intro _
    apply KeepsManaged.ite
    · apply KeepsManaged.bind (mapManager_keeps)
      intro _
      exact crash_keeps
    · exact mapManager_keeps

theorem abortIfActive_keeps {id : GoString} :
    KeepsManaged host (abortIfActive id : GoM (ManagedRepository β) Unit) := by
  apply KeepsManaged.bind (getTxn_keeps)
  intro txn
  apply KeepsManaged.ite
  · exact abort_keeps
  · exact pure_keeps

/-! ## One-call commits -/

/-- The staging area and the content that the transaction will stage are
readable. -/
def Loaded (host : Host) (id : GoString) (manager : TransactionManager)
    (repo : Repository β) : Prop :=
  Restorable host repo ∧ ∀ op ∈ opsOf manager id,
    op.fileOp.type ≠ .delete → 0 ∉ op.path ∧ (repo.store.blobAt host op.fileOp.newHash).isSome

theorem loaded_tracks {path : GoString} (hpath : 0 ∉ path) :
    Tracks host id path (Loaded host id : _ → Repository β → Prop) where
  stable := by
    intro manager before after hext hstaging h
    refine ⟨Repository.stable_restorable before after hext hstaging h.1, ?_⟩
    intro op hop hkind
    obtain ⟨hname, hblob⟩ := h.2 op hop hkind
    exact ⟨hname, hext.isSome hblob⟩
  record := by
    intro manager repo txn fileOp h hlookup hblob
    have hops : opsOf manager id = txn.operations := by
      rw [opsOf, hlookup]
    refine ⟨h.1, ?_⟩
    intro op hop hkind
    have hcases : op ∈ txn.operations ∨ op = ⟨path, fileOp, false⟩ := by
      rw [opsOf, GoMap.lookup_insert_eq] at hop
      split_ifs at hop with heq
      · simpa [AtomicTransaction.record] using hop
      · rw [hlookup] at hop
        exact .inl hop
    rcases hcases with hold | rfl
    · exact h.2 op (hops ▸ hold) hkind
    · exact ⟨hpath, hblob hkind⟩

theorem execute_restorable {ops : List AtomicOperation} {repo : Repository β}
    (hrestorable : Restorable host repo)
    (hops : ∀ op ∈ ops, op.fileOp.type ≠ .delete →
      0 ∉ op.path ∧ (repo.store.blobAt host op.fileOp.newHash).isSome) :
    Restorable host { repo with
      staging := ops.foldl (fun staging op => op.execute staging) repo.staging } := by
  induction ops generalizing repo with
  | nil => exact hrestorable
  | cons op rest ih =>
    have hop := hops op (by simp)
    have hstep : Restorable host { repo with staging := op.execute repo.staging } := by
      unfold AtomicOperation.execute
      cases hkind : op.fileOp.type with
      | delete => exact hrestorable.remove op.path
      | _ =>
        obtain ⟨hname, hblob⟩ := hop (by simp [hkind])
        exact hrestorable.addHash hname hblob
    exact ih hstep fun other hother => hops other (by simp [hother])

theorem atomicCommit_rule {call : Call} {message : GoString} {operations : List FileOperation}
    (hpaths : ∀ op ∈ operations, 0 ∉ op.path) :
    Triple (Holds host fun _ => Restorable host)
      (atomicCommit host call message operations : GoM (ManagedRepository β) Commit)
      (fun _ => Holds host AnyManaged) (Holds host AnyManaged) := by
  apply Triple.bind (beginTransaction_rule Repository.stable_restorable)
  intro id
  apply Triple.deferring _ (abortIfActive_keeps)
  have hoperations : Triple (Holds host (Loaded host id : _ → Repository β → Prop))
      (GoM.forEach operations (fileOperation host id))
      (fun _ => Holds host (Loaded host id)) (Holds host AnyManaged) :=
    Triple.forEach fun op hop =>
      fileOperation_rule (loaded_tracks (hpaths op hop))
  refine Triple.bind (Triple.mapError (Triple.consequence hoperations
    (fun s hs => hs.mono fun repo _ h => ⟨h.1, ?_⟩) (fun _ _ hs => hs))) ?_
  · rw [h.2]
    simp
  · intro _
    apply Triple.bind (Triple.mapError (prepare_rule (B := Restorable host) ?_))
    · intro _
      exact commitTransaction_rule
    · intro manager repo txn h hlookup
      apply execute_restorable h.1
      intro op hop
      apply h.2 op
      rw [opsOf, hlookup]
      exact hop

end ManagedRepository

end Govc
