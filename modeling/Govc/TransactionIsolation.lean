import Govc.CommitContract
import Govc.StagingEffects
import Govc.TransactionCalls

/-!
# Isolation of transactions

All transactions stage their operations in one staging area, and a commit takes
over whatever is staged.  It changes exactly its own paths when nothing is staged
outside its write set.  A repeated `Abort` runs the compensations again, over the
values of whoever works on these paths now.  Under a guard on these two calls,
each commit is the parent's tree with the values of its own transaction on top.
-/

namespace Govc

open Go Host ManagedRepository TransactionManager
open Repository (epoch nextObjects nextTree_encodable tipEntries toMap_overlay)
open Runs

namespace AtomicTransaction

def overlay (txn : AtomicTransaction) (base : GoString → Option GoString)
    (path : GoString) : Option GoString :=
  match txn.writeSet.lookup path with
  | none => base path
  | some fileOp =>
    if fileOp.type = .delete then none else some fileOp.newHash

def Executed (txn : AtomicTransaction) : Prop := ∃ op ∈ txn.operations, op.executed = true

end AtomicTransaction

def StagingArea.CarriesAll (staging : StagingArea) (txn : AtomicTransaction) : Prop :=
  ∀ path fileOp, txn.writeSet.lookup path = some fileOp → staging.Carries path fileOp

namespace TransactionCall

variable {β : Type} [Backend β]

/-- A commit finds nothing staged outside its write set and no NUL byte in its
paths; a transaction whose operations have been executed is aborted only while
it is prepared. -/
def Guard (s : ManagedRepository β) : TransactionCall → Prop
  | commit _ id _ => ∀ txn, s.manager.txns.lookup id = some txn →
      ∀ path, (s.repo.staging.Touches path → txn.writeSet.contains path = true) ∧
        (txn.writeSet.contains path = true → 0 ∉ path)
  | abort id => ∀ txn, s.manager.txns.lookup id = some txn →
      txn.Executed → txn.state = .prepared ∨ txn.state = .committed
  | _ => True

end TransactionCall

/-! ## The invariant -/

/-- What holds of every transaction that the manager knows by `id`. -/
structure TransactionManager.Kept (manager : TransactionManager)
    (id : GoString) (txn : AtomicTransaction) : Prop where
  keyed : txn.id = id
  latest : txn.Latest
  hashes : ∀ path fileOp, txn.writeSet.lookup path = some fileOp →
    fileOp.type ≠ .delete → IsHexDigest fileOp.newHash
  settled : txn.state ≠ .preparing ∧ txn.state ≠ .committing
  active : txn.state = .pending ∨ txn.state = .prepared → manager.activeTxns.contains id = true

namespace ManagedRepository

section

variable {β : Type} [Backend β] {host : Host}

/-- The prepared transactions are apart from each other and each has its
values in the staging area. -/
structure Isolated (host : Host) (s : ManagedRepository β) : Prop where
  honest : host.Faithful s.repo.store.hashed → s.repo.store.Honest host
  kept : ∀ id txn, s.manager.txns.lookup id = some txn → s.manager.Kept id txn
  disjoint : ∀ id txn id' txn', s.manager.txns.lookup id = some txn →
    s.manager.txns.lookup id' = some txn' → id ≠ id' →
    txn.state = .prepared → txn'.state = .prepared → ¬ Overlap txn txn'
  staged : ∀ id txn path fileOp, s.manager.txns.lookup id = some txn →
    txn.state = .prepared → txn.writeSet.lookup path = some fileOp →
    s.repo.staging.Carries path fileOp

variable {s : ManagedRepository β}

/-- What every prepared transaction meets but the one known by `id`. -/
def Others (s : ManagedRepository β) (id : GoString) (P : AtomicTransaction → Prop) : Prop :=
  ∀ id' other, id' ≠ id → s.manager.txns.lookup id' = some other → other.state = .prepared → P other

/-- A call that changes one transaction keeps the invariant if it takes care
of that transaction and leaves the values of the other prepared ones. -/
theorem Isolated.put (h : s.Isolated host)
    (s' : ManagedRepository β) (id : GoString) (txn : AtomicTransaction)
    (htxns : s'.manager.txns = s.manager.txns.insert id txn)
    (hhonest : host.Faithful s'.repo.store.hashed → s'.repo.store.Honest host)
    (hactive : ∀ other, other ≠ id → s.manager.activeTxns.contains other = true →
      s'.manager.activeTxns.contains other = true)
    (hkept : s'.manager.Kept id txn)
    (hapart : txn.state = .prepared → s.Others id fun other => ¬ Overlap txn other)
    (hown : txn.state = .prepared → s'.repo.staging.CarriesAll txn)
    (hothers : s.Others id s'.repo.staging.CarriesAll) :
    s'.Isolated host := by
  constructor
  · exact hhonest
  · intro id' other hother
    rw [htxns] at hother
    rcases GoMap.lookup_insert_cases hother with ⟨rfl, rfl⟩ | ⟨hne, hold⟩
    · exact hkept
    · have hother' := h.kept id' other hold
      exact ⟨hother'.keyed, hother'.latest, hother'.hashes, hother'.settled,
        fun hstate => hactive id' hne (hother'.active hstate)⟩
  · rw [htxns]
    apply GoMap.pairs_insert
    · intro _ _ _ _ hpair hprepared hprepared' hoverlap
      exact hpair hprepared' hprepared hoverlap.symm
    · exact fun id' other hne hold hprepared =>
        hapart hprepared id' other hne hold
    · exact fun id₁ txn₁ id₂ txn₂ _ _ => h.disjoint id₁ txn₁ id₂ txn₂
  · intro id' other path fileOp hother hprepared hwrites
    rw [htxns] at hother
    rcases GoMap.lookup_insert_cases hother with ⟨rfl, rfl⟩ | ⟨hne, hold⟩
    · exact hown hprepared path fileOp hwrites
    · exact hothers id' other hne hold hprepared path fileOp hwrites

variable {id : GoString} {txn : AtomicTransaction}

theorem Isolated.put_inactive (h : s.Isolated host) {s' : ManagedRepository β}
    (hlookup : s.manager.txns.lookup id = some txn)
    (txn' : AtomicTransaction) (hid : txn'.id = txn.id)
    (hoperations : txn'.operations = txn.operations)
    (hwriteSet : txn'.writeSet = txn.writeSet) (hended : txn'.isActive = false)
    (htxns : s'.manager.txns = s.manager.txns.insert txn.id txn')
    (hhonest : host.Faithful s'.repo.store.hashed → s'.repo.store.Honest host)
    (hactive : ∀ other, other ≠ txn.id → s.manager.activeTxns.contains other = true →
      s'.manager.activeTxns.contains other = true)
    (hothers : s.Others id s'.repo.staging.CarriesAll) :
    s'.Isolated host := by
  have hkept := h.kept id txn hlookup
  simp only [AtomicTransaction.isActive, decide_eq_false_iff_not, not_or] at hended
  obtain ⟨hpending, hpreparing, hprepared, hcommitting⟩ := hended
  rw [hkept.keyed] at hid htxns hactive
  refine h.put s' id txn' htxns hhonest hactive ?_ ?_ ?_ hothers
  · refine ⟨hid, ?_, ?_, ⟨hpreparing, hcommitting⟩, ?_⟩
    · intro path
      rw [hwriteSet, hoperations]
      exact hkept.latest path
    · rw [hwriteSet]
      exact hkept.hashes
    · intro hopen
      exact absurd hopen (not_or.mpr ⟨hpending, hprepared⟩)
  · intro hstate
    exact absurd hstate hprepared
  · intro hstate
    exact absurd hstate hprepared

theorem Isolated.withStore (h : s.Isolated host)
    (hgrown : Store.Grown host objects s.repo.store after) :
    (s.withStore after).Isolated host := by
  refine ⟨?_, h.kept, h.disjoint, h.staged⟩
  intro hfaithful
  exact (hgrown.gains (h.honest (hfaithful.of_suffix hgrown.suffix)) hfaithful).honest

variable {staging : StagingArea}

theorem Isolated.others (h : s.Isolated host) (id : GoString) :
    s.Others id s.repo.staging.CarriesAll :=
  fun id' other _ hother hprepared path fileOp => h.staged id' other path fileOp hother hprepared

theorem Isolated.carries_of_agree (h : s.Isolated host)
    (hagree : s.Others id fun other => ∀ path, other.writeSet.contains path = true →
      staging.AgreeAt s.repo.staging path) : s.Others id staging.CarriesAll := by
  intro id' other hne hlookup hprepared path fileOp hwrites
  have hcontains : other.writeSet.contains path = true := by
    rw [GoMap.contains, hwrites]
    rfl
  exact (hagree id' other hne hlookup hprepared path hcontains).carries
    (h.staged id' other path fileOp hlookup hprepared hwrites)

theorem Isolated.agreeAt_rollback (h : s.Isolated host)
    (hlookup : s.manager.txns.lookup id = some txn)
    (hprepared : txn.Executed → txn.state = .prepared) :
    s.Others id fun other => ∀ path, other.writeSet.contains path = true →
      (txn.rollback s.repo.staging).AgreeAt s.repo.staging path := by
  intro id' other hne hother hstate path hcontains
  by_cases hexecuted : txn.Executed
  · apply txn.agreeAt_rollback
    apply (h.kept id txn hlookup).latest.lastOp_eq_none
    intro hmine
    exact h.disjoint id txn id' other hlookup hother (Ne.symm hne)
      (hprepared hexecuted) hstate ⟨path, hmine, hcontains⟩
  · rw [txn.rollback_of_unexecuted]
    · exact ⟨rfl, rfl⟩
    · intro op hop
      by_contra htrue
      exact hexecuted ⟨op, hop, by simpa using htrue⟩

theorem Isolated.begin (h : s.Isolated host)
    (call : Call) : (beginTransaction host call s).2.Isolated host := by
  obtain ⟨objects, after, hgrown, hrun⟩ := beginTransaction_run host s
  have hstored := h.withStore hgrown
  rcases hrun with ⟨snapshot, hrun⟩ | ⟨-, hstate⟩
  · rw [hrun]
    refine hstored.put _ (generateTransactionID call.unixNano
      (s.manager.nextTxnID + 1)) (.new _ snapshot) rfl
      (fun hfaithful => hstored.honest hfaithful) ?_ ?_ ?_ ?_ (h.others _)
    · intro other hne hactive
      simp only [begun, GoMap.contains]
      rw [AList.lookup_insert_ne hne]
      exact hactive
    · refine ⟨rfl, .new _ snapshot, ?_, ⟨by simp [AtomicTransaction.new],
        by simp [AtomicTransaction.new]⟩, ?_⟩
      · intro path fileOp hwrites
        cases hwrites
      · simp [begun, GoMap.contains]
    · intro hprepared
      cases hprepared
    · intro hprepared
      cases hprepared
  · rw [hstate]
    exact ⟨hstored.honest, fun id txn hlookup => by
      have hkept := h.kept id txn hlookup
      exact ⟨hkept.keyed, hkept.latest, hkept.hashes, hkept.settled,
        hkept.active⟩, h.disjoint, h.staged⟩

theorem Isolated.fileOperation (h : s.Isolated host) (id : GoString) (op : FileOperation) :
    (fileOperation host id op s).2.Isolated host := by
  obtain ⟨objects, after, hgrown, hrun⟩ := fileOperation_run host s
  have hstored := h.withStore hgrown
  rcases hrun with
    ⟨txn, fileOp, hlookup, hopen, -, hrecords, hrun⟩ | ⟨-, hstate⟩
  · rw [hrun]
    have hkept := h.kept id txn hlookup
    have hpending : txn.state = .pending := hopen.resolve_right hkept.settled.1
    have hhex : fileOp.type ≠ .delete → IsHexDigest fileOp.newHash := by
      intro hkind
      cases op with
      | create path content =>
        rw [hrecords]
        exact host.hashObject_isHexDigest _
      | update path content =>
        rw [hrecords.2]
        exact host.hashObject_isHexDigest _
      | delete path => exact absurd hrecords hkind
    refine hstored.put _ txn.id (txn.record op.path fileOp) rfl
      (fun hfaithful => hstored.honest hfaithful) (fun _ _ hactive => hactive)
      ?_ ?_ ?_ (h.others _)
    · refine ⟨rfl, hkept.latest.record op.path fileOp, ?_, hkept.settled, ?_⟩
      · exact GoMap.forall_insert hkept.hashes hhex
      · intro hstate
        rw [hkept.keyed]
        exact hkept.active hstate
    · intro hprepared
      exact absurd (hpending.symm.trans hprepared) (by decide)
    · intro hprepared
      exact absurd (hpending.symm.trans hprepared) (by decide)
  · rw [hstate]
    exact hstored

theorem Isolated.prepare (h : s.Isolated host) (call : Call) (id : GoString) :
    (prepare call id s).2.Isolated host := by
  by_cases hopen : ∃ txn, s.manager.txns.lookup id = some txn ∧ Open txn
  · obtain ⟨txn, hlookup, hopen⟩ := hopen
    have hkept := h.kept id txn hlookup
    have hpending : txn.state = .pending := hopen.resolve_right hkept.settled.1
    rcases prepare_run_open call hlookup hopen with
      ⟨path, other, -, hrun⟩ | ⟨hscan, -, hstate⟩
    · rw [hrun]
      exact h.put_inactive hlookup (txn.conflicted path other) rfl rfl rfl
        rfl rfl h.honest (fun _ _ hactive => hactive) (h.others id)
    · rw [hstate]
      rw [detectConflicts_eq_none_iff] at hscan
      have hapart : s.Others txn.id fun other => ¬ Overlap txn other := by
        intro id' other hne hother hprepared
        exact hscan id' other ((h.kept id' other hother).active (.inr hprepared)) hne hother
          (.inr hprepared)
      refine h.put _ txn.id txn.prepared rfl h.honest (fun _ _ hactive => hactive) ?_ ?_ ?_ ?_
      · refine ⟨rfl, hkept.latest.markExecuted, hkept.hashes,
          by simp [AtomicTransaction.prepared], fun _ => ?_⟩
        rw [hkept.keyed]
        exact hkept.active (.inl hpending)
      · exact fun _ => hapart
      · intro _ path fileOp hwrites
        have hlast := hkept.latest path
        rw [show txn.writeSet.lookup path = some fileOp from hwrites] at hlast
        obtain ⟨op, hop, rfl⟩ := Option.map_eq_some_iff.mp hlast.symm
        exact txn.carries_execute s.repo.staging hop
      · apply h.carries_of_agree
        intro id' other hne hother hprepared path hcontains
        apply txn.agreeAt_execute
        apply hkept.latest.lastOp_eq_none
        intro hmine
        exact hapart id' other hne hother hprepared ⟨path, hmine, hcontains⟩
  · have hrefused := prepare_run_refused call fun txn hlookup hopen' =>
      hopen ⟨txn, hlookup, hopen'⟩
    rw [hrefused.1]
    exact h

theorem Isolated.abort (h : s.Isolated host) (hguard : (TransactionCall.abort id).Guard s) :
    (abort id s).2.Isolated host := by
  by_cases hopen : ∃ txn, s.manager.txns.lookup id = some txn ∧ txn.state ≠ .committed
  · obtain ⟨txn, hlookup, hstate⟩ := hopen
    rw [abort_run hlookup hstate]
    refine h.put_inactive hlookup (txn.completed .aborted) rfl rfl rfl rfl rfl h.honest ?_ ?_
    · intro other hne hactive
      simp only [afterAbort, putTxn, aborting, GoMap.contains]
      rw [AList.lookup_erase_ne hne]
      exact hactive
    · apply h.carries_of_agree
      apply h.agreeAt_rollback hlookup
      intro hexecuted
      exact (hguard txn hlookup hexecuted).resolve_right hstate
  · have hcommitted : ∀ txn, s.manager.txns.lookup id = some txn → txn.state = .committed := by
      intro txn hlookup
      by_contra hne
      exact hopen ⟨txn, hlookup, hne⟩
    rw [(abort_run_refused hcommitted).1]
    exact h

theorem Isolated.others_empty (h : s.Isolated host) (hlookup : s.manager.txns.lookup id = some txn)
    (hprepared : txn.state = .prepared)
    (hstaged : ∀ path, s.repo.staging.Touches path → txn.writeSet.contains path = true) :
    s.Others id fun other => ∀ path fileOp, other.writeSet.lookup path ≠ some fileOp := by
  intro id' other hne hother hstate path fileOp hwrites
  have hmine := hstaged path (h.staged id' other path fileOp hother hstate hwrites).touches
  have hcontains : other.writeSet.contains path = true := by
    rw [GoMap.contains, hwrites]
    rfl
  exact h.disjoint id txn id' other hlookup hother (Ne.symm hne) hprepared
    hstate ⟨path, hmine, hcontains⟩

theorem Isolated.commit (h : s.Isolated host)
    (hguard : (TransactionCall.commit call id message).Guard s) :
    (commit host call id message s).2.Isolated host := by
  by_cases hopen : ∃ txn, s.manager.txns.lookup id = some txn ∧ Committable txn
  · obtain ⟨txn, hlookup, hstate⟩ := hopen
    have hkept := h.kept id txn hlookup
    have hprepared : txn.state = .prepared := hstate.resolve_right hkept.settled.2
    rcases commit_run_committable host hlookup hstate with
      ⟨after, hgrown, hrun⟩ | ⟨objects, after, e, hgrown, _, hrun⟩
    · rw [hrun]
      refine h.put_inactive hlookup (txn.completed .committed) rfl rfl rfl
        rfl rfl (h.withStore hgrown).honest ?_ ?_
      · intro other hne hactive
        simp only [afterCommit, putTxn, committing, GoMap.contains]
        rw [AList.lookup_erase_ne hne]
        exact hactive
      · intro id' other hne hother hstate' path fileOp hwrites
        exact absurd hwrites (h.others_empty hlookup hprepared
          (fun path => (hguard txn hlookup path).1) id' other hne hother hstate' path fileOp)
    · rw [hrun]
      refine (h.withStore hgrown).put_inactive hlookup (txn.inState .aborted) rfl rfl rfl rfl rfl
        (h.withStore hgrown).honest (fun _ _ hactive => hactive) ?_
      exact h.carries_of_agree (h.agreeAt_rollback hlookup fun _ => hprepared)
  · have hrefused : ∀ txn, s.manager.txns.lookup id = some txn → ¬ Committable txn := by
      intro txn hlookup hstate
      exact hopen ⟨txn, hlookup, hstate⟩
    rw [(commit_run_refused host call message hrefused).1]
    exact h

theorem isolated_of_reachable (hreach : Reachable (transactionSystem β host)
      (fun s label => label.Guard s) s) : s.Isolated host := by
  apply hreach.invariant
  · rintro first ⟨hhonest, hmanager⟩
    have hempty : ∀ id txn, first.manager.txns.lookup id ≠ some txn := by
      intro id txn hlookup
      rw [hmanager] at hlookup
      cases hlookup
    exact ⟨fun _ => hhonest,
      fun id txn hlookup => absurd hlookup (hempty id txn),
      fun id txn _ _ hlookup => absurd hlookup (hempty id txn),
      fun id txn _ _ hlookup => absurd hlookup (hempty id txn)⟩
  · rintro before label after hbefore hguard rfl
    cases label with
    | begin call => exact hbefore.begin call
    | fileOperation id op => exact hbefore.fileOperation id op
    | prepare call id => exact hbefore.prepare call id
    | commit call id message => exact hbefore.commit hguard
    | abort id => exact hbefore.abort hguard

/-! ## Each commit -/

theorem overlay_of_carries (hcarries : staging.CarriesAll txn)
    (hstaged : ∀ path, staging.Touches path → txn.writeSet.contains path = true)
    :
    staging.overlay base path = txn.overlay base path := by
  unfold StagingArea.overlay AtomicTransaction.overlay
  cases hwrites : txn.writeSet.lookup path with
  | none =>
    have huntouched : ¬ staging.Touches path := by
      intro htouched
      have hcontains := hstaged path htouched
      simp [GoMap.contains, hwrites] at hcontains
    unfold StagingArea.Touches StagingArea.contains GoMap.contains at huntouched
    rw [not_or, Bool.not_eq_true, Option.isSome_eq_false_iff,
      Option.isNone_iff_eq_none] at huntouched
    rw [huntouched.1]
    simp [huntouched.2]
  | some fileOp =>
    have hpath := hcarries path fileOp hwrites
    unfold StagingArea.Carries at hpath
    cases hkind : fileOp.type with
    | delete =>
      rw [hkind] at hpath
      simp [hpath.1, hpath.2, hkind]
    | _ =>
      rw [hkind] at hpath
      simp [hpath, hkind]

theorem encodable_of_carries (hcarries : staging.CarriesAll txn)
    (hstaged : ∀ path, staging.Touches path → txn.writeSet.contains path = true)
    (hhashes : ∀ path fileOp, txn.writeSet.lookup path = some fileOp →
      fileOp.type ≠ .delete → IsHexDigest fileOp.newHash)
    (hpaths : ∀ path, txn.writeSet.contains path = true → 0 ∉ path) :
    staging.Encodable := by
  intro path hash hlookup
  have hcontains : txn.writeSet.contains path = true := by
    apply hstaged path
    left
    rw [StagingArea.contains, GoMap.contains, hlookup]
    rfl
  refine ⟨hpaths path hcontains, ?_⟩
  obtain ⟨fileOp, hwrites⟩ := Option.isSome_iff_exists.mp hcontains
  have hpath := hcarries path fileOp hwrites
  unfold StagingArea.Carries at hpath
  cases hkind : fileOp.type with
  | delete =>
    rw [hkind, hlookup] at hpath
    cases hpath.1
  | _ =>
    rw [hkind, hlookup] at hpath
    rw [Option.some.inj hpath]
    exact hhashes path fileOp hwrites (by simp [hkind])

end

end ManagedRepository

/-- The files of a commit; none for no commit or an unreadable one. -/
def Store.commitMap {β : Type} [Backend β] (host : Host) (store : Store β)
    (hash path : GoString) : Option GoString :=
  if hash = [] then none
  else (store.treeOfCommit host hash).bind fun tree => tree.toMap path

theorem Repository.tipEntries_toMap {β : Type} [Backend β] {repo : Repository β} :
    (Tree.mk (repo.tipEntries host)).toMap = repo.store.commitMap host repo.tip := by
  unfold tipEntries Store.commitMap
  split_ifs with hempty
  · rfl
  · cases repo.store.treeOfCommit host repo.tip <;> rfl

section

variable {β : Type} [Backend β] {host : Host}

/-- In a guarded run, the tree of a transaction's commit is the tree of its
parent with the transaction's own values on top. -/
theorem commit_isolated {s after : ManagedRepository β}
    (hreach : Reachable (transactionSystem β host) (fun s label => label.Guard s) s)
    {call : Call} {id message : GoString}
    (hguard : (TransactionCall.commit call id message).Guard s)
    {txn : AtomicTransaction}
    (hlookup : s.manager.txns.lookup id = some txn) {made : Commit}
    (hrun : ManagedRepository.commit host call id message s = (.ok made, after))
    (hfaithful : host.Faithful after.repo.store.hashed) :
    ∃ tree, after.repo.store.treeAt host made.treeHash = some tree ∧
      ∀ path, tree.toMap path = txn.overlay (s.repo.store.commitMap host made.parentHash) path := by
  have hisolated := ManagedRepository.isolated_of_reachable hreach
  have hkept := hisolated.kept id txn hlookup
  obtain ⟨hstate, rfl, store, hgrown, rfl⟩ := commit_run_ok hlookup hrun
  have hprepared : txn.state = .prepared := hstate.resolve_right hkept.settled.2
  have hcarries : s.repo.staging.CarriesAll txn :=
    fun path fileOp => hisolated.staged id txn path fileOp hlookup hprepared
  have hstaged : ∀ path, s.repo.staging.Touches path → txn.writeSet.contains path = true :=
    fun path => (hguard txn hlookup path).1
  have hencodable : s.repo.staging.Encodable :=
    ManagedRepository.encodable_of_carries hcarries hstaged hkept.hashes
      fun path => (hguard txn hlookup path).2
  have hgains := hgrown.gains (hisolated.honest (hfaithful.of_suffix hgrown.suffix)) hfaithful
  have hsize : (Object.tree (s.repo.nextTree host call)).serialize.length < 2 ^ 63 := by
    apply hfaithful.bounded
    change _ ∈ store.hashed
    rw [hgrown.hashed]
    simp [nextObjects]
  refine ⟨s.repo.nextTree host call, ?_, ?_⟩
  · exact Store.treeAt_of_found (hgains.found _ (by simp [nextObjects]))
      (nextTree_encodable host call hencodable) hsize
  · intro path
    rw [← ManagedRepository.overlay_of_carries hcarries hstaged]
    change _ = s.repo.staging.overlay (s.repo.store.commitMap host s.repo.tip) path
    rw [← Repository.tipEntries_toMap]
    exact toMap_overlay _ _ _ path

end

/-! ## Two runs -/

def runCalls (calls : List TransactionCall) : ManagedRepository MemoryBackend :=
  calls.foldl (fun s label => label.run checksums s)
    (ManagedRepository.withBackend MemoryBackend.new)

theorem runCalls_reachable (guard : ManagedRepository MemoryBackend → TransactionCall → Prop)
    (calls : List TransactionCall)
    (hguard : ∀ s, ∀ label ∈ calls, guard s label) :
    Reachable (transactionSystem MemoryBackend checksums) guard (runCalls calls) := by
  refine ⟨ManagedRepository.withBackend MemoryBackend.new, ⟨Store.new_honest, rfl⟩, ?_⟩
  unfold runCalls
  induction calls using List.reverseRecOn with
  | nil => exact .refl
  | append_singleton calls label ih =>
    rw [List.foldl_append]
    exact .tail (ih fun s other hother => hguard s other (by simp [hother]))
      (hguard _ label (by simp)) rfl

def onePrepared : ManagedRepository MemoryBackend :=
  runCalls [.begin epoch, .fileOperation firstID (.create (str "a") (str "x")),
    .prepare epoch firstID]

def bothPrepared : ManagedRepository MemoryBackend :=
  runCalls [.begin epoch, .begin epoch, .fileOperation firstID (.create (str "a") (str "x")),
    .fileOperation secondID (.create (str "b") (str "y")),
    .prepare epoch firstID, .prepare epoch secondID]

def commitFirst (s : ManagedRepository MemoryBackend) :
    Outcome Commit × ManagedRepository MemoryBackend :=
  ManagedRepository.commit checksums epoch firstID (str "m") s

theorem commitFirst_eq (hmade : (commitFirst s).1 = .ok made) :
    ManagedRepository.commit checksums epoch firstID
      (str "m") s = (.ok made, (commitFirst s).2) := by
  rw [← hmade]
  rfl

def ownStaging (s : ManagedRepository MemoryBackend) (txn : AtomicTransaction) : Bool :=
  (s.repo.staging.files.keys.all fun path => txn.writeSet.contains path) &&
    (s.repo.staging.removed.keys.all fun path =>
      txn.writeSet.contains path) &&
    txn.writeSet.keys.all fun path => decide (0 ∉ path)

theorem guard_of_ownStaging {id message : GoString}
    (hlookup : s.manager.txns.lookup id = some txn)
    (hown : ownStaging s txn = true) :
    (TransactionCall.commit call id message).Guard s := by
  simp only [ownStaging, Bool.and_eq_true, List.all_eq_true] at hown
  obtain ⟨⟨hfiles, hremoved⟩, hpaths⟩ := hown
  intro other hother path
  rw [hlookup] at hother
  cases hother
  refine ⟨?_, fun hcontains => by
    simpa using hpaths path ((contains_iff_mem_keys _).mp hcontains)⟩
  rintro (hstaged | hgone)
  · exact hfiles path ((contains_iff_mem_keys _).mp hstaged)
  · apply hremoved path
    apply (contains_iff_mem_keys _).mp
    unfold StagingArea.isRemoved at hgone
    unfold GoMap.contains
    cases hlookup' : s.repo.staging.removed.lookup path with
    | none => simp [hlookup'] at hgone
    | some gone => rfl

theorem commit_isolated_one :
    ∃ txn made tree, onePrepared.manager.txns.lookup firstID = some txn ∧
      (commitFirst onePrepared).1 = .ok made ∧
      (commitFirst onePrepared).2.repo.store.treeAt checksums made.treeHash = some tree ∧
      ∀ path, tree.toMap path = txn.overlay
        (onePrepared.repo.store.commitMap checksums made.parentHash)
        path := by
  have hknown : (onePrepared.manager.txns.lookup firstID).isSome = true := by
    decide +kernel
  have hown : (onePrepared.manager.txns.lookup firstID).all
      (ownStaging onePrepared) = true := by decide +kernel
  have hreturned : (commitFirst onePrepared).1.toOption.isSome = true := by
    decide +kernel
  obtain ⟨txn, hlookup⟩ := Option.isSome_iff_exists.mp hknown
  obtain ⟨made, hmade⟩ := Option.isSome_iff_exists.mp hreturned
  rw [hlookup] at hown
  have hreach : Reachable (transactionSystem MemoryBackend checksums)
      (fun s label => label.Guard s) onePrepared := by
    apply runCalls_reachable
    intro s label hlabel
    simp only [List.mem_cons, List.not_mem_nil, or_false] at hlabel
    rcases hlabel with rfl | rfl | rfl
    · exact True.intro
    · exact True.intro
    · exact True.intro
  obtain ⟨tree, htree, hmap⟩ := commit_isolated hreach (guard_of_ownStaging hlookup hown) hlookup
    (commitFirst_eq (Outcome.eq_ok_of_toOption hmade)) (by decide +kernel)
  exact ⟨txn, made, tree, hlookup, Outcome.eq_ok_of_toOption hmade, htree, hmap⟩

/-- The file `b` of the second transaction is in the commit of the first. -/
theorem commit_takes_other_paths :
    Reachable (transactionSystem MemoryBackend checksums) (fun _ _ => True) bothPrepared ∧
      checksums.Faithful (commitFirst bothPrepared).2.repo.store.hashed ∧
      ∃ txn made, bothPrepared.manager.txns.lookup firstID = some txn ∧
        (commitFirst bothPrepared).1 = .ok made ∧
        ¬ ∃ tree,
          (commitFirst bothPrepared).2.repo.store.treeAt checksums made.treeHash = some tree ∧
          ∀ path, tree.toMap path = txn.overlay
            (bothPrepared.repo.store.commitMap checksums made.parentHash) path := by
  have hknown : (bothPrepared.manager.txns.lookup firstID).isSome = true := by
    decide +kernel
  have hreturned : (commitFirst bothPrepared).1.toOption.isSome = true := by
    decide +kernel
  have hunwritten : (bothPrepared.manager.txns.lookup firstID).all
      (fun txn => !txn.writeSet.contains (str "b")) = true := by
    decide +kernel
  have hroot : (commitFirst bothPrepared).1.toOption.all
      (fun made => made.parentHash = []) = true := by decide +kernel
  have hthere : ((commitFirst bothPrepared).1.toOption.bind fun made =>
      ((commitFirst bothPrepared).2.repo.store.treeAt checksums
        made.treeHash).bind fun tree => tree.toMap (str "b")).isSome = true := by decide +kernel
  obtain ⟨txn, hlookup⟩ := Option.isSome_iff_exists.mp hknown
  obtain ⟨made, hmade⟩ := Option.isSome_iff_exists.mp hreturned
  refine ⟨runCalls_reachable _ _ fun _ _ _ => trivial, by decide +kernel, txn,
    made, hlookup, Outcome.eq_ok_of_toOption hmade, ?_⟩
  rintro ⟨tree, htree, hmap⟩
  have hb := hmap (str "b")
  rw [hlookup] at hunwritten
  rw [hmade] at hroot hthere
  rw [Option.bind_some, htree, Option.bind_some, hb] at hthere
  simp only [Option.all_some, decide_eq_true_eq, Bool.not_eq_true',
    GoMap.contains, Option.isSome_eq_false_iff,
    Option.isNone_iff_eq_none] at hroot hunwritten
  simp [AtomicTransaction.overlay, hunwritten, Store.commitMap, hroot] at hthere

end Govc
