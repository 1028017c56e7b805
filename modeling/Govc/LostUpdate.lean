import Govc.PrepareProtocol

/-!
# Lost updates

The conflict scan does not see a transaction that has moved on to its commit.  As
long as no `Prepare` succeeds while a concurrent writer of one of its paths is
committing or committed, at most one of two such transactions commits.
-/

namespace Govc

open Go
open AtomicTransaction (inState record)
open Runs

namespace Protocol

open ManagedRepository (Flagged Overlap Open Committable)

def Concurrent (s : Protocol) (id id' : GoString) : Prop := id ∉ s.past id' ∧ id' ∉ s.past id

/-- The transaction has passed its conflict scan and was not aborted. -/
def Locked (txn : AtomicTransaction) : Prop :=
  txn.state = .prepared ∨ txn.state = .committing ∨ txn.state = .committed

/-- A `Prepare` succeeds only while no concurrent writer of its paths is
committing or committed. -/
def Guard (s : Protocol) : ProtocolStep → Prop
  | .own id .finishPrepare => ∀ txn id' txn',
      s.manager.txns.lookup id = some txn →
      s.manager.txns.lookup id' = some txn' → id ≠ id' →
      s.Concurrent id id' → Overlap txn txn' →
      txn'.state ≠ .committing ∧ txn'.state ≠ .committed
  | _ => True

def Exclusive (s : Protocol) : Prop :=
  ∀ id txn id' txn', s.manager.txns.lookup id = some txn →
    s.manager.txns.lookup id' = some txn' → id ≠ id' → s.Concurrent id id' →
    Locked txn → Locked txn' → ¬ Overlap txn txn'

variable {s : Protocol} {id : GoString}

theorem Concurrent.symm (h : s.Concurrent id id') : s.Concurrent id' id := ⟨h.2, h.1⟩

variable {s' : Protocol} {txn : AtomicTransaction}

theorem nextOf_locked (hkept : s.Kept txn.id txn (s.phase txn.id))
    (hnext : s.nextOf txn step = some s') :
    ∃ txn', s'.manager.txns = s.manager.txns.insert txn.id txn' ∧
      s'.past = s.past ∧ (Locked txn' → txn'.writeSet = txn.writeSet ∧
        (Locked txn ∨ step = .finishPrepare ∧ txn'.state = .prepared)) := by
  have hallowed := hkept.allowed
  cases step with
  | fileOperation path fileOp =>
    simp only [nextOf] at hnext
    split_ifs at hnext with hcond
    cases hnext
    refine ⟨txn.record path fileOp, rfl, rfl, ?_⟩
    intro hlocked
    have hstate : Open txn := hcond.2.1
    simp only [Locked, record] at hlocked
    rcases hstate with h | h <;> simp [h] at hlocked
  | raiseFlag =>
    simp only [nextOf] at hnext
    split_ifs at hnext with hcond
    cases hnext
    exact ⟨txn.inState .preparing, rfl, rfl, fun hlocked => by simp [Locked, inState] at hlocked⟩
  | startScan order =>
    simp only [nextOf] at hnext
    split_ifs at hnext with hcond
    cases hnext
    exact ⟨txn, rfl, rfl, fun hlocked => ⟨rfl, .inl hlocked⟩⟩
  | check order =>
    simp only [nextOf] at hnext
    split at hnext
    · cases hnext
      unfold checkOne
      split_ifs with hself
      · exact ⟨txn, rfl, rfl, fun hlocked => ⟨rfl, .inl hlocked⟩⟩
      · split
        · exact ⟨txn, rfl, rfl, fun hlocked => ⟨rfl, .inl hlocked⟩⟩
        · exact ⟨_, rfl, rfl, fun hlocked => ⟨rfl, .inl hlocked⟩⟩
    · cases hnext
  | reportConflict =>
    simp only [nextOf] at hnext
    split_ifs at hnext with hphase
    cases hnext
    exact ⟨txn.inState .conflicted, rfl, rfl, fun hlocked => by simp [Locked, inState] at hlocked⟩
  | finishPrepare =>
    simp only [nextOf] at hnext
    split_ifs at hnext with hphase
    cases hnext
    exact ⟨txn.prepared, rfl, rfl, fun _ => ⟨rfl, .inr ⟨rfl, rfl⟩⟩⟩
  | startCommit =>
    simp only [nextOf] at hnext
    split_ifs at hnext with hcond
    cases hnext
    refine ⟨txn.inState .committing, rfl, rfl, fun _ => ⟨rfl, .inl ?_⟩⟩
    rcases hcond.2 with h | h
    · exact .inl h
    · exact .inr (.inl h)
  | finishCommit stored =>
    simp only [nextOf] at hnext
    split_ifs at hnext with hphase hstored
    · cases hnext
      rw [hphase] at hallowed
      exact ⟨txn.inState .committed, rfl, rfl, fun _ => ⟨rfl, .inl (.inr (.inl hallowed))⟩⟩
    · cases hnext
      exact ⟨txn.inState .aborted, rfl, rfl, fun hlocked => by
        simp [Locked, inState] at hlocked⟩
  | retireCommitted =>
    simp only [nextOf] at hnext
    split_ifs at hnext with hphase
    cases hnext
    exact ⟨_, rfl, rfl, fun hlocked => ⟨rfl, .inl hlocked⟩⟩
  | startAbort =>
    simp only [nextOf] at hnext
    split_ifs at hnext with hcond
    cases hnext
    exact ⟨txn.inState .aborting, rfl, rfl, fun hlocked => by simp [Locked, inState] at hlocked⟩
  | finishAbort =>
    simp only [nextOf] at hnext
    split_ifs at hnext with hphase
    cases hnext
    exact ⟨txn.inState .aborted, rfl, rfl, fun hlocked => by simp [Locked, inState] at hlocked⟩
  | retireAborted =>
    simp only [nextOf] at hnext
    split_ifs at hnext with hphase
    cases hnext
    exact ⟨_, rfl, rfl, fun hlocked => ⟨rfl, .inl hlocked⟩⟩

/-- A transaction that takes the lock is apart from every concurrent one that
has it: from the prepared ones by the protocol, from the others by the
guard. -/
theorem apart_of_finishPrepare (hordered : s'.Ordered) (hguard : s.Guard (.own id .finishPrepare))
    (hlookup : s.manager.txns.lookup id = some txn)
    (hlookup' : s'.manager.txns.lookup id = some txn')
    (hprepared : txn'.state = .prepared)
    (hwrites : txn'.writeSet = txn.writeSet)
    (hother : s.manager.txns.lookup id' = some other)
    (hother' : s'.manager.txns.lookup id' = some other) (hne : id ≠ id')
    (hconcurrent : s.Concurrent id id') (hlocked : Locked other) :
    ¬ Overlap txn' other := by
  intro hoverlap
  have hoverlap' : Overlap txn other := by
    unfold Overlap at hoverlap ⊢
    rw [← hwrites]
    exact hoverlap
  obtain ⟨hcommitting, hcommitted⟩ := hguard txn id' other hlookup hother hne hconcurrent hoverlap'
  rcases hlocked with hstate | hstate | hstate
  · exact hordered.apart id txn' id' other hlookup' hother' hne
      (.inr hprepared) (.inr hstate) (.inl hprepared) (.inl hstate) hoverlap
  · exact hcommitting hstate
  · exact hcommitted hstate

theorem Exclusive.own (hordered : s.Ordered) (hexclusive : s.Exclusive)
    (hguard : s.Guard (.own id step))
    (hnext : s.next (.own id step) = some s') : s'.Exclusive := by
  have hordered' := hordered.next hnext
  obtain ⟨txn, hlookup, hstep⟩ := Option.bind_eq_some_iff.mp hnext
  have hid := (hordered.kept id txn hlookup).keyed
  subst hid
  obtain ⟨txn', htxns, hpast, hlock⟩ := nextOf_locked (hordered.kept txn.id txn hlookup) hstep
  have hnew : s'.manager.txns.lookup txn.id = some txn' := by
    rw [htxns, AList.lookup_insert]
  have hold : ∀ id', id' ≠ txn.id → s'.manager.txns.lookup id' = s.manager.txns.lookup id' := by
    intro id' hne
    rw [htxns, AList.lookup_insert_ne hne]
  have hsame : ∀ id₁ id₂, s'.Concurrent id₁ id₂ ↔ s.Concurrent id₁ id₂ := by
    intro id₁ id₂
    unfold Concurrent
    rw [hpast]
  -- The changed transaction against any other one.
  have hcase : ∀ id' other, s'.manager.txns.lookup id' = some other →
      id' ≠ txn.id → s'.Concurrent txn.id id' → Locked txn' →
      Locked other → ¬ Overlap txn' other := by
    intro id' other hother hne hconcurrent hlocked hlocked'
    have hbefore := hother
    rw [hold id' hne] at hbefore
    rw [hsame] at hconcurrent
    obtain ⟨hwrites, hwas | ⟨rfl, hprepared⟩⟩ := hlock hlocked
    · intro hoverlap
      unfold Overlap at hoverlap
      rw [hwrites] at hoverlap
      exact hexclusive txn.id txn id' other hlookup hbefore (Ne.symm hne)
        hconcurrent hwas hlocked' hoverlap
    · exact apart_of_finishPrepare hordered' hguard hlookup hnew hprepared
        hwrites hbefore hother (Ne.symm hne) hconcurrent hlocked'
  intro id₁ txn₁ id₂ txn₂ h₁ h₂ hne hconcurrent hlocked₁ hlocked₂
  by_cases heq₁ : id₁ = txn.id
  · subst heq₁
    rw [hnew] at h₁
    cases h₁
    exact hcase id₂ txn₂ h₂ (Ne.symm hne) hconcurrent hlocked₁ hlocked₂
  · by_cases heq₂ : id₂ = txn.id
    · subst heq₂
      rw [hnew] at h₂
      cases h₂
      intro hoverlap
      exact hcase id₁ txn₁ h₁ heq₁ hconcurrent.symm hlocked₂ hlocked₁ hoverlap.symm
    · rw [hold id₁ heq₁] at h₁
      rw [hold id₂ heq₂] at h₂
      rw [hsame] at hconcurrent
      exact hexclusive id₁ txn₁ id₂ txn₂ h₁ h₂ hne hconcurrent hlocked₁ hlocked₂

theorem Exclusive.begin (hexclusive : s.Exclusive)
    (hnext : s.next (.begin unixNano snapshot) = some s') : s'.Exclusive := by
  cases hnext
  have hcases : ∀ id txn,
      (s.manager.begun (ManagedRepository.generateTransactionID unixNano
        (s.manager.nextTxnID + 1)) snapshot).txns.lookup id = some txn →
      Locked txn → id ≠ ManagedRepository.generateTransactionID unixNano
        (s.manager.nextTxnID + 1) ∧ s.manager.txns.lookup id = some txn := by
    intro id txn hlookup hlocked
    rcases GoMap.lookup_insert_cases hlookup with ⟨-, rfl⟩ | hold
    · simp [Locked, AtomicTransaction.new] at hlocked
    · exact hold
  intro id₁ txn₁ id₂ txn₂ h₁ h₂ hne hconcurrent hlocked₁ hlocked₂
  obtain ⟨hne₁, hold₁⟩ := hcases id₁ txn₁ h₁ hlocked₁
  obtain ⟨hne₂, hold₂⟩ := hcases id₂ txn₂ h₂ hlocked₂
  unfold Concurrent at hconcurrent
  simp only [Function.update_of_ne hne₁, Function.update_of_ne hne₂] at hconcurrent
  exact hexclusive id₁ txn₁ id₂ txn₂ hold₁ hold₂ hne hconcurrent hlocked₁ hlocked₂

theorem exclusive_of_reachable (hreach : Reachable protocolSystem Guard s) :
    s.Ordered ∧ s.Exclusive := by
  apply hreach.invariant
  · rintro first rfl
    refine ⟨ordered_new, ?_⟩
    intro id txn _ _ hlookup
    cases hlookup
  · rintro before label after ⟨hordered, hexclusive⟩ hguard hnext
    refine ⟨hordered.next hnext, ?_⟩
    cases label with
    | draw =>
      cases hnext
      exact hexclusive
    | begin unixNano snapshot => exact hexclusive.begin hnext
    | own id step => exact hexclusive.own hordered hguard hnext

def Final (txn : AtomicTransaction) : Prop :=
  txn.state = .committed ∨ txn.state = .aborted ∨ txn.state = .conflicted

/-- Of two concurrent transactions that share a path, at most one commits in a
guarded run, and the other one can only end aborted or conflicted. -/
theorem one_writer_commits {s : Protocol}
    (hreach : Reachable protocolSystem Guard s)
    {id id' : GoString} {txn txn' : AtomicTransaction}
    (hlookup : s.manager.txns.lookup id = some txn)
    (hlookup' : s.manager.txns.lookup id' = some txn') (hne : id ≠ id')
    (hconcurrent : s.Concurrent id id') (hoverlap : Overlap txn txn')
    (hcommitted : txn.state = .committed) :
    txn'.state ≠ .committed ∧ (Final txn' → txn'.state = .aborted ∨ txn'.state = .conflicted) := by
  have hno : txn'.state ≠ .committed := by
    intro hcommitted'
    exact (exclusive_of_reachable hreach).2 id txn id' txn' hlookup hlookup'
      hne hconcurrent (.inr (.inr hcommitted)) (.inr (.inr hcommitted'))
      hoverlap
  exact ⟨hno, fun hfinal => hfinal.resolve_left hno⟩

/-! ## Two runs -/

def quiet (s : Protocol) : Bool := s.manager.txns.keys.all fun id =>
    s.stateOf id ≠ some .committing ∧ s.stateOf id ≠ some .committed

def allowQuiet (s : Protocol) : ProtocolStep → Bool
  | .own _ .finishPrepare => s.quiet
  | _ => true

theorem guard_of_allowQuiet (s : Protocol) {label : ProtocolStep}
    (hallow : s.allowQuiet label = true) : s.Guard label := by
  cases label with
  | own id step =>
    cases step with
    | finishPrepare =>
      intro txn id' txn' _ hlookup' _ _ _
      have hmem : id' ∈ s.manager.txns.keys :=
        AList.mem_keys.mpr (AList.lookup_isSome.mp (by rw [hlookup']; rfl))
      have hstate := List.all_eq_true.mp hallow id' hmem
      rw [stateOf, hlookup'] at hstate
      simpa using hstate
    | _ => trivial
  | _ => trivial

def commitSteps (id : GoString) : List ProtocolStep :=
  [.own id .startCommit, .own id (.finishCommit true), .own id .retireCommitted]

def sharedSteps : List ProtocolStep :=
  [.begin 0 ∅, .begin 0 ∅, .own firstID (.fileOperation (str "a") ⟨.create, [], str "x"⟩),
    .own secondID (.fileOperation (str "a") ⟨.create, [], str "y"⟩)]

def conflictSteps : List ProtocolStep :=
  sharedSteps ++ prepareSteps firstID 2 ++
    [.own secondID .raiseFlag, .own secondID (.startScan .inserted)] ++
    List.replicate 2 (.own secondID (.check .inserted)) ++
    [.own secondID .reportConflict] ++ commitSteps firstID

def overtakeSteps : List ProtocolStep :=
  sharedSteps ++ prepareSteps firstID 2 ++ commitSteps firstID ++
    prepareSteps secondID 1 ++ commitSteps secondID

def sharesPath (s : Protocol) (path : GoString) : Bool :=
  (s.manager.txns.lookup firstID).any (fun txn => txn.writeSet.contains path) &&
    (s.manager.txns.lookup secondID).any fun txn => txn.writeSet.contains path

theorem overlap_of_sharesPath (hlookup : s.manager.txns.lookup firstID = some txn)
    (hlookup' : s.manager.txns.lookup secondID = some txn')
    (hshares : s.sharesPath path = true) : Overlap txn txn' := by
  rw [sharesPath, hlookup, hlookup', Bool.and_eq_true] at hshares
  exact ⟨path, hshares.1, hshares.2⟩

theorem one_writer_commits_conflict :
    ∃ s txn', runSteps allowQuiet conflictSteps = some s ∧ s.stateOf firstID = some .committed ∧
      s.manager.txns.lookup secondID = some txn' ∧
      txn'.state ≠ .committed ∧
      (Final txn' → txn'.state = .aborted ∨ txn'.state = .conflicted) := by
  have hruns : (runSteps allowQuiet conflictSteps).isSome = true := by
    decide +kernel
  have hends : (runSteps allowQuiet conflictSteps).all (fun s =>
      s.stateOf firstID = some .committed ∧ s.stateOf secondID = some .conflicted ∧
        s.past firstID = [] ∧ s.past secondID = [] ∧
        s.sharesPath (str "a") = true) = true := by decide +kernel
  obtain ⟨s, hrun⟩ := Option.isSome_iff_exists.mp hruns
  rw [hrun, Option.all_some, decide_eq_true_eq] at hends
  obtain ⟨hstate, hstate', hpast, hpast', hshares⟩ := hends
  obtain ⟨txn, hlookup, hcommitted⟩ := lookup_of_stateOf hstate
  obtain ⟨txn', hlookup', -⟩ := lookup_of_stateOf hstate'
  have hconcurrent : s.Concurrent firstID secondID := by
    simp [Concurrent, hpast, hpast']
  exact ⟨s, txn', hrun, hstate, hlookup',
    one_writer_commits (runSteps_reachable guard_of_allowQuiet hrun) hlookup
      hlookup' (by decide) hconcurrent
      (overlap_of_sharesPath hlookup hlookup' hshares) hcommitted⟩

theorem two_writers_commit :
    ∃ s txn txn', Reachable protocolSystem (fun _ _ => True) s ∧
      s.manager.txns.lookup firstID = some txn ∧
      s.manager.txns.lookup secondID = some txn' ∧
      s.Concurrent firstID secondID ∧ Overlap txn txn' ∧
      txn.state = .committed ∧ txn'.state = .committed := by
  have hruns : (runSteps (fun _ _ => true) overtakeSteps).isSome = true := by
    decide +kernel
  have hends : (runSteps (fun _ _ => true) overtakeSteps).all (fun s =>
      s.stateOf firstID = some .committed ∧ s.stateOf secondID = some .committed ∧
        s.past firstID = [] ∧ s.past secondID = [] ∧
        s.sharesPath (str "a") = true) = true := by decide +kernel
  obtain ⟨s, hrun⟩ := Option.isSome_iff_exists.mp hruns
  rw [hrun, Option.all_some, decide_eq_true_eq] at hends
  obtain ⟨hstate, hstate', hpast, hpast', hshares⟩ := hends
  obtain ⟨txn, hlookup, hcommitted⟩ := lookup_of_stateOf hstate
  obtain ⟨txn', hlookup', hcommitted'⟩ := lookup_of_stateOf hstate'
  exact ⟨s, txn, txn', runSteps_reachable (fun _ _ _ => trivial) hrun,
    hlookup, hlookup', by simp [Concurrent, hpast, hpast'],
    overlap_of_sharesPath hlookup hlookup' hshares, hcommitted, hcommitted'⟩

end Protocol

end Govc
