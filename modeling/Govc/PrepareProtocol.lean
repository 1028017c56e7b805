import Govc.GuardedRuns
import Govc.TransactionSteps

/-!
# The prepare protocol, step by step

Between any two accesses to shared state another transaction may move: raising
the flag `Preparing`, each check of the conflict scan, the switch to `Prepared`,
start and end of commit and abort, and the removal from the active set are steps.
The manager's lock during the scan is left out, which only adds interleavings.

Both sides of a conflict raise their flag before they scan.  So of two
transactions that have both checked each other, the later check has seen a
raised flag, and their write sets are disjoint.
-/

namespace Govc

open Go
open AtomicTransaction (inState)
open Runs

inductive Phase where
  | idle
  | flagged
  | scanning (todo : List GoString)
  | clashed
  | committing
  | committed
  | aborting
  | aborted
  deriving DecidableEq

/-- The shared state of the transactions.  `past id` remembers which
transactions had committed when `id` began; no step reads it. -/
structure Protocol where
  manager : TransactionManager
  phase : GoString → Phase
  past : GoString → List GoString

inductive OwnStep where
  | fileOperation (path : GoString) (fileOp : AtomicFileOp)
  | raiseFlag
  | startScan (order : RangeOrder)
  | check (order : RangeOrder)
  | reportConflict
  | finishPrepare
  | startCommit
  | finishCommit (stored : Bool)
  | retireCommitted
  | startAbort
  | finishAbort
  | retireAborted

/-- A number is drawn without a transaction when the snapshot cannot be
taken. -/
inductive ProtocolStep where
  | draw
  | begin (unixNano : ℤ) (snapshot : GoMap GoString GoString)
  | own (id : GoString) (step : OwnStep)

namespace Protocol

open ManagedRepository (generateTransactionID conflictWith Open Committable
  Flagged Overlap)

def new : Protocol where
  manager := TransactionManager.new
  phase := fun _ => .idle
  past := fun _ => []

def move (s : Protocol) (txn : AtomicTransaction) (phase : Phase) : Protocol := { s with
    manager := { s.manager with txns := s.manager.txns.insert txn.id txn }
    phase := Function.update s.phase txn.id phase }

def retire (s : Protocol) (id : GoString) : Protocol := { s with manager :=
    { s.manager with activeTxns := s.manager.activeTxns.erase id } }

def committedIDs (s : Protocol) : List GoString := s.manager.txns.keys.filter fun id =>
    (s.manager.txns.lookup id).any fun txn => txn.state = .committed

def checkOne (s : Protocol) (txn : AtomicTransaction) (order : RangeOrder)
    (otherID : GoString) (rest : List GoString) : Protocol :=
  if otherID = txn.id then s.move txn (.scanning rest)
  else
    match (s.manager.txns.lookup otherID).bind (conflictWith order txn) with
    | none => s.move txn (.scanning rest)
    | some path =>
      s.move { txn with
        conflictSet := txn.conflictSet.insert path otherID } .clashed

/-- The step of a transaction that is there, if its phase and state allow
it. -/
def nextOf (s : Protocol) (txn : AtomicTransaction) : OwnStep → Option Protocol
  | .fileOperation path fileOp =>
    if s.phase txn.id = .idle ∧ Open txn ∧
        txn.conflictSet.lookup path = none then
      some (s.move (txn.record path fileOp) .idle)
    else none
  | .raiseFlag =>
    if s.phase txn.id = .idle ∧ Open txn then
      some (s.move (txn.inState .preparing) .flagged)
    else none
  | .startScan order =>
    if s.phase txn.id = .flagged then
      some (s.move txn (.scanning (order.visit s.manager.activeTxns.keys)))
    else none
  | .check order =>
    match s.phase txn.id with
    | .scanning (otherID :: rest) => some (s.checkOne txn order otherID rest)
    | _ => none
  | .reportConflict =>
    if s.phase txn.id = .clashed then
      some (s.move (txn.inState .conflicted) .idle)
    else none
  | .finishPrepare =>
    if s.phase txn.id = .scanning [] then some (s.move txn.prepared .idle)
    else none
  | .startCommit =>
    if s.phase txn.id = .idle ∧ Committable txn then
      some (s.move (txn.inState .committing) .committing)
    else none
  | .finishCommit stored =>
    if s.phase txn.id = .committing then
      if stored then
        some ({ s with manager := { s.manager with
          committedCount := s.manager.committedCount + 1 } }.move
            (txn.inState .committed) .committed)
      else some (s.move (txn.inState .aborted) .idle)
    else none
  | .retireCommitted =>
    if s.phase txn.id = .committed then
      some (({ s with manager := { s.manager with
        committedTxns := s.manager.committedTxns.insert txn.id () } }.retire
          txn.id).move { txn with completedClosed := true } .idle)
    else none
  | .startAbort =>
    if s.phase txn.id = .idle ∧ txn.state ≠ .committed then
      some (s.move (txn.inState .aborting) .aborting)
    else none
  | .finishAbort =>
    if s.phase txn.id = .aborting then
      some ({ s with manager := { s.manager with
        abortedCount := s.manager.abortedCount + 1 } }.move (txn.inState .aborted) .aborted)
    else none
  | .retireAborted =>
    if s.phase txn.id = .aborted then
      some ((s.retire txn.id).move { txn with completedClosed := true } .idle)
    else none

def next (s : Protocol) : ProtocolStep → Option Protocol
  | .draw =>
    some { s with manager := { s.manager with
      nextTxnID := s.manager.nextTxnID + 1 } }
  | .begin unixNano snapshot =>
    let id := generateTransactionID unixNano (s.manager.nextTxnID + 1)
    some { s with
      manager := s.manager.begun id snapshot
      past := Function.update s.past id s.committedIDs }
  | .own id step =>
    (s.manager.txns.lookup id).bind fun txn => s.nextOf txn step

end Protocol

def protocolSystem : System Protocol ProtocolStep where
  init s := s = Protocol.new
  step s label s' := s.next label = some s'

/-! ## The invariant -/

def Phase.Allows : Phase → TxnState → Prop
  | .idle, state => state ≠ .preparing
  | .flagged, state => state = .preparing
  | .scanning _, state => state = .preparing
  | .clashed, state => state = .preparing
  | .committing, state => state = .committing
  | .committed, state => state = .committed
  | .aborting, state => state = .aborting
  | .aborted, state => state = .aborted

namespace Protocol

open ManagedRepository (generateTransactionID conflictWith Open Committable
  Flagged Overlap conflictWith_eq_none_iff contains_iff_mem_keys mem_visit)

/-- The transaction has checked `other` since it raised its flag. -/
def Passed (txn : AtomicTransaction) (phase : Phase) (other : GoString) : Prop :=
  txn.state = .prepared ∨ ∃ todo, phase = .scanning todo ∧ other ∉ todo

/-- What holds of every transaction that the manager knows by `id`. -/
structure Kept (s : Protocol) (id : GoString) (txn : AtomicTransaction)
    (phase : Phase) : Prop where
  keyed : txn.id = id
  serial : serialOf id ≤ s.manager.nextTxnID
  allowed : phase.Allows txn.state
  active : txn.state = .pending ∨ Flagged txn → s.manager.activeTxns.contains id = true

/-- Two flagged transactions that have checked each other are disjoint. -/
structure Ordered (s : Protocol) : Prop where
  known : ∀ id, s.phase id ≠ .idle → (s.manager.txns.lookup id).isSome
  kept : ∀ id txn, s.manager.txns.lookup id = some txn → s.Kept id txn (s.phase id)
  apart : ∀ id txn id' txn', s.manager.txns.lookup id = some txn →
    s.manager.txns.lookup id' = some txn' → id ≠ id' →
    Flagged txn → Flagged txn' → Passed txn (s.phase id) id' →
    Passed txn' (s.phase id') id → ¬ Overlap txn txn'

variable {s : Protocol}

theorem Ordered.put (h : s.Ordered) (s' : Protocol)
    (id : GoString) (txn : AtomicTransaction) (phase : Phase)
    (htxns : s'.manager.txns = s.manager.txns.insert id txn)
    (hphase : s'.phase = Function.update s.phase id phase)
    (hnext : s.manager.nextTxnID ≤ s'.manager.nextTxnID)
    (hactive : ∀ other, other ≠ id → s.manager.activeTxns.contains other = true →
      s'.manager.activeTxns.contains other = true)
    (hkept : s'.Kept id txn phase)
    (hapart : ∀ id' other, id' ≠ id → s.manager.txns.lookup id' = some other →
      Flagged txn → Flagged other → Passed txn phase id' →
      Passed other (s.phase id') id → ¬ Overlap txn other) :
    s'.Ordered := by
  have hsame : s'.phase id = phase := by
    rw [hphase, Function.update_self]
  have hother : ∀ id', id' ≠ id → s'.phase id' = s.phase id' := by
    intro id' hne
    rw [hphase, Function.update_of_ne hne]
  constructor
  · intro id' hbusy
    rw [htxns, GoMap.lookup_insert_eq]
    split_ifs with heq
    · rfl
    · rw [hother id' heq] at hbusy
      exact h.known id' hbusy
  · intro id' other hfound
    rw [htxns] at hfound
    rcases GoMap.lookup_insert_cases hfound with ⟨rfl, rfl⟩ | ⟨hne, hold⟩
    · rw [hsame]
      exact hkept
    · rw [hother id' hne]
      have hold' := h.kept id' other hold
      exact ⟨hold'.keyed, hold'.serial.trans hnext, hold'.allowed,
        fun hstate => hactive id' hne (hold'.active hstate)⟩
  · rw [htxns]
    apply GoMap.pairs_insert
    · intro _ _ _ _ hpair hflag hflag' hpassed hpassed' hoverlap
      exact hpair hflag' hflag hpassed' hpassed hoverlap.symm
    · intro id' other hne hlookup
      rw [hsame, hother id' hne]
      exact hapart id' other hne hlookup
    · intro id₁ txn₁ id₂ txn₂ hne₁ hne₂
      rw [hother id₁ hne₁, hother id₂ hne₂]
      exact h.apart id₁ txn₁ id₂ txn₂

theorem Ordered.move (h : s.Ordered) (txn : AtomicTransaction) (phase : Phase)
    (hkept : s.Kept txn.id txn phase) (hapart : ∀ id' other, id' ≠ txn.id →
      s.manager.txns.lookup id' = some other → Flagged txn → Flagged other →
      Passed txn phase id' → Passed other (s.phase id') txn.id →
      ¬ Overlap txn other) :
    (s.move txn phase).Ordered :=
  h.put _ txn.id txn phase rfl rfl le_rfl (fun _ _ hactive => hactive)
    ⟨hkept.keyed, hkept.serial, hkept.allowed, hkept.active⟩ hapart

theorem Ordered.moveDown (h : s.Ordered) {txn : AtomicTransaction} {phase : Phase}
    (hkept : s.Kept txn.id txn phase) (hdown : ¬ Flagged txn) :
    (s.move txn phase).Ordered :=
  h.move txn phase hkept fun _ _ _ _ hflag => absurd hflag hdown

theorem contains_erase_of_ne {ν : Type} {m : GoMap GoString ν}
    {id other : GoString} (hne : other ≠ id) (h : m.contains other = true) :
    GoMap.contains (m.erase id) other = true := by
  rw [GoMap.contains, AList.lookup_erase_ne hne]
  exact h

section Steps

variable {s s' : Protocol} {txn : AtomicTransaction}

variable (h : s.Ordered) (hlookup : s.manager.txns.lookup txn.id = some txn)

include h hlookup

theorem Ordered.allowed {phase : Phase} (hphase : s.phase txn.id = phase) :
    phase.Allows txn.state :=
  hphase ▸ (h.kept txn.id txn hlookup).allowed

theorem Ordered.fileOperation (hnext : s.nextOf txn (.fileOperation path fileOp) = some s') :
    s'.Ordered := by
  have hkept := h.kept txn.id txn hlookup
  simp only [nextOf] at hnext
  split_ifs at hnext with hcond
  cases hnext
  have hallowed := hkept.allowed
  rw [hcond.1] at hallowed
  have hpending : txn.state = .pending := hcond.2.1.resolve_right hallowed
  apply h.moveDown
  · exact ⟨rfl, hkept.serial, hallowed, hkept.active⟩
  · rintro (hflag | hflag)
    · exact hallowed hflag
    · exact absurd (hpending.symm.trans hflag) (by decide)

theorem Ordered.raiseFlag (hnext : s.nextOf txn .raiseFlag = some s') : s'.Ordered := by
  have hkept := h.kept txn.id txn hlookup
  simp only [nextOf] at hnext
  split_ifs at hnext with hcond
  cases hnext
  have hactive : s.manager.activeTxns.contains txn.id = true := by
    apply hkept.active
    rcases hcond.2 with hpending | hpreparing
    · exact .inl hpending
    · exact .inr (.inl hpreparing)
  apply h.move (txn.inState .preparing) .flagged ⟨rfl, hkept.serial, rfl, fun _ => hactive⟩
  rintro id' other _ _ _ _ (hprepared | ⟨todo, hscanning, -⟩)
  · cases hprepared
  · cases hscanning

theorem Ordered.startScan (hnext : s.nextOf txn (.startScan order) = some s') : s'.Ordered := by
  have hkept := h.kept txn.id txn hlookup
  simp only [nextOf] at hnext
  split_ifs at hnext with hphase
  cases hnext
  have hstate : txn.state = .preparing := h.allowed hlookup hphase
  apply h.move txn (.scanning (order.visit s.manager.activeTxns.keys))
    ⟨rfl, hkept.serial, hstate, hkept.active⟩
  rintro id' other _ hother _ hflag (hprepared | ⟨todo, hscanning, hnot⟩)
  · exact absurd (hstate.symm.trans hprepared) (by decide)
  · cases hscanning
    have hactive := (h.kept id' other hother).active (.inr hflag)
    exact absurd ((mem_visit order _).mpr ((contains_iff_mem_keys _).mp hactive)) hnot

theorem Ordered.passOne (order : RangeOrder) (hphase : s.phase txn.id = .scanning (otherID :: rest))
    (hpass : otherID = txn.id ∨ (s.manager.txns.lookup otherID).bind
      (conflictWith order txn) = none) :
    (s.move txn (.scanning rest)).Ordered := by
  have hkept := h.kept txn.id txn hlookup
  have hstate : txn.state = .preparing := h.allowed hlookup hphase
  apply h.move txn (.scanning rest) ⟨rfl, hkept.serial, hstate, hkept.active⟩
  intro id' other hne hother hflag hflag' hpassed hpassed'
  by_cases heq : id' = otherID
  · have hnone := hpass.resolve_left (heq ▸ hne)
    rw [← heq, hother, Option.bind_some, conflictWith_eq_none_iff] at hnone
    exact hnone hflag'
  · rcases hpassed with hprepared | ⟨todo, hscanning, hnot⟩
    · exact absurd (hstate.symm.trans hprepared) (by decide)
    · cases hscanning
      apply h.apart txn.id txn id' other hlookup hother (Ne.symm hne) hflag hflag' _ hpassed'
      exact .inr ⟨otherID :: rest, hphase, by simp [heq, hnot]⟩

theorem Ordered.check (hnext : s.nextOf txn (.check order) = some s') : s'.Ordered := by
  have hkept := h.kept txn.id txn hlookup
  simp only [nextOf] at hnext
  split at hnext
  · rename_i otherID rest hphase
    cases hnext
    have hstate : txn.state = .preparing := h.allowed hlookup hphase
    unfold checkOne
    split_ifs with hself
    · exact h.passOne hlookup order hphase (.inl hself)
    · cases hfound : (s.manager.txns.lookup otherID).bind (conflictWith order txn) with
      | none => exact h.passOne hlookup order hphase (.inr hfound)
      | some path =>
        apply h.move { txn with
          conflictSet := txn.conflictSet.insert path otherID } .clashed
          ⟨rfl, hkept.serial, hstate, hkept.active⟩
        rintro id' other _ _ _ _ (hprepared | ⟨todo, hscanning, -⟩)
        · exact absurd (hstate.symm.trans hprepared) (by decide)
        · cases hscanning
  · cases hnext

theorem Ordered.finishPrepare (hnext : s.nextOf txn .finishPrepare = some s') : s'.Ordered := by
  have hkept := h.kept txn.id txn hlookup
  simp only [nextOf] at hnext
  split_ifs at hnext with hphase
  cases hnext
  have hstate : txn.state = .preparing := h.allowed hlookup hphase
  apply h.move txn.prepared .idle
    ⟨rfl, hkept.serial, nofun, fun _ => hkept.active (.inr (.inl hstate))⟩
  intro id' other hne hother _ hflag' _ hpassed'
  exact h.apart txn.id txn id' other hlookup hother (Ne.symm hne)
    (.inl hstate) hflag' (.inr ⟨[], hphase, by simp⟩) hpassed'

theorem Ordered.settle {s' : Protocol} (txn' : AtomicTransaction) (phase : Phase)
    (htxns : s'.manager.txns = s.manager.txns.insert txn.id txn')
    (hphase : s'.phase = Function.update s.phase txn.id phase)
    (hid : txn'.id = txn.id)
    (hnext : s'.manager.nextTxnID = s.manager.nextTxnID)
    (hactive : ∀ other, other ≠ txn.id → s.manager.activeTxns.contains other = true →
      s'.manager.activeTxns.contains other = true)
    (hallowed : phase.Allows txn'.state)
    (hstate : ¬ (txn'.state = .pending ∨ Flagged txn')) :
    s'.Ordered := by
  have hkept := h.kept txn.id txn hlookup
  refine h.put s' txn.id txn' phase htxns hphase hnext.ge hactive ?_ ?_
  · exact ⟨hid, hnext ▸ hkept.serial, hallowed, fun hopen => absurd hopen hstate⟩
  · intro _ _ _ _ hflag
    exact absurd (.inr hflag) hstate

theorem Ordered.ending
    (hstep : step = .reportConflict ∨ step = .startCommit ∨
      (∃ stored, step = .finishCommit stored) ∨ step = .retireCommitted ∨
      step = .startAbort ∨ step = .finishAbort ∨ step = .retireAborted)
    (hnext : s.nextOf txn step = some s') : s'.Ordered := by
  have hkeep : ∀ other, other ≠ txn.id → s.manager.activeTxns.contains other = true →
      s.manager.activeTxns.contains other = true := fun _ _ h => h
  have hretire : ∀ other, other ≠ txn.id → s.manager.activeTxns.contains other = true →
      GoMap.contains (s.manager.activeTxns.erase txn.id) other = true :=
    fun _ hne => contains_erase_of_ne hne
  rcases hstep with
    rfl | rfl | ⟨stored, rfl⟩ | rfl | rfl | rfl | rfl
  · simp only [nextOf] at hnext
    split_ifs at hnext with hphase
    cases hnext
    exact h.settle hlookup (txn.inState .conflicted) .idle rfl rfl rfl rfl
      hkeep (by simp [Phase.Allows, inState])
      (by simp [Flagged, inState])
  · simp only [nextOf] at hnext
    split_ifs at hnext with hcond
    cases hnext
    exact h.settle hlookup (txn.inState .committing) .committing rfl rfl
      rfl rfl hkeep rfl (by simp [Flagged, inState])
  · simp only [nextOf] at hnext
    split_ifs at hnext with hphase hstored
    · cases hnext
      exact h.settle hlookup (txn.inState .committed) .committed rfl rfl
        rfl rfl hkeep rfl (by simp [Flagged, inState])
    · cases hnext
      exact h.settle hlookup (txn.inState .aborted) .idle rfl rfl rfl rfl
        hkeep (by simp [Phase.Allows, inState])
        (by simp [Flagged, inState])
  · simp only [nextOf] at hnext
    split_ifs at hnext with hphase
    cases hnext
    have hstate : txn.state = .committed := h.allowed hlookup hphase
    exact h.settle hlookup { txn with completedClosed := true } .idle rfl
      rfl rfl rfl hretire (by simp [Phase.Allows, hstate])
      (by simp [Flagged, hstate])
  · simp only [nextOf] at hnext
    split_ifs at hnext with hcond
    cases hnext
    exact h.settle hlookup (txn.inState .aborting) .aborting rfl rfl rfl
      rfl hkeep rfl (by simp [Flagged, inState])
  · simp only [nextOf] at hnext
    split_ifs at hnext with hphase
    cases hnext
    exact h.settle hlookup (txn.inState .aborted) .aborted rfl rfl rfl rfl
      hkeep rfl (by simp [Flagged, inState])
  · simp only [nextOf] at hnext
    split_ifs at hnext with hphase
    cases hnext
    have hstate : txn.state = .aborted := h.allowed hlookup hphase
    exact h.settle hlookup { txn with completedClosed := true } .idle rfl
      rfl rfl rfl hretire (by simp [Phase.Allows, hstate])
      (by simp [Flagged, hstate])

theorem Ordered.own (hnext : s.nextOf txn step = some s') : s'.Ordered := by
  cases step with
  | fileOperation path fileOp => exact h.fileOperation hlookup hnext
  | raiseFlag => exact h.raiseFlag hlookup hnext
  | startScan order => exact h.startScan hlookup hnext
  | check order => exact h.check hlookup hnext
  | finishPrepare => exact h.finishPrepare hlookup hnext
  | _ => exact h.ending hlookup (by simp) hnext

omit hlookup

theorem Ordered.fresh (unixNano : ℤ) :
    s.manager.txns.lookup (generateTransactionID unixNano (s.manager.nextTxnID + 1)) = none ∧
      s.phase (generateTransactionID unixNano (s.manager.nextTxnID + 1)) = .idle := by
  have hnone : s.manager.txns.lookup
      (generateTransactionID unixNano (s.manager.nextTxnID + 1)) = none := by
    cases hlookup : s.manager.txns.lookup
        (generateTransactionID unixNano (s.manager.nextTxnID + 1)) with
    | none => rfl
    | some txn =>
      have hserial := (h.kept _ txn hlookup).serial
      rw [serialOf_generateTransactionID] at hserial
      omega
  refine ⟨hnone, ?_⟩
  by_contra hbusy
  have hsome := h.known _ hbusy
  rw [hnone] at hsome
  cases hsome

theorem Ordered.begin (hnext : s.next (.begin unixNano snapshot) = some s') : s'.Ordered := by
  cases hnext
  obtain ⟨-, hidle⟩ := h.fresh unixNano
  refine h.put _ _ (.new _ snapshot) .idle rfl ?_ (Nat.le_succ _) ?_ ?_ ?_
  · rw [← hidle, Function.update_eq_self]
  · intro other hne hactive
    simp only [TransactionManager.begun, GoMap.contains]
    rw [AList.lookup_insert_ne hne]
    exact hactive
  · refine ⟨rfl, ?_, by simp [Phase.Allows, AtomicTransaction.new],
      fun _ => ?_⟩
    · rw [serialOf_generateTransactionID]
      exact le_rfl
    · simp [TransactionManager.begun, GoMap.contains]
  · rintro _ _ _ _ (hflag | hflag)
    · cases hflag
    · cases hflag

theorem Ordered.draw (hnext : s.next .draw = some s') : s'.Ordered := by
  cases hnext
  refine ⟨h.known, ?_, h.apart⟩
  intro id txn hlookup
  have hkept := h.kept id txn hlookup
  exact ⟨hkept.keyed, hkept.serial.trans (Nat.le_succ _), hkept.allowed, hkept.active⟩

theorem Ordered.next (hnext : s.next label = some s') : s'.Ordered := by
  cases label with
  | draw => exact h.draw hnext
  | begin unixNano snapshot => exact h.begin hnext
  | own id step =>
    obtain ⟨txn, hlookup, hstep⟩ := Option.bind_eq_some_iff.mp hnext
    have hid := (h.kept id txn hlookup).keyed
    rw [← hid] at hlookup
    exact h.own hlookup hstep

end Steps

theorem ordered_new : Protocol.new.Ordered := by
  refine ⟨?_, ?_, ?_⟩
  · intro id hbusy
    exact absurd rfl hbusy
  · intro id txn hlookup
    cases hlookup
  · intro id txn _ _ hlookup
    cases hlookup

theorem ordered_of_reachable {guard : Protocol → ProtocolStep → Prop}
    (hreach : Reachable protocolSystem guard s) : s.Ordered := by
  apply hreach.invariant
  · rintro first rfl
    exact ordered_new
  · intro before label after hbefore _ hnext
    exact hbefore.next hnext

/-- Two transactions that are prepared at the same moment write different
paths, whatever the interleaving. -/
theorem prepared_disjoint {s : Protocol}
    (hreach : Reachable protocolSystem (fun _ _ => True) s)
    {id id' : GoString} {txn txn' : AtomicTransaction}
    (hlookup : s.manager.txns.lookup id = some txn)
    (hlookup' : s.manager.txns.lookup id' = some txn') (hne : id ≠ id')
    (hprepared : txn.state = .prepared) (hprepared' : txn'.state = .prepared) :
    ¬ ∃ path, txn.writeSet.contains path = true ∧ txn'.writeSet.contains path = true := by
  have hordered := ordered_of_reachable hreach
  exact hordered.apart id txn id' txn' hlookup hlookup' hne (.inr hprepared)
    (.inr hprepared') (.inl hprepared) (.inl hprepared')

def runSteps (allow : Protocol → ProtocolStep → Bool)
    (labels : List ProtocolStep) : Option Protocol :=
  labels.foldlM (fun s label => if allow s label then s.next label else none) new

theorem runSteps_reachable {guard : Protocol → ProtocolStep → Prop}
    (hallow : ∀ s label, allow s label = true → guard s label)
    (hrun : runSteps allow labels = some s) :
    Reachable protocolSystem guard s := by
  have hsteps : ∀ (labels : List ProtocolStep) (first : Protocol),
      Steps protocolSystem guard new first →
      labels.foldlM (fun s label =>
        if allow s label then s.next label else none) first = some s →
      Steps protocolSystem guard new s := by
    intro labels
    induction labels with
    | nil =>
      intro first hfirst hfold
      cases hfold
      exact hfirst
    | cons label rest ih =>
      intro first hfirst hfold
      rw [List.foldlM_cons] at hfold
      obtain ⟨middle, hmove, hrest⟩ := Option.bind_eq_some_iff.mp hfold
      split_ifs at hmove with hallowed
      exact ih middle (.tail hfirst (hallow first label hallowed) hmove) hrest
  exact ⟨new, rfl, hsteps labels new .refl hrun⟩

def prepareSteps (id : GoString) (n : ℕ) : List ProtocolStep :=
  [.own id .raiseFlag, .own id (.startScan .inserted)] ++
    List.replicate n (.own id (.check .inserted)) ++
    [.own id .finishPrepare]

def apartSteps : List ProtocolStep :=
  [.begin 0 ∅, .begin 0 ∅, .own firstID (.fileOperation (str "a") ⟨.create, [], str "x"⟩),
    .own secondID (.fileOperation (str "b") ⟨.create, [], str "y"⟩)] ++
    prepareSteps firstID 2 ++ prepareSteps secondID 2

def stateOf (s : Protocol) (id : GoString) : Option TxnState :=
  (s.manager.txns.lookup id).map AtomicTransaction.state

theorem lookup_of_stateOf {id : GoString}
    (hstate : s.stateOf id = some state) :
    ∃ txn, s.manager.txns.lookup id = some txn ∧ txn.state = state :=
  Option.map_eq_some_iff.mp hstate

theorem prepared_disjoint_apart :
    ∃ s txn txn', runSteps (fun _ _ => true) apartSteps = some s ∧
      s.manager.txns.lookup firstID = some txn ∧
      s.manager.txns.lookup secondID = some txn' ∧
      ¬ ∃ path, txn.writeSet.contains path = true ∧ txn'.writeSet.contains path = true := by
  have hruns : (runSteps (fun _ _ => true) apartSteps).isSome = true := by decide +kernel
  have hstates : (runSteps (fun _ _ => true) apartSteps).all (fun s =>
      s.stateOf firstID = some .prepared ∧
        s.stateOf secondID = some .prepared) = true := by decide +kernel
  obtain ⟨s, hrun⟩ := Option.isSome_iff_exists.mp hruns
  rw [hrun, Option.all_some, decide_eq_true_eq] at hstates
  obtain ⟨txn, hlookup, hprepared⟩ := lookup_of_stateOf hstates.1
  obtain ⟨txn', hlookup', hprepared'⟩ := lookup_of_stateOf hstates.2
  exact ⟨s, txn, txn', hrun, hlookup, hlookup',
    prepared_disjoint (runSteps_reachable (fun _ _ _ => trivial) hrun) hlookup hlookup' (by decide)
      hprepared hprepared'⟩

end Protocol

end Govc
