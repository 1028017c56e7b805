import Govc.GuardedRuns
import Govc.QueuedChanges

/-!
# The queue along a transaction

Every operation of an open transaction queues at most one change, after an
update of a record in place.  Along a run in which the keys are used with care,
the queue laid over the tables of the store is what the changes make of them,
one after the other.
-/

namespace Govc.Datastore

open Go

def TxOp.change (s : Session) : TxOp → Option Change
  | putObject hash data => some (.putObject hash data)
  | deleteObject hash => some (.deleteObject hash)
  | saveRepository pointer =>
    some (.saveRepository (s.process.records.repositories pointer).id pointer)
  | deleteRepository id => some (.deleteRepository id)
  | updateRepository _ id _ => (s.getRepository id).toOption.map fun pointer =>
    .saveRepository (s.process.records.repositories pointer).id pointer
  | saveUser pointer =>
    some (.saveUser (s.process.records.users pointer).id pointer)
  | deleteUser id => some (.deleteUser id)
  | updateUser _ id _ => (s.getUser id).toOption.map fun pointer =>
    .saveUser (s.process.records.users pointer).id pointer
  | saveRef repoID pointer =>
    some (.saveRef repoID (s.process.records.references pointer).name pointer)
  | deleteRef repoID name => some (.deleteRef repoID name)
  | updateRef repoID name _ =>
    (s.getRef repoID name).toOption.map fun pointer =>
      .saveRef repoID (s.process.records.references pointer).name pointer
  | logEvent pointer =>
    some (.logEvent (s.process.records.events pointer).id pointer)
  | setConfig key value => some (.setConfig key value)
  | deleteConfig key => some (.deleteConfig key)
  | rollback => none

def Session.queued (s : Session) (op : TxOp) : Option Change :=
  if s.tx.closed then none else op.change s

def Session.changes (s : Session) : List TxOp → List Change
  | [] => []
  | op :: rest => (s.queued op).toList ++ (s.perform op).changes rest

def TxOp.Keyed (s : Session) (op : TxOp) : Prop := ∀ c, s.queued op = some c → c.Keyed s

/-! ## One operation -/

structure SameKeys (before after : Records) : Prop where
  repositories : ∀ pointer, (after.repositories pointer).id = (before.repositories pointer).id
  users : ∀ pointer, (after.users pointer).id = (before.users pointer).id
  references : ∀ pointer, (after.references pointer).name = (before.references pointer).name

theorem SameKeys.refl (records : Records) : SameKeys records records :=
  ⟨fun _ => rfl, fun _ => rfl, fun _ => rfl⟩

theorem field_update {β : Type} {records : Pointer → β} {pointer : Pointer}
    {record : β} (field : β → GoString)
    (hsame : field record = field (records pointer)) (other : Pointer) :
    field (Function.update records pointer record other) = field (records other) := by
  by_cases hother : other = pointer
  · rw [hother, Function.update_self, hsame]
  · rw [Function.update_of_ne hother]

theorem Repository.id_revise (repo : Repository) (entry : GoString × Value) :
    (repo.revise entry).id = repo.id := by
  unfold Repository.revise
  cases entry.2 with
  | string v =>
    split_ifs with hname hdescription
    · rfl
    · rfl
    · rfl
  | bool v => rfl
  | time v => rfl
  | other => rfl

theorem User.id_revise (user : User) (entry : GoString × Value) :
    (user.revise entry).id = user.id := by
  unfold User.revise
  cases entry.2 with
  | string v =>
    split_ifs with hname hemail
    · rfl
    · rfl
    · rfl
  | bool v => rfl
  | time v => rfl
  | other => rfl

theorem foldl_field {α β γ : Type} {step : β → α → β} {field : β → γ}
    (hstep : ∀ b a, field (step b a) = field b) (items : List α) (b : β) :
    field (items.foldl step b) = field b := by
  induction items generalizing b with
  | nil => rfl
  | cons item rest ih =>
    rw [List.foldl_cons, ih, hstep]

namespace Session

variable {s : Session}

section

variable (hopen : s.tx.closed = false)

include hopen

theorem queue_of_open (change : MemoryTransaction → MemoryTransaction) :
    queue change s = (.ok (), { s with tx := change s.tx }) := by
  unfold queue
  rw [hopen]
  rfl

structure Performed (s : Session) (change : Option Change) (after : Session) :
    Prop where
  store : after.process.store = s.process.store
  keys : SameKeys s.process.records after.process.records
  tx : after.tx = change.elim s.tx fun c => c.enqueue s.tx

theorem performed_queue {c : Change} : Performed s (some c) (queue c.enqueue s).2 := by
  rw [queue_of_open hopen]
  exact ⟨rfl, .refl _, rfl⟩

theorem performed_edit (process : Process) (hstore : process.store = s.process.store)
    (hkeys : SameKeys s.process.records process.records) {c d : Change}
    (hsame : d = c) :
    Performed s (some c) (queue d.enqueue { s with process := process }).2 := by
  have hqueue := queue_of_open (s := { s with process := process }) hopen
  rw [hqueue, hsame]
  exact ⟨hstore, hkeys, rfl⟩

theorem performed_updateRepository {order : RangeOrder} {id : GoString} {updates : Updates} :
    Performed s ((TxOp.updateRepository order id updates).change s)
      (updateRepository order id updates s).2 := by
  change Performed s ((s.getRepository id).toOption.map _) _
  unfold updateRepository
  cases hfound : s.getRepository id with
  | error e => exact ⟨rfl, .refl _, rfl⟩
  | ok pointer =>
    have hid := foldl_field Repository.id_revise (updates.range order)
      (s.process.records.repositories pointer)
    have hkeys : SameKeys s.process.records
        (s.process.setRepository pointer ((updates.range order).foldl Repository.revise
          (s.process.records.repositories pointer))).records :=
      ⟨field_update Repository.id hid, fun _ => rfl, fun _ => rfl⟩
    exact performed_edit hopen (s.process.setRepository pointer _) rfl hkeys
      (congrArg (fun id => Change.saveRepository id pointer) (hkeys.repositories pointer))

theorem performed_updateUser {order : RangeOrder} {id : GoString} {updates : Updates} :
    Performed s ((TxOp.updateUser order id updates).change s)
      (updateUser order id updates s).2 := by
  change Performed s ((s.getUser id).toOption.map _) _
  unfold updateUser
  cases hfound : s.getUser id with
  | error e => exact ⟨rfl, .refl _, rfl⟩
  | ok pointer =>
    have hid := foldl_field User.id_revise (updates.range order) (s.process.records.users pointer)
    have hkeys : SameKeys s.process.records
        (s.process.setUser pointer ((updates.range order).foldl
          User.revise (s.process.records.users pointer))).records :=
      ⟨fun _ => rfl, field_update User.id hid, fun _ => rfl⟩
    exact performed_edit hopen (s.process.setUser pointer _) rfl hkeys
      (congrArg (fun id => Change.saveUser id pointer) (hkeys.users pointer))

theorem performed_updateRef {repoID name newHash : GoString} :
    Performed s ((TxOp.updateRef repoID name newHash).change s)
      (updateRef repoID name newHash s).2 := by
  change Performed s ((s.getRef repoID name).toOption.map _) _
  unfold updateRef
  cases hfound : s.getRef repoID name with
  | error e => exact ⟨rfl, .refl _, rfl⟩
  | ok pointer =>
    have hkeys : SameKeys s.process.records
        (s.process.setReference pointer
          { s.process.records.references pointer with
            hash := newHash }).records :=
      ⟨fun _ => rfl, fun _ => rfl, field_update Reference.name rfl⟩
    exact performed_edit hopen (s.process.setReference pointer _) rfl hkeys
      (congrArg (fun name => Change.saveRef repoID name pointer) (hkeys.references pointer))

theorem performed_perform {op : TxOp}
    (hgoes : op ≠ .rollback) : Performed s (op.change s) (s.perform op) := by
  cases op with
  | putObject hash data => exact performed_queue hopen
  | deleteObject hash => exact performed_queue hopen
  | saveRepository pointer =>
    exact performed_queue hopen
  | deleteRepository id => exact performed_queue hopen
  | updateRepository order id updates =>
    exact performed_updateRepository hopen
  | saveUser pointer => exact performed_queue hopen
  | deleteUser id => exact performed_queue hopen
  | updateUser order id updates =>
    exact performed_updateUser hopen
  | saveRef repoID pointer =>
    exact performed_queue hopen
  | deleteRef repoID name =>
    exact performed_queue hopen
  | updateRef repoID name newHash =>
    exact performed_updateRef hopen
  | logEvent pointer => exact performed_queue hopen
  | setConfig key value => exact performed_queue hopen
  | deleteConfig key => exact performed_queue hopen
  | rollback => exact absurd rfl hgoes

end

theorem tx_queue_of_closed (hclosed : s.tx.closed = true)
    (change : MemoryTransaction → MemoryTransaction) :
    (queue change s).2.tx = s.tx := by
  unfold queue
  rw [if_pos hclosed]

theorem tx_perform_of_closed (hclosed : s.tx.closed = true) :
    (s.perform op).tx = s.tx := by
  have hqueue : ∀ (process : Process) change,
      (queue change { s with process := process }).2.tx = s.tx :=
    fun process change =>
      tx_queue_of_closed (s := { s with process := process }) hclosed change
  cases op with
  | updateRepository order id updates =>
    change (updateRepository order id updates s).2.tx = s.tx
    unfold updateRepository
    cases s.getRepository id with
    | error e => rfl
    | ok pointer => exact hqueue _ _
  | updateUser order id updates =>
    change (updateUser order id updates s).2.tx = s.tx
    unfold updateUser
    cases s.getUser id with
    | error e => rfl
    | ok pointer => exact hqueue _ _
  | updateRef repoID name newHash =>
    change (updateRef repoID name newHash s).2.tx = s.tx
    unfold updateRef
    cases s.getRef repoID name with
    | error e => rfl
    | ok pointer => exact hqueue _ _
  | rollback =>
    change (rollback s).2.tx = s.tx
    unfold rollback
    split_ifs with hcommitted hrolledback
    · rfl
    · rfl
    · unfold MemoryTransaction.closed at hclosed
      simp [hcommitted, hrolledback] at hclosed
  | _ => exact hqueue s.process _

theorem closed_rollback {s : Session} : (s.perform .rollback).tx.closed = true := by
  change (rollback s).2.tx.closed = true
  unfold rollback MemoryTransaction.closed
  split_ifs with hcommitted hrolledback
  · rw [hcommitted, Bool.true_or]
  · rw [hrolledback, Bool.or_true]
  · exact Bool.or_true _

theorem closed_foldl_perform (hclosed : s.tx.closed = true)
    {ops : List TxOp} : (ops.foldl perform s).tx.closed = true := by
  induction ops generalizing s with
  | nil => exact hclosed
  | cons op rest ih =>
    apply ih
    rw [tx_perform_of_closed hclosed]
    exact hclosed

end Session

/-! ## The keys of the queue -/

theorem splitRefKey_refKey (hsome : repoID ≠ []) (hcolon : 58 ∉ repoID) :
    Session.splitRefKey (Process.refKey repoID name) = some (repoID, name) := by
  have hkey : Process.refKey repoID name = repoID ++ 58 :: name := by
    unfold Process.refKey
    rw [colon_eq, List.append_assoc]
    rfl
  unfold Session.splitRefKey
  rw [hkey, indexByte_append hcolon]
  dsimp only
  rw [if_pos (List.length_pos_of_ne_nil hsome), List.take_left, List.drop_append]
  simp

theorem refKey_of_splitRefKey (hsplit : Session.splitRefKey key = some (repoID, name)) :
    Process.refKey repoID name = key := by
  unfold Session.splitRefKey at hsplit
  cases hindex : indexByte key 58 with
  | none =>
    rw [hindex] at hsplit
    cases hsplit
  | some i =>
    rw [hindex] at hsplit
    dsimp only at hsplit
    split_ifs at hsplit with hpos
    cases hsplit
    obtain ⟨hlt, hget, -⟩ := List.findIdx?_eq_some_iff_getElem.mp hindex
    have hbyte : key[i] = 58 := by simpa using hget
    unfold Process.refKey
    rw [colon_eq, ← hbyte, List.append_assoc, List.singleton_append,
      List.getElem_cons_drop, List.take_append_drop]

def Filed (records : Records) (key : GoString) : Queued → Prop
  | .object _ => True
  | .repository pointer =>
    (records.repositories pointer).id = key ∧ key ≠ []
  | .user pointer => (records.users pointer).id = key ∧ key ≠ []
  | .reference pointer => ∃ repoID, Session.splitRefKey key =
      some (repoID, (records.references pointer).name)
  | .event _ => True
  | .config own _ => own = key

theorem Filed.congr (h : Filed before key value) (hkeys : SameKeys before after) :
    Filed after key value := by
  cases value with
  | repository pointer => exact ⟨(hkeys.repositories pointer).trans h.1, h.2⟩
  | user pointer => exact ⟨(hkeys.users pointer).trans h.1, h.2⟩
  | reference pointer =>
    obtain ⟨repoID, hsplit⟩ := h
    refine ⟨repoID, ?_⟩
    rw [hkeys.references pointer]
    exact hsplit
  | config own text => exact h
  | _ => trivial

/-- The keys of a change are those of the record that it saves. -/
def Change.Names (records : Records) : Change → Prop
  | saveRepository id pointer => (records.repositories pointer).id = id
  | saveUser id pointer => (records.users pointer).id = id
  | saveRef _ name pointer => (records.references pointer).name = name
  | _ => True

theorem TxOp.names_change {s : Session} {op : TxOp}
    (hchange : op.change s = some c) : c.Names s.process.records := by
  cases op with
  | saveRepository pointer => cases hchange; rfl
  | updateRepository order id updates =>
    obtain ⟨pointer, -, rfl⟩ := Option.map_eq_some_iff.mp hchange
    rfl
  | saveUser pointer => cases hchange; rfl
  | updateUser order id updates =>
    obtain ⟨pointer, -, rfl⟩ := Option.map_eq_some_iff.mp hchange
    rfl
  | saveRef repoID pointer => cases hchange; rfl
  | updateRef repoID name newHash =>
    obtain ⟨pointer, -, rfl⟩ := Option.map_eq_some_iff.mp hchange
    rfl
  | rollback => cases hchange
  | _ => cases hchange; trivial

theorem Change.filed {s : Session} {c : Change}
    (hnames : c.Names s.process.records) (hfits : c.Fits s)
    (hsaved : c.saved = some value) : Filed s.process.records c.key value := by
  cases c with
  | putObject hash data => cases hsaved; trivial
  | saveRepository id pointer => cases hsaved; exact ⟨hnames, hfits⟩
  | saveUser id pointer => cases hsaved; exact ⟨hnames, hfits⟩
  | saveRef repoID name pointer =>
    cases hsaved
    have hname : (s.process.records.references pointer).name = name := hnames
    refine ⟨repoID, ?_⟩
    rw [hname]
    exact splitRefKey_refKey hfits.1 hfits.2.1
  | logEvent id pointer => cases hsaved; trivial
  | setConfig key value => cases hsaved; rfl
  | _ => cases hsaved

/-! ## Runs -/

def Change.event : Change → Option (GoString × Pointer)
  | logEvent id pointer => some (id, pointer)
  | _ => none

theorem Change.eq_logEvent {c : Change} {id : GoString}
    (hevent : c.event = some (id, pointer)) : c = .logEvent id pointer := by
  cases c with
  | logEvent other found => cases hevent; rfl
  | _ => cases hevent

theorem mem_events {changes : List Change} {id : GoString} :
    (id, pointer) ∈ changes.filterMap Change.event ↔ Change.logEvent id pointer ∈ changes := by
  rw [List.mem_filterMap]
  constructor
  · rintro ⟨c, hmem, hevent⟩
    rw [← Change.eq_logEvent hevent]
    exact hmem
  · intro hmem
    exact ⟨_, hmem, rfl⟩

/-- The queue after the changes `done`. -/
structure Tracks (p : Process) (s : Session) (done : List Change) : Prop where
  store : s.process.store = p.store
  overlay : s.tx.overlay p.tables = done.foldl Change.apply p.tables
  filed : ∀ key value, s.tx.mutations.lookup key = some value → Filed s.process.records key value
  exclusive : ∀ key value, s.tx.mutations.lookup key = some value → ¬ s.tx.Deletes value.kind key
  recorded : ∀ key value, s.tx.mutations.lookup key = some value →
    ∃ c ∈ done, c.key = key ∧ c.saved = some value
  logged : ∀ id pointer, Change.logEvent id pointer ∈ done →
    s.tx.mutations.lookup id = some (.event pointer)
  once : (done.filterMap Change.event).Nodup

namespace Tracks

variable {p : Process} {s : Session} {done : List Change}

theorem beginTx (p : Process) : Tracks p p.beginTx [] := by
  constructor
  case store => rfl
  case overlay => exact overlay_empty p.tables
  case filed =>
    intro key value hlookup
    cases hlookup
  case exclusive =>
    intro key value hlookup
    cases hlookup
  case recorded =>
    intro key value hlookup
    cases hlookup
  case logged =>
    intro id pointer hmem
    cases hmem
  case once => exact List.nodup_nil

variable (h : Tracks p s done)

include h

theorem same (hperformed : s.Performed none after) : Tracks p after done := by
  obtain ⟨hstore, hkeys, htx⟩ := hperformed
  refine ⟨hstore.trans h.store, ?_, ?_, ?_, ?_, ?_, h.once⟩
  · rw [htx]
    exact h.overlay
  · rw [htx]
    exact fun key value hlookup => (h.filed key value hlookup).congr hkeys
  · rw [htx]
    exact h.exclusive
  · rw [htx]
    exact h.recorded
  · rw [htx]
    exact h.logged

theorem tables_eq : s.process.tables = p.tables := by
  unfold Process.tables
  rw [h.store]

theorem key_ne_of_logged {c : Change}
    (hkeyed : c.Keyed s) {id : GoString}
    (hmem : Change.logEvent id pointer ∈ done) : id ≠ c.key := by
  intro hsame
  have hlookup := h.logged id pointer hmem
  have hkind : (Queued.event pointer).kind = c.kind := hkeyed.own _ (hsame ▸ hlookup)
  cases c with
  | logEvent other found =>
    have hnew : s.tx.mutations.contains other = false := hkeyed.fits
    have hid : id = other := hsame
    rw [GoMap.contains, ← hid, hlookup] at hnew
    cases hnew
  | _ => cases hkind

theorem queue {c : Change}
    (hkeyed : c.Keyed s) (hnames : c.Names s.process.records)
    (hperformed : s.Performed (some c) after) :
    Tracks p after (done ++ [c]) := by
  obtain ⟨hstore, hkeys, htx⟩ := hperformed
  rw [Option.elim_some] at htx
  -- What is queued is the new value, or was queued under another key.
  have hcases : ∀ {key value},
      (c.enqueue s.tx).mutations.lookup key = some value →
      key = c.key ∧ c.saved = some value ∨
        key ≠ c.key ∧ s.tx.mutations.lookup key = some value := by
    intro key value hlookup
    rw [Change.lookup_mutations_enqueue] at hlookup
    split_ifs at hlookup with hkey
    · exact .inl ⟨hkey, hlookup⟩
    · exact .inr ⟨hkey, hlookup⟩
  constructor
  case store => exact hstore.trans h.store
  case overlay =>
    have hoverlay := hkeyed.overlay_enqueue
    rw [h.tables_eq, h.overlay] at hoverlay
    rw [htx, hoverlay, List.foldl_append]
    rfl
  case filed =>
    rw [htx]
    intro key value hlookup
    rcases hcases hlookup with ⟨rfl, hsaved⟩ | ⟨-, hold⟩
    · exact (Change.filed hnames hkeyed.fits hsaved).congr hkeys
    · exact (h.filed key value hold).congr hkeys
  case exclusive =>
    rw [htx]
    intro key value hlookup
    rcases hcases hlookup with ⟨rfl, hsaved⟩ | ⟨hkey, hold⟩
    · have hsome : c.saved ≠ none := by
        rw [hsaved]
        exact Option.some_ne_none value
      rw [Change.kind_of_saved hsaved]
      by_cases hobject : c.kind = .object
      · rintro ⟨hdeleted, -⟩
        rw [Change.lookup_deleted_enqueue, if_pos rfl, if_neg hsome, if_pos hobject] at hdeleted
        cases hdeleted
      · rw [Change.deletes_save hsome hobject]
        exact hkeyed.kept hobject hsome
    · rintro ⟨hdeleted, hshape⟩
      rw [Change.lookup_deleted_enqueue, if_neg hkey] at hdeleted
      exact h.exclusive key value hold ⟨hdeleted, hshape⟩
  case recorded =>
    rw [htx]
    intro key value hlookup
    rcases hcases hlookup with ⟨rfl, hsaved⟩ | ⟨-, hold⟩
    · exact ⟨c, by simp, rfl, hsaved⟩
    · obtain ⟨d, hmem, hd⟩ := h.recorded key value hold
      exact ⟨d, List.mem_append_left [c] hmem, hd⟩
  case logged =>
    rw [htx]
    intro id pointer hmem
    rw [Change.lookup_mutations_enqueue]
    rcases List.mem_append.mp hmem with hold | hnew
    · rw [if_neg (h.key_ne_of_logged hkeyed hold)]
      exact h.logged id pointer hold
    · rw [List.mem_singleton] at hnew
      rw [← hnew]
      exact if_pos rfl
  case once =>
    rw [List.filterMap_append]
    apply h.once.append
    · cases hevent : c.event <;> simp [hevent]
    · intro entry hold hnew
      rw [mem_events] at hold hnew
      rw [List.mem_singleton] at hnew
      apply h.key_ne_of_logged hkeyed hold
      rw [← hnew]
      rfl

theorem perform (hopen : s.tx.closed = false)
    {op : TxOp} (hkeyed : op.Keyed s) (hgoes : op ≠ .rollback) :
    Tracks p (s.perform op) (done ++ (s.queued op).toList) := by
  have hperformed := Session.performed_perform hopen hgoes
  have hqueued : s.queued op = op.change s := by
    unfold Session.queued
    rw [hopen]
    rfl
  rw [hqueued]
  cases hchange : op.change s with
  | none =>
    rw [hchange] at hperformed
    rw [Option.toList_none, List.append_nil]
    exact h.same hperformed
  | some c =>
    rw [hchange] at hperformed hqueued
    exact h.queue (hkeyed c hqueued) (TxOp.names_change hchange) hperformed

theorem run (hopen : s.tx.closed = false)
    (hkeyed : Runs.Admits Session.perform (fun s op => op.Keyed s) s ops)
    (hend : (ops.foldl Session.perform s).tx.closed = false) :
    Tracks p (ops.foldl Session.perform s) (done ++ s.changes ops) := by
  induction ops generalizing s done with
  | nil =>
    unfold Session.changes
    rw [List.append_nil]
    exact h
  | cons op rest ih =>
    have hnext : (s.perform op).tx.closed = false := by
      by_contra hclosed
      rw [Bool.not_eq_false] at hclosed
      rw [List.foldl_cons, Session.closed_foldl_perform hclosed] at hend
      cases hend
    have hgoes : op ≠ .rollback := by
      rintro rfl
      rw [Session.closed_rollback] at hnext
      cases hnext
    have hstep := h.perform hopen hkeyed.1 hgoes
    unfold Session.changes
    rw [← List.append_assoc]
    exact ih hstep hnext hkeyed.2 hend

end Tracks

end Govc.Datastore
