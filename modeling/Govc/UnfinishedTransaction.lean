import Govc.DatastoreTransaction
import Govc.GuardedRuns
import Govc.RefIsolation

/-!
# What an unfinished transaction shows

A transaction should not be seen before it is committed.  Its queue is not; but
an update changes the record where it is, and if that is a record of the store,
every reader of the store sees it, also after the transaction was rolled back.
-/

namespace Govc.Datastore

open Go

/-- What the reads of a store return, with the records that they point to. -/
@[ext]
structure Shown where
  getObject : GoString → Except GoString Bytes
  hasObject : GoString → Bool
  listObjects : RangeOrder → GoString → ℤ → List GoString
  iterateObjects : RangeOrder → GoString → List (GoString × Bytes)
  getObjects : List GoString → GoMap GoString Bytes
  getObjectSize : GoString → Except GoString ℕ
  countObjects : ℕ
  getStorageSize : ℤ
  getRepository : GoString → Except GoString Repository
  listRepositories : RangeOrder → RepositoryFilter → List Repository
  getUser : GoString → Except GoString User
  getUserByUsername : GoString → Except GoString User
  listUsers : RangeOrder → UserFilter → List User
  getRef : GoString → GoString → Except GoString Reference
  listRefs : RangeOrder → GoString → GoString → List Reference
  queryEvents : EventFilter → List AuditEvent
  countEvents : EventFilter → ℕ
  getConfig : GoString → Except GoString GoString
  getAllConfig : RangeOrder → GoMap GoString GoString
  healthCheck : Except GoString Unit
  info : ℕ × ℕ × ℕ × ℤ × ℤ

def Process.shown (p : Process) : Shown where
  getObject := fun hash => p.store.getObject hash
  hasObject := fun hash => p.store.hasObject hash
  listObjects := fun order pre limit => p.store.listObjects order pre limit
  iterateObjects := fun order pre => p.store.iterateObjects order pre
  getObjects := fun hashes => p.store.getObjects hashes
  getObjectSize := fun hash => p.store.getObjectSize hash
  countObjects := p.store.countObjects
  getStorageSize := p.store.getStorageSize
  getRepository := fun id =>
    (p.getRepository id).map p.records.repositories
  listRepositories := fun order filter =>
    (p.listRepositories order filter).map p.records.repositories
  getUser := fun id => (p.getUser id).map p.records.users
  getUserByUsername := fun username =>
    (p.getUserByUsername username).map p.records.users
  listUsers := fun order filter =>
    (p.listUsers order filter).map p.records.users
  getRef := fun repoID name =>
    (p.getRef repoID name).map p.records.references
  listRefs := fun order repoID refType =>
    (p.listRefs order repoID refType).map p.records.references
  queryEvents := fun filter =>
    (p.queryEvents filter).map p.records.events
  countEvents := fun filter => p.countEvents filter
  getConfig := fun key => p.store.getConfig key
  getAllConfig := fun order => p.store.getAllConfig order
  healthCheck := p.store.healthCheck
  info := p.store.info

namespace Process

def ShowsRepository (p : Process) (pointer : Pointer) : Prop :=
  ∃ id, p.store.repositories.lookup id = some pointer

def ShowsUser (p : Process) (pointer : Pointer) : Prop :=
  (∃ id, p.store.users.lookup id = some pointer) ∨
    ∃ username, p.store.usersByName.lookup username = some pointer

def ShowsReference (p : Process) (pointer : Pointer) : Prop :=
  ∃ repoID name, p.store.refs.lookup (refKey repoID name) = some pointer

variable {β : Type} {records : Pointer → β} {pointer : Pointer} {record : β}

theorem found_map_update {entry : Option Pointer}
    (hother : entry ≠ some pointer) :
    (found entry).map (Function.update records pointer record) = (found entry).map records := by
  cases entry with
  | none => rfl
  | some other =>
    have hne : other ≠ pointer := fun h => hother (congrArg some h)
    change Except.ok (Function.update records pointer record other) = _
    rw [Function.update_of_ne hne]
    rfl

theorem found_map_update_eq {entry : Option Pointer}
    (hsame : (found entry).map (Function.update records pointer record) =
      (found entry).map records) (hentry : entry = some pointer) :
    record = records pointer := by
  rw [hentry] at hsame
  change Except.ok (Function.update records pointer record pointer) =
    Except.ok (records pointer) at hsame
  rw [Function.update_self] at hsame
  exact Except.ok.inj hsame

variable {pointers : List Pointer}

theorem map_update (hother : pointer ∉ pointers) :
    pointers.map (Function.update records pointer record) = pointers.map records := by
  apply List.map_congr_left
  intro found hfound
  apply Function.update_of_ne
  rintro rfl
  exact hother hfound

variable (accepts : β → Bool)

theorem filter_update (hother : pointer ∉ pointers) : pointers.filter (fun found =>
      accepts (Function.update records pointer record found)) =
      pointers.filter fun found => accepts (records found) := by
  apply List.filter_congr
  intro found hfound
  rw [Function.update_of_ne]
  rintro rfl
  exact hother hfound

theorem filtered_update (hother : pointer ∉ pointers) : (pointers.filter fun found =>
      accepts (Function.update records pointer record found)).map
        (Function.update records pointer record) =
      (pointers.filter fun found => accepts (records found)).map records := by
  rw [filter_update accepts hother]
  exact map_update fun hmem => hother (List.mem_of_mem_filter hmem)

theorem mem_of_mem_window {α : Type} {offset limit : ℤ} {results : List α}
    {result : α} (hmem : result ∈ window offset limit results) :
    result ∈ results := by
  unfold window at hmem
  dsimp only at hmem
  split_ifs at hmem with hoffset hlimit hlimit
  · exact List.mem_of_mem_drop (List.mem_of_mem_take hmem)
  · exact List.mem_of_mem_drop hmem
  · exact List.mem_of_mem_take hmem
  · exact hmem

theorem listing_update (hother : pointer ∉ pointers) {offset limit : ℤ} :
    (window offset limit (pointers.filter fun found =>
      accepts (Function.update records pointer record found))).map
        (Function.update records pointer record) =
      (window offset limit (pointers.filter fun found =>
        accepts (records found))).map records := by
  rw [filter_update accepts hother]
  apply map_update
  intro hmem
  exact hother (List.mem_of_mem_filter (mem_of_mem_window hmem))

theorem not_mem_range {order : RangeOrder} {table : GoMap GoString Pointer}
    (hother : ∀ id, table.lookup id ≠ some pointer) :
    pointer ∉ (table.range order).map Prod.snd := by
  intro hmem
  obtain ⟨⟨id, found⟩, hrange, rfl⟩ := List.mem_map.mp hmem
  exact hother id ((GoMap.mem_range order table id).mp hrange)

/-! ## Changes in place -/

theorem shown_setRepository_iff {p : Process} {pointer : Pointer} {repo : Repository} :
    (p.setRepository pointer repo).shown = p.shown ↔
      (p.ShowsRepository pointer → repo = p.records.repositories pointer) := by
  constructor
  · rintro hsame ⟨id, hid⟩
    exact found_map_update_eq (congrFun (congrArg Shown.getRepository hsame) id) hid
  · intro hquiet
    by_cases hshows : p.ShowsRepository pointer
    · have hself : p.setRepository pointer repo = p := by
        unfold setRepository
        rw [hquiet hshows, Function.update_eq_self]
      rw [hself]
    · have hother : ∀ id, p.store.repositories.lookup id ≠ some pointer :=
        fun id hid => hshows ⟨id, hid⟩
      apply Shown.ext
      case getRepository =>
        funext id
        exact found_map_update (hother id)
      case listRepositories =>
        funext order filter
        exact listing_update filter.accepts (not_mem_range hother)
      all_goals rfl

theorem shown_setUser_iff {p : Process} {pointer : Pointer} {user : User} :
    (p.setUser pointer user).shown = p.shown ↔
      (p.ShowsUser pointer → user = p.records.users pointer) := by
  constructor
  · rintro hsame (⟨id, hid⟩ | ⟨username, husername⟩)
    · exact found_map_update_eq (congrFun (congrArg Shown.getUser hsame) id) hid
    · exact found_map_update_eq
        (congrFun (congrArg Shown.getUserByUsername hsame) username) husername
  · intro hquiet
    by_cases hshows : p.ShowsUser pointer
    · have hself : p.setUser pointer user = p := by
        unfold setUser
        rw [hquiet hshows, Function.update_eq_self]
      rw [hself]
    · have hother : ∀ id, p.store.users.lookup id ≠ some pointer :=
        fun id hid => hshows (.inl ⟨id, hid⟩)
      apply Shown.ext
      case getUser =>
        funext id
        exact found_map_update (hother id)
      case getUserByUsername =>
        funext username
        exact found_map_update fun hname => hshows (.inr ⟨username, hname⟩)
      case listUsers =>
        funext order filter
        exact listing_update filter.accepts (not_mem_range hother)
      all_goals rfl

theorem shown_setReference_iff {p : Process} {pointer : Pointer} {ref : Reference} :
    (p.setReference pointer ref).shown = p.shown ↔
      (p.ShowsReference pointer → ref = p.records.references pointer) := by
  constructor
  · rintro hsame ⟨repoID, name, hname⟩
    exact found_map_update_eq (congrFun (congrFun (congrArg Shown.getRef hsame) repoID) name) hname
  · intro hquiet
    by_cases hshows : p.ShowsReference pointer
    · have hself : p.setReference pointer ref = p := by
        unfold setReference
        rw [hquiet hshows, Function.update_eq_self]
      rw [hself]
    · apply Shown.ext
      case getRef =>
        funext repoID name
        exact found_map_update fun hname => hshows ⟨repoID, name, hname⟩
      case listRefs =>
        funext order repoID refType
        have hother : pointer ∉ ((p.store.refs.range order).filter fun entry =>
            hasPrefix entry.1 (repoID ++ str ":")).map Prod.snd := by
          intro hmem
          obtain ⟨⟨key, found⟩, hentry, rfl⟩ := List.mem_map.mp hmem
          obtain ⟨hrange, howns⟩ := List.mem_filter.mp hentry
          obtain ⟨name, rfl⟩ := owns_iff.mp howns
          exact hshows ⟨repoID, name, (GoMap.mem_range order _ _).mp hrange⟩
        exact filtered_update (fun ref : Reference => matchesText refType ref.type) hother
      all_goals rfl

end Process

/-! ## Operations -/

/-- The operation changes no record in place that a read of the store can
return, or leaves it as it is. -/
def TxOp.Quiet (s : Session) : TxOp → Prop
  | updateRepository order id updates => ∀ pointer,
      s.getRepository id = .ok pointer → s.process.ShowsRepository pointer →
      (updates.range order).foldl Repository.revise
        (s.process.records.repositories pointer) = s.process.records.repositories pointer
  | updateUser order id updates => ∀ pointer,
      s.getUser id = .ok pointer → s.process.ShowsUser pointer →
      (updates.range order).foldl User.revise
        (s.process.records.users pointer) = s.process.records.users pointer
  | updateRef repoID name newHash => ∀ pointer,
      s.getRef repoID name = .ok pointer → s.process.ShowsReference pointer →
      { s.process.records.references pointer with hash := newHash } =
        s.process.records.references pointer
  | _ => True

namespace Session

theorem process_queue {s : Session} : (queue change s).2.process = s.process := by
  unfold queue
  split_ifs with hclosed
  · rfl
  · rfl

theorem process_rollback {s : Session} : (rollback s).2.process = s.process := by
  unfold rollback
  split_ifs with hcommitted hrolledback
  · rfl
  · rfl
  · rfl

theorem shown_iff_of_process {s after : Session}
    (hprocess : after.process = s.process) :
    after.process.shown = s.process.shown ↔ True := by
  rw [hprocess]
  exact iff_true_intro rfl

theorem shown_updateRepository_iff {id : GoString}
    {s : Session} :
    (updateRepository order id updates s).2.process.shown = s.process.shown ↔
      (TxOp.updateRepository order id updates).Quiet s := by
  unfold updateRepository TxOp.Quiet
  cases hfound : s.getRepository id with
  | error e => simp [hfound]
  | ok pointer =>
    unfold saveRepository
    rw [process_queue, Process.shown_setRepository_iff]
    simp [hfound]

theorem shown_updateUser_iff {id : GoString}
    {s : Session} :
    (updateUser order id updates s).2.process.shown = s.process.shown ↔
      (TxOp.updateUser order id updates).Quiet s := by
  unfold updateUser TxOp.Quiet
  cases hfound : s.getUser id with
  | error e => simp [hfound]
  | ok pointer =>
    unfold saveUser
    rw [process_queue, Process.shown_setUser_iff]
    simp [hfound]

theorem shown_updateRef_iff {s : Session} :
    (updateRef repoID name newHash s).2.process.shown = s.process.shown ↔
      (TxOp.updateRef repoID name newHash).Quiet s := by
  unfold updateRef TxOp.Quiet
  cases hfound : s.getRef repoID name with
  | error e => simp [hfound]
  | ok pointer =>
    unfold saveRef
    rw [process_queue, Process.shown_setReference_iff]
    simp [hfound]

theorem shown_perform_iff (s : Session) (op : TxOp) :
    (s.perform op).process.shown = s.process.shown ↔ op.Quiet s := by
  cases op with
  | updateRepository order id updates =>
    exact shown_updateRepository_iff
  | updateUser order id updates => exact shown_updateUser_iff
  | updateRef repoID name newHash =>
    exact shown_updateRef_iff
  | rollback => exact shown_iff_of_process (process_rollback)
  | _ => exact shown_iff_of_process (process_queue)

end Session

/-- An unfinished transaction is not seen, at any time, if and only if each of
its operations is quiet. -/
theorem unfinished_invisible_iff (p : Process) (ops : List TxOp) :
    (∀ done, done <+: ops → (done.foldl Session.perform p.beginTx).process.shown = p.shown) ↔
      Runs.Admits Session.perform (fun s op => op.Quiet s) p.beginTx ops := by
  have hthroughout := Runs.same_throughout_iff Session.perform
    (fun s => s.process.shown) p.beginTx ops
  exact hthroughout.trans (Runs.admits_congr Session.shown_perform_iff p.beginTx ops)

def oneRepository : Process where
  records :=
    { Records.zero with
      repositories := fun _ => ⟨str "r", str "old", [], false, 1, 1⟩ }
  store := { MemoryStore.new 0 with repositories := AList.insert (str "r") 0 ∅ }

/-- The new name is seen before the commit, and after the rollback. -/
theorem rolled_back_update_seen :
    (([.updateRepository .inserted (str "r")
        (AList.insert (str "name") (.string (str "new")) ∅), .rollback].foldl
      Session.perform oneRepository.beginTx).process.shown).getRepository
        (str "r") ≠ oneRepository.shown.getRepository (str "r") := by
  decide +kernel

end Govc.Datastore
