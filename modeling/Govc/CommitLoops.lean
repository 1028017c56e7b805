import Govc.TransactionQueue
import Govc.UserIndexes

/-!
# The loops of `Commit`

`Commit` saves the queued values one after the other and then deletes.  Where no
save can fail, each pass of the first loop puts the value under its key, and
stamps its record; each pass of the second removes a key from the table that
its shape stands for.  The tables after both loops do not depend on the order
of the passes.
-/

namespace Govc.Datastore

open Go GoMap
open Change (apply sweep)
open Process (tables refKey)

/-! ## Times -/

def Stamp.andThen (first second : Stamp) : Stamp where
  uuid := if first.uuid = [] then second.uuid else first.uuid
  created := if first.created = 0 then second.created else first.created
  updated := second.updated

/-- Stamping twice is stamping once. -/
def Composes {τ β : Type} (stamped : τ → β → β) : Prop :=
  ∀ first second b, ∃ stamp, stamped second (stamped first b) = stamped stamp b

theorem Repository.composes_stamped : Composes Repository.stamped :=
  fun first second repo => ⟨first.andThen second, by
    grind [stamped, Stamp.andThen]⟩

theorem User.composes_stamped : Composes User.stamped :=
  fun first second user => ⟨first.andThen second, by
    grind [stamped, Stamp.andThen]⟩

theorem Reference.composes_stamped : Composes Reference.stamped :=
  fun first second ref => ⟨if first = 0 then second else first, by
    grind [stamped]⟩

theorem AuditEvent.composes_stamped : Composes AuditEvent.stamped :=
  fun first second event => ⟨first.andThen second, by
    grind [stamped, Stamp.andThen]⟩

/-- Only the records that the condition allows are stamped, and nothing else
happens to any. -/
def Stamped {τ β : Type} (stamped : τ → β → β) (allowed : Pointer → Prop)
    (before after : Pointer → β) : Prop :=
  ∀ pointer, after pointer = before pointer ∨
    allowed pointer ∧ ∃ stamp, after pointer = stamped stamp (before pointer)

namespace Stamped

variable {τ β : Type} {stamped : τ → β → β} {allowed other : Pointer → Prop}
  {before after : Pointer → β} {pointer : Pointer}

theorem refl (stamped : τ → β → β) (allowed : Pointer → Prop)
    (before : Pointer → β) : Stamped stamped allowed before before :=
  fun _ => .inl rfl

theorem weaken (h : Stamped stamped allowed before after)
    (hallowed : ∀ pointer, allowed pointer → other pointer) :
    Stamped stamped other before after := by
  intro found
  rcases h found with hsame | ⟨hfound, hstamped⟩
  · exact .inl hsame
  · exact .inr ⟨hallowed found hfound, hstamped⟩

theorem update (h : Stamped stamped allowed before after)
    (hcompose : Composes stamped) (hpointer : allowed pointer) (stamp : τ) :
    Stamped stamped allowed before
      (Function.update after pointer (stamped stamp (after pointer))) := by
  intro found
  by_cases hfound : found = pointer
  · subst hfound
    rw [Function.update_self]
    refine .inr ⟨hpointer, ?_⟩
    rcases h found with hsame | ⟨-, first, hfirst⟩
    · exact ⟨stamp, by rw [hsame]⟩
    · rw [hfirst]
      exact hcompose first stamp (before found)
  · rw [Function.update_of_ne hfound]
    exact h found

theorem field_eq {γ : Type} {field : β → γ}
    (h : Stamped stamped allowed before after)
    (hfield : ∀ stamp, field (stamped stamp (before pointer)) = field (before pointer)) :
    field (after pointer) = field (before pointer) := by
  rcases h pointer with hsame | ⟨-, stamp, hstamp⟩
  · rw [hsame]
  · rw [hstamp, hfield]

end Stamped

def MemoryTransaction.Queues (tx : MemoryTransaction)
    (value : Pointer → Queued) (pointer : Pointer) : Prop :=
  ∃ key, tx.mutations.lookup key = some (value pointer)

structure Restamped (repositories users references events : Pointer → Prop)
    (before after : Records) : Prop where
  repositories : Stamped Repository.stamped repositories before.repositories after.repositories
  users : Stamped User.stamped users before.users after.users
  references : Stamped Reference.stamped references before.references after.references
  events : Stamped AuditEvent.stamped events before.events after.events

/-! ## Saving -/

/-- Every save will succeed: the store is open, no object is too large, and no
other user, stored or queued, has the name or the email of a queued one. -/
structure Session.Ready (s : Session) : Prop where
  running : s.process.store.closed = false
  small : ∀ key data, s.tx.mutations.lookup key = some (.object data) →
    (data.length : ℤ) ≤ s.process.store.maxSize
  consistent : Consistent s.process
  free : ∀ key pointer, s.tx.mutations.lookup key = some (.user pointer) →
    ∀ id found,
      s.process.store.users.lookup id = some found ∨ s.tx.mutations.lookup id = some (.user found) →
      s.process.usernameOf found = s.process.usernameOf pointer ∨
        s.process.emailOf found = s.process.emailOf pointer →
      id = key

def Process.seen (p : Process) : Tables × List Pointer := (p.tables, p.store.events)

def logged (events : List Pointer) (pointer : Pointer) : List Pointer :=
  Process.lastOf Process.maxEvents (events ++ [pointer])

def saveEntry (seen : Tables × List Pointer) (entry : GoString × Queued) : Tables × List Pointer :=
  match entry.2 with
  | .object data =>
    ({ seen.1 with
        objects := Function.update seen.1.objects entry.1 (some data) },
      seen.2)
  | .repository pointer =>
    ({ seen.1 with
        repositories := Function.update seen.1.repositories entry.1 (some pointer) },
      seen.2)
  | .user pointer =>
    ({ seen.1 with
        users := Function.update seen.1.users entry.1 (some pointer) },
      seen.2)
  | .reference pointer =>
    ({ seen.1 with
        refs := Function.update seen.1.refs entry.1 (some pointer) },
      seen.2)
  | .event pointer => (seen.1, logged seen.2 pointer)
  | .config _ value =>
    ({ seen.1 with
        config := Function.update seen.1.config entry.1 (some value) },
      seen.2)

def MemoryStore.excess (m : MemoryStore) : ℤ :=
  m.currentSize - total (fun data => (data.length : ℤ)) m.objects

structure Saving (s : Session) (q : Process) : Prop where
  running : q.store.closed = false
  limit : q.store.maxSize = s.process.store.maxSize
  excess : q.store.excess = s.process.store.excess
  consistent : Consistent q
  users : ∀ id found, q.store.users.lookup id = some found →
    s.process.store.users.lookup id = some found ∨ s.tx.mutations.lookup id = some (.user found)
  records : Restamped (s.tx.Queues .repository) (s.tx.Queues .user)
    (s.tx.Queues .reference) (s.tx.Queues .event) s.process.records q.records

def Saves (s : Session) (q : Process) (entry : GoString × Queued)
    (call : GoM Process Unit) : Prop :=
  ∃ after, call q = (.ok (), after) ∧ Saving s after ∧ after.seen = saveEntry q.seen entry

variable {ν : Type}

theorem lookup_insert_fun (m : GoMap GoString ν) (key : GoString) (value : ν) :
    (fun other => (m.insert key value).lookup other) =
      Function.update (fun other => m.lookup other) key (some value) := by
  funext other
  rw [lookup_insert_eq, Function.update_apply]

theorem lookup_erase_fun {m : GoMap GoString ν} {key : GoString} :
    (fun other => (m.erase key).lookup other) =
      Function.update (fun other => m.lookup other) key none := by
  funext other
  rw [lookup_erase_eq, Function.update_apply]

theorem MemoryStore.sizeOf_eq {m : MemoryStore} {hash : GoString} :
    m.sizeOf hash = (m.objects.lookup hash).elim 0 fun data => (data.length : ℤ) := by
  unfold MemoryStore.sizeOf
  cases m.objects.lookup hash <;> rfl

namespace Saving

variable {s : Session} {q : Process} {key : GoString}

theorem start (hready : s.Ready) : Saving s s.process where
  running := hready.running
  limit := rfl
  excess := rfl
  consistent := hready.consistent
  users := fun _ _ hlookup => .inl hlookup
  records := ⟨.refl _ _ _, .refl _ _ _, .refl _ _ _, .refl _ _ _⟩

theorem consistent_congr (h : Consistent p) (hrecords : after.records.users = p.records.users)
    (husers : after.store.users = p.store.users)
    (hnames : after.store.usersByName = p.store.usersByName)
    (hemails : after.store.usersByEmail = p.store.usersByEmail) :
    Consistent after := by
  have hname : after.usernameOf = p.usernameOf := by
    unfold Process.usernameOf
    rw [hrecords]
  have hemail : after.emailOf = p.emailOf := by
    unfold Process.emailOf
    rw [hrecords]
  constructor
  case keyed =>
    rw [hrecords, husers]
    exact h.keyed
  case byName =>
    rw [husers, hname, hnames]
    exact h.byName
  case byEmail =>
    rw [husers, hemail, hemails]
    exact h.byEmail

theorem keep (h : Saving s q) {after : Process}
    (hrunning : after.store.closed = q.store.closed)
    (hlimit : after.store.maxSize = q.store.maxSize)
    (husers : after.store.users = q.store.users)
    (hnames : after.store.usersByName = q.store.usersByName)
    (hemails : after.store.usersByEmail = q.store.usersByEmail)
    (hown : after.records.users = q.records.users)
    (hexcess : after.store.excess = q.store.excess)
    (hrecords : Restamped (s.tx.Queues .repository) (s.tx.Queues .user)
      (s.tx.Queues .reference) (s.tx.Queues .event) s.process.records
      after.records) : Saving s after where
  running := hrunning.trans h.running
  limit := hlimit.trans h.limit
  excess := hexcess.trans h.excess
  consistent := consistent_congr h.consistent hown husers hnames hemails
  users := by
    rw [husers]
    exact h.users
  records := hrecords

theorem putObject (h : Saving s q) (hready : s.Ready) {data : Bytes}
    (hqueued : s.tx.mutations.lookup key = some (.object data)) :
    Saves s q (key, .object data) (Process.putObject key data) := by
  have hsmall : ¬ q.store.maxSize < data.length := by
    rw [h.limit, not_lt]
    exact hready.small key data hqueued
  have hrunning : ¬ q.store.closed = true := by
    rw [h.running]
    exact Bool.false_ne_true
  unfold Saves Process.putObject
  rw [if_neg hsmall, if_neg hrunning]
  refine ⟨_, rfl, ?_, ?_⟩
  · refine h.keep rfl rfl rfl rfl rfl rfl ?_ h.records
    unfold MemoryStore.excess
    dsimp only
    rw [total_insert, MemoryStore.sizeOf_eq]
    omega
  · unfold Process.seen tables saveEntry
    rw [lookup_insert_fun]

theorem setConfig (h : Saving s q) (value : GoString) :
    Saves s q (key, .config key value) (Process.setConfig key value) := by
  refine ⟨_, rfl, ?_, ?_⟩
  · exact h.keep rfl rfl rfl rfl rfl rfl rfl h.records
  · unfold Process.seen tables saveEntry
    rw [lookup_insert_fun]

variable {pointer : Pointer}

theorem setEvents (h : Saving s q) {records : Pointer → AuditEvent}
    (hrecords : Stamped AuditEvent.stamped (s.tx.Queues .event)
      s.process.records.events records) {events : List Pointer} :
    Saving s
      { records := { q.records with events := records }
        store := { q.store with events := events } } :=
  h.keep rfl rfl rfl rfl rfl rfl rfl
    ⟨h.records.repositories, h.records.users, h.records.references, hrecords⟩

theorem seen_setEvents {records : Records} :
    Process.seen ⟨records, { q.store with events := events }⟩ =
      (q.tables, events) :=
  rfl

theorem logEvent (h : Saving s q) (stamp : Stamp)
    (hqueued : s.tx.mutations.lookup key = some (.event pointer)) :
    Saves s q (key, .event pointer) (Process.logEvent stamp pointer) := by
  have hevents := h.records.events.update AuditEvent.composes_stamped ⟨key, hqueued⟩ stamp
  exact ⟨_, rfl, h.setEvents hevents, seen_setEvents⟩

theorem saveRepository (h : Saving s q) (stamp : Stamp)
    (hfiled : Filed s.process.records key (.repository pointer))
    (hqueued : s.tx.mutations.lookup key = some (.repository pointer)) :
    Saves s q (key, .repository pointer) (Process.saveRepository stamp pointer) := by
  have hrecords := h.records.repositories.update Repository.composes_stamped ⟨key, hqueued⟩ stamp
  have hid : (q.records.repositories pointer).id = key :=
    (h.records.repositories.field_eq fun _ =>
      if_neg (hfiled.1.trans_ne hfiled.2)).trans hfiled.1
  have hstamped : ((q.records.repositories pointer).stamped stamp).id = key :=
    (if_neg (hid.trans_ne hfiled.2)).trans hid
  have hrunning : ¬ q.store.closed = true := by
    rw [h.running]
    exact Bool.false_ne_true
  unfold Saves Process.saveRepository
  dsimp only
  rw [hstamped]
  refine ⟨_, if_neg hrunning, ?_, ?_⟩
  · exact h.keep rfl rfl rfl rfl rfl rfl rfl
      ⟨hrecords, h.records.users, h.records.references, h.records.events⟩
  · have hrepositories := lookup_insert_fun q.store.repositories key pointer
    unfold Process.seen tables saveEntry
    dsimp only
    rw [← hrepositories]
    rfl

theorem saveRef (h : Saving s q) (stamp : Stamp)
    (hfiled : Filed s.process.records key (.reference pointer))
    (hqueued : s.tx.mutations.lookup key = some (.reference pointer)) :
    Saves s q (key, .reference pointer) (Session.applyMutation stamp key (.reference pointer)) := by
  obtain ⟨repoID, hsplit⟩ := hfiled
  have hrecords := h.records.references.update Reference.composes_stamped
    ⟨key, hqueued⟩ stamp.updated
  have hname : (q.records.references pointer).name = (s.process.records.references pointer).name :=
    h.records.references.field_eq fun _ => rfl
  have hkey : refKey repoID ((q.records.references pointer).stamped stamp.updated).name = key :=
    (congrArg (refKey repoID) hname).trans (refKey_of_splitRefKey hsplit)
  unfold Saves Session.applyMutation Process.saveRef
  rw [hsplit]
  dsimp only
  rw [hkey]
  refine ⟨_, rfl, ?_, ?_⟩
  · exact h.keep rfl rfl rfl rfl rfl rfl rfl
      ⟨h.records.repositories, h.records.users, hrecords, h.records.events⟩
  · have hrefs := lookup_insert_fun q.store.refs key pointer
    unfold Process.seen tables saveEntry
    dsimp only
    rw [← hrefs]
    rfl

theorem free (h : Saving s q) (hready : s.Ready)
    (hqueued : s.tx.mutations.lookup key = some (.user pointer))
    {id : GoString} {found : Pointer}
    (hfound : q.store.users.lookup id = some found)
    (hsame : q.usernameOf found = q.usernameOf pointer ∨
      q.emailOf found = q.emailOf pointer) : id = key := by
  have hname : ∀ pointer, q.usernameOf pointer = s.process.usernameOf pointer :=
    fun _ => h.records.users.field_eq fun _ => rfl
  have hemail : ∀ pointer, q.emailOf pointer = s.process.emailOf pointer :=
    fun _ => h.records.users.field_eq fun _ => rfl
  rw [hname, hname, hemail, hemail] at hsame
  exact hready.free key pointer hqueued id found (h.users id found hfound) hsame

theorem saveUser (h : Saving s q) (hready : s.Ready) (stamp : Stamp)
    (hfiled : Filed s.process.records key (.user pointer))
    (hqueued : s.tx.mutations.lookup key = some (.user pointer)) :
    Saves s q (key, .user pointer) (Process.saveUser stamp pointer) := by
  have hrecords := h.records.users.update User.composes_stamped ⟨key, hqueued⟩ stamp
  have hid : (q.records.users pointer).id = key :=
    (h.records.users.field_eq fun _ =>
      if_neg (hfiled.1.trans_ne hfiled.2)).trans hfiled.1
  have hstamped : ((q.records.users pointer).stamped stamp).id = key :=
    (if_neg (hid.trans_ne hfiled.2)).trans hid
  have hconsistent : Consistent (q.stampUser stamp pointer) := by
    apply h.consistent.stampUser
    intro id hlookup
    rw [hstamped, ← hid]
    exact h.consistent.keyed id pointer hlookup
  have hself : ((q.stampUser stamp pointer).records.users pointer).id = key := by
    rw [Process.users_stampUser]
    exact hstamped
  have hnames : ∀ found, (q.stampUser stamp pointer).usernameOf found = q.usernameOf found :=
    field_update User.username rfl
  have hemails : ∀ found, (q.stampUser stamp pointer).emailOf found = q.emailOf found :=
    field_update User.email rfl
  have hname : ∀ id found, q.store.users.lookup id = some found →
      (q.stampUser stamp pointer).usernameOf found =
        (q.stampUser stamp pointer).usernameOf pointer → id = key := by
    intro id found hfound hsame
    rw [hnames, hnames] at hsame
    exact h.free hready hqueued hfound (.inl hsame)
  have hemail : ∀ id found, q.store.users.lookup id = some found →
      (q.stampUser stamp pointer).emailOf found =
        (q.stampUser stamp pointer).emailOf pointer → id = key := by
    intro id found hfound hsame
    rw [hemails, hemails] at hsame
    exact h.free hready hqueued hfound (.inr hsame)
  have hrun := Process.saveUser_of_free (Process.users_stampUser _ _ _).symm
    (hconsistent.takenBy_eq_false hconsistent.byName (hself.symm ▸ hname))
    (hconsistent.takenBy_eq_false hconsistent.byEmail (hself.symm ▸ hemail)) h.running
  refine ⟨_, hrun, ⟨h.running, h.limit, ?_, ?_, ?_, ?_⟩, ?_⟩
  · exact h.excess
  · apply hconsistent.putUser
    · rw [hself]
      exact hname
    · rw [hself]
      exact hemail
  · intro id found hfound
    rcases lookup_insert_cases hfound with ⟨rfl, rfl⟩ | ⟨-, hold⟩
    · rw [hself]
      exact .inr hqueued
    · exact h.users id found hold
  · exact ⟨h.records.repositories, hrecords, h.records.references, h.records.events⟩
  · have husers := lookup_insert_fun q.store.users key pointer
    unfold Process.seen tables Process.putUser saveEntry
    dsimp only
    rw [hself, ← husers]
    rfl

theorem applyMutation (h : Saving s q) (hready : s.Ready) (stamp : Stamp)
    {value : Queued} (hfiled : Filed s.process.records key value)
    (hqueued : s.tx.mutations.lookup key = some value) :
    Saves s q (key, value) (Session.applyMutation stamp key value) := by
  cases value with
  | object data => exact h.putObject hready hqueued
  | repository pointer => exact h.saveRepository stamp hfiled hqueued
  | user pointer => exact h.saveUser hready stamp hfiled hqueued
  | reference pointer => exact h.saveRef stamp hfiled hqueued
  | event pointer => exact h.logEvent stamp hqueued
  | config own value =>
    have hown : own = key := hfiled
    rw [hown]
    exact h.setConfig value

end Saving

/-! ## What the first loop leaves -/

variable {β : Type}

theorem get_foldl_saveEntry (get : Tables × List Pointer → GoString → Option β)
    {pick : Queued → Option β}
    (hstep : ∀ seen entry key, get (saveEntry seen entry) key =
      if key = entry.1 then (pick entry.2).or (get seen key) else get seen key)
    {order : RangeOrder} {mutations : GoMap GoString Queued}
    {seen : Tables × List Pointer} {key : GoString} :
    get ((mutations.range order).foldl saveEntry seen) key =
      ((mutations.lookup key).bind pick).or (get seen key) := by
  rw [foldl_range_get get saveEntry (fun entry old => (pick entry.2).or old) hstep]
  cases mutations.lookup key <;> rfl

section

variable (order : RangeOrder) (mutations : GoMap GoString Queued)
  (seen : Tables × List Pointer) (key : GoString)

theorem objects_saveEntry :
    ((mutations.range order).foldl saveEntry seen).1.objects key =
      ((mutations.lookup key).bind Queued.asObject).or (seen.1.objects key) := by
  apply get_foldl_saveEntry (fun seen => seen.1.objects)
  rintro seen ⟨own, value⟩ key
  cases value with
  | object data => exact Function.update_apply _ _ _ _
  | _ => exact (ite_self _).symm

theorem repositories_saveEntry :
    ((mutations.range order).foldl saveEntry seen).1.repositories key =
      ((mutations.lookup key).bind Queued.asRepository).or (seen.1.repositories key) := by
  apply get_foldl_saveEntry (fun seen => seen.1.repositories)
  rintro seen ⟨own, value⟩ key
  cases value with
  | repository pointer => exact Function.update_apply _ _ _ _
  | _ => exact (ite_self _).symm

theorem users_saveEntry :
    ((mutations.range order).foldl saveEntry seen).1.users key =
      ((mutations.lookup key).bind Queued.asUser).or (seen.1.users key) := by
  apply get_foldl_saveEntry (fun seen => seen.1.users)
  rintro seen ⟨own, value⟩ key
  cases value with
  | user pointer => exact Function.update_apply _ _ _ _
  | _ => exact (ite_self _).symm

theorem refs_saveEntry :
    ((mutations.range order).foldl saveEntry seen).1.refs key =
      ((mutations.lookup key).bind Queued.asReference).or (seen.1.refs key) := by
  apply get_foldl_saveEntry (fun seen => seen.1.refs)
  rintro seen ⟨own, value⟩ key
  cases value with
  | reference pointer => exact Function.update_apply _ _ _ _
  | _ => exact (ite_self _).symm

theorem config_saveEntry :
    ((mutations.range order).foldl saveEntry seen).1.config key =
      ((mutations.lookup key).bind Queued.asConfig).or (seen.1.config key) := by
  apply get_foldl_saveEntry (fun seen => seen.1.config)
  rintro seen ⟨own, value⟩ key
  cases value with
  | config inner text => exact Function.update_apply _ _ _ _
  | _ => exact (ite_self _).symm

end

def eventEntry (entry : GoString × Queued) : Option (GoString × Pointer) :=
  entry.2.asEvent.map fun pointer => (entry.1, pointer)

theorem events_saveEntry {entries : List (GoString × Queued)} (seen : Tables × List Pointer) :
    (entries.foldl saveEntry seen).2 =
      (entries.filterMap eventEntry).foldl (fun events entry => logged events entry.2) seen.2 := by
  induction entries generalizing seen with
  | nil => rfl
  | cons entry rest ih =>
    obtain ⟨own, value⟩ := entry
    rw [List.foldl_cons, ih]
    cases value with
    | event pointer =>
      simp only [saveEntry, eventEntry, Queued.asEvent, Option.map_some,
        List.filterMap_cons, List.foldl_cons]
    | _ => rfl

theorem eventEntry_eq_some {id : GoString}
    (hevent : eventEntry entry = some (id, pointer)) :
    entry = (id, .event pointer) := by
  obtain ⟨own, value⟩ := entry
  cases value with
  | event found => cases hevent; rfl
  | _ => cases hevent

theorem Tracks.events_perm (h : Tracks p s done) (order : RangeOrder) :
    ((s.tx.mutations.range order).filterMap eventEntry).Perm (done.filterMap Change.event) := by
  have hkeys := range_keys_nodup order s.tx.mutations
  have hnodup : ((s.tx.mutations.range order).filterMap eventEntry).Nodup := by
    apply (List.Nodup.of_map Prod.fst hkeys).filterMap
    rintro left right ⟨id, pointer⟩ hleft hright
    rw [eventEntry_eq_some hleft, eventEntry_eq_some hright]
  rw [List.perm_ext_iff_of_nodup hnodup h.once]
  rintro ⟨id, pointer⟩
  rw [mem_events, List.mem_filterMap]
  constructor
  · rintro ⟨entry, hmem, hevent⟩
    rw [eventEntry_eq_some hevent, mem_range] at hmem
    obtain ⟨c, hc, hkey, hsaved⟩ := h.recorded id _ hmem
    have heq : c = .logEvent id pointer := by
      cases c with
      | logEvent other found =>
        cases hsaved
        cases hkey
        rfl
      | _ => cases hsaved
    rw [← heq]
    exact hc
  · intro hmem
    refine ⟨(id, .event pointer), ?_, rfl⟩
    rw [mem_range]
    exact h.logged id pointer hmem

/-! ## Deleting -/

/-- What the deletion of a key does: the kind is that of its shape. -/
def dropEntry (t : Tables) (entry : GoString × Bool) : Tables :=
  if entry.2 then
    match shape entry.1 with
    | .object => apply t (.deleteObject entry.1)
    | .repository => apply t (.deleteRepository entry.1)
    | .user => t
    | .reference => { t with refs := Function.update t.refs entry.1 none }
    | .event => t
    | .config => apply t (.deleteConfig entry.1)
  else t

/-- While `Commit` deletes: users, events and records stay. -/
structure Dropping (base q : Process) : Prop where
  records : q.records = base.records
  users : q.store.users = base.store.users
  names : q.store.usersByName = base.store.usersByName
  emails : q.store.usersByEmail = base.store.usersByEmail
  events : q.store.events = base.store.events
  running : q.store.closed = base.store.closed
  limit : q.store.maxSize = base.store.maxSize
  excess : q.store.excess = base.store.excess

theorem Dropping.refl (p : Process) : Dropping p p := ⟨rfl, rfl, rfl, rfl, rfl, rfl, rfl, rfl⟩

theorem Dropping.trans {base q last : Process} (h : Dropping base q)
    (hlast : Dropping q last) : Dropping base last :=
  ⟨hlast.records.trans h.records, hlast.users.trans h.users,
    hlast.names.trans h.names, hlast.emails.trans h.emails,
    hlast.events.trans h.events, hlast.running.trans h.running,
    hlast.limit.trans h.limit, hlast.excess.trans h.excess⟩

theorem update_none_of_not_contains {m : GoMap GoString ν}
    (hnone : ¬ m.contains key = true) :
    Function.update (fun other => m.lookup other) key none = fun other => m.lookup other := by
  have hlookup : m.lookup key = none := by
    rw [GoMap.contains, Option.not_isSome_iff_eq_none] at hnone
    exact hnone
  rw [← hlookup]
  exact Function.update_eq_self key fun other => m.lookup other

def Drops (base q : Process) (after : Tables) (call : GoM Process Unit) : Prop :=
  ∃ last, call q = (.ok (), last) ∧ Dropping base last ∧ last.tables = after

namespace Dropping

variable {base q : Process}

variable (h : Dropping base q)

include h

/-- The error of a record that is not there is dropped. -/
theorem drops {last : Process}
    [Decidable c]
    (hcall : m q = if c then (.ok (), last) else (.error e, q))
    (hlast : Dropping q last) (hfound : c → last.tables = after)
    (hnone : ¬ c → q.tables = after) :
    Drops base q after (Session.dropError m) := by
  unfold Drops Session.dropError
  split_ifs at hcall with hc
  · rw [GoM.bind_of_ok (GoM.attempt_of_ok hcall)]
    exact ⟨last, rfl, h.trans hlast, hfound hc⟩
  · rw [GoM.bind_of_ok (GoM.attempt_of_error hcall)]
    exact ⟨q, rfl, h, hnone hc⟩

theorem deleteObject (hash : GoString) :
    Drops base q (apply q.tables (.deleteObject hash))
      (Session.dropError (Process.deleteObject hash)) := by
  refine h.drops rfl ⟨rfl, rfl, rfl, rfl, rfl, rfl, rfl, ?_⟩ ?_ ?_
  · unfold MemoryStore.excess
    dsimp only
    rw [total_erase, MemoryStore.sizeOf_eq]
    omega
  · exact fun _ => Tables.ext (lookup_erase_fun) rfl rfl rfl rfl
  · exact fun hnone =>
      Tables.ext (update_none_of_not_contains hnone).symm rfl rfl rfl rfl

theorem deleteConfig (key : GoString) :
    Drops base q (apply q.tables (.deleteConfig key))
      (Session.dropError (Process.deleteConfig key)) := by
  refine h.drops rfl ⟨rfl, rfl, rfl, rfl, rfl, rfl, rfl, rfl⟩ ?_ ?_
  · exact fun _ => Tables.ext rfl rfl rfl rfl (lookup_erase_fun)
  · exact fun hnone =>
      Tables.ext rfl rfl rfl rfl (update_none_of_not_contains hnone).symm

theorem deleteRef (repoID name : GoString) :
    Drops base q
      { q.tables with
        refs := Function.update q.tables.refs (refKey repoID name) none }
      (Session.dropError (Process.deleteRef repoID name)) := by
  refine h.drops rfl ⟨rfl, rfl, rfl, rfl, rfl, rfl, rfl, rfl⟩ ?_ ?_
  · exact fun _ => Tables.ext rfl rfl rfl (lookup_erase_fun) rfl
  · exact fun hnone =>
      Tables.ext rfl rfl rfl (update_none_of_not_contains hnone).symm rfl

variable (order : RangeOrder)

theorem deleteRepository (id : GoString) :
    Drops base q (apply q.tables (.deleteRepository id))
      (Session.dropError (Process.deleteRepository order id)) := by
  have hrefs : ∀ key,
      (Process.deleteRepository order id q).2.store.refs.lookup key = sweep id q.tables key :=
    lookup_refs_deleteRepository order id q
  unfold Process.deleteRepository at hrefs
  refine h.drops rfl ⟨rfl, rfl, rfl, rfl, rfl, rfl, rfl, rfl⟩ ?_ ?_
  · intro hfound
    rw [if_pos hfound] at hrefs
    exact Tables.ext rfl (lookup_erase_fun) rfl (funext hrefs) rfl
  · intro hnone
    rw [if_neg hnone] at hrefs
    exact Tables.ext rfl (update_none_of_not_contains hnone).symm rfl (funext hrefs) rfl

theorem applyDeletion (key : GoString) :
    Drops base q (dropEntry q.tables (key, true)) (Session.applyDeletion order key) := by
  unfold dropEntry shape Session.applyDeletion
  by_cases hobject : Session.isObjectKey key = true
  · rw [if_pos hobject, if_pos hobject]
    exact h.deleteObject key
  by_cases hrepo : Session.isRepoKey key = true
  · rw [if_neg hobject, if_pos hrepo, if_neg hobject, if_pos hrepo]
    exact h.deleteRepository order key
  -- The identifiers of users look like those of repositories.
  have huser : ¬ Session.isUserKey key = true := hrepo
  rw [if_neg hobject, if_neg hrepo, if_neg hobject, if_neg hrepo, if_neg huser]
  cases hsplit : Session.splitRefKey key with
  | none => exact h.deleteConfig key
  | some parts =>
    have hkey : refKey parts.1 parts.2 = key := refKey_of_splitRefKey hsplit
    have href := h.deleteRef parts.1 parts.2
    rw [hkey] at href
    exact href

theorem pass {entry : GoString × Bool} :
    Drops base q (dropEntry q.tables entry)
      (if entry.2 then Session.applyDeletion order entry.1 else pure ()) := by
  obtain ⟨key, deleted⟩ := entry
  cases deleted with
  | true => exact h.applyDeletion order key
  | false => exact ⟨q, rfl, h, rfl⟩

end Dropping

/-! ## What the second loop leaves -/

section

variable (order : RangeOrder) (deleted : GoMap GoString Bool) (t : Tables) (key : GoString)

theorem get_foldl_dropEntry {β : Type} {kind : Kind} {get : Tables → GoString → Option β}
    (hstep : ∀ t entry key, get (dropEntry t entry) key =
      if key = entry.1 then
        if entry.2 = true ∧ shape entry.1 = kind then none else get t key
      else get t key) :
    get ((deleted.range order).foldl dropEntry t) key =
      if deleted.lookup key = some true ∧ shape key = kind then none
      else get t key := by
  rw [foldl_range_get get dropEntry
    (fun entry old =>
      if entry.2 = true ∧ shape entry.1 = kind then none else old) hstep]
  cases deleted.lookup key <;> simp

variable (entry : GoString × Bool)

theorem objects_dropEntry :
    (dropEntry t entry).objects key =
      if key = entry.1 then
        if entry.2 = true ∧ shape entry.1 = .object then none
        else t.objects key
      else t.objects key := by
  unfold dropEntry
  obtain ⟨own, value⟩ := entry
  cases value with
  | false => simp
  | true =>
    cases hshape : shape own with
    | object => simp [apply, Function.update_apply]
    | _ => simp [apply]

theorem repositories_dropEntry :
    (dropEntry t entry).repositories key =
      if key = entry.1 then
        if entry.2 = true ∧ shape entry.1 = .repository then none
        else t.repositories key
      else t.repositories key := by
  unfold dropEntry
  obtain ⟨own, value⟩ := entry
  cases value with
  | false => simp
  | true =>
    cases hshape : shape own with
    | repository => simp [apply, Function.update_apply]
    | _ => simp [apply]

theorem config_dropEntry :
    (dropEntry t entry).config key =
      if key = entry.1 then
        if entry.2 = true ∧ shape entry.1 = .config then none
        else t.config key
      else t.config key := by
  unfold dropEntry
  obtain ⟨own, value⟩ := entry
  cases value with
  | false => simp
  | true =>
    cases hshape : shape own with
    | config => simp [apply, Function.update_apply]
    | user => exact absurd hshape (shape_ne_user own)
    | _ => simp [apply]

theorem users_dropEntry : (dropEntry t entry).users = t.users := by
  unfold dropEntry
  split_ifs with hdeleted
  · cases shape entry.1 with
    | _ => rfl
  · rfl

end

def Takes (t : Tables) (entry : GoString × Bool) (key : GoString) : Prop :=
  entry.2 = true ∧
    (shape entry.1 = .reference ∧ entry.1 = key ∨
      shape entry.1 = .repository ∧ (t.repositories entry.1).isSome = true ∧ Owns entry.1 key)

theorem refs_dropEntry {t : Tables} :
    (dropEntry t entry).refs = without (Takes t entry) t.refs := by
  funext key
  obtain ⟨own, value⟩ := entry
  cases value with
  | false =>
    have hkept : ¬ Takes t (own, false) key := fun htakes =>
      Bool.false_ne_true htakes.1
    rw [without_of_not hkept]
    rfl
  | true =>
    unfold dropEntry
    cases hshape : shape own with
    | reference =>
      by_cases hkey : own = key
      · have htakes : Takes t (own, true) key := ⟨rfl, .inl ⟨hshape, hkey⟩⟩
        rw [without_of htakes]
        simp [hkey]
      · have hkept : ¬ Takes t (own, true) key := by
          simp [Takes, hshape, hkey]
        rw [without_of_not hkept]
        simp [Function.update_of_ne (Ne.symm hkey)]
    | repository =>
      by_cases hboth : (t.repositories own).isSome = true ∧ Owns own key
      · have htakes : Takes t (own, true) key := ⟨rfl, .inr ⟨hshape, hboth⟩⟩
        rw [without_of htakes]
        simp [apply, sweep, hboth]
      · have hkept : ¬ Takes t (own, true) key := by
          simpa [Takes, hshape] using hboth
        rw [without_of_not hkept]
        simp only [apply, sweep, if_true]
        rw [if_neg hboth]
    | _ =>
      have hkept : ¬ Takes t (own, true) key := by
        simp [Takes, hshape]
      rw [without_of_not hkept]
      simp [apply]

theorem refs_foldl_dropEntry {entries : List (GoString × Bool)} (t : Tables)
    (hkeys : (entries.map Prod.fst).Nodup) :
    (entries.foldl dropEntry t).refs =
      without (fun key => ∃ entry ∈ entries, Takes t entry key) t.refs := by
  induction entries generalizing t with
  | nil =>
    funext key
    rw [without_of_not (by simp)]
    rfl
  | cons entry rest ih =>
    rw [List.map_cons, List.nodup_cons] at hkeys
    -- The repositories of the other entries are still there.
    have hothers : ∀ other ∈ rest, ∀ key,
        Takes (dropEntry t entry) other key ↔ Takes t other key := by
      intro other hother key
      have hne : other.1 ≠ entry.1 := by
        intro hsame
        rw [← hsame] at hkeys
        exact hkeys.1 (List.mem_map_of_mem hother)
      unfold Takes
      rw [repositories_dropEntry, if_neg hne]
    have hrest : ∀ key,
        (∃ other ∈ rest, Takes (dropEntry t entry) other key) ↔ ∃ other ∈ rest, Takes t other key :=
      fun key => exists_congr fun other =>
        and_congr_right fun hother => hothers other hother key
    rw [List.foldl_cons, ih _ hkeys.2, without_congr hrest, refs_dropEntry]
    funext key
    by_cases hlater : ∃ other ∈ rest, Takes t other key
    · have hany : ∃ other ∈ entry :: rest, Takes t other key := by
        obtain ⟨other, hmem, htakes⟩ := hlater
        exact ⟨other, List.mem_cons_of_mem entry hmem, htakes⟩
      rw [without_of hlater, without_of hany]
    · rw [without_of_not hlater]
      by_cases hnow : Takes t entry key
      · have hany : ∃ other ∈ entry :: rest, Takes t other key := ⟨entry, by simp, hnow⟩
        rw [without_of hnow, without_of hany]
      · have hnone : ¬ ∃ other ∈ entry :: rest, Takes t other key := by
          rintro ⟨other, hmem, htakes⟩
          rcases List.mem_cons.mp hmem with rfl | hrest
          · exact hnow htakes
          · exact hlater ⟨other, hrest, htakes⟩
        rw [without_of_not hnow, without_of_not hnone]

end Govc.Datastore
