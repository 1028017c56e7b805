import Govc.GoEffects
import Govc.GoMaps
import Govc.SecondaryIndex

/-!
# The in-memory data store

Records (repositories, users, references, audit events) are kept by pointer, and
whoever saved or was given one still has the pointer: `Records` is the memory
that the pointers point into.  References of all repositories are in one table,
under the repository's identifier and the name with a colon between them.

Every call holds the locks it needs and is one step.  `Close` drops the tables
of objects, repositories and users; a later write to one of them panics.  The
counters of reads, writes and deletes are left out.
-/

namespace Govc.Datastore

open Go

/-- Zero is the zero `time.Time`. -/
abbrev Time := ℤ

abbrev Pointer := ℕ

structure Repository where
  id : GoString
  name : GoString
  description : GoString
  isPrivate : Bool
  createdAt : Time
  updatedAt : Time
  deriving DecidableEq

structure User where
  id : GoString
  username : GoString
  email : GoString
  fullName : GoString
  isActive : Bool
  isAdmin : Bool
  createdAt : Time
  updatedAt : Time
  lastLoginAt : Option Time
  deriving DecidableEq

structure Reference where
  name : GoString
  hash : GoString
  type : GoString
  updatedAt : Time
  deriving DecidableEq

structure AuditEvent where
  id : GoString
  timestamp : Time
  userID : GoString
  action : GoString
  resource : GoString
  resourceID : GoString
  success : Bool
  deriving DecidableEq

structure Records where
  repositories : Pointer → Repository
  users : Pointer → User
  references : Pointer → Reference
  events : Pointer → AuditEvent

def User.zero : User := ⟨[], [], [], [], false, false, 0, 0, none⟩

def Records.zero : Records where
  repositories := fun _ => ⟨[], [], [], false, 0, 0⟩
  users := fun _ => .zero
  references := fun _ => ⟨[], [], [], 0⟩
  events := fun _ => ⟨[], 0, [], [], [], [], false⟩

structure MemoryStore where
  objects : GoMap GoString Bytes
  repositories : GoMap GoString Pointer
  users : GoMap GoString Pointer
  usersByName : GoMap GoString Pointer
  usersByEmail : GoMap GoString Pointer
  refs : GoMap GoString Pointer
  events : List Pointer
  config : GoMap GoString GoString
  maxSize : ℤ
  currentSize : ℤ
  closed : Bool

structure Process where
  records : Records
  store : MemoryStore

def MemoryStore.new (maxSize : ℤ) : MemoryStore where
  objects := ∅
  repositories := ∅
  users := ∅
  usersByName := ∅
  usersByEmail := ∅
  refs := ∅
  events := []
  config := ∅
  maxSize := maxSize
  currentSize := 0
  closed := false

def errNotFound : GoString := str "not found"

inductive Value where
  | string (value : GoString)
  | bool (value : Bool)
  | time (value : Time)
  | other
  deriving DecidableEq

abbrev Updates := GoMap GoString Value

/-- What `uuid.New` and the readings of the clock give in a call. -/
structure Stamp where
  uuid : GoString
  created : Time
  updated : Time

def Repository.stamped (stamp : Stamp) (repo : Repository) : Repository := { repo with
    id := if repo.id = [] then stamp.uuid else repo.id
    createdAt := if repo.createdAt = 0 then stamp.created else repo.createdAt
    updatedAt := stamp.updated }

def User.stamped (stamp : Stamp) (user : User) : User := { user with
    id := if user.id = [] then stamp.uuid else user.id
    createdAt := if user.createdAt = 0 then stamp.created else user.createdAt
    updatedAt := stamp.updated }

def Reference.stamped (now : Time) (ref : Reference) : Reference :=
  { ref with updatedAt := if ref.updatedAt = 0 then now else ref.updatedAt }

def AuditEvent.stamped (stamp : Stamp) (event : AuditEvent) : AuditEvent := { event with
    id := if event.id = [] then stamp.uuid else event.id
    timestamp := if event.timestamp = 0 then stamp.created else event.timestamp }

def found {ν : Type} (entry : Option ν) : Except GoString ν :=
  match entry with
  | some value => .ok value
  | none => .error errNotFound

def window {α : Type} (offset limit : ℤ) (results : List α) : List α :=
  let results :=
    if 0 < offset ∧ offset < results.length then results.drop offset.toNat
    else results
  if 0 < limit ∧ limit < results.length then results.take limit.toNat
  else results

/-- `filter.Name == "" || strings.Contains(name, filter.Name)` -/
def matchesPart (part text : GoString) : Bool := decide (part = []) || contains text part

/-- `filter.X == nil || x == *filter.X` -/
def matchesFlag (flag : Option Bool) (value : Bool) : Bool :=
  flag.all fun wanted => decide (wanted = value)

/-- `filter.X == "" || x == filter.X` -/
def matchesText (wanted text : GoString) : Bool := decide (wanted = []) || decide (text = wanted)

def matchesIDs (ids : List GoString) (id : GoString) : Bool :=
  decide (ids = []) || decide (id ∈ ids)

def matchesTime (after before : Option Time) (time : Time) : Bool :=
  (after.all fun bound => decide (bound ≤ time)) && before.all fun bound => decide (time ≤ bound)

structure RepositoryFilter where
  ids : List GoString
  name : GoString
  isPrivate : Option Bool
  createdAfter : Option Time
  createdBefore : Option Time
  limit : ℤ
  offset : ℤ

def RepositoryFilter.accepts (filter : RepositoryFilter) (repo : Repository) : Bool :=
  matchesIDs filter.ids repo.id && matchesPart filter.name repo.name &&
    matchesFlag filter.isPrivate repo.isPrivate &&
    matchesTime filter.createdAfter filter.createdBefore repo.createdAt

structure UserFilter where
  ids : List GoString
  username : GoString
  email : GoString
  isActive : Option Bool
  isAdmin : Option Bool
  limit : ℤ
  offset : ℤ

def UserFilter.accepts (filter : UserFilter) (user : User) : Bool :=
  matchesIDs filter.ids user.id && matchesPart filter.username user.username &&
    matchesPart filter.email user.email &&
    matchesFlag filter.isActive user.isActive &&
    matchesFlag filter.isAdmin user.isAdmin

structure EventFilter where
  userID : GoString
  action : GoString
  resource : GoString
  resourceID : GoString
  after : Option Time
  before : Option Time
  success : Option Bool
  limit : ℤ
  offset : ℤ

def EventFilter.accepts (filter : EventFilter) (event : AuditEvent) : Bool :=
  matchesText filter.userID event.userID &&
    matchesPart filter.action event.action &&
    matchesText filter.resource event.resource &&
    matchesText filter.resourceID event.resourceID &&
    matchesTime filter.after filter.before event.timestamp &&
    matchesFlag filter.success event.success

/-! ## Objects -/

namespace MemoryStore

def getObject (hash : GoString) (m : MemoryStore) : Except GoString Bytes :=
  found (m.objects.lookup hash)

def hasObject (hash : GoString) (m : MemoryStore) : Bool := m.objects.contains hash

def listObjects (order : RangeOrder) (pre : GoString) (limit : ℤ)
    (m : MemoryStore) : List GoString :=
  let results := (order.visit m.objects.keys).filter fun hash =>
    hasPrefix hash pre
  if 0 < limit then results.take limit.toNat else results

def iterateObjects (order : RangeOrder) (pre : GoString) (m : MemoryStore) :
    List (GoString × Bytes) :=
  (m.objects.range order).filter fun entry => hasPrefix entry.1 pre

def getObjects (hashes : List GoString) (m : MemoryStore) : GoMap GoString Bytes :=
  hashes.foldl
    (fun results hash =>
      match m.objects.lookup hash with
      | some data => results.insert hash data
      | none => results) ∅

def getObjectSize (hash : GoString) (m : MemoryStore) : Except GoString ℕ :=
  (m.getObject hash).map List.length

def countObjects (m : MemoryStore) : ℕ := m.objects.keys.length

def getStorageSize (m : MemoryStore) : ℤ := m.currentSize

def healthCheck (m : MemoryStore) : Except GoString Unit :=
  if m.closed then .error (str "store is closed")
  else if m.maxSize < m.currentSize then
    .error (str "memory limit exceeded: " ++ formatInt m.currentSize ++
      str " > " ++ formatInt m.maxSize)
  else .ok ()

def info (m : MemoryStore) : ℕ × ℕ × ℕ × ℤ × ℤ :=
  (m.objects.keys.length, m.repositories.keys.length, m.users.keys.length, m.currentSize, m.maxSize)

def sizeOf (hash : GoString) (m : MemoryStore) : ℤ :=
  ((m.objects.lookup hash).map fun data => (data.length : ℤ)).getD 0

def getConfig (key : GoString) (m : MemoryStore) : Except GoString GoString :=
  found (m.config.lookup key)

def getAllConfig (order : RangeOrder) (m : MemoryStore) : GoMap GoString GoString :=
  (m.config.range order).foldl (fun result entry => result.insert entry.1 entry.2) ∅

end MemoryStore

namespace Process

/-- A write to a table that `Close` dropped. -/
def nilMap : GoString := str "assignment to entry in nil map"

def close : GoM Process Unit := fun p =>
  if p.store.closed then (.error (str "already closed"), p)
  else
    (.ok (),
      { p with
        store :=
          { p.store with
            objects := ∅, repositories := ∅, users := ∅, usersByName := ∅,
            usersByEmail := ∅, closed := true } })

def putObject (hash : GoString) (data : Bytes) : GoM Process Unit := fun p =>
  if p.store.maxSize < data.length then
    (.error (str "object too large: " ++ formatNat data.length ++ str " > " ++
      formatInt p.store.maxSize), p)
  else if p.store.closed then (.panic nilMap, p)
  else
    (.ok (),
      { p with
        store :=
          { p.store with
            objects := p.store.objects.insert hash data
            currentSize := p.store.currentSize - p.store.sizeOf hash + data.length } })

def deleteObject (hash : GoString) : GoM Process Unit := fun p =>
  if p.store.objects.contains hash then
    (.ok (),
      { p with
        store :=
          { p.store with
            objects := p.store.objects.erase hash
            currentSize := p.store.currentSize - p.store.sizeOf hash } })
  else (.error errNotFound, p)

/-! ## Configuration -/

def setConfig (key value : GoString) : GoM Process Unit := fun p =>
  (.ok (),
    { p with
      store := { p.store with config := p.store.config.insert key value } })

def deleteConfig (key : GoString) : GoM Process Unit := fun p =>
  if p.store.config.contains key then
    (.ok (), { p with store := { p.store with config := p.store.config.erase key } })
  else (.error errNotFound, p)

/-! ## Repositories -/

def setRepository (pointer : Pointer) (repo : Repository) (p : Process) : Process := { p with
    records :=
      { p.records with
        repositories := Function.update p.records.repositories pointer repo } }

def saveRepository (stamp : Stamp) (pointer : Pointer) : GoM Process Unit := fun p =>
    let repo := (p.records.repositories pointer).stamped stamp
    let p := p.setRepository pointer repo
    if p.store.closed then (.panic nilMap, p)
    else
      (.ok (),
        { p with
          store :=
            { p.store with
              repositories := p.store.repositories.insert repo.id pointer } })

def getRepository (id : GoString) (p : Process) : Except GoString Pointer :=
  found (p.store.repositories.lookup id)

def listRepositories (order : RangeOrder) (filter : RepositoryFilter)
    (p : Process) : List Pointer :=
  window filter.offset filter.limit
    (((p.store.repositories.range order).map Prod.snd).filter fun pointer =>
      filter.accepts (p.records.repositories pointer))

/-- The references whose keys begin with the identifier and a colon go with
the repository. -/
def deleteRepository (order : RangeOrder) (id : GoString) : GoM Process Unit := fun p =>
  if p.store.repositories.contains id then
    (.ok (),
      { p with
        store :=
          { p.store with
            repositories := p.store.repositories.erase id
            refs := (order.visit p.store.refs.keys).foldl
              (fun refs key =>
                if hasPrefix key (id ++ str ":") then refs.erase key else refs)
              p.store.refs } })
  else (.error errNotFound, p)

/-! ## Users -/

def setUser (pointer : Pointer) (user : User) (p : Process) : Process := { p with
    records :=
      { p.records with
        users := Function.update p.records.users pointer user } }

def takenBy (index : GoMap GoString Pointer) (key id : GoString) (p : Process) : Bool :=
  (index.lookup key).any fun existing =>
    decide ((p.records.users existing).id ≠ id)

def usernameOf (p : Process) (pointer : Pointer) : GoString := (p.records.users pointer).username

def emailOf (p : Process) (pointer : Pointer) : GoString := (p.records.users pointer).email

def saveUser (stamp : Stamp) (pointer : Pointer) : GoM Process Unit := fun p =>
  let user := (p.records.users pointer).stamped stamp
  let p := p.setUser pointer user
  if p.takenBy p.store.usersByName user.username user.id then
    (.error (str "username already exists: " ++ user.username), p)
  else if p.takenBy p.store.usersByEmail user.email user.id then
    (.error (str "email already exists: " ++ user.email), p)
  else if p.store.closed then (.panic nilMap, p)
  else
    (.ok (),
      { p with
        store :=
          { p.store with
            users := p.store.users.insert user.id pointer
            usersByName :=
              (p.store.usersByName.forgetting p.store.users p.usernameOf
                user.id).insert user.username pointer
            usersByEmail :=
              (p.store.usersByEmail.forgetting p.store.users p.emailOf
                user.id).insert user.email pointer } })

def getUser (id : GoString) (p : Process) : Except GoString Pointer :=
  found (p.store.users.lookup id)

def getUserByUsername (username : GoString) (p : Process) : Except GoString Pointer :=
  found (p.store.usersByName.lookup username)

def listUsers (order : RangeOrder) (filter : UserFilter) (p : Process) : List Pointer :=
  window filter.offset filter.limit
    (((p.store.users.range order).map Prod.snd).filter fun pointer =>
      filter.accepts (p.records.users pointer))

def deleteUser (id : GoString) : GoM Process Unit := fun p =>
  match p.store.users.lookup id with
  | none => (.error errNotFound, p)
  | some pointer =>
    let user := p.records.users pointer
    (.ok (),
      { p with
        store :=
          { p.store with
            users := p.store.users.erase id
            usersByName := p.store.usersByName.erase user.username
            usersByEmail := p.store.usersByEmail.erase user.email } })

def renameUser (pointer : Pointer) (username : GoString) (p : Process) : Process :=
  let user := p.records.users pointer
  { p.setUser pointer { user with username := username } with
    store :=
      { p.store with
        usersByName := (p.store.usersByName.erase user.username).insert username pointer } }

def readdressUser (pointer : Pointer) (email : GoString) (p : Process) : Process :=
  let user := p.records.users pointer
  { p.setUser pointer { user with email := email } with
    store :=
      { p.store with
        usersByEmail := (p.store.usersByEmail.erase user.email).insert email pointer } }

def updateUserField (pointer : Pointer) (p : Process) (entry : GoString × Value) : Process :=
  let user := p.records.users pointer
  match entry.2 with
  | .string v =>
    if entry.1 = str "username" then p.renameUser pointer v
    else if entry.1 = str "email" then p.readdressUser pointer v
    else if entry.1 = str "full_name" then
      p.setUser pointer { user with fullName := v }
    else p
  | .bool v =>
    if entry.1 = str "is_active" then
      p.setUser pointer { user with isActive := v }
    else if entry.1 = str "is_admin" then
      p.setUser pointer { user with isAdmin := v }
    else p
  | .time v =>
    if entry.1 = str "last_login_at" then
      p.setUser pointer { user with lastLoginAt := some v }
    else p
  | .other => p

def updateUser (order : RangeOrder) (now : Time) (id : GoString)
    (updates : Updates) : GoM Process Unit := fun p =>
  match p.store.users.lookup id with
  | none => (.error errNotFound, p)
  | some pointer =>
    let p := (updates.range order).foldl (updateUserField pointer) p
    (.ok (), p.setUser pointer { p.records.users pointer with updatedAt := now })

/-! ## References -/

def setReference (pointer : Pointer) (ref : Reference) (p : Process) : Process := { p with
    records :=
      { p.records with
        references := Function.update p.records.references pointer ref } }

def refKey (repoID name : GoString) : GoString := repoID ++ str ":" ++ name

def saveRef (now : Time) (repoID : GoString) (pointer : Pointer) : GoM Process Unit := fun p =>
  let ref := (p.records.references pointer).stamped now
  let p := p.setReference pointer ref
  (.ok (),
    { p with
      store :=
        { p.store with
          refs := p.store.refs.insert (refKey repoID ref.name) pointer } })

def getRef (repoID name : GoString) (p : Process) : Except GoString Pointer :=
  found (p.store.refs.lookup (refKey repoID name))

def listRefs (order : RangeOrder) (repoID refType : GoString) (p : Process) : List Pointer :=
  (((p.store.refs.range order).filter fun entry =>
    hasPrefix entry.1 (repoID ++ str ":")).map Prod.snd).filter fun pointer =>
      matchesText refType (p.records.references pointer).type

def deleteRef (repoID name : GoString) : GoM Process Unit := fun p =>
  if p.store.refs.contains (refKey repoID name) then
    (.ok (),
      { p with
        store := { p.store with refs := p.store.refs.erase (refKey repoID name) } })
  else (.error errNotFound, p)

def updateRef (now : Time) (repoID name newHash : GoString) : GoM Process Unit := fun p =>
  match p.store.refs.lookup (refKey repoID name) with
  | none => (.error errNotFound, p)
  | some pointer =>
    (.ok (),
      p.setReference pointer
        { p.records.references pointer with
          hash := newHash, updatedAt := now })

/-! ## Audit events -/

def maxEvents : ℕ := 10000

def lastOf {α : Type} (count : ℕ) (values : List α) : List α := values.drop (values.length - count)

def logEvent (stamp : Stamp) (pointer : Pointer) : GoM Process Unit := fun p =>
  let event := (p.records.events pointer).stamped stamp
  (.ok (),
    { p with
      records :=
        { p.records with
          events := Function.update p.records.events pointer event }
      store :=
        { p.store with
          events := lastOf maxEvents (p.store.events ++ [pointer]) } })

def queryEvents (filter : EventFilter) (p : Process) : List Pointer :=
  window filter.offset filter.limit
    (p.store.events.filter fun pointer =>
      filter.accepts (p.records.events pointer))

def countEvents (filter : EventFilter) (p : Process) : ℕ := (p.queryEvents filter).length

end Process

end Govc.Datastore
