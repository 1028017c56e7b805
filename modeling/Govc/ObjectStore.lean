import Govc.GoEffects
import Govc.GoMaps
import Govc.ObjectCodec

/-!
# The object store

`Store` keeps every object it has seen in a memory cache and writes it through to
a backend.  Two objects with one digest would be confused: to say that this did
not happen, a store carries the log `hashed` of all byte strings it was asked to
store, which no operation reads.
-/

namespace Govc

open Go

class Backend (β : Type) where
  readObject : β → GoString → Except GoString Bytes
  writeObject : β → GoString → Bytes → Except GoString Unit × β
  hasObject : β → GoString → Bool
  listObjects : β → Except GoString (List GoString)
  write_frame : ∀ b hash data other, other ≠ hash →
    readObject (writeObject b hash data).2 other = readObject b other

/-- A backend whose writes never fail. -/
class ReliableBackend (β : Type) extends Backend β where
  empty : β
  read_empty : ∀ hash data, readObject empty hash ≠ .ok data
  write_ok : ∀ b hash data, (writeObject b hash data).1 = .ok ()

structure MemoryBackend where
  objects : GoMap GoString Bytes

namespace MemoryBackend

def new : MemoryBackend where
  objects := ∅

def readObject (m : MemoryBackend) (hash : GoString) : Except GoString Bytes :=
  match m.objects.lookup hash with
  | some data => .ok data
  | none => .error (str "object not found: " ++ hash)

def writeObject (m : MemoryBackend) (hash : GoString) (data : Bytes) : MemoryBackend where
  objects := m.objects.insert hash data

def hasObject (m : MemoryBackend) (hash : GoString) : Bool := m.objects.contains hash

theorem readObject_writeObject
    (m : MemoryBackend) (hash : GoString) (data : Bytes) (other : GoString) :
    (m.writeObject hash data).readObject other =
      if other = hash then .ok data else m.readObject other := by
  simp only [readObject, writeObject, GoMap.lookup_insert_eq]
  by_cases heq : other = hash
  · simp [heq]
  · simp [heq]

instance : ReliableBackend MemoryBackend where
  readObject := readObject
  writeObject := fun m hash data => (.ok (), m.writeObject hash data)
  hasObject := hasObject
  listObjects := fun m => .ok m.objects.keys
  empty := new
  read_empty := by
    intro hash data
    simp [readObject, new]
  write_ok := by
    intro m hash data
    rfl
  write_frame := by
    intro m hash data other hne
    rw [readObject_writeObject, if_neg hne]

end MemoryBackend

structure Store (β : Type) where
  backend : β
  cache : MemoryBackend
  hashed : List Bytes

namespace Store

variable {β : Type}

def new (backend : β) : Store β where
  backend := backend
  cache := MemoryBackend.new
  hashed := []

variable [Backend β]

def writeObject (store : Store β) (hash : GoString) (data : Bytes) : Store β where
  backend := (Backend.writeObject store.backend hash data).2
  cache := store.cache.writeObject hash data
  hashed := data :: store.hashed

def storeObject (host : Host) (object : Object) : GoM (Store β) GoString := fun store =>
    let data := object.serialize
    let hash := host.hashObject data
    if store.cache.hasObject hash then
      (.ok hash, { store with hashed := data :: store.hashed })
    else
      match (Backend.writeObject store.backend hash data).1 with
      | .ok _ => (.ok hash, store.writeObject hash data)
      | .error e => (.error e, store.writeObject hash data)

def readData (hash : GoString) : GoM (Store β) Bytes := fun store =>
    match store.cache.readObject hash with
    | .ok data => (.ok data, store)
    | .error _ =>
      match Backend.readObject store.backend hash with
      | .ok data =>
        (.ok data, { store with cache := store.cache.writeObject hash data })
      | .error e => (.error e, store)

def getObject (host : Host) (hash : GoString) : GoM (Store β) Object := do
  let data ← readData hash
  GoM.ofExcept (parseObject host data)

/-- The type assertion that ends `GetBlob`, `GetTree`, `GetCommit` and
`GetTag`. -/
def getAs {α : Type} (select : Object → Option α) (kind : GoString)
    (host : Host) (hash : GoString) : GoM (Store β) α := do
  let object ← getObject host hash
  match select object with
  | some a => pure a
  | none => GoM.fail (str "object " ++ hash ++ str " is not a " ++ kind)

def asBlob : Object → Option Bytes
  | .blob bytes => some bytes
  | _ => none

def asTree : Object → Option Tree
  | .tree t => some t
  | _ => none

def asCommit : Object → Option Commit
  | .commit c => some c
  | _ => none

def asTag : Object → Option Tag
  | .tag t => some t
  | _ => none

def getBlob (host : Host) (hash : GoString) : GoM (Store β) Bytes :=
  getAs asBlob (str "blob") host hash

def getTree (host : Host) (hash : GoString) : GoM (Store β) Tree :=
  getAs asTree (str "tree") host hash

def getCommit (host : Host) (hash : GoString) : GoM (Store β) Commit :=
  getAs asCommit (str "commit") host hash

def getTag (host : Host) (hash : GoString) : GoM (Store β) Tag := getAs asTag (str "tag") host hash

def storeBlob (host : Host) (content : Bytes) : GoM (Store β) GoString :=
  storeObject host (.blob content)

def storeTree (host : Host) (tree : Tree) : GoM (Store β) GoString := storeObject host (.tree tree)

def storeCommit (host : Host) (commit : Commit) : GoM (Store β) GoString :=
  storeObject host (.commit commit)

/-! ## What a store holds -/

def find (store : Store β) (hash : GoString) : Option Bytes :=
  match store.cache.readObject hash with
  | .ok data => some data
  | .error _ => (Backend.readObject store.backend hash).toOption

def readAs {α : Type} (select : Object → Option α) (host : Host)
    (store : Store β) (hash : GoString) : Option α :=
  (store.find hash).bind fun data =>
    (parseObject host data).toOption.bind select

def blobAt (host : Host) (store : Store β) (hash : GoString) : Option Bytes :=
  readAs asBlob host store hash

def treeAt (host : Host) (store : Store β) (hash : GoString) : Option Tree :=
  readAs asTree host store hash

def commitAt (host : Host) (store : Store β) (hash : GoString) : Option Commit :=
  readAs asCommit host store hash

structure SameContent (before after : Store β) : Prop where
  find : ∀ hash, after.find hash = before.find hash
  hashed : after.hashed = before.hashed

theorem SameContent.refl (store : Store β) : SameContent store store where
  find := fun _ => rfl
  hashed := rfl

theorem SameContent.trans {first second third : Store β}
    (h₁ : SameContent first second) (h₂ : SameContent second third) :
    SameContent first third where
  find := fun hash => (h₂.find hash).trans (h₁.find hash)
  hashed := h₂.hashed.trans h₁.hashed

variable {before after : Store β} {α : Type}

theorem SameContent.readAs (h : SameContent before after)
    (select : Object → Option α) (host : Host) (hash : GoString) :
    readAs select host after hash = readAs select host before hash := by
  unfold Store.readAs
  rw [h.find hash]

theorem readData_run {hash : GoString} (store : Store β) :
    ∃ after, SameContent store after ∧
      ((∃ data, store.find hash = some data ∧ readData hash store = (.ok data, after)) ∨
        (store.find hash = none ∧ ∃ e, readData hash store = (.error e, after))) := by
  unfold find readData
  cases hcache : store.cache.readObject hash with
  | ok data =>
    exact ⟨store, SameContent.refl store, .inl ⟨data, by simp⟩⟩
  | error missing =>
    cases hbackend : Backend.readObject store.backend hash with
    | error e =>
      refine ⟨store, SameContent.refl store, .inr ⟨?_, e, ?_⟩⟩
      · rfl
      · rfl
    | ok data =>
      refine ⟨{ store with cache := store.cache.writeObject hash data },
        ⟨?_, rfl⟩, .inl ⟨data, rfl, rfl⟩⟩
      intro other
      unfold Store.find
      rw [MemoryBackend.readObject_writeObject]
      by_cases heq : other = hash
      · subst heq
        simp [hcache, hbackend, Except.toOption]
      · simp [heq]

theorem getAs_run (select : Object → Option α) (kind : GoString)
    (host : Host) (hash : GoString) (store : Store β) :
    ∃ after, SameContent store after ∧
      ((∃ a, readAs select host store hash = some a ∧
          getAs select kind host hash store = (.ok a, after)) ∨
        (readAs select host store hash = none ∧
          ∃ e, getAs select kind host hash store = (.error e, after))) := by
  obtain ⟨after, hsame, hread⟩ := readData_run store
  refine ⟨after, hsame, ?_⟩
  unfold getAs getObject readAs
  rcases hread with ⟨data, hfind, hrun⟩ | ⟨hfind, e, hrun⟩
  · rw [hfind, GoM.bind_apply, GoM.bind_of_ok hrun]
    cases hparse : parseObject host data with
    | error e =>
      right
      exact ⟨by simp [hparse, Except.toOption], e, rfl⟩
    | ok object =>
      cases hselect : select object with
      | none =>
        right
        refine ⟨by simp [hparse, Except.toOption, hselect],
          str "object " ++ hash ++ str " is not a " ++ kind, ?_⟩
        simp [hselect]
      | some a =>
        left
        refine ⟨a, by simp [hparse, Except.toOption, hselect], ?_⟩
        simp [hselect]
  · right
    refine ⟨by simp [hfind], e, ?_⟩
    rw [GoM.bind_apply, GoM.bind_apply, hrun]

/-! ## Honest stores -/

/-- Everything that can be read was stored under its own digest. -/
structure Honest (host : Host) (store : Store β) : Prop where
  addressed : ∀ hash data, store.find hash = some data → host.hashObject data = hash
  logged : ∀ hash data, store.find hash = some data → data ∈ store.hashed

theorem Honest.of_sameContent (hhonest : Honest host before) (hsame : SameContent before after) :
    Honest host after where
  addressed := by
    intro hash data hfind
    rw [hsame.find] at hfind
    exact hhonest.addressed hash data hfind
  logged := by
    intro hash data hfind
    rw [hsame.find] at hfind
    rw [hsame.hashed]
    exact hhonest.logged hash data hfind

def Extends (before after : Store β) : Prop :=
  ∀ hash data, before.find hash = some data → after.find hash = some data

theorem Extends.trans {first second third : Store β}
    (h₁ : Extends first second) (h₂ : Extends second third) :
    Extends first third := by
  intro hash data hfind
  exact h₂ hash data (h₁ hash data hfind)

theorem SameContent.extends (h : SameContent before after) : Extends before after := by
  intro hash data hfind
  rw [h.find, hfind]

theorem Extends.readAs (h : Extends before after) {select : Object → Option α}
    {host : Host} {hash : GoString}
    (hread : readAs select host before hash = some a) :
    readAs select host after hash = some a := by
  unfold Store.readAs at hread ⊢
  obtain ⟨data, hfind, hparse⟩ := Option.bind_eq_some_iff.mp hread
  rw [h hash data hfind]
  exact hparse

end Store

/-- No two of the logged byte strings share a digest, and each is short
enough to be a Go slice. -/
structure Host.Faithful (host : Host) (log : List Bytes) : Prop where
  injective : ∀ a ∈ log, ∀ b ∈ log, host.hashObject a = host.hashObject b → a = b
  bounded : ∀ a ∈ log, a.length < 2 ^ 63

instance (host : Host) (log : List Bytes) :
    Decidable (host.Faithful log) :=
  decidable_of_iff
    ((∀ a ∈ log, ∀ b ∈ log, host.hashObject a = host.hashObject b → a = b) ∧
      ∀ a ∈ log, a.length < 2 ^ 63)
    ⟨fun h => ⟨h.1, h.2⟩, fun h => ⟨h.injective, h.bounded⟩⟩

theorem Host.Faithful.of_suffix {host : Host}
    (hfaithful : host.Faithful longer) (hsub : log <:+ longer) :
    host.Faithful log where
  injective := by
    intro a ha b hb
    exact hfaithful.injective a (hsub.subset ha) b (hsub.subset hb)
  bounded := by
    intro a ha
    exact hfaithful.bounded a (hsub.subset ha)

namespace Store

variable {β : Type} [Backend β]

structure Gains (host : Host) (objects : List Object)
    (before after : Store β) : Prop where
  honest : Honest host after
  kept : Extends before after
  found : ∀ object ∈ objects, after.find (object.hash host) = some object.serialize
  fresh : ∀ hash data, after.find hash = some data →
    before.find hash = some data ∨ ∃ object ∈ objects, data = object.serialize

/-- The store after reading and after storing the given objects, in this
order.  The log always grows; the content is known as long as no two logged
byte strings are confused. -/
structure Grown (host : Host) (objects : List Object)
    (before after : Store β) : Prop where
  hashed : after.hashed = (objects.map Object.serialize).reverse ++ before.hashed
  gains : Honest host before → host.Faithful after.hashed → Gains host objects before after

variable {host : Host} {before after : Store β}

theorem Grown.of_sameContent (hsame : SameContent before after) : Grown host [] before after where
  hashed := by simpa using hsame.hashed
  gains := by
    intro hhonest _
    refine ⟨hhonest.of_sameContent hsame, hsame.extends, by simp, ?_⟩
    intro hash data hfind
    rw [hsame.find] at hfind
    exact .inl hfind

theorem Grown.refl (host : Host) (store : Store β) : Grown host [] store store :=
  Grown.of_sameContent (SameContent.refl store)

theorem Grown.suffix (hgrown : Grown host objects before after) :
    before.hashed <:+ after.hashed := by
  rw [hgrown.hashed]
  exact List.suffix_append _ _

theorem Grown.trans {objects more : List Object} {first second third : Store β}
    (h₁ : Grown host objects first second) (h₂ : Grown host more second third) :
    Grown host (objects ++ more) first third where
  hashed := by
    rw [h₂.hashed, h₁.hashed]
    simp
  gains := by
    intro hhonest hfaithful
    have hgain₁ := h₁.gains hhonest (hfaithful.of_suffix h₂.suffix)
    have hgain₂ := h₂.gains hgain₁.honest hfaithful
    refine ⟨hgain₂.honest, hgain₁.kept.trans hgain₂.kept, ?_, ?_⟩
    · intro object hobject
      rcases List.mem_append.mp hobject with hmem | hmem
      · exact hgain₂.kept _ _ (hgain₁.found object hmem)
      · exact hgain₂.found object hmem
    · intro hash data hfind
      rcases hgain₂.fresh hash data hfind with hsecond | ⟨object, hmem, hdata⟩
      · rcases hgain₁.fresh hash data hsecond with
          hfirst | ⟨object, hmem, hdata⟩
        · exact .inl hfirst
        · exact .inr ⟨object, List.mem_append_left _ hmem, hdata⟩
      · exact .inr ⟨object, List.mem_append_right _ hmem, hdata⟩

variable {object : Object}

theorem Gains.of_binding (hhonest : Honest host before) (hfaithful : host.Faithful after.hashed)
    (hhashed : after.hashed = object.serialize :: before.hashed)
    (hfound : after.find (object.hash host) = some object.serialize)
    (hframe : ∀ hash, hash ≠ object.hash host → after.find hash = before.find hash) :
    Gains host [object] before after := by
  have hcases : ∀ hash data, after.find hash = some data →
      (hash = object.hash host ∧ data = object.serialize) ∨ before.find hash = some data := by
    intro hash data hfind
    by_cases heq : hash = object.hash host
    · rw [heq, hfound] at hfind
      cases hfind
      exact .inl ⟨heq, rfl⟩
    · rw [hframe hash heq] at hfind
      exact .inr hfind
  constructor
  · constructor
    · intro hash data hfind
      rcases hcases hash data hfind with ⟨rfl, rfl⟩ | hbefore
      · rfl
      · exact hhonest.addressed hash data hbefore
    · intro hash data hfind
      rw [hhashed]
      rcases hcases hash data hfind with ⟨rfl, rfl⟩ | hbefore
      · exact List.mem_cons_self
      · exact List.mem_cons_of_mem _ (hhonest.logged hash data hbefore)
  · intro hash data hbefore
    by_cases heq : hash = object.hash host
    · have hdata : data = object.serialize := by
        apply hfaithful.injective
        · rw [hhashed]
          exact List.mem_cons_of_mem _ (hhonest.logged hash data hbefore)
        · rw [hhashed]
          exact List.mem_cons_self
        · rw [hhonest.addressed hash data hbefore, heq]
          rfl
      rw [heq, hfound, hdata]
    · rw [hframe hash heq, hbefore]
  · intro other hmem
    rw [List.mem_singleton] at hmem
    rw [hmem, hfound]
  · intro hash data hfind
    rcases hcases hash data hfind with ⟨-, hdata⟩ | hbefore
    · exact .inr ⟨object, List.mem_singleton.mpr rfl, hdata⟩
    · exact .inl hbefore

theorem grown_of_cached {store : Store β}
    (hcached : store.cache.hasObject (object.hash host) = true) :
    Grown host [object] store { store with hashed := object.serialize :: store.hashed } where
  hashed := rfl
  gains := by
    intro hhonest hfaithful
    obtain ⟨data, hdata⟩ := Option.isSome_iff_exists.mp hcached
    have hfind : store.find (object.hash host) = some data := by
      simp [find, MemoryBackend.readObject, hdata]
    have heq : data = object.serialize := by
      apply hfaithful.injective
      · exact List.mem_cons_of_mem _ (hhonest.logged _ _ hfind)
      · exact List.mem_cons_self
      · exact hhonest.addressed _ _ hfind
    apply Gains.of_binding hhonest hfaithful rfl
    · exact heq ▸ hfind
    · intro hash _
      rfl

theorem grown_of_written {object : Object} {store : Store β} :
    Grown host [object] store (store.writeObject (object.hash host) object.serialize) where
  hashed := rfl
  gains := by
    intro hhonest hfaithful
    apply Gains.of_binding hhonest hfaithful rfl
    · simp [find, writeObject, MemoryBackend.readObject_writeObject]
    · intro hash hne
      simp [find, writeObject, MemoryBackend.readObject_writeObject, hne, Backend.write_frame]

theorem storeObject_run {object : Object} (store : Store β) :
    ∃ after, Grown host [object] store after ∧
      (storeObject host object store = (.ok (object.hash host), after) ∨
        ∃ e, (Backend.writeObject store.backend (object.hash host) object.serialize).1 = .error e ∧
          storeObject host object store = (.error e, after)) := by
  by_cases hcached : store.cache.hasObject (object.hash host) = true
  · exact ⟨_, grown_of_cached hcached, .inl (if_pos hcached)⟩
  · refine ⟨_, grown_of_written, ?_⟩
    have hrun : storeObject host object store =
        match (Backend.writeObject store.backend (object.hash host)
          object.serialize).1 with
        | .ok _ => (.ok (object.hash host),
            store.writeObject (object.hash host) object.serialize)
        | .error e => (.error e,
            store.writeObject (object.hash host) object.serialize) :=
      if_neg hcached
    rw [hrun]
    cases (Backend.writeObject store.backend (object.hash host) object.serialize).1 with
    | ok value => exact .inl rfl
    | error e => exact .inr ⟨e, rfl, rfl⟩

theorem storeObject_ok {store : Store β} {hash : GoString}
    (hrun : storeObject host object store = (.ok hash, after)) :
    hash = object.hash host ∧ Grown host [object] store after := by
  obtain ⟨result, hgrown, hok | ⟨e, -, herror⟩⟩ := storeObject_run store
  · rw [hok] at hrun
    cases hrun
    exact ⟨rfl, hgrown⟩
  · rw [herror] at hrun
    cases hrun

end Store

variable {β : Type}

theorem Store.find_new [ReliableBackend β] (hash : GoString) :
    (Store.new (ReliableBackend.empty : β)).find hash = none := by
  cases hread : Backend.readObject (ReliableBackend.empty : β) hash with
  | error e => simp [Store.find, Store.new, MemoryBackend.new,
      MemoryBackend.readObject, hread, Except.toOption]
  | ok data => exact absurd hread (ReliableBackend.read_empty hash data)

theorem Store.new_honest [ReliableBackend β] :
    (Store.new (ReliableBackend.empty : β)).Honest host where
  addressed := by
    intro hash data hfind
    rw [Store.find_new] at hfind
    cases hfind
  logged := by
    intro hash data hfind
    rw [Store.find_new] at hfind
    cases hfind

theorem Store.storeObject_reliable [ReliableBackend β]
    {object : Object} (store : Store β) :
    ∃ after, Store.Grown host [object] store after ∧
      Store.storeObject host object store = (.ok (object.hash host), after) := by
  obtain ⟨after, hgrown, hok | ⟨e, hfail, -⟩⟩ := Store.storeObject_run store
  · exact ⟨after, hgrown, hok⟩
  · rw [ReliableBackend.write_ok] at hfail
    cases hfail

end Govc
