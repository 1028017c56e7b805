import Govc.GuardedRuns
import Govc.ObjectStore

/-!
# Which stored objects reach the backend

`StoreObject` fills the cache before it writes to the backend, and answers from
the cache; after a failed write the next call succeeds without writing.  As long
as no call repeats a failed hash, and no two stored byte strings share a digest,
the backend holds every object whose call succeeded.
-/

namespace Govc

open Go Host MemoryBackend Store

/-- A backend that can fail, and that holds what it was given when it does
not. -/
class DurableBackend (β : Type) extends Backend β where
  read_written : ∀ b hash data, (writeObject b hash data).1 = .ok () →
    readObject (writeObject b hash data).2 hash = .ok data

structure StoreRun (β : Type) where
  store : Store β
  stored : List Object
  failed : List GoString

namespace StoreRun

variable {β : Type}

section

variable [Backend β]

def call (host : Host) (object : Object) (run : StoreRun β) : StoreRun β :=
  match storeObject host object run.store with
  | (.ok _, after) =>
    { store := after, stored := object :: run.stored, failed := run.failed }
  | (_, after) =>
    { store := after, stored := run.stored,
      failed := object.hash host :: run.failed }

/-- The backend holds every object whose call returned a hash, and a new store
on the backend reads it. -/
def Durable (host : Host) (run : StoreRun β) : Prop :=
  ∀ object ∈ run.stored,
    Backend.readObject run.store.backend (object.hash host) = .ok object.serialize ∧
      (getObject host (object.hash host) (Store.new run.store.backend)).1 =
        (GoM.ofExcept (parseObject host object.serialize) (Store.new run.store.backend)).1

/-- The backend write of this object has not failed, and no other object with
its digest was stored. -/
def notRetried (host : Host) (run : StoreRun β) (object : Object) : Prop :=
  object.hash host ∉ run.failed ∧
    ∀ data ∈ run.store.hashed, host.hashObject data = object.hash host → data = object.serialize

end

theorem ne_of_uncached {host : Host} {run : StoreRun β} {object : Object}
    (hcached : run.store.cache.hasObject (object.hash host) = false)
    {other : GoString} {data : Bytes}
    (hother : run.store.cache.objects.lookup other = some data) :
    other ≠ object.hash host := by
  rintro rfl
  rw [MemoryBackend.hasObject, GoMap.contains, hother] at hcached
  cases hcached

end StoreRun

def storeSystem (β : Type) [Backend β] (host : Host) : Runs.System (StoreRun β) Object where
  init run := ∃ backend, run = ⟨Store.new backend, [], []⟩
  step run object after := after = run.call host object

namespace StoreRun

variable {β : Type} [DurableBackend β] {host : Host} {run : StoreRun β}
  {object : Object}

/-- The cache holds what was stored; what did not fail is in the backend. -/
structure WrittenThrough (host : Host) (run : StoreRun β) : Prop where
  origin : ∀ hash data, run.store.cache.objects.lookup hash = some data →
    host.hashObject data = hash ∧ data ∈ run.store.hashed
  backed : ∀ hash data, run.store.cache.objects.lookup hash = some data →
    hash ∉ run.failed → Backend.readObject run.store.backend hash = .ok data
  cached : ∀ object ∈ run.stored,
    run.store.cache.objects.lookup (object.hash host) = some object.serialize
  succeeded : ∀ object ∈ run.stored, object.hash host ∉ run.failed

theorem call_of_cached (hcached : run.store.cache.hasObject (object.hash host) = true) :
    run.call host object =
      ⟨{ run.store with hashed := object.serialize :: run.store.hashed },
        object :: run.stored, run.failed⟩ := by
  unfold call storeObject
  simp only [show host.hashObject object.serialize = object.hash host from rfl, hcached, if_true]

theorem call_of_uncached (hcached : run.store.cache.hasObject (object.hash host) = false) :
    run.call host object =
      match (Backend.writeObject run.store.backend (object.hash host) object.serialize).1 with
      | .ok _ => ⟨run.store.writeObject (object.hash host) object.serialize,
          object :: run.stored, run.failed⟩
      | .error _ => ⟨run.store.writeObject (object.hash host) object.serialize,
          run.stored, object.hash host :: run.failed⟩ := by
  unfold call storeObject
  simp only [show host.hashObject object.serialize = object.hash host from rfl, hcached,
    Bool.false_eq_true, if_false]
  cases (Backend.writeObject run.store.backend (object.hash host) object.serialize).1 <;> rfl

namespace WrittenThrough

variable (hinv : WrittenThrough host run)

include hinv

theorem of_cached (hguard : notRetried host run object)
    (hcached : run.store.cache.hasObject (object.hash host) = true) :
    WrittenThrough host
      ⟨{ run.store with hashed := object.serialize :: run.store.hashed },
        object :: run.stored, run.failed⟩ := by
  obtain ⟨data, hdata⟩ := Option.isSome_iff_exists.mp hcached
  have hsame : data = object.serialize := by
    have horigin := hinv.origin _ data hdata
    exact hguard.2 data horigin.2 horigin.1
  constructor
  · intro hash held hlookup
    have horigin := hinv.origin hash held hlookup
    exact ⟨horigin.1, List.mem_cons_of_mem _ horigin.2⟩
  · exact hinv.backed
  · rw [hsame] at hdata
    exact List.forall_mem_cons.mpr ⟨hdata, hinv.cached⟩
  · exact List.forall_mem_cons.mpr ⟨hguard.1, hinv.succeeded⟩

theorem origin_writeObject {hash : GoString} {data : Bytes}
    (hlookup : (run.store.writeObject (object.hash host)
      object.serialize).cache.objects.lookup hash = some data) :
    host.hashObject data = hash ∧ data ∈ object.serialize :: run.store.hashed := by
  simp only [Store.writeObject, MemoryBackend.writeObject, GoMap.lookup_insert_eq] at hlookup
  split_ifs at hlookup with heq
  · cases hlookup
    exact ⟨heq.symm, List.mem_cons_self⟩
  · have horigin := hinv.origin hash data hlookup
    exact ⟨horigin.1, List.mem_cons_of_mem _ horigin.2⟩

theorem cached_writeObject (hcached : run.store.cache.hasObject (object.hash host) = false)
    {other : Object} (hmem : other ∈ run.stored) :
    (run.store.writeObject (object.hash host)
      object.serialize).cache.objects.lookup (other.hash host) = some other.serialize := by
  have hother := hinv.cached other hmem
  simp only [Store.writeObject, MemoryBackend.writeObject,
    GoMap.lookup_insert_eq, if_neg (ne_of_uncached hcached hother)]
  exact hother

theorem backed_writeObject {hash : GoString} {data : Bytes} (hne : hash ≠ object.hash host)
    (hlookup : (run.store.writeObject (object.hash host)
      object.serialize).cache.objects.lookup hash = some data)
    (hfailed : hash ∉ run.failed) :
    Backend.readObject (run.store.writeObject (object.hash host)
      object.serialize).backend hash = .ok data := by
  simp only [Store.writeObject, MemoryBackend.writeObject,
    GoMap.lookup_insert_eq, if_neg hne] at hlookup ⊢
  rw [Backend.write_frame _ _ _ _ hne]
  exact hinv.backed hash data hlookup hfailed

theorem of_written (hguard : notRetried host run object)
    (hcached : run.store.cache.hasObject (object.hash host) = false)
    (hwrite : (Backend.writeObject run.store.backend (object.hash host)
      object.serialize).1 = .ok ()) :
    WrittenThrough host
      ⟨run.store.writeObject (object.hash host) object.serialize,
        object :: run.stored, run.failed⟩ := by
  constructor
  · intro hash data hlookup
    exact hinv.origin_writeObject hlookup
  · intro hash data hlookup hfailed
    by_cases heq : hash = object.hash host
    · subst heq
      simp only [Store.writeObject, MemoryBackend.writeObject,
        GoMap.lookup_insert_eq, if_true] at hlookup
      cases hlookup
      exact DurableBackend.read_written _ _ _ hwrite
    · exact hinv.backed_writeObject heq hlookup hfailed
  · refine List.forall_mem_cons.mpr ⟨?_, fun _ => hinv.cached_writeObject hcached⟩
    simp [Store.writeObject, MemoryBackend.writeObject]
  · exact List.forall_mem_cons.mpr ⟨hguard.1, hinv.succeeded⟩

theorem of_failed (hcached : run.store.cache.hasObject (object.hash host) = false) :
    WrittenThrough host
      ⟨run.store.writeObject (object.hash host) object.serialize,
        run.stored, object.hash host :: run.failed⟩ := by
  constructor
  · intro hash data hlookup
    exact hinv.origin_writeObject hlookup
  · intro hash data hlookup hfailed
    rw [List.mem_cons, not_or] at hfailed
    exact hinv.backed_writeObject hfailed.1 hlookup hfailed.2
  · intro other hmem
    exact hinv.cached_writeObject hcached hmem
  · intro other hmem hfailed
    rcases List.mem_cons.mp hfailed with heq | hfailed
    · exact ne_of_uncached hcached (hinv.cached other hmem) heq
    · exact hinv.succeeded other hmem hfailed

theorem call (hguard : notRetried host run object) :
    WrittenThrough host (run.call host object) := by
  cases hcached : run.store.cache.hasObject (object.hash host) with
  | true =>
    rw [call_of_cached hcached]
    exact hinv.of_cached hguard hcached
  | false =>
    rw [call_of_uncached hcached]
    split
    · exact hinv.of_written hguard hcached ‹_›
    · exact hinv.of_failed hcached

theorem durable : run.Durable host := by
  intro object hmem
  have hread := hinv.backed _ _ (hinv.cached object hmem) (hinv.succeeded object hmem)
  refine ⟨hread, ?_⟩
  have hmissing : (Store.new run.store.backend).cache.readObject
      (object.hash host) = .error (str "object not found: " ++ object.hash host) := rfl
  have hdata : readData (object.hash host)
      (Store.new run.store.backend) =
        (.ok object.serialize, { Store.new run.store.backend with
          cache := (Store.new run.store.backend).cache.writeObject
            (object.hash host) object.serialize }) := by
    unfold readData
    rw [hmissing]
    simp only [Store.new, hread]
  unfold getObject
  rw [GoM.bind_of_ok hdata]
  cases parseObject host object.serialize <;> rfl

end WrittenThrough

end StoreRun

/-- In a run that repeats no failed hash, the backend holds every object whose
call returned a hash. -/
theorem durable_of_notRetried (β : Type) [DurableBackend β] (host : Host)
    (run : StoreRun β) (hreach : Runs.Reachable (storeSystem β host)
      (StoreRun.notRetried host) run) :
    run.Durable host := by
  have hinv : StoreRun.WrittenThrough host run := by
    refine Runs.Reachable.invariant (I := fun s => StoreRun.WrittenThrough host s) ?_ ?_ hreach
    · rintro first ⟨backend, rfl⟩
      constructor
      · intro hash data hlookup
        cases hlookup
      · intro hash data hlookup
        cases hlookup
      · intro object hmem
        cases hmem
      · intro object hmem
        cases hmem
    · rintro before object after hbefore hguard rfl
      exact hbefore.call hguard
  exact hinv.durable

/-! ## A backend that fails as planned -/

/-- The first entry of `failures` decides whether the next write fails. -/
structure FlakyBackend where
  memory : MemoryBackend
  failures : List Bool

namespace FlakyBackend

def writeObject (b : FlakyBackend) (hash : GoString) (data : Bytes) :
    Except GoString Unit × FlakyBackend :=
  match b.failures with
  | true :: failures => (.error (str "disk full"), ⟨b.memory, failures⟩)
  | false :: failures => (.ok (), ⟨b.memory.writeObject hash data, failures⟩)
  | [] => (.ok (), ⟨b.memory.writeObject hash data, []⟩)

instance : DurableBackend FlakyBackend where
  readObject := fun b => b.memory.readObject
  writeObject := writeObject
  hasObject := fun b => b.memory.hasObject
  listObjects := fun b => .ok b.memory.objects.keys
  write_frame := by
    intro b hash data other hne
    unfold writeObject
    split
    · rfl
    · rw [readObject_writeObject, if_neg hne]
    · rw [readObject_writeObject, if_neg hne]
  read_written := by
    intro b hash data hok
    unfold writeObject at hok ⊢
    split
    · rename_i hfailures
      rw [hfailures] at hok
      cases hok
    · rw [readObject_writeObject, if_pos rfl]
    · rw [readObject_writeObject, if_pos rfl]

end FlakyBackend

def StoreRun.failingOnce : StoreRun FlakyBackend := ⟨Store.new ⟨MemoryBackend.new, [true]⟩, [], []⟩

/-- Another object is stored after a failed write, and then stored again. -/
theorem durable_after_failure :
    Runs.Reachable (storeSystem FlakyBackend checksums) (StoreRun.notRetried checksums)
        (((StoreRun.failingOnce.call checksums (.blob (str "x"))).call
          checksums (.blob (str "y"))).call checksums (.blob (str "y"))) ∧
      (((StoreRun.failingOnce.call checksums (.blob (str "x"))).call
        checksums (.blob (str "y"))).call checksums (.blob (str "y"))).Durable checksums := by
  have hreach : Runs.Reachable (storeSystem FlakyBackend checksums) (StoreRun.notRetried checksums)
      (((StoreRun.failingOnce.call checksums (.blob (str "x"))).call
        checksums (.blob (str "y"))).call checksums (.blob (str "y"))) := by
    refine ⟨StoreRun.failingOnce, ⟨_, rfl⟩, .tail (.tail (.tail .refl ?_ rfl) ?_ rfl) ?_ rfl⟩
    · exact ⟨by decide +kernel, by decide +kernel⟩
    · exact ⟨by decide +kernel, by decide +kernel⟩
    · exact ⟨by decide +kernel, by decide +kernel⟩
  exact ⟨hreach, durable_of_notRetried _ _ _ hreach⟩

/-- A call that repeats a failed one returns the hash of an object that the
backend does not hold. -/
theorem retry_after_failure_not_durable :
    ∃ run, Runs.Reachable (storeSystem FlakyBackend checksums) (fun _ _ => True) run ∧
      .blob (str "x") ∈ run.stored ∧
      Backend.readObject run.store.backend ((Object.blob (str "x")).hash checksums) =
        .error (str "object not found: " ++ (Object.blob (str "x")).hash checksums) := by
  refine ⟨(StoreRun.failingOnce.call checksums (.blob (str "x"))).call
    checksums (.blob (str "x")), ?_, List.mem_cons_self, ?_⟩
  · exact ⟨StoreRun.failingOnce, ⟨_, rfl⟩, .tail (.tail .refl trivial rfl) trivial rfl⟩
  · decide +kernel

end Govc
