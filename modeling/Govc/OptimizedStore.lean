import Govc.GoMaps
import Govc.GuardedRuns
import Govc.ObjectModel

/-!
# The optimized store

`OptimizedStore` puts a least recently used cache, a deduplicator and a
compressor in front of a backend.  `Write` drops data that was written before
under any key, and `Read` hands out what the backend holds as it is, so the
store answers with the last write only in runs that avoid both.
-/

namespace Govc

open Go

structure LRUCache where
  capacity : ℤ
  items : GoMap GoString Bytes
  /-- The keys of the linked list, from its head to its tail. -/
  recent : List GoString

namespace LRUCache

def moveToFront (c : LRUCache) (key : GoString) : LRUCache :=
  { c with recent := key :: c.recent.erase key }

def get (c : LRUCache) (key : GoString) : Option Bytes × LRUCache :=
  match c.items.lookup key with
  | none => (none, c)
  | some value => (some value, c.moveToFront key)

def evictLRU (c : LRUCache) : LRUCache :=
  match c.recent.getLast? with
  | none => c
  | some key =>
    { c with items := c.items.erase key, recent := c.recent.dropLast }

def put (c : LRUCache) (key : GoString) (value : Bytes) : LRUCache :=
  let added := { c with items := c.items.insert key value }
  match c.items.lookup key with
  | some _ => added.moveToFront key
  | none =>
    let added := { added with recent := key :: c.recent }
    if c.capacity < added.items.keys.length then added.evictLRU else added

variable {c : LRUCache} {key other : GoString} {value found : Bytes}

theorem lookup_of_evictLRU (hfound : c.evictLRU.items.lookup other = some found) :
    c.items.lookup other = some found := by
  unfold evictLRU at hfound
  split at hfound
  · exact hfound
  · exact GoMap.lookup_of_erase hfound

/-- A cached value is the one put last, whatever is evicted. -/
theorem lookup_of_put (hfound : (c.put key value).items.lookup other = some found) :
    if other = key then found = value
    else c.items.lookup other = some found := by
  have hadded : (c.items.insert key value).lookup other = some found := by
    unfold put at hfound
    split at hfound
    · exact hfound
    · dsimp only at hfound
      split_ifs at hfound
      · exact lookup_of_evictLRU hfound
      · exact hfound
  rw [GoMap.lookup_insert_eq] at hadded
  split_ifs at hadded ⊢
  · exact (Option.some.inj hadded).symm
  · exact hadded

end LRUCache

/-- What zlib does to bytes: `deflate` writes the compressed stream, `inflate`
reads it. -/
structure Zlib where
  deflate : Bytes → Bytes
  inflate : Bytes → Option Bytes
  inflate_deflate : ∀ data, inflate (deflate data) = some data

/-- `AdaptiveCompressor.Compress` with its threshold of one kilobyte. -/
def Zlib.compress (zlib : Zlib) (data : Bytes) : Bytes × Bool :=
  if data.length < 1024 then (data, false)
  else if data.length * 9 / 10 ≤ (zlib.deflate data).length then (data, false)
  else (zlib.deflate data, true)

theorem Zlib.compress_of_false {zlib : Zlib}
    (hplain : (zlib.compress data).2 = false) :
    (zlib.compress data).1 = data := by
  unfold compress at hplain ⊢
  split_ifs at hplain ⊢ <;> rfl

/-- The backend behaves as a map: a key it lacks is an error. -/
structure OptimizedStore where
  cache : LRUCache
  seen : GoMap GoString GoString
  backend : GoMap GoString Bytes

namespace OptimizedStore

def new (backend : GoMap GoString Bytes) (cacheSize : ℤ) : OptimizedStore :=
  ⟨⟨cacheSize, ∅, []⟩, ∅, backend⟩

/-- `none` stands for the error of the backend. -/
def read (os : OptimizedStore) (key : GoString) : Option Bytes × OptimizedStore :=
  match os.cache.get key with
  | (some data, cache) => (some data, { os with cache := cache })
  | (none, cache) =>
    match os.backend.lookup key with
    | none => (none, { os with cache := cache })
    | some data => (some data, { os with cache := cache.put key data })

def checkDuplicate (host : Host) (os : OptimizedStore) (data : Bytes) : GoString × Bool :=
  let hash := hexEncode (host.sha256 data)
  match os.seen.lookup hash with
  | some original => (original, true)
  | none => (hash, false)

def write (host : Host) (zlib : Zlib) (os : OptimizedStore) (key : GoString)
    (data : Bytes) : OptimizedStore :=
  match os.checkDuplicate host data with
  | (_, true) => os
  | (hash, false) =>
    { seen := os.seen.insert hash key
      cache := os.cache.put key data
      backend := os.backend.insert key (zlib.compress data).1 }

end OptimizedStore

inductive OptimizedCall where
  | write (key : GoString) (data : Bytes)
  | read (key : GoString)

/-- A store together with the data of the last `Write` of every key. -/
structure OptimizedRun where
  os : OptimizedStore
  last : GoMap GoString Bytes

namespace OptimizedRun

variable (host : Host) (zlib : Zlib)

def step (run : OptimizedRun) : OptimizedCall → OptimizedRun
  | .write key data =>
    ⟨run.os.write host zlib key data, run.last.insert key data⟩
  | .read key => ⟨(run.os.read key).2, run.last⟩

def system : Runs.System OptimizedRun OptimizedCall where
  init run := ∃ backend cacheSize, run = ⟨.new backend cacheSize, ∅⟩
  step run call after := after = run.step host zlib call

/-- A write of data not seen before, or of what the key was last given; a read
of a cached key, or of one whose data was not worth compressing. -/
def Admissible (run : OptimizedRun) : OptimizedCall → Prop
  | .write key data =>
    (run.os.checkDuplicate host data).2 = false ∨ run.last.lookup key = some data
  | .read key =>
    (run.os.cache.items.lookup key).isSome ∨
      ∀ data, run.last.lookup key = some data → (zlib.compress data).2 = false

/-- The cache holds last writes, and the backend their compressed form. -/
structure Holds (run : OptimizedRun) : Prop where
  cached : ∀ key data value, run.last.lookup key = some data →
    run.os.cache.items.lookup key = some value → value = data
  backed : ∀ key data, run.last.lookup key = some data →
    run.os.backend.lookup key = some (zlib.compress data).1

variable {host zlib} {run : OptimizedRun} {key : GoString} {data : Bytes}

theorem Holds.write (hholds : run.Holds zlib)
    (hguard : run.Admissible host zlib (.write key data)) :
    (run.step host zlib (.write key data)).Holds zlib := by
  simp only [Admissible, OptimizedStore.checkDuplicate] at hguard
  simp only [step, OptimizedStore.write, OptimizedStore.checkDuplicate]
  cases hseen : run.os.seen.lookup (hexEncode (host.sha256 data)) with
  | some original =>
    -- the dropped write repeats the last one of its key
    have hlast : run.last.lookup key = some data := by
      simpa [hseen] using hguard
    have hsame : ∀ other, (run.last.insert key data).lookup other = run.last.lookup other := by
      intro other
      rw [GoMap.lookup_insert_eq]
      split_ifs with hkey
      · rw [hkey, hlast]
      · rfl
    constructor <;> simp only [hsame]
    · exact hholds.cached
    · exact hholds.backed
  | none =>
    constructor
    · intro other written value hlast hcached
      have hput := LRUCache.lookup_of_put hcached
      rw [GoMap.lookup_insert_eq] at hlast
      split_ifs at hlast hput
      · rw [hput, Option.some.inj hlast]
      · exact hholds.cached other written value hlast hput
    · intro other written hlast
      simp only [GoMap.lookup_insert_eq] at hlast ⊢
      split_ifs at hlast ⊢
      · rw [Option.some.inj hlast]
      · exact hholds.backed other written hlast

theorem Holds.read_eq (hholds : run.Holds zlib) (hguard : run.Admissible host zlib (.read key))
    (hlast : run.last.lookup key = some data) :
    (run.os.read key).1 = some data := by
  simp only [OptimizedStore.read, LRUCache.get]
  cases hcached : run.os.cache.items.lookup key with
  | some value => simp [hholds.cached key data value hlast hcached]
  | none =>
    have hplain : (zlib.compress data).2 = false := by
      simp only [Admissible, hcached] at hguard
      simpa [hlast] using hguard
    simp [hholds.backed key data hlast, Zlib.compress_of_false hplain]

theorem Holds.read (hholds : run.Holds zlib) (hguard : run.Admissible host zlib (.read key)) :
    (run.step host zlib (.read key)).Holds zlib := by
  have hread : ∀ data, run.last.lookup key = some data →
      (run.os.read key).1 = some data := fun _ => hholds.read_eq hguard
  simp only [step, OptimizedStore.read, LRUCache.get] at hread ⊢
  cases hcached : run.os.cache.items.lookup key with
  | some value => exact ⟨hholds.cached, hholds.backed⟩
  | none =>
    cases hback : run.os.backend.lookup key with
    | none => exact ⟨hholds.cached, hholds.backed⟩
    | some found =>
      refine ⟨?_, hholds.backed⟩
      intro other written value hlast hvalue
      have hput := LRUCache.lookup_of_put hvalue
      split_ifs at hput with hkey
      · subst hkey
        have hfound := hread written hlast
        simp only [hcached, hback] at hfound
        rw [hput, Option.some.inj hfound]
      · exact hholds.cached other written value hlast hput

/-- In every run of admissible calls, an admissible `Read` of a key returns
the data of the last `Write` of that key. -/
theorem read_last_write (host : Host) (zlib : Zlib) {run : OptimizedRun}
    (hreach : Runs.Reachable (system host zlib) (Admissible host zlib) run)
    {key : GoString} (hguard : run.Admissible host zlib (.read key))
    {data : Bytes} (hlast : run.last.lookup key = some data) :
    (run.os.read key).1 = some data := by
  have hholds : run.Holds zlib := by
    apply hreach.invariant
    · intro first hfirst
      obtain ⟨backend, cacheSize, rfl⟩ := hfirst
      constructor <;> simp
    · intro s call after hs hadmissible hstep
      subst hstep
      cases call with
      | write => exact hs.write hadmissible
      | read => exact hs.read hadmissible
  exact hholds.read_eq hguard hlast

/-- A compressor that never compresses. -/
def stored : Zlib := ⟨id, some, fun _ => rfl⟩

/-- Two keys given different data, with room for one of them in the cache. -/
def rewritten : OptimizedRun :=
  [OptimizedCall.write [97] [120], .write [98] [121]].foldl
    (step Host.checksums stored) ⟨.new ∅ 1, ∅⟩

theorem read_last_write_rewritten :
    rewritten.os.cache.items.lookup [97] = none ∧ (rewritten.os.read [97]).1 = some [120] := by
  have hadmits : Runs.Admits (step Host.checksums stored)
      (Admissible Host.checksums stored) ⟨.new ∅ 1, ∅⟩
      [.write [97] [120], .write [98] [121]] :=
    ⟨.inl (by decide), .inl (by decide), trivial⟩
  have hread : rewritten.Admissible Host.checksums stored (.read [97]) := by
    refine .inr fun data hlast => ?_
    have hdata : rewritten.last.lookup [97] = some [120] := by decide
    rw [← Option.some.inj (hdata.symm.trans hlast)]
    decide
  exact ⟨by decide, read_last_write Host.checksums stored
    ⟨_, ⟨∅, 1, rfl⟩, Runs.steps_foldl (fun _ _ => rfl) hadmits⟩ hread
    (by decide)⟩

/-- The second key given the same data is missing from the store, and a key
given its first data again keeps its second. -/
theorem read_misses_duplicate :
    let run := fun calls : List OptimizedCall =>
      calls.foldl (step Host.checksums stored) ⟨.new ∅ 10, ∅⟩
    ((run [.write [97] [120], .write [98] [120]]).os.read [98]).1 = none ∧
      ((run [.write [97] [120], .write [97] [121],
        .write [97] [120]]).os.read [97]).1 = some [121] := by
  decide

end OptimizedRun

end Govc
