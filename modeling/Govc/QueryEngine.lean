import Govc.QueryIndexes
import Govc.GoSlices
import Govc.GuardedRuns

/-!
# The query engine

The cache is not told of rebuilds, its key joins the fields of the request with
colons, and the answers to pattern requests share their backing array with the
pattern index, where a later request sorts it in place.  Answers are current if
they are only looked up for the request they were made for, since the last
rebuild, and the requests for one pattern sort alike.
-/

namespace Govc

open Go Runs

/-- The files of a stored answer: a slice of its own, or a part of an array of
the pattern index. -/
inductive FileSlice where
  | own (files : List FileEntry)
  | shared (array : ℕ) (page : Page)

structure StoredResult where
  files : FileSlice
  commits : List CommitEntry
  total : ℕ

structure CacheEntry where
  result : StoredResult
  createdAt : ℤ
  lastAccess : ℤ

structure QueryCache where
  cache : GoMap GoString CacheEntry
  maxSize : ℕ
  ttl : ℤ

structure QueryEngine where
  indexes : Indexes
  patternIndex : GoMap GoString ℕ
  arrays : Arrays FileEntry
  queryCache : QueryCache

/-- A call of `Query`, with the orders of its loops and the times at which the
cache is read and written. -/
structure QueryCall where
  request : QueryRequest
  orders : QueryOrders
  filterOrder : RangeOrder
  cacheOrder : RangeOrder
  now : ℤ
  done : ℤ

/-! ## The cache -/

namespace QueryCache

def new (maxSize : ℕ) (ttl : ℤ) : QueryCache where
  cache := ∅
  maxSize := maxSize
  ttl := ttl

def live (qc : QueryCache) (now : ℤ) (key : GoString) : Option CacheEntry :=
  (qc.cache.lookup key).filter fun entry => now - entry.createdAt ≤ qc.ttl

def get (qc : QueryCache) (now : ℤ) (key : GoString) : Option StoredResult × QueryCache :=
  match qc.live now key with
  | none => (none, qc)
  | some entry =>
    (some entry.result,
      { qc with
        cache := qc.cache.insert key { entry with lastAccess := now } })

def oldestKey (qc : QueryCache) (order : RangeOrder) : GoString :=
  ((qc.cache.range order).foldl (fun oldest item =>
    if oldest.1 = [] ∨ item.2.lastAccess < oldest.2 then
      (item.1, item.2.lastAccess)
    else oldest) (([], 0) : GoString × ℤ)).1

def evictLRU (qc : QueryCache) (order : RangeOrder) : QueryCache :=
  if qc.oldestKey order ≠ [] then
    { qc with cache := qc.cache.erase (qc.oldestKey order) }
  else qc

def makeRoom (qc : QueryCache) (order : RangeOrder) : QueryCache :=
  if qc.maxSize ≤ qc.cache.keys.length then qc.evictLRU order else qc

def set (qc : QueryCache) (order : RangeOrder) (now : ℤ) (key : GoString)
    (result : StoredResult) : QueryCache :=
  let qc := qc.makeRoom order
  { qc with cache := qc.cache.insert key ⟨result, now, now⟩ }

def cleanup (qc : QueryCache) (order : RangeOrder) (now : ℤ) : QueryCache := { qc with
    cache := (qc.cache.range order).foldl (fun cache item =>
      if qc.ttl < now - item.2.createdAt then cache.erase item.1 else cache)
      qc.cache }

end QueryCache

/-! ## Queries -/

def QueryRequest.generateCacheKey (req : QueryRequest) (order : RangeOrder) : GoString :=
  (req.filters.range order).foldl
    (fun key filter =>
      key ++ str ":" ++ filter.1 ++ str "=" ++ filter.2.shown)
    (join [formatInt req.type, req.query, formatInt req.limit,
      formatInt req.offset, req.sortBy, req.sortOrder] (str ":"))

def QueryCall.key (call : QueryCall) : GoString := call.request.generateCacheKey call.filterOrder

def QueryRequest.IsPattern (req : QueryRequest) : Prop := QueryType.ofInt req.type = some .byPattern

instance decidableIsPattern (req : QueryRequest) : Decidable req.IsPattern :=
  inferInstanceAs (Decidable (_ = _))

def FileSlice.read (arrays : Arrays FileEntry) : FileSlice → List FileEntry
  | .own files => files
  | .shared array page => page.of ((arrays[array]?).getD [])

def StoredResult.read (arrays : Arrays FileEntry) (result : StoredResult) : QueryResult :=
  ⟨result.files.read arrays, result.commits, result.total⟩

namespace QueryEngine

def new (now : ℤ) : QueryEngine where
  indexes := .new now
  patternIndex := ∅
  arrays := []
  queryCache := .new 1000 600000000000

/-- The array of `queryByPattern`: the one that the pattern index has, or a new
one, which the index gets.  Large results and empty ones are not shared. -/
def patternArray (host : QueryHost) (order : RangeOrder) (query : GoString)
    (engine : QueryEngine) : Option ℕ × QueryEngine :=
  match engine.patternIndex.lookup query with
  | some array => (some array, engine)
  | none =>
    let files := matchPattern host order engine.indexes.files query
    if 0 < files.length ∧ files.length < 100 then
      (some engine.arrays.length,
        { engine with
          arrays := engine.arrays ++ [files]
          patternIndex := engine.patternIndex.insert query engine.arrays.length })
    else (none, engine)

def sortArray (host : QueryHost) (req : QueryRequest) (array : ℕ)
    (engine : QueryEngine) : QueryEngine :=
  { engine with arrays := engine.arrays.modify array (sortFiles host req) }

def finishShared (host : QueryHost) (req : QueryRequest) (array : ℕ)
    (engine : QueryEngine) : Outcome StoredResult × QueryEngine :=
  let count := ((engine.arrays[array]?).getD []).length
  let outcome :=
    match req.pages count 0 with
    | none => .panic outOfRange
    | some (page, _) => .ok ⟨.shared array page, [], count⟩
  (outcome, engine.sortArray host req array)

/-- The evaluation of a request that is not in the cache.  Only the files of a
pattern can be shared. -/
def evaluateCall (host : QueryHost) (call : QueryCall) (engine : QueryEngine) :
    Outcome StoredResult × QueryEngine :=
  let direct := do
    let result ← evaluate host call.orders engine.indexes call.request
    return (⟨.own result.files, result.commits, result.total⟩ : StoredResult)
  if call.request.IsPattern then
    match engine.patternArray host call.orders.entries call.request.query with
    | (some array, engine) => engine.finishShared host call.request array
    | (none, engine) => (direct, engine)
  else (direct, engine)

def query (host : QueryHost) (call : QueryCall) (engine : QueryEngine) :
    Outcome QueryResult × QueryEngine :=
  match engine.queryCache.get call.now call.key with
  | (some result, queryCache) =>
    (.ok (result.read engine.arrays), { engine with queryCache := queryCache })
  | (none, _) =>
    match engine.evaluateCall host call with
    | (.ok result, engine) =>
      (.ok (result.read engine.arrays),
        { engine with
          queryCache := engine.queryCache.set call.cacheOrder call.done call.key result })
    | (.error err, engine) => (.error err, engine)
    | (.panic text, engine) => (.panic text, engine)
    | (.diverge, engine) => (.diverge, engine)

/-! ## Rebuilds -/

def replaceFileIndex (host : QueryHost) (view : RepoView) (engine : QueryEngine) : QueryEngine :=
  { engine with
    indexes := { engine.indexes with files := rebuildFileIndex host view }
    patternIndex := ∅ }

def replaceCommitIndex (host : QueryHost) (view : RepoView) (engine : QueryEngine) : QueryEngine :=
  match rebuildCommitIndex host view with
  | none => engine
  | some commits =>
    { engine with indexes := { engine.indexes with commits := commits } }

def replaceContentIndex (host : QueryHost) (view : RepoView) (engine : QueryEngine) : QueryEngine :=
  { engine with
    indexes :=
      { engine.indexes with
        content := rebuildContentIndex host view engine.indexes.files } }

def rebuildAllIndexes (host : QueryHost) (view : RepoView) (engine : QueryEngine) : QueryEngine :=
  ((engine.replaceFileIndex host view).replaceCommitIndex host view).replaceContentIndex host view

/-- The times are in nanoseconds: one minute, and five for the content. -/
def updateIndexes (host : QueryHost) (now : ℤ) (view : RepoView)
    (engine : QueryEngine) : QueryEngine :=
  let old := engine.indexes
  let engine :=
    if 60000000000 < now - old.files.lastUpdate then
      engine.replaceFileIndex host view
    else engine
  let engine :=
    if 60000000000 < now - old.commits.lastUpdate then
      engine.replaceCommitIndex host view
    else engine
  if 300000000000 < now - old.content.lastUpdate then
    engine.replaceContentIndex host view
  else engine

end QueryEngine

/-! ## Runs -/

inductive QueryStep where
  | rebuildAllIndexes (view : RepoView)
  | updateIndexes (now : ℤ) (view : RepoView)
  | cleanup (order : RangeOrder) (now : ℤ)
  | query (call : QueryCall)

/-- The engine, and the calls that were evaluated before the last rebuild and
since. -/
structure QueryRun where
  engine : QueryEngine
  older : List QueryCall
  recent : List QueryCall

namespace QueryRun

variable (host : QueryHost)

def start (now : ℤ) : QueryRun where
  engine := .new now
  older := []
  recent := []

def Hits (run : QueryRun) (call : QueryCall) : Prop :=
  (run.engine.queryCache.live call.now call.key).isSome = true

instance decidableHits (run : QueryRun) (call : QueryCall) :
    Decidable (run.Hits call) :=
  inferInstanceAs (Decidable (_ = true))

def step (run : QueryRun) : QueryStep → QueryRun
  | .rebuildAllIndexes view =>
    ⟨run.engine.rebuildAllIndexes host view, run.older ++ run.recent, []⟩
  | .updateIndexes now view =>
    ⟨run.engine.updateIndexes host now view, run.older ++ run.recent, []⟩
  | .cleanup order now =>
    { run with
      engine :=
        { run.engine with
          queryCache := run.engine.queryCache.cleanup order now } }
  | .query call =>
    ⟨(run.engine.query host call).2, run.older,
      if run.Hits call then run.recent else run.recent ++ [call]⟩

def SortAlike (req other : QueryRequest) : Prop :=
  req.IsPattern → other.IsPattern → req.query = other.query →
    ∀ ordering other', req.fileOrdering = some ordering →
      other.fileOrdering = some other' → ordering = other'

/-- What was answered under the same key before the last rebuild has expired,
what was answered since was the same request or has expired, and the requests
for one pattern sort alike. -/
structure Undisturbed (run : QueryRun) (call : QueryCall) : Prop where
  current : ∀ earlier ∈ run.older, earlier.key = call.key →
    run.engine.queryCache.ttl < call.now - earlier.done
  same : ∀ earlier ∈ run.recent, earlier.key = call.key →
    SameRequest earlier.request call.request ∨ run.engine.queryCache.ttl < call.now - earlier.done
  alike : ∀ earlier ∈ run.recent, SortAlike earlier.request call.request

def Guard (run : QueryRun) : QueryStep → Prop
  | .query call => run.Undisturbed call
  | _ => True

/-- The answer is one of the evaluation on the present indexes; if it comes
from the cache, it was made since the last rebuild for a request that has the
same evaluations. -/
structure Answered (run : QueryRun) (call : QueryCall) : Prop where
  current : Evaluates host run.engine.indexes call.request (run.engine.query host call).1
  own : ∀ entry, run.engine.queryCache.live call.now call.key = some entry →
    ∃ earlier ∈ run.recent, earlier.key = call.key ∧ entry.createdAt = earlier.done ∧
      ∀ answer, Evaluates host run.engine.indexes earlier.request answer ↔
        Evaluates host run.engine.indexes call.request answer

def Answers (run : QueryRun) : QueryStep → Prop
  | .query call => run.Answered host call
  | _ => True

end QueryRun

end Govc
