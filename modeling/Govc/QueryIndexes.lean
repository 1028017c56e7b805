import Govc.FullTextIndex
import Govc.ObjectModel
import Govc.GoEffects
import Govc.GoPaths
import Govc.GoSort

/-!
# The indexes of the query engine

A rebuild computes the indexes of files, commits and words from what the
repository shows at that time.  `evaluate` is a request without any cache; its
loops go over maps, so it takes their orders.
-/

namespace Govc

open Go Filepath

/-- What the engine takes from the standard library besides `Host`. -/
structure QueryHost extends Host where
  toLower : GoString → GoString
  parseTime : GoString → Except GoString Time
  sorter : Sorter

def Time.before (first second : Time) : Bool :=
  first.unix < second.unix || (first.unix = second.unix && first.nanosecond < second.nanosecond)

def Time.isZero (time : Time) : Bool := time.unix = Time.zero.unix && time.nanosecond = 0

structure FileEntry where
  path : GoString
  hash : GoString
  size : ℕ
  lastModified : Time
  commitHash : GoString
  content : Bytes

structure CommitEntry where
  hash : GoString
  author : GoString
  email : GoString
  message : GoString
  timestamp : Time
  parentHashes : List GoString
  treeHash : GoString
  files : List GoString

/-- The pattern index is kept by the engine, with the arrays it shares. -/
structure FileIndex where
  pathIndex : GoMap GoString FileEntry
  hashIndex : GoMap GoString FileEntry
  lastUpdate : ℤ

structure CommitIndex where
  hashIndex : GoMap GoString CommitEntry
  authorIndex : GoMap GoString (List CommitEntry)
  dateIndex : List GoString
  messageIndex : GoMap GoString (List CommitEntry)
  lastUpdate : ℤ

structure ContentIndex where
  invertedIndex : GoMap GoString (GoMap GoString ℤ)
  lastUpdate : ℤ

structure Indexes where
  files : FileIndex
  commits : CommitIndex
  content : ContentIndex

def FileIndex.new (now : ℤ) : FileIndex where
  pathIndex := ∅
  hashIndex := ∅
  lastUpdate := now

def CommitIndex.new (now : ℤ) : CommitIndex where
  hashIndex := ∅
  authorIndex := ∅
  dateIndex := []
  messageIndex := ∅
  lastUpdate := now

def ContentIndex.new (now : ℤ) : ContentIndex where
  invertedIndex := ∅
  lastUpdate := now

def Indexes.new (now : ℤ) : Indexes where
  files := .new now
  commits := .new now
  content := .new now

/-! ## Rebuilding -/

/-- What a rebuild reads: the repository, the clock, and how deep the trees of
the store are nested. -/
structure RepoView where
  head : Except GoString GoString
  getCommit : GoString → Option Commit
  getTree : GoString → Option Tree
  getBlob : GoString → Option Bytes
  getBlobWithDelta : GoString → Option Bytes
  staged : List GoString
  getFileHash : GoString → Option GoString
  log : Option (List Commit)
  depth : ℕ
  modified : GoString → Time
  now : ℤ
  order : RangeOrder

def childPath (front name : GoString) : GoString :=
  if front ≠ [] then front ++ str "/" ++ name else name

def fileEntry (view : RepoView) (path hash commitHash : GoString) : FileEntry :=
  match view.getBlob hash with
  | some content =>
    ⟨path, hash, content.length, view.modified path, commitHash,
      if content.length < 1024 * 1024 then content else []⟩
  | none => ⟨path, hash, 0, view.modified path, commitHash, []⟩

def FileIndex.add (index : FileIndex) (entry : FileEntry) : FileIndex := { index with
    pathIndex := index.pathIndex.insert entry.path entry
    hashIndex := index.hashIndex.insert entry.hash entry }

def indexTreeFiles (view : RepoView) (commitHash : GoString) :
    ℕ → Tree → GoString → FileIndex → FileIndex
  | 0, _, _, index => index
  | fuel + 1, tree, front, index =>
    tree.entries.foldl (fun index entry =>
      let fullPath := childPath front entry.name
      if entry.mode = str "040000" then
        match view.getTree entry.hash with
        | some subTree =>
          indexTreeFiles view commitHash fuel subTree fullPath index
        | none => index
      else index.add (fileEntry view fullPath entry.hash commitHash)) index

def indexHeadFiles (host : QueryHost) (view : RepoView) (index : FileIndex) : FileIndex :=
  match view.head with
  | .error _ => index
  | .ok headHash =>
    if headHash = [] then index
    else
      match view.getCommit headHash with
      | none => index
      | some commit =>
        match view.getTree commit.treeHash with
        | none => index
        | some tree =>
          indexTreeFiles view ((Object.commit commit).hash host.toHost) view.depth tree [] index

def indexStagedFile (view : RepoView) (index : FileIndex) (path : GoString) : FileIndex :=
  if index.pathIndex.contains path then index
  else
    match view.getFileHash path with
    | none => index
    | some fileHash =>
      index.add (fileEntry view path fileHash (str "staging"))

def rebuildFileIndex (host : QueryHost) (view : RepoView) : FileIndex :=
  view.staged.foldl (indexStagedFile view) (indexHeadFiles host view (.new view.now))

def collectTreeFiles (view : RepoView) : ℕ → Tree → GoString → List GoString → List GoString
  | 0, _, _, files => files
  | fuel + 1, tree, front, files =>
    tree.entries.foldl (fun files entry =>
      let fullPath := childPath front entry.name
      if entry.mode = str "040000" then
        match view.getTree entry.hash with
        | some subTree => collectTreeFiles view fuel subTree fullPath files
        | none => files
      else files ++ [fullPath]) files

def getCommitFiles (view : RepoView) (commit : Commit) : List GoString :=
  match view.getTree commit.treeHash with
  | some tree => collectTreeFiles view view.depth tree [] []
  | none => []

def commitEntry (host : QueryHost) (view : RepoView) (commit : Commit) : CommitEntry where
  hash := (Object.commit commit).hash host.toHost
  author := commit.author.name
  email := commit.author.email
  message := commit.message
  timestamp := commit.author.time
  parentHashes := [commit.parentHash]
  treeHash := commit.treeHash
  files := getCommitFiles view commit

def appendEntry (index : GoMap GoString (List CommitEntry)) (key : GoString)
    (entry : CommitEntry) : GoMap GoString (List CommitEntry) :=
  index.insert key ((index.lookup key).getD [] ++ [entry])

def CommitIndex.add (host : QueryHost) (index : CommitIndex) (entry : CommitEntry) : CommitIndex :=
  { index with
    hashIndex := index.hashIndex.insert entry.hash entry
    authorIndex := appendEntry index.authorIndex entry.author entry
    messageIndex :=
      ((fields (host.toLower entry.message)).filter fun word =>
        3 ≤ word.length).foldl (fun index word => appendEntry index word entry)
        index.messageIndex
    dateIndex := index.dateIndex ++ [entry.hash] }

/-- One comparison of the exchange sort of `sortDateIndex`. -/
def CommitIndex.exchange (index : CommitIndex) (i : ℕ)
    (hashes : List GoString) (j : ℕ) : List GoString :=
  match hashes[i]?, hashes[j]? with
  | some first, some second =>
    match index.hashIndex.lookup first, index.hashIndex.lookup second with
    | some commit1, some commit2 =>
      if commit1.timestamp.before commit2.timestamp then
        (hashes.set i second).set j first
      else hashes
    | _, _ => hashes
  | _, _ => hashes

def CommitIndex.sortDateIndex (index : CommitIndex) : CommitIndex :=
  let count := index.dateIndex.length
  { index with
    dateIndex := (List.range (count - 1)).foldl (fun hashes i =>
      (List.range' (i + 1) (count - 1 - i)).foldl (index.exchange i) hashes)
      index.dateIndex }

/-- `none` when the log cannot be read: the index is then left as it is. -/
def rebuildCommitIndex (host : QueryHost) (view : RepoView) : Option CommitIndex :=
  view.log.map fun commits =>
    ((commits.map (commitEntry host view)).foldl (CommitIndex.add host)
      (.new view.now)).sortDateIndex

/-! ## Words -/

def isTokenByte (b : UInt8) : Bool := (97 ≤ b && b ≤ 122) || (48 ≤ b && b ≤ 57)

def stem (word : GoString) : GoString :=
  [str "ing", str "ed", str "er", str "est", str "ly", str "s"].foldl trimSuffix word

def tokenize (host : QueryHost) (text : GoString) : List GoString :=
  ((fieldsFunc (fun b => !isTokenByte b) (host.toLower text)).filter fun word =>
    3 ≤ word.length).map stem

def textExtensions : List GoString :=
  [".txt", ".md", ".json", ".yaml", ".yml", ".xml", ".html", ".css", ".js",
    ".ts", ".go", ".py", ".java", ".c", ".cpp", ".h", ".hpp", ".sh", ".sql",
    ".log", ".config", ".conf", ".ini", ".properties", ".toml"].map str

/-- Less than five percent of the first bytes are null or not ASCII.  The
quotient of two numbers up to 1024 is rounded to less than `0.05` exactly when
it is less. -/
def isTextFile (host : QueryHost) (path : GoString) (content : Bytes) : Bool :=
  let checked := content.take 1024
  (textExtensions.any fun ext => hasSuffix (host.toLower path) ext) ||
    (content ≠ [] && 20 * checked.countP (fun b => b = 0 || 127 < b) < checked.length)

def indexFileContent (host : QueryHost) (order : RangeOrder)
    (path : GoString) (content : Bytes) (index : ContentIndex) :
    ContentIndex :=
  { index with
    invertedIndex :=
      ((countTokens (tokenize host content)).range order).foldl
        (fun inverted count => inverted.insert count.1
          (((inverted.lookup count.1).getD ∅).insert path count.2))
        index.invertedIndex }

def rebuildContentIndex (host : QueryHost) (view : RepoView) (files : FileIndex) : ContentIndex :=
  (files.pathIndex.range view.order).foldl (fun index file =>
    let content :=
      if file.2.content ≠ [] then file.2.content
      else (view.getBlobWithDelta file.2.hash).getD []
    if content ≠ [] ∧ isTextFile host file.1 content then
      indexFileContent host view.order file.1 content index
    else index) (.new view.now)

/-! ## Requests -/

inductive QueryType where
  | byPath
  | byPattern
  | byContent
  | byCommit
  | byAuthor
  | byDate
  | byHash
  deriving DecidableEq, Repr

def QueryType.ofInt : ℤ → Option QueryType
  | 0 => some .byPath
  | 1 => some .byPattern
  | 2 => some .byContent
  | 3 => some .byCommit
  | 4 => some .byAuthor
  | 5 => some .byDate
  | 6 => some .byHash
  | _ => none

/-- A value of a filter: a string, or another value with its text in `%v`. -/
inductive FilterValue where
  | string (text : GoString)
  | other (shown : GoString)
  deriving DecidableEq

def FilterValue.shown : FilterValue → GoString
  | .string text => text
  | .other shown => shown

structure QueryRequest where
  type : ℤ
  query : GoString
  filters : GoMap GoString FilterValue
  limit : ℤ
  offset : ℤ
  sortBy : GoString
  sortOrder : GoString

structure QueryResult where
  files : List FileEntry
  commits : List CommitEntry
  total : ℕ

def QueryResult.ofFiles (files : List FileEntry) : QueryResult := ⟨files, [], files.length⟩

def QueryResult.ofCommits (commits : List CommitEntry) : QueryResult :=
  ⟨[], commits, commits.length⟩

def queryByPath (index : FileIndex) (req : QueryRequest) : QueryResult :=
  .ofFiles (index.pathIndex.lookup req.query).toList

def matchesPattern (host : QueryHost) (query path : GoString) : Bool :=
  host.matchPath query path || (!contains query (str "/") && host.matchPath query (base path)) ||
    (contains query (str "/") &&
      if hasSuffix query (str "/*") then
        hasPrefix path (trimSuffix query (str "/*") ++ str "/")
      else host.matchPath query path)

def matchPattern (host : QueryHost) (order : RangeOrder) (index : FileIndex)
    (query : GoString) : List FileEntry :=
  ((index.pathIndex.range order).filter fun file =>
    matchesPattern host query file.1).map Prod.snd

def narrow (order : RangeOrder) (candidates fileCounts : GoMap GoString ℤ) : GoMap GoString ℤ :=
  (fileCounts.range order).foldl (fun found file =>
    match candidates.lookup file.1 with
    | some score => found.insert file.1 (score + file.2)
    | none => found) ∅

/-- The files that contain all tokens, with the sum of the counts; `none` when
a token is in no file.  The first token starts the candidates. -/
def candidateFiles (index : ContentIndex) (orders : ℕ → RangeOrder) :
    ℕ → GoMap GoString ℤ → List GoString → Option (GoMap GoString ℤ)
  | _, candidates, [] => some candidates
  | i, candidates, token :: rest =>
    match index.invertedIndex.lookup token with
    | none => none
    | some fileCounts =>
      candidateFiles index orders (i + 1)
        (if i = 0 then
          (fileCounts.range (orders i)).foldl (fun found file => found.insert file.1 file.2) ∅
        else narrow (orders i) candidates fileCounts)
        rest

def queryByContent (host : QueryHost) (order : RangeOrder)
    (orders : ℕ → RangeOrder) (indexes : Indexes) (req : QueryRequest) :
    QueryResult :=
  let tokens := tokenize host req.query
  if tokens = [] then .ofFiles []
  else
    match candidateFiles indexes.content orders 0 ∅ tokens with
    | none => .ofFiles []
    | some candidates =>
      let scoredFiles := (candidates.range order).filterMap fun file =>
        (indexes.files.pathIndex.lookup file.1).map fun entry =>
          (entry, file.2)
      let sorted := host.sorter.sort
        (fun a b : FileEntry × ℤ => decide (b.2 < a.2)) scoredFiles
      .ofFiles (sorted.map Prod.fst)

def appendUnseen (found : List CommitEntry × GoMap GoString Bool)
    (entry : CommitEntry) : List CommitEntry × GoMap GoString Bool :=
  if (found.2.lookup entry.hash).getD false then found
  else (found.1 ++ [entry], found.2.insert entry.hash true)

def queryByCommit (host : QueryHost) (order : RangeOrder)
    (index : CommitIndex) (req : QueryRequest) : QueryResult :=
  let query := host.toLower req.query
  let worded := ((index.messageIndex.lookup query).getD []).foldl
    appendUnseen ([], ∅)
  if worded.1 = [] then
    .ofCommits ((((index.hashIndex.range order).map Prod.snd).filter
      fun entry => contains (host.toLower entry.message) query).foldl
      appendUnseen worded).1
  else .ofCommits worded.1

def queryByAuthor (host : QueryHost) (order : RangeOrder)
    (index : CommitIndex) (req : QueryRequest) : QueryResult :=
  .ofCommits (((index.authorIndex.range order).filter fun author =>
    contains (host.toLower author.1) (host.toLower req.query)).flatMap Prod.snd)

/-- A date among the filters; the zero time when there is none. -/
def dateFilter (host : QueryHost) (req : QueryRequest) (name : GoString) : Outcome Time :=
  match req.filters.lookup name with
  | none => .ok Time.zero
  | some (.other _) =>
    .panic (str "interface conversion: value is not string")
  | some (.string text) =>
    match host.parseTime text with
    | .ok date => .ok date
    | .error err =>
      .error (str "invalid " ++ name ++ str " format: " ++ err)

def queryByDate (host : QueryHost) (index : CommitIndex)
    (req : QueryRequest) : Outcome QueryResult := do
  let startDate ← dateFilter host req (str "start_date")
  let endDate ← dateFilter host req (str "end_date")
  let commits := index.dateIndex.filterMap fun commitHash =>
    (index.hashIndex.lookup commitHash).filter fun entry =>
      !((!startDate.isZero && entry.timestamp.before startDate) ||
        (!endDate.isZero && endDate.before entry.timestamp))
  return .ofCommits commits

def queryByHash (indexes : Indexes) (req : QueryRequest) : QueryResult :=
  let files := (indexes.files.hashIndex.lookup req.query).toList
  let commits := (indexes.commits.hashIndex.lookup req.query).toList
  ⟨files, commits, files.length + commits.length⟩

/-! ## Sorting -/

inductive FileKey where
  | path
  | size
  | modified
  deriving DecidableEq, Repr

inductive CommitKey where
  | date
  | author
  | message
  deriving DecidableEq, Repr

def FileKey.less : FileKey → FileEntry → FileEntry → Bool
  | .path, a, b => decide (a.path < b.path)
  | .size, a, b => decide (a.size < b.size)
  | .modified, a, b => a.lastModified.before b.lastModified

def CommitKey.less : CommitKey → CommitEntry → CommitEntry → Bool
  | .date, a, b => a.timestamp.before b.timestamp
  | .author, a, b => decide (a.author < b.author)
  | .message, a, b => decide (a.message < b.message)

def FileKey.named (sortBy : GoString) : Option FileKey :=
  if sortBy = str "path" then some .path
  else if sortBy = str "size" then some .size
  else if sortBy = str "modified" then some .modified
  else none

def CommitKey.named (sortBy : GoString) : Option CommitKey :=
  if sortBy = str "date" ∨ sortBy = str "timestamp" then some .date
  else if sortBy = str "author" then some .author
  else if sortBy = str "message" then some .message
  else none

def directed {α : Type} (ascending : Bool) (less : α → α → Bool) (a b : α) : Bool :=
  if ascending then less a b else less b a

def QueryRequest.ascending (req : QueryRequest) : Bool := req.sortOrder ≠ str "desc"

def QueryRequest.fileOrdering (req : QueryRequest) : Option (FileKey × Bool) :=
  (FileKey.named req.sortBy).map fun key => (key, req.ascending)

def sortFiles (host : QueryHost) (req : QueryRequest) (files : List FileEntry) : List FileEntry :=
  match req.fileOrdering with
  | some (key, ascending) =>
    host.sorter.sort (directed ascending key.less) files
  | none => files

def sortCommits (host : QueryHost) (req : QueryRequest)
    (commits : List CommitEntry) : List CommitEntry :=
  match CommitKey.named req.sortBy with
  | some key => host.sorter.sort (directed req.ascending key.less) commits
  | none => commits

/-! ## Pagination -/

/-- The sum of two `int`s. -/
def addInt64 (a b : ℤ) : ℤ := (a + b).bmod (2 ^ 64)

structure Page where
  offset : ℕ
  length : ℕ
  stop : ℤ

def Page.of {α : Type} (page : Page) (items : List α) : List α :=
  (items.drop page.offset).take page.length

/-- The part `[start:end]` of a slice of that length; `none` when the bounds
are out of range. -/
def pageOf (start stop : ℤ) (length : ℕ) : Option Page :=
  if length = 0 then some ⟨0, 0, stop⟩
  else if length ≤ start then some ⟨0, 0, stop⟩
  else
    let stop := if length < stop then (length : ℤ) else stop
    if 0 ≤ start ∧ start ≤ stop then
      some ⟨start.toNat, (stop - start).toNat, stop⟩
    else none

def QueryRequest.pages (req : QueryRequest) (files commits : ℕ) : Option (Page × Page) :=
  if 0 < req.limit then do
    let filePage ←
      pageOf req.offset (addInt64 req.offset req.limit) files
    let commitPage ← pageOf req.offset filePage.stop commits
    return (filePage, commitPage)
  else some (⟨0, files, 0⟩, ⟨0, commits, 0⟩)

def outOfRange : GoString := str "runtime error: slice bounds out of range"

def applySortingAndPagination (host : QueryHost) (req : QueryRequest)
    (result : QueryResult) : Outcome QueryResult :=
  match req.pages result.files.length result.commits.length with
  | none => .panic outOfRange
  | some (filePage, commitPage) =>
    .ok ⟨filePage.of (sortFiles host req result.files),
      commitPage.of (sortCommits host req result.commits), result.total⟩

/-! ## Evaluation -/

structure QueryOrders where
  entries : RangeOrder
  tokens : ℕ → RangeOrder

def retrieve (host : QueryHost) (orders : QueryOrders) (indexes : Indexes)
    (req : QueryRequest) : Outcome QueryResult :=
  match QueryType.ofInt req.type with
  | some .byPath => .ok (queryByPath indexes.files req)
  | some .byPattern =>
    .ok (.ofFiles (matchPattern host orders.entries indexes.files req.query))
  | some .byContent =>
    .ok (queryByContent host orders.entries orders.tokens indexes req)
  | some .byCommit =>
    .ok (queryByCommit host orders.entries indexes.commits req)
  | some .byAuthor =>
    .ok (queryByAuthor host orders.entries indexes.commits req)
  | some .byDate => queryByDate host indexes.commits req
  | some .byHash => .ok (queryByHash indexes req)
  | none => .error (str "unsupported query type: " ++ formatInt req.type)

def evaluate (host : QueryHost) (orders : QueryOrders) (indexes : Indexes)
    (req : QueryRequest) : Outcome QueryResult := do
  let result ← retrieve host orders indexes req
  applySortingAndPagination host req result

def Evaluates (host : QueryHost) (indexes : Indexes) (req : QueryRequest)
    (answer : Outcome QueryResult) : Prop :=
  ∃ orders, evaluate host orders indexes req = answer

/-- Requests with equal fields.  The filters are compared as maps. -/
structure SameRequest (req other : QueryRequest) : Prop where
  type : req.type = other.type
  query : req.query = other.query
  filters : ∀ name, req.filters.lookup name = other.filters.lookup name
  limit : req.limit = other.limit
  offset : req.offset = other.offset
  sortBy : req.sortBy = other.sortBy
  sortOrder : req.sortOrder = other.sortOrder

theorem SameRequest.refl (req : QueryRequest) : SameRequest req req :=
  ⟨rfl, rfl, fun _ => rfl, rfl, rfl, rfl, rfl⟩

theorem evaluate_congr (hsame : SameRequest req other) :
    evaluate host orders indexes req = evaluate host orders indexes other := by
  obtain ⟨type, query, filters, limit, offset, sortBy, sortOrder⟩ := req
  obtain ⟨_, _, others, _, _, _, _⟩ := other
  obtain ⟨rfl, rfl, hfilters, rfl, rfl, rfl, rfl⟩ := hsame
  -- only `queryByDate` reads the filters
  have hdate : queryByDate host indexes.commits
        ⟨type, query, filters, limit, offset, sortBy, sortOrder⟩ =
      queryByDate host indexes.commits ⟨type, query, others, limit, offset, sortBy, sortOrder⟩ := by
    simp only [queryByDate, dateFilter, hfilters]
  simp only [evaluate, retrieve, hdate]
  rfl

theorem evaluates_congr (hsame : SameRequest req other) (answer : Outcome QueryResult) :
    Evaluates host indexes req answer ↔ Evaluates host indexes other answer := by
  unfold Evaluates
  simp only [evaluate_congr hsame]

theorem evaluate_byPath {indexes : Indexes}
    (htype : QueryType.ofInt req.type = some .byPath) :
    evaluate host orders indexes req =
      applySortingAndPagination host req (queryByPath indexes.files req) := by
  simp [evaluate, retrieve, htype]

/-! ## Patterns -/

theorem sortFiles_perm (host : QueryHost) (req : QueryRequest)
    (files : List FileEntry) : (sortFiles host req files).Perm files := by
  unfold sortFiles
  cases req.fileOrdering with
  | none => exact List.Perm.refl files
  | some ordering => exact host.sorter.perm _ files

def Matched (host : QueryHost) (index : FileIndex) (query : GoString)
    (files : List FileEntry) : Prop :=
  ∃ order, matchPattern host order index query = files

theorem Matched.perm (hfiles : Matched host index query files) (hmoved : moved.Perm files) :
    Matched host index query moved := by
  obtain ⟨order, rfl⟩ := hfiles
  exact GoMap.exists_order_of_filter index.pathIndex hmoved

theorem evaluates_of_matched (htype : QueryType.ofInt req.type = some .byPattern)
    (hfiles : Matched host indexes.files req.query files) :
    Evaluates host indexes req (applySortingAndPagination host req (.ofFiles files)) := by
  obtain ⟨order, rfl⟩ := hfiles
  refine ⟨⟨order, fun _ => order⟩, ?_⟩
  simp [evaluate, retrieve, htype]

end Govc
