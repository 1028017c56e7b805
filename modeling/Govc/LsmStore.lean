import Govc.GoMaps
import Govc.LsmTable
import Govc.WriteAheadLog

/-!
# The LSM object store

A read asks the memory table, the one being flushed, and the levels from the top;
in a level the first table that may hold the key decides.  The three parts of a
flush are functions of their own, since other calls run between them.  The worker
queue `compactCh` and the metrics are left out.
-/

namespace Govc

open Go Entry

def errNotFound : GoString := str "not found"

def errInvalidData : GoString := str "invalid data"

/-! ## Memory tables -/

structure MemTable where
  data : GoMap GoString Entry
  maxSize : ℤ
  currentSize : ℤ
  sealed : Bool
  keyed : ∀ key entry, data.lookup key = some entry → entry.key = key

namespace MemTable

def new (maxSize : ℤ) : MemTable where
  data := ∅
  maxSize := maxSize
  currentSize := 0
  sealed := false
  keyed := by
    intro key entry hentry
    rw [AList.lookup_empty] at hentry
    cases hentry

def errSealed : GoString := str "cannot write to sealed memtable"

def replacedSize (table : MemTable) (key : GoString) : ℤ :=
  match table.data.lookup key with
  | some existing => existing.size
  | none => 0

def store (table : MemTable) (entry : Entry) : Except GoString MemTable :=
  if table.sealed then .error errSealed
  else
    .ok { table with
      data := table.data.insert entry.key entry
      currentSize := table.currentSize - table.replacedSize entry.key + entry.size
      keyed := by
        intro key other hother
        rw [GoMap.lookup_insert_eq] at hother
        by_cases hkey : key = entry.key
        · rw [if_pos hkey, Option.some.injEq] at hother
          rw [← hother, hkey]
        · rw [if_neg hkey] at hother
          exact table.keyed key other hother }

def put (table : MemTable) (now : ℤ) (key : GoString) (value : Bytes) : Except GoString MemTable :=
  table.store {
    key := key
    value := value
    timestamp := now
    deleted := false
    size := key.length + value.length + 64 }

def delete (table : MemTable) (now : ℤ) (key : GoString) : Except GoString MemTable :=
  table.store {
    key := key
    value := []
    timestamp := now
    deleted := true
    size := key.length + 64 }

def get (table : MemTable) (key : GoString) : Option Bytes :=
  match table.data.lookup key with
  | none => none
  | some entry => if entry.deleted then none else some entry.value

def isFull (table : MemTable) : Bool := table.currentSize ≥ table.maxSize

def sealTable (table : MemTable) : MemTable := { table with sealed := true }

def newIterator (table : MemTable) : List Entry :=
  sortByKey Entry.key (table.data.entries.map Sigma.snd)

end MemTable

/-! ## Levels -/

structure Level where
  number : ℕ
  path : GoString
  sstables : List SSTable
  config : LSMConfig
  fileNum : ℕ

namespace Level

def new (number : ℕ) (basePath : GoString) (config : LSMConfig) : Level where
  number := number
  path := basePath ++ str "/level-" ++ formatNat number
  sstables := []
  config := config
  fileNum := 0

/-- The filter does not exclude the key, and the key range holds it. -/
def admits (key : GoString) (table : SSTable) : Bool := (match table.bloomFilter with
    | none => true
    | some filter => filter.mayContain key) &&
  decide (table.minKey ≤ key) && decide (key ≤ table.maxKey)

/-- The first table that admits the key decides, whatever it answers. -/
def get (level : Level) (key : GoString) : Outcome (Option Bytes) :=
  match level.sstables.find? (admits key) with
  | none => .ok none
  | some table => table.get key

def addSSTable (level : Level) (table : SSTable) : Level :=
  { level with sstables := level.sstables ++ [table] }

/-- `%06d`. -/
def padded (n : ℕ) : GoString := List.replicate (6 - (formatNat n).length) 48 ++ formatNat n

def createSSTable (level : Level) : SSTableWriter × Level :=
  let fileNum := level.fileNum + 1
  let filename := str "L" ++ formatNat level.number ++ str "_" ++
    padded fileNum ++ str ".sst"
  (.new (level.path ++ str "/" ++ filename) level.config, { level with fileNum := fileNum })

end Level

/-! ## The store -/

/-- `flushCh` tells whether a flush has been asked for. -/
structure LSMStore where
  memTable : Option MemTable
  immutable : Option MemTable
  levels : List (Option Level)
  wal : Option WriteAheadLog
  flushCh : Bool

namespace LSMStore

def initialized (path : GoString) (config : LSMConfig) : LSMStore where
  memTable := some (.new config.memTableSize)
  immutable := none
  levels := (List.range config.maxLevels).map fun number =>
    some (.new number path config)
  wal := some (.newWriteAheadLog [])
  flushCh := false

def getFromLevels : List (Option Level) → GoString → Outcome Bytes
  | [], _ => .error errNotFound
  | none :: levels, hash => getFromLevels levels hash
  | some level :: levels, hash =>
    match level.get hash with
    | .ok (some value) => .ok value
    | .ok none => getFromLevels levels hash
    | .error e =>
      .error (str "error reading from level " ++ formatNat level.number ++ str ": " ++ e)
    | .panic e => .panic e
    | .diverge => .diverge

def memGet (store : LSMStore) (hash : GoString) : Option Bytes :=
  (store.memTable.bind (·.get hash)).orElse fun _ =>
    store.immutable.bind (·.get hash)

def getObject (store : LSMStore) (hash : GoString) : Outcome Bytes :=
  if hash = [] then .error errInvalidData
  else
    match store.memGet hash with
    | some value => .ok value
    | none => getFromLevels store.levels hash

def writeLog (store : LSMStore) (hash : GoString) (data : Bytes) (deleted : Bool) : LSMStore :=
  { store with wal := store.wal.map (·.write hash data deleted) }

def writeMemTable (context : GoString)
    (write : MemTable → Except GoString MemTable) : GoM LSMStore Unit :=
  fun store =>
    match store.memTable with
    | none => (.error (str "memtable not initialized"), store)
    | some memTable =>
      match write memTable with
      | .error e => (.error (context ++ e), store)
      | .ok written =>
        (.ok (), { store with
          memTable := some written
          flushCh := store.flushCh || written.isFull })

def putObject (now : ℤ) (hash : GoString) (data : Bytes) : GoM LSMStore Unit := fun store =>
    if hash = [] then (.error errInvalidData, store)
    else
      writeMemTable (str "failed to write to memtable: ")
        (fun memTable => memTable.put now hash data)
        (store.writeLog hash data false)

def deleteObject (now : ℤ) (hash : GoString) : GoM LSMStore Unit := fun store =>
    if hash = [] then (.error errInvalidData, store)
    else
      match store.getObject hash with
      | .ok _ =>
        writeMemTable (str "failed to write tombstone to memtable: ")
          (fun memTable => memTable.delete now hash)
          (store.writeLog hash [] true)
      | .error e => (.error e, store)
      | .panic e => (.panic e, store)
      | .diverge => (.diverge, store)

/-! ## Flushing the memory table -/

/-- The full table becomes read-only and an empty one takes its place. -/
def swapMemTable (store : LSMStore) (current : MemTable) : LSMStore := { store with
    memTable := some (.new current.maxSize)
    immutable := some current.sealTable }

/-- The loop over the iterator; `clock i` is the time of the call number `i`. -/
def addEntries (clock : ℕ → ℤ) : ℕ → SSTableWriter → List Entry → SSTableWriter
  | _, writer, [] => writer
  | i, writer, entry :: entries =>
    addEntries clock (i + 1) (writer.add (clock i) entry.key entry.value entry.deleted) entries

def writeTable (clock : ℕ → ℤ) (level0 : Level) (current : MemTable) : Level :=
  let (writer, level) := level0.createSSTable
  level.addSSTable (addEntries clock 0 writer current.newIterator).finish

def truncateLog (store : LSMStore) : LSMStore := { store with wal := store.wal.map (·.truncate) }

def flushMemTable (clock : ℕ → ℤ) : GoM LSMStore Unit := fun store =>
  match store.memTable with
  | none => (.ok (), store)
  | some current =>
    let swapped := store.swapMemTable current
    match swapped.levels with
    | [] =>
      (.panic (str "runtime error: index out of range [0] with length 0"), swapped)
    | none :: _ => (.panic nilPointer, swapped)
    | some level0 :: levels =>
      (.ok (), truncateLog { swapped with
        levels := some (writeTable clock level0 current) :: levels
        immutable := none })

end LSMStore

/-! ## What the writes change -/

namespace MemTable

theorem get_new (maxSize : ℤ) (key : GoString) : (MemTable.new maxSize).get key = none := by
  simp only [get, new, AList.lookup_empty]

theorem store_of_open {table : MemTable} (hopen : table.sealed = false)
    (entry : Entry) :
    ∃ written, table.store entry = .ok written ∧ written.sealed = false ∧
      written.data = table.data.insert entry.key entry := by
  have hwritten : ¬ table.sealed = true := by simp [hopen]
  rw [store, if_neg hwritten]
  exact ⟨_, rfl, hopen, rfl⟩

theorem get_of_insert {table written : MemTable}
    (hdata : written.data = table.data.insert entry.key entry)
    (key : GoString) :
    written.get key =
      if key = entry.key then
        if entry.deleted then none else some entry.value
      else table.get key := by
  rw [get, hdata, GoMap.lookup_insert_eq]
  by_cases hkey : key = entry.key
  · rw [if_pos hkey, if_pos hkey]
  · rw [if_neg hkey, if_neg hkey]
    rfl

theorem mem_newIterator (table : MemTable) {entry : Entry} :
    entry ∈ table.newIterator ↔ table.data.lookup entry.key = some entry := by
  rw [newIterator, mem_sortByKey, List.mem_map]
  constructor
  · rintro ⟨⟨key, other⟩, hmem, rfl⟩
    have hlookup := AList.mem_lookup_iff.mpr hmem
    rw [table.keyed key other hlookup]
    exact hlookup
  · intro hlookup
    exact ⟨⟨entry.key, entry⟩, AList.mem_lookup_iff.mp hlookup, rfl⟩

theorem newIterator_ascending (table : MemTable) : Ascending Entry.key table.newIterator := by
  apply sortByKey_ascending
  have hkeys : (table.data.entries.map Sigma.snd).map Entry.key = table.data.keys := by
    rw [List.map_map]
    apply List.map_congr_left
    intro pair hpair
    exact table.keyed pair.1 pair.2 (AList.mem_lookup_iff.mpr hpair)
  rw [hkeys]
  exact table.data.nodupKeys

theorem liveValue_newIterator (table : MemTable) {key : GoString} :
    liveValue table.newIterator key = table.get key := by
  rw [get]
  cases hlookup : table.data.lookup key with
  | none =>
    apply liveValue_of_absent
    rintro entry hentry rfl
    rw [mem_newIterator, hlookup] at hentry
    cases hentry
  | some entry =>
    have hkey := table.keyed key entry hlookup
    subst hkey
    exact liveValue_of_mem table.newIterator_ascending (table.mem_newIterator.mpr hlookup)

end MemTable

def Entry.content (entry : Entry) : GoString × Bytes × Bool :=
  (entry.key, entry.value, entry.deleted)

theorem liveValue_congr (hsame : entries.map content = others.map content)
    {key : GoString} : liveValue entries key = liveValue others key := by
  have hcontent (entries : List Entry) : liveValue entries key =
      match (entries.map content).find? fun stored => stored.1 = key with
      | none => none
      | some stored => if stored.2.2 then none else some stored.2.1 := by
    rw [liveValue, List.find?_map]
    change _ = match (entries.find? fun entry => entry.key = key).map content with
      | none => none
      | some stored => if stored.2.2 then none else some stored.2.1
    cases entries.find? fun entry => decide (entry.key = key) <;> rfl
  rw [hcontent entries, hcontent others, hsame]

theorem ascending_congr (hsame : entries.map content = others.map content)
    (hsorted : Ascending Entry.key entries) : Ascending Entry.key others := by
  have hkeys (entries : List Entry) : Ascending Entry.key entries ↔
      (entries.map content).Pairwise fun a b => a.1 < b.1 := by
    rw [List.pairwise_map]
    rfl
  rw [hkeys] at hsorted ⊢
  rw [← hsame]
  exact hsorted

namespace LSMStore

theorem addEntries_holds (i : ℕ) (hholds : writer.Holds before)
    {entries : List Entry} :
    ∃ written, (addEntries clock i writer entries).Holds (before ++ written) ∧
      written.map content = entries.map content := by
  induction entries generalizing i writer before with
  | nil =>
    refine ⟨[], ?_, rfl⟩
    rw [List.append_nil]
    exact hholds
  | cons entry entries ih =>
    obtain ⟨added, hkey, hvalue, hdeleted, hadded⟩ :=
      hholds.add (clock i) entry.key entry.value entry.deleted
    obtain ⟨written, hwritten, hsame⟩ := ih (i + 1) hadded
    refine ⟨added :: written, ?_, ?_⟩
    · rw [List.append_assoc] at hwritten
      exact hwritten
    · rw [List.map_cons, List.map_cons, hsame]
      simp only [content, hkey, hvalue, hdeleted]

theorem writeTable_spec (clock : ℕ → ℤ) (level0 : Level) (current : MemTable) :
    ∃ table entries, (writeTable clock level0 current).sstables = level0.sstables ++ [table] ∧
      table.Holds entries ∧ Ascending Entry.key entries ∧
      ∀ key, liveValue entries key = current.get key := by
  obtain ⟨written, hwritten, hsame⟩ := addEntries_holds 0
    (SSTableWriter.new_holds _ level0.config)
  have hsorted := ascending_congr hsame.symm current.newIterator_ascending
  refine ⟨_, written, rfl, hwritten.finish hsorted, hsorted, ?_⟩
  intro key
  rw [liveValue_congr hsame, current.liveValue_newIterator]

end LSMStore

theorem SSTable.Holds.admits {table : SSTable} {entries : List Entry}
    (hholds : table.Holds entries) {key : GoString} {value : Bytes}
    (hlive : liveValue entries key = some value) :
    Level.admits key table = true := by
  obtain ⟨filter, hfilter, hcontains⟩ := hholds.filter
  have hpresent : ∃ entry ∈ entries, entry.key = key := by
    by_contra habsent
    push Not at habsent
    rw [liveValue_of_absent habsent] at hlive
    cases hlive
  obtain ⟨entry, hentry, rfl⟩ := hpresent
  obtain ⟨hmin, hmax⟩ := hholds.range entry hentry
  simp only [Level.admits, hfilter, hcontains entry hentry, hmin, hmax, decide_true, Bool.and_true]

end Govc
