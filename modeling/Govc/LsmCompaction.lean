import Govc.LsmMap

/-!
# Compaction of a level

The first tables of a level and the overlapping ones of the next are merged and
replaced.  Output tables are cut by the sizes of entries, but an entry read back
has size zero: no output table is ever finished, and tables are only taken away.
-/

namespace Govc

open Go LsmRun

/-! ## Reading the input tables in order -/

structure SSTableIterator where
  sstable : SSTable
  blockIndex : ℕ
  entryIndex : ℕ
  currentBlock : List Entry
  valid : Bool
  inside : valid = true → entryIndex < currentBlock.length

namespace SSTableIterator

def loadCurrentBlock (sstable : SSTable) (blockIndex : ℕ)
    (currentBlock : List Entry) : SSTableIterator :=
  match sstable.loadBlock blockIndex with
  | .error _ => ⟨sstable, blockIndex, 0, currentBlock, false, by simp⟩
  | .ok entries =>
    ⟨sstable, blockIndex, 0, entries, decide (0 < entries.length), by simp⟩

def seekToFirst (sstable : SSTable) : SSTableIterator := loadCurrentBlock sstable 0 []

def current (iterator : SSTableIterator) : Option Entry :=
  if iterator.valid then iterator.currentBlock[iterator.entryIndex]?
  else none

def next (iterator : SSTableIterator) : SSTableIterator :=
  if iterator.valid then
    if hinside : iterator.entryIndex + 1 < iterator.currentBlock.length then
      { iterator with
        entryIndex := iterator.entryIndex + 1
        inside := fun _ => hinside }
    else
      loadCurrentBlock iterator.sstable (iterator.blockIndex + 1) iterator.currentBlock
  else iterator

end SSTableIterator

structure HeapItem where
  entry : Entry
  iterator : ℕ

/-- The heap is a list: `Push` appends, `Pop` takes the last item, `Peek`
reads the first, and nothing reorders it. -/
structure SSTableMerger where
  iterators : List SSTableIterator
  heap : List HeapItem

namespace SSTableMerger

def push (heap : List HeapItem) (i : ℕ) (iterator : SSTableIterator) : List HeapItem :=
  match iterator.current with
  | none => heap
  | some entry => heap ++ [⟨entry, i⟩]

def new (sstables : List SSTable) : SSTableMerger :=
  let iterators := sstables.map SSTableIterator.seekToFirst
  { iterators := iterators
    heap := iterators.zipIdx.foldl (fun heap (iterator, i) => push heap i iterator) [] }

def advance (merger : SSTableMerger) (i : ℕ) : SSTableMerger :=
  match merger.iterators[i]? with
  | none => merger
  | some iterator =>
    { iterators := merger.iterators.set i iterator.next
      heap := push merger.heap i iterator.next }

def popAdvance (merger : SSTableMerger) : Option (Entry × SSTableMerger) :=
  merger.heap.getLast?.map fun item =>
    (item.entry, { merger with heap := merger.heap.dropLast }.advance
      item.iterator)

/-- The loop over duplicate keys, `none` if it has not ended. -/
def skipDuplicates (key : GoString) : ℕ → SSTableMerger → Option SSTableMerger
  | 0, _ => none
  | fuel + 1, merger =>
    match merger.heap.head? with
    | none => some merger
    | some item =>
      if item.entry.key = key then
        match merger.popAdvance with
        | none => some merger
        | some (_, advanced) => skipDuplicates key fuel advanced
      else some merger

def next (fuel : ℕ) (merger : SSTableMerger) : Option SSTableMerger :=
  match merger.popAdvance with
  | none => some merger
  | some (entry, advanced) => advanced.skipDuplicates entry.key fuel

end SSTableMerger

/-! ## Writing the merged tables -/

/-- The tables finished so far, the level that numbers them, and the table
being written with its size. -/
structure MergeOutput where
  finished : List SSTable
  level : Level
  writer : SSTableWriter
  currentSize : ℕ

namespace Compactor

def startOutput (level : Level) : MergeOutput :=
  { finished := []
    level := level.createSSTable.2
    writer := level.createSSTable.1
    currentSize := 0 }

/-- One merged entry: a full table is finished before it is written. -/
def writeEntry (config : LSMConfig) (now : ℤ) (output : MergeOutput)
    (entry : Entry) : MergeOutput :=
  let current :=
    if output.currentSize > config.sstableSize then
      { finished := output.finished ++ [output.writer.finish]
        level := output.level.createSSTable.2
        writer := output.level.createSSTable.1
        currentSize := 0 }
    else output
  { current with
    writer := current.writer.add now entry.key entry.value entry.deleted
    currentSize := current.currentSize + entry.size }

/-- The merge loop; it diverges when it has not ended within the fuel. -/
def mergeLoop (config : LSMConfig) (clock : ℕ → ℤ) :
    ℕ → SSTableMerger → MergeOutput → Outcome (List SSTable × Level)
  | 0, _, _ => .diverge
  | fuel + 1, merger, output =>
    match merger.heap.head? with
    | none =>
      if output.currentSize > 0 then
        .ok (output.finished ++ [output.writer.finish], output.level)
      else .ok (output.finished, output.level)
    | some item =>
      match merger.next fuel with
      | none => .diverge
      | some advanced =>
        mergeLoop config clock fuel advanced (writeEntry config (clock fuel) output item.entry)

def mergeSSTables (config : LSMConfig) (clock : ℕ → ℤ) (fuel : ℕ)
    (sstables : List SSTable) (targetLevel : Level) :
    Outcome (List SSTable × Level) :=
  if sstables = [] then .ok ([], targetLevel)
  else
    mergeLoop config clock fuel (.new sstables) (startOutput targetLevel)

def keyRangesOverlap (min1 max1 min2 max2 : GoString) : Bool :=
  !(decide (max1 < min2) || decide (max2 < min1))

def keyRange : List SSTable → GoString × GoString
  | [] => ([], [])
  | first :: rest =>
    (first :: rest).foldl
      (fun range file =>
        (if file.minKey < range.1 then file.minKey else range.1,
          if file.maxKey > range.2 then file.maxKey else range.2))
      (first.minKey, first.maxKey)

def overlaps (sourceFiles : List SSTable) (file : SSTable) : Bool :=
  keyRangesOverlap (keyRange sourceFiles).1 (keyRange sourceFiles).2 file.minKey file.maxKey

def findOverlappingFiles (targetLevel : Level) (sourceFiles : List SSTable) : List SSTable :=
  if sourceFiles = [] then []
  else targetLevel.sstables.filter (overlaps sourceFiles)

end Compactor

namespace Level

/-- The source compares pointers; tables are equal here when they agree in
everything, their paths included. -/
def removeSSTables (level : Level) (sstables : List SSTable) : Level :=
  { level with sstables := sstables.foldl List.erase level.sstables }

def selectFilesForCompaction (level : Level) : List SSTable := level.sstables.take 4

end Level

def Compactor.compactLevel (config : LSMConfig) (clock : ℕ → ℤ) (fuel : ℕ)
    (sourceLevel targetLevel : Level) : Outcome (Level × Level) :=
  let sourceFiles := sourceLevel.selectFilesForCompaction
  if sourceFiles = [] then .ok (sourceLevel, targetLevel)
  else
    let targetFiles := findOverlappingFiles targetLevel sourceFiles
    match mergeSSTables config clock fuel (sourceFiles ++ targetFiles)
        targetLevel with
    | .ok (newSSTables, level) =>
      .ok (sourceLevel.removeSSTables sourceFiles,
        newSSTables.foldl Level.addSSTable (level.removeSSTables targetFiles))
    | .error e => .error (str "failed to merge SSTables: " ++ e)
    | .panic e => .panic e
    | .diverge => .diverge

def LSMStore.compactLevel (config : LSMConfig) (clock : ℕ → ℤ) (fuel : ℕ)
    (level : ℕ) : GoM LSMStore Unit := fun store =>
  if level + 1 ≥ store.levels.length then (.ok (), store)
  else
    match store.levels[level]?, store.levels[level + 1]? with
    | some (some sourceLevel), some (some targetLevel) =>
      match Compactor.compactLevel config clock fuel sourceLevel
          targetLevel with
      | .ok (source, target) =>
        (.ok (), { store with
          levels := (store.levels.set level (some source)).set (level + 1) (some target) })
      | .error e => (.error e, store)
      | .panic e => (.panic e, store)
      | .diverge => (.diverge, store)
    | _, _ => (.ok (), store)

/-! ## Merged entries have no size -/

theorem SSTable.loadBlock_size {table : SSTable}
    (hload : table.loadBlock i = .ok entries) :
    ∀ entry ∈ entries, entry.size = 0 := by
  rw [loadBlock] at hload
  cases hentry : table.index[i]? with
  | none => simp [hentry] at hload
  | some indexed =>
    simp only [hentry] at hload
    cases hblock : indexed.block with
    | error e => simp [hblock, Except.map] at hload
    | ok stored =>
      simp only [hblock, Except.map, Except.ok.injEq] at hload
      intro entry hmem
      rw [← hload, Block.parseBlockEntries, List.mem_map] at hmem
      obtain ⟨_, _, rfl⟩ := hmem
      rfl

namespace SSTableIterator

def Sizeless (iterator : SSTableIterator) : Prop := ∀ entry ∈ iterator.currentBlock, entry.size = 0

theorem loadCurrentBlock_sizeless {sstable : SSTable} {blockIndex : ℕ} {currentBlock : List Entry}
    (hcurrent : ∀ entry ∈ currentBlock, entry.size = 0) :
    (loadCurrentBlock sstable blockIndex currentBlock).Sizeless := by
  rw [loadCurrentBlock]
  cases hload : sstable.loadBlock blockIndex with
  | error e => exact hcurrent
  | ok entries => exact SSTable.loadBlock_size hload

theorem Sizeless.next {iterator : SSTableIterator}
    (hsizeless : iterator.Sizeless) : iterator.next.Sizeless := by
  rw [SSTableIterator.next]
  split_ifs
  · exact hsizeless
  · exact loadCurrentBlock_sizeless hsizeless
  · exact hsizeless

theorem Sizeless.current {iterator : SSTableIterator}
    (hsizeless : iterator.Sizeless)
    (hcurrent : iterator.current = some entry) : entry.size = 0 := by
  rw [SSTableIterator.current] at hcurrent
  split_ifs at hcurrent
  exact hsizeless entry (List.mem_of_getElem? hcurrent)

end SSTableIterator

namespace SSTableMerger

structure Sizeless (merger : SSTableMerger) : Prop where
  iterators : ∀ iterator ∈ merger.iterators, iterator.Sizeless
  heap : ∀ item ∈ merger.heap, item.entry.size = 0

theorem push_sizeless {heap : List HeapItem}
    (hheap : ∀ item ∈ heap, item.entry.size = 0) {i : ℕ}
    {iterator : SSTableIterator} (hiterator : iterator.Sizeless) :
    ∀ item ∈ push heap i iterator, item.entry.size = 0 := by
  rw [push]
  cases hcurrent : iterator.current with
  | none => exact hheap
  | some entry =>
    intro item hitem
    rw [List.mem_append, List.mem_singleton] at hitem
    rcases hitem with hold | rfl
    · exact hheap item hold
    · exact hiterator.current hcurrent

theorem new_sizeless {sstables : List SSTable} : (new sstables).Sizeless := by
  have hiterators : ∀ iterator ∈ sstables.map SSTableIterator.seekToFirst, iterator.Sizeless := by
    intro iterator hiterator
    obtain ⟨sstable, -, rfl⟩ := List.mem_map.mp hiterator
    exact SSTableIterator.loadCurrentBlock_sizeless (by simp)
  refine ⟨hiterators, ?_⟩
  -- The heap is filled from the iterators one after another.
  have hfold : ∀ (pairs : List (SSTableIterator × ℕ)) (heap : List HeapItem),
      (∀ pair ∈ pairs, pair.1.Sizeless) →
      (∀ item ∈ heap, item.entry.size = 0) →
      ∀ item ∈ pairs.foldl (fun heap pair => push heap pair.2 pair.1) heap,
        item.entry.size = 0 := by
    intro pairs
    induction pairs with
    | nil => exact fun heap _ hheap => hheap
    | cons pair pairs ih =>
      intro heap hpairs hheap
      apply ih
      · exact fun other hother => hpairs other (by simp [hother])
      · exact push_sizeless hheap (hpairs pair (by simp))
  apply hfold
  · intro pair hpair
    exact hiterators pair.1 (List.fst_mem_of_mem_zipIdx hpair)
  · simp

variable {merger advanced : SSTableMerger}

theorem Sizeless.popAdvance (hsizeless : merger.Sizeless)
    (hpop : merger.popAdvance = some (entry, advanced)) :
    advanced.Sizeless := by
  rw [SSTableMerger.popAdvance, Option.map_eq_some_iff] at hpop
  obtain ⟨item, -, hadvance⟩ := hpop
  rw [Prod.mk.injEq, advance] at hadvance
  obtain ⟨-, rfl⟩ := hadvance
  have hheap : ∀ other ∈ merger.heap.dropLast, other.entry.size = 0 :=
    fun other hother => hsizeless.heap other (List.mem_of_mem_dropLast hother)
  cases hiterator : merger.iterators[item.iterator]? with
  | none => exact ⟨hsizeless.iterators, hheap⟩
  | some iterator =>
    have hnext := (hsizeless.iterators iterator (List.mem_of_getElem? hiterator)).next
    refine ⟨?_, push_sizeless hheap hnext⟩
    intro other hother
    rcases List.mem_or_eq_of_mem_set hother with hold | rfl
    · exact hsizeless.iterators other hold
    · exact hnext

theorem Sizeless.skipDuplicates (hsizeless : merger.Sizeless)
    (hskip : merger.skipDuplicates key fuel = some advanced) :
    advanced.Sizeless := by
  induction fuel generalizing merger with
  | zero => cases hskip
  | succ fuel ih =>
    rw [SSTableMerger.skipDuplicates] at hskip
    cases hhead : merger.heap.head? with
    | none =>
      simp only [hhead, Option.some.injEq] at hskip
      rw [← hskip]
      exact hsizeless
    | some item =>
      simp only [hhead] at hskip
      split at hskip
      · cases hpop : merger.popAdvance with
        | none =>
          simp only [hpop, Option.some.injEq] at hskip
          rw [← hskip]
          exact hsizeless
        | some popped =>
          simp only [hpop] at hskip
          exact ih (hsizeless.popAdvance hpop) hskip
      · rw [Option.some.injEq] at hskip
        rw [← hskip]
        exact hsizeless

theorem Sizeless.next {fuel : ℕ}
    (hsizeless : merger.Sizeless) (hnext : merger.next fuel = some advanced) :
    advanced.Sizeless := by
  rw [SSTableMerger.next] at hnext
  cases hpop : merger.popAdvance with
  | none =>
    simp only [hpop, Option.some.injEq] at hnext
    rw [← hnext]
    exact hsizeless
  | some popped =>
    simp only [hpop] at hnext
    exact (hsizeless.popAdvance hpop).skipDuplicates hnext

end SSTableMerger

namespace Compactor

variable {config : LSMConfig} {clock : ℕ → ℤ} {fuel : ℕ}

theorem writeEntry_of_room {output : MergeOutput} {entry : Entry}
    (hroom : output.currentSize ≤ config.sstableSize) :
    (writeEntry config now output entry).finished = output.finished ∧
      (writeEntry config now output entry).currentSize = output.currentSize + entry.size ∧
      (writeEntry config now output entry).level = output.level := by
  rw [writeEntry, if_neg (not_lt.mpr hroom)]
  exact ⟨rfl, rfl, rfl⟩

theorem mergeLoop_result {merger : SSTableMerger} {output : MergeOutput}
    (hsizeless : merger.Sizeless)
    (hfinished : output.finished = []) (hsize : output.currentSize = 0)
    (hloop : mergeLoop config clock fuel merger output = .ok result) :
    result = ([], output.level) := by
  induction fuel generalizing merger output with
  | zero => cases hloop
  | succ fuel ih =>
    rw [mergeLoop] at hloop
    cases hhead : merger.heap.head? with
    | none =>
      simp only [hhead, hsize, hfinished, gt_iff_lt, lt_irrefl, if_false, Outcome.ok.injEq] at hloop
      exact hloop.symm
    | some item =>
      simp only [hhead] at hloop
      cases hnext : merger.next fuel with
      | none => simp [hnext] at hloop
      | some advanced =>
        simp only [hnext] at hloop
        have hitem := hsizeless.heap item (List.mem_of_mem_head? hhead)
        have hroom : output.currentSize ≤ config.sstableSize := by omega
        obtain ⟨hkept, hcounted, hlevel⟩ := writeEntry_of_room hroom
        rw [← hlevel]
        exact ih (hsizeless.next hnext) (hkept.trans hfinished) (by omega) hloop

theorem mergeSSTables_result {targetLevel : Level}
    {result : List SSTable × Level}
    (hmerge : mergeSSTables config clock fuel sstables targetLevel = .ok result) :
    result.1 = [] ∧ result.2.sstables = targetLevel.sstables ∧
      result.2.number = targetLevel.number := by
  rw [mergeSSTables] at hmerge
  split_ifs at hmerge
  · rw [Outcome.ok.injEq] at hmerge
    rw [← hmerge]
    exact ⟨rfl, rfl, rfl⟩
  · rw [mergeLoop_result (SSTableMerger.new_sizeless) rfl rfl hmerge]
    exact ⟨rfl, rfl, rfl⟩

end Compactor

/-! ## The tables that stay -/

theorem foldl_erase_take (tables : List SSTable) (n : ℕ) :
    (tables.take n).foldl List.erase tables = tables.drop n := by
  induction n generalizing tables with
  | zero => rfl
  | succ n ih =>
    cases tables with
    | nil => rfl
    | cons table tables =>
      rw [List.take_succ_cons, List.foldl_cons, List.erase_cons_head, List.drop_succ_cons]
      exact ih tables

theorem foldl_erase_cons {removed : List SSTable}
    (hne : ∀ other ∈ removed, other ≠ table) (tables : List SSTable) :
    removed.foldl List.erase (table :: tables) = table :: removed.foldl List.erase tables := by
  induction removed generalizing tables with
  | nil => rfl
  | cons first removed ih =>
    have htail : ¬ (table == first) = true := by
      rw [beq_iff_eq]
      exact (hne first (by simp)).symm
    rw [List.foldl_cons, List.foldl_cons, List.erase_cons_tail htail]
    exact ih (fun other hother => hne other (by simp [hother])) _

theorem foldl_erase_filter {tables : List SSTable} :
    (tables.filter p).foldl List.erase tables = tables.filter fun table => !p table := by
  induction tables with
  | nil => rfl
  | cons table tables ih =>
    cases hp : p table with
    | true =>
      rw [List.filter_cons_of_pos hp, List.foldl_cons,
        List.erase_cons_head, List.filter_cons_of_neg (by simp [hp])]
      exact ih
    | false =>
      rw [List.filter_cons_of_neg (by simp [hp]),
        List.filter_cons_of_pos (by simp [hp]), foldl_erase_cons, ih]
      rintro other hother rfl
      rw [List.mem_filter, hp] at hother
      exact absurd hother.2 (by simp)

def Level.withoutSelected (level : Level) : Level :=
  { level with sstables := level.sstables.drop 4 }

def Level.withoutOverlapping (level : Level) (sourceFiles : List SSTable) : Level := { level with
    sstables := level.sstables.filter fun file =>
      !Compactor.overlaps sourceFiles file }

variable {config : LSMConfig} {clock : ℕ → ℤ} {fuel : ℕ}

/-- A compaction that returns takes the selected tables from the source level
and the overlapping ones from the target level, and adds none. -/
theorem Compactor.compactLevel_result {source target : Level}
    {result : Level × Level} (hne : source.sstables ≠ [])
    (hcompact : compactLevel config clock fuel source target = .ok result) :
    result.1 = source.withoutSelected ∧
      result.2.sstables = (target.withoutOverlapping (source.sstables.take 4)).sstables ∧
      result.2.number = target.number := by
  have hselected : source.selectFilesForCompaction ≠ [] := by
    rw [Level.selectFilesForCompaction]
    cases htables : source.sstables with
    | nil => exact absurd htables hne
    | cons first rest => simp
  rw [compactLevel] at hcompact
  simp only [if_neg hselected] at hcompact
  cases hmerge : mergeSSTables config clock fuel
      (source.selectFilesForCompaction ++
        findOverlappingFiles target source.selectFilesForCompaction) target with
  | error e => simp [hmerge] at hcompact
  | panic e => simp [hmerge] at hcompact
  | diverge => simp [hmerge] at hcompact
  | ok merged =>
    obtain ⟨newSSTables, level⟩ := merged
    obtain ⟨hempty, htables, hnumber⟩ := mergeSSTables_result hmerge
    dsimp only at hempty htables hnumber
    simp only [hmerge, hempty, List.foldl_nil, Outcome.ok.injEq] at hcompact
    rw [← hcompact]
    refine ⟨?_, ?_, hnumber⟩
    · rw [Level.removeSSTables, Level.selectFilesForCompaction, foldl_erase_take]
      rfl
    · change List.foldl List.erase level.sstables
        (findOverlappingFiles target source.selectFilesForCompaction) = _
      rw [findOverlappingFiles, if_neg hselected, htables, foldl_erase_filter]
      rfl

/-! ## The answers after a compaction -/

def Level.answer (key : GoString) : Option Level → Option (Outcome Bytes)
  | none => none
  | some level =>
    match level.get key with
    | .ok (some value) => some (.ok value)
    | .ok none => none
    | .error e =>
      some (.error (str "error reading from level " ++ formatNat level.number ++ str ": " ++ e))
    | .panic e => some (.panic e)
    | .diverge => some .diverge

theorem Level.answer_congr {key : GoString} {level other : Level}
    (htables : level.sstables = other.sstables)
    (hnumber : level.number = other.number) :
    answer key (some level) = answer key (some other) := by
  have hget : level.get key = other.get key := by
    rw [Level.get, Level.get, htables]
  simp only [answer, hget, hnumber]

namespace LSMStore

theorem getFromLevels_eq_findSome? {levels : List (Option Level)} {key : GoString} :
    getFromLevels levels key = (levels.findSome? (Level.answer key)).getD (.error errNotFound) := by
  induction levels with
  | nil => rfl
  | cons level levels ih =>
    cases level with
    | none =>
      rw [getFromLevels, ih, List.findSome?_cons]
      rfl
    | some level =>
      rw [getFromLevels, List.findSome?_cons]
      cases hget : level.get key with
      | ok value =>
        cases value with
        | none => simp only [Level.answer, hget, ih]
        | some value => simp only [Level.answer, hget, Option.getD_some]
      | _ => simp only [Level.answer, hget, Option.getD_some]

/-- Two stores with the same memory tables, whose levels agree up to a point,
answer alike exactly if the rest answers alike for what gets there. -/
theorem getObject_congr_iff {store after : LSMStore}
    {front rest rest' : List (Option Level)}
    (hmem : ∀ key, after.memGet key = store.memGet key)
    (hlevels : store.levels = front ++ rest)
    (hafter : after.levels = front ++ rest') :
    (∀ key, after.getObject key = store.getObject key) ↔
      ∀ key, key ≠ [] → store.memGet key = none → front.findSome? (Level.answer key) = none →
        getFromLevels rest' key = getFromLevels rest key := by
  constructor
  · intro hsame key hkey hnone hfront
    have hget := hsame key
    simp only [getObject, if_neg hkey, hmem, hnone, hlevels, hafter,
      getFromLevels_eq_findSome?, List.findSome?_append, hfront,
      Option.none_or] at hget
    rw [getFromLevels_eq_findSome?, getFromLevels_eq_findSome?]
    exact hget
  · intro hsame key
    by_cases hkey : key = []
    · rw [getObject, getObject, if_pos hkey, if_pos hkey]
    · simp only [getObject, if_neg hkey, hmem]
      cases hvalue : store.memGet key with
      | some value => rfl
      | none =>
        simp only [hlevels, hafter, getFromLevels_eq_findSome?, List.findSome?_append]
        cases hfront : front.findSome? (Level.answer key) with
        | some outcome => simp only [Option.some_or, Option.getD_some]
        | none =>
          have hrest := hsame key hkey hvalue hfront
          rw [getFromLevels_eq_findSome?, getFromLevels_eq_findSome?] at hrest
          exact hrest

end LSMStore

theorem drop_of_adjacent {α : Type} {items : List α} {i : ℕ} {first second : α}
    (hfirst : items[i]? = some first) (hsecond : items[i + 1]? = some second) :
    items.drop i = first :: second :: items.drop (i + 2) := by
  obtain ⟨hlt, hget⟩ := List.getElem?_eq_some_iff.mp hfirst
  obtain ⟨hltNext, hgetNext⟩ := List.getElem?_eq_some_iff.mp hsecond
  rw [← hget, ← hgetNext, ← List.drop_eq_getElem_cons hltNext, ← List.drop_eq_getElem_cons hlt]

theorem LSMStore.compactLevel_idle {level : ℕ} {store after : LSMStore}
    (hidle : ¬ ∃ source target, store.levels[level]? = some (some source) ∧
      store.levels[level + 1]? = some (some target) ∧ source.sstables ≠ [])
    (hcompact : compactLevel config clock fuel level store = (.ok (), after)) :
    after = store := by
  rw [compactLevel] at hcompact
  split at hcompact
  · exact (congrArg Prod.snd hcompact).symm
  · have hsource : level < store.levels.length := by omega
    have htarget : level + 1 < store.levels.length := by omega
    simp only [List.getElem?_eq_getElem hsource, List.getElem?_eq_getElem htarget] at hcompact hidle
    cases hfirst : store.levels[level] with
    | none =>
      simp only [hfirst] at hcompact
      exact (congrArg Prod.snd hcompact).symm
    | some source =>
      cases hsecond : store.levels[level + 1] with
      | none =>
        simp only [hfirst, hsecond] at hcompact
        exact (congrArg Prod.snd hcompact).symm
      | some target =>
        have htables : source.sstables = [] := by
          by_contra hne
          exact hidle ⟨source, target, by rw [hfirst], by rw [hsecond], hne⟩
        have hresult : Compactor.compactLevel config clock fuel source
            target = .ok (source, target) := by
          rw [Compactor.compactLevel, Level.selectFilesForCompaction, htables]
          rfl
        simp only [hfirst, hsecond, hresult, Prod.mk.injEq, true_and] at hcompact
        rw [← hcompact, ← hfirst, List.set_getElem_self, ← hsecond, List.set_getElem_self]

theorem LSMStore.compactLevel_levels {level : ℕ} {store after : LSMStore} {source target : Level}
    (hsource : store.levels[level]? = some (some source))
    (htarget : store.levels[level + 1]? = some (some target))
    (hne : source.sstables ≠ [])
    (hcompact : compactLevel config clock fuel level store = (.ok (), after)) :
    ∃ merged : Level,
      merged.sstables = (target.withoutOverlapping (source.sstables.take 4)).sstables ∧
      merged.number = target.number ∧
      (∀ key, after.memGet key = store.memGet key) ∧
      store.levels = store.levels.take level ++
        some source :: some target :: store.levels.drop (level + 2) ∧
      after.levels = store.levels.take level ++
        some source.withoutSelected :: some merged :: store.levels.drop (level + 2) := by
  have hsplit : store.levels = store.levels.take level ++
      some source :: some target :: store.levels.drop (level + 2) := by
    rw [← drop_of_adjacent hsource htarget, List.take_append_drop]
  have hbelow := (List.getElem?_eq_some_iff.mp htarget).1
  have hlength : (store.levels.take level).length = level := by
    rw [List.length_take]
    omega
  rw [compactLevel, if_neg (by omega)] at hcompact
  simp only [hsource, htarget] at hcompact
  cases hresult : Compactor.compactLevel config clock fuel source target with
  | ok result =>
    obtain ⟨remaining, merged⟩ := result
    obtain ⟨hremaining, htables, hnumber⟩ := Compactor.compactLevel_result hne hresult
    dsimp only at hremaining htables hnumber
    simp only [hresult, Prod.mk.injEq, true_and] at hcompact
    refine ⟨merged, htables, hnumber, ?_, hsplit, ?_⟩
    · intro key
      rw [← hcompact]
      rfl
    · rw [← hcompact, hremaining]
      conv_lhs => rw [hsplit]
      rw [List.set_append_right _ _ (by omega), hlength, Nat.sub_self,
        List.set_cons_zero, List.set_append_right _ _ (by omega), hlength,
        Nat.add_sub_cancel_left, List.set_cons_succ, List.set_cons_zero]
  | _ => simp [hresult] at hcompact

end Govc
