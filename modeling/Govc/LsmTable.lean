import Govc.GoEffects
import Govc.GoSort
import Mathlib.Data.Nat.Bitwise

/-!
# Sorted string tables

A table is written once: entries in key order are cut into blocks, the first keys
go to the index and all keys to a Bloom filter.  What a file holds at the offset
of an index entry is kept with that entry.  Entries read back have no size.
-/

namespace Govc

open Go

structure Entry where
  key : GoString
  value : Bytes
  timestamp : ℤ
  deleted : Bool
  size : ℕ
  deriving DecidableEq

/-! ## Bloom filters -/

def fnv32a (data : Bytes) : UInt32 :=
  data.foldl (fun hash b => (hash ^^^ b.toUInt32) * 16777619) 2166136261

def fnv32 (data : Bytes) : UInt32 :=
  data.foldl (fun hash b => (hash * 16777619) ^^^ b.toUInt32) 2166136261

/-- A filter with at least one bit, all of whose bits have a word. -/
structure BloomFilter where
  bits : List UInt64
  size : UInt32
  hashCount : ℕ
  size_pos : 0 < size.toNat
  size_le : size.toNat ≤ 64 * bits.length
  deriving DecidableEq

namespace BloomFilter

def numWords (expectedItems bitsPerItem : ℕ) : UInt32 :=
  (UInt32.ofNat (expectedItems * bitsPerItem) + 63) / 64

/-- `uint32(float64(bitsPerItem) * 0.693)`, between 1 and 16. -/
def hashCountFor (bitsPerItem : ℕ) : ℕ := min 16 (max 1 (bitsPerItem * 693 / 1000))

theorem numWords_size :
    (numWords expectedItems bitsPerItem * 64).toNat =
      64 * (numWords expectedItems bitsPerItem).toNat := by
  have hdiv : (numWords expectedItems bitsPerItem).toNat =
      (UInt32.ofNat (expectedItems * bitsPerItem) + 63).toNat / 64 := by
    rfl
  have hlt := (UInt32.ofNat (expectedItems * bitsPerItem) + 63).toNat_lt
  rw [UInt32.toNat_mul, Nat.mod_eq_of_lt, Nat.mul_comm]
  · rfl
  · change _ * 64 < 2 ^ 32
    omega

def new (expectedItems bitsPerItem : ℕ)
    (hpos : 0 < (numWords expectedItems bitsPerItem).toNat) : BloomFilter where
  bits := List.replicate (numWords expectedItems bitsPerItem).toNat 0
  size := numWords expectedItems bitsPerItem * 64
  hashCount := hashCountFor bitsPerItem
  size_pos := by
    rw [numWords_size]
    omega
  size_le := by
    rw [numWords_size, List.length_replicate]

def hash (item : GoString) : UInt32 × UInt32 :=
  let hash1 := fnv32a item
  let hash2 := fnv32 item
  (hash1, if hash2 % 2 = 0 then hash2 + 1 else hash2)

def bitIndex (size : UInt32) (hashes : UInt32 × UInt32) (i : ℕ) : ℕ :=
  ((hashes.1 + UInt32.ofNat i * hashes.2) % size).toNat

def mask (index : ℕ) : UInt64 := 1 <<< UInt64.ofNat (index % 64)

def setBit (bits : List UInt64) (index : ℕ) : List UInt64 :=
  bits.set (index / 64) (bits.getD (index / 64) 0 ||| mask index)

def hasBit (bits : List UInt64) (index : ℕ) : Bool := bits.getD (index / 64) 0 &&& mask index ≠ 0

def bitIndices (filter : BloomFilter) (item : GoString) : List ℕ :=
  (List.range filter.hashCount).map (bitIndex filter.size (hash item))

variable (bits : List UInt64)

theorem setBit_length : (setBit bits index).length = bits.length := List.length_set

theorem foldl_setBit_length {indices : List ℕ} :
    (indices.foldl setBit bits).length = bits.length := by
  induction indices generalizing bits with
  | nil => rfl
  | cons index indices ih => rw [List.foldl_cons, ih, setBit_length]

def add (filter : BloomFilter) (item : GoString) : BloomFilter := { filter with
    bits := (filter.bitIndices item).foldl setBit filter.bits
    size_le := by
      rw [foldl_setBit_length]
      exact filter.size_le }

def mayContain (filter : BloomFilter) (item : GoString) : Bool :=
  (filter.bitIndices item).all (hasBit filter.bits)

theorem mask_toNat : (mask index).toNat = 2 ^ (index % 64) := by
  have hlt : index % 64 < 64 := Nat.mod_lt _ (by omega)
  have hpow : 2 ^ (index % 64) < 2 ^ 64 := Nat.pow_lt_pow_right (by omega) hlt
  have hshift : (UInt64.ofNat (index % 64)).toNat = index % 64 := by
    exact Nat.mod_eq_of_lt (by omega)
  rw [mask, UInt64.toNat_shiftLeft, hshift, Nat.mod_eq_of_lt hlt]
  change 1 <<< (index % 64) % 2 ^ 64 = _
  rw [Nat.one_shiftLeft, Nat.mod_eq_of_lt hpow]

theorem hasBit_iff :
    hasBit bits index = true ↔ (bits.getD (index / 64) 0).toNat.testBit (index % 64) = true := by
  have hzero (word : UInt64) : word ≠ 0 ↔ word.toNat ≠ 0 := by
    rw [ne_eq, ne_eq, ← UInt64.toNat_inj]
    rfl
  rw [hasBit, decide_eq_true_eq, hzero, UInt64.toNat_and, mask_toNat, Nat.and_two_pow]
  cases (bits.getD (index / 64) 0).toNat.testBit (index % 64) <;> simp

variable {bits : List UInt64} {index : ℕ}

theorem hasBit_setBit_self (hindex : index < 64 * bits.length) :
    hasBit (setBit bits index) index = true := by
  have hword : index / 64 < bits.length := by omega
  rw [hasBit_iff, setBit, List.getD_eq_getElem?_getD,
    List.getElem?_set_self hword, Option.getD_some, UInt64.toNat_or, mask_toNat,
    Nat.testBit_or, Nat.testBit_two_pow_self, Bool.or_true]

theorem hasBit_setBit_of_hasBit (hbit : hasBit bits index = true) :
    hasBit (setBit bits other) index = true := by
  rw [hasBit_iff] at hbit ⊢
  rw [setBit, List.getD_eq_getElem?_getD]
  by_cases hsame : other / 64 = index / 64
  · by_cases hword : index / 64 < bits.length
    · rw [hsame, List.getElem?_set_self hword, Option.getD_some,
        UInt64.toNat_or, Nat.testBit_or, hbit, Bool.true_or]
    · rw [List.getD_eq_getElem?_getD, List.getElem?_eq_none (not_lt.mp hword)] at hbit
      simp at hbit
  · rw [List.getElem?_set_ne hsame, ← List.getD_eq_getElem?_getD]
    exact hbit

theorem hasBit_foldl_of_hasBit (indices : List ℕ) (hbit : hasBit bits index = true) :
    hasBit (indices.foldl setBit bits) index = true := by
  induction indices generalizing bits with
  | nil => exact hbit
  | cons other indices ih => exact ih (hasBit_setBit_of_hasBit hbit)

theorem hasBit_foldl {indices : List ℕ}
    (hindices : ∀ index ∈ indices, index < 64 * bits.length)
    (hmem : index ∈ indices) :
    hasBit (indices.foldl setBit bits) index = true := by
  induction indices generalizing bits with
  | nil => cases hmem
  | cons first indices ih =>
    rcases List.mem_cons.mp hmem with rfl | hrest
    · exact hasBit_foldl_of_hasBit indices (hasBit_setBit_self (hindices index (by simp)))
    · apply ih _ hrest
      intro other hother
      rw [setBit_length]
      exact hindices other (List.mem_cons_of_mem first hother)

theorem bitIndices_lt (filter : BloomFilter) :
    ∀ index ∈ filter.bitIndices item, index < 64 * filter.bits.length := by
  intro index hindex
  obtain ⟨i, -, rfl⟩ := List.mem_map.mp hindex
  have hmod : bitIndex filter.size (hash item) i < filter.size.toNat := by
    exact Nat.mod_lt _ filter.size_pos
  have hle := filter.size_le
  omega

theorem mayContain_add_self {filter : BloomFilter} :
    (filter.add item).mayContain item = true := by
  rw [mayContain, List.all_eq_true]
  intro index hindex
  exact hasBit_foldl (filter.bitIndices_lt) hindex

theorem mayContain_add {filter : BloomFilter}
    (hitem : filter.mayContain item = true) :
    (filter.add other).mayContain item = true := by
  rw [mayContain, List.all_eq_true] at hitem ⊢
  intro index hindex
  exact hasBit_foldl_of_hasBit _ (hitem index hindex)

end BloomFilter

/-! ## Reading a table -/

/-- The first key of a block, and what reading the block gives. -/
structure IndexEntry where
  key : GoString
  block : Except GoString (List Entry)
  deriving DecidableEq

structure SSTable where
  path : GoString
  minKey : GoString
  maxKey : GoString
  bloomFilter : Option BloomFilter
  index : List IndexEntry
  deriving DecidableEq

def nilPointer : GoString := str "runtime error: invalid memory address or nil pointer dereference"

namespace Block

def get (entries : List Entry) (key : GoString) : Option Bytes :=
  match searchKey Entry.key entries key entries.length 0 entries.length with
  | none => none
  | some entry => if entry.deleted then none else some entry.value

def estimateSize (entries : List Entry) : ℕ :=
  (entries.map fun entry => entry.key.length + entry.value.length + 20).sum

def parseBlockEntries (entries : List Entry) : List Entry :=
  entries.map fun entry => { entry with size := 0 }

end Block

namespace SSTable

/-- The block that may hold the key; `none` for a table without blocks. -/
def findBlock (table : SSTable) (key : GoString) : Option ℕ :=
  if table.index = [] then none
  else
    some (searchAbove IndexEntry.key table.index key table.index.length 0 table.index.length - 1)

def loadBlock (table : SSTable) (blockIndex : ℕ) : Except GoString (List Entry) :=
  match table.index[blockIndex]? with
  | none => .error (str "block index out of range")
  | some entry => entry.block.map Block.parseBlockEntries

/-- A table without a filter is asked for the filter's fields all the same. -/
def get (table : SSTable) (key : GoString) : Outcome (Option Bytes) :=
  match table.bloomFilter with
  | none => .panic nilPointer
  | some filter =>
    if filter.mayContain key then
      match table.findBlock key with
      | none => .ok none
      | some blockIndex =>
        match table.loadBlock blockIndex with
        | .error e => .error (str "failed to load block: " ++ e)
        | .ok entries => .ok (Block.get entries key)
    else .ok none

end SSTable

/-! ## Writing a table -/

structure LSMConfig where
  memTableSize : ℤ
  maxLevels : ℕ
  sstableSize : ℕ
  blockSize : ℕ
  bloomFilterBits : ℕ
  bloomFilterBits_ok : 0 < (BloomFilter.numWords 100000 bloomFilterBits).toNat

def smallConfig : LSMConfig where
  memTableSize := 1024
  maxLevels := 2
  sstableSize := 4096
  blockSize := 64
  bloomFilterBits := 1
  bloomFilterBits_ok := by decide +kernel

structure SSTableWriter where
  path : GoString
  blockSize : ℕ
  index : List IndexEntry
  bloom : BloomFilter
  numEntries : ℕ
  minKey : GoString
  maxKey : GoString
  currentBlock : List Entry

namespace SSTableWriter

def new (path : GoString) (config : LSMConfig) : SSTableWriter where
  path := path
  blockSize := config.blockSize
  index := []
  bloom := .new 100000 config.bloomFilterBits config.bloomFilterBits_ok
  numEntries := 0
  minKey := []
  maxKey := []
  currentBlock := []

def flushBlock (writer : SSTableWriter) : SSTableWriter :=
  match writer.currentBlock with
  | [] => writer
  | first :: _ =>
    { writer with
      index := writer.index ++ [⟨first.key, .ok writer.currentBlock⟩]
      currentBlock := [] }

def append (writer : SSTableWriter) (entry : Entry) : SSTableWriter := { writer with
    bloom := writer.bloom.add entry.key
    minKey := if writer.numEntries = 0 then entry.key else writer.minKey
    maxKey := entry.key
    currentBlock := writer.currentBlock ++ [entry]
    numEntries := writer.numEntries + 1 }

def add (writer : SSTableWriter) (now : ℤ) (key : GoString) (value : Bytes)
    (deleted : Bool) : SSTableWriter :=
  let appended := writer.append {
    key := key
    value := value
    timestamp := now
    deleted := deleted
    size := key.length + value.length + 32 }
  if Block.estimateSize appended.currentBlock ≥ writer.blockSize then
    appended.flushBlock
  else appended

def finish (writer : SSTableWriter) : SSTable :=
  let flushed := writer.flushBlock
  { path := flushed.path
    minKey := flushed.minKey
    maxKey := flushed.maxKey
    bloomFilter := some flushed.bloom
    index := flushed.index }

end SSTableWriter

/-! ## A written table answers with its entries -/

def liveValue (entries : List Entry) (key : GoString) : Option Bytes :=
  match entries.find? fun entry => entry.key = key with
  | none => none
  | some entry => if entry.deleted then none else some entry.value

theorem liveValue_of_absent (habsent : ∀ entry ∈ entries, entry.key ≠ key) :
    liveValue entries key = none := by
  have hfind : entries.find? (fun entry => entry.key = key) = none := by
    rw [List.find?_eq_none]
    intro entry hentry
    simpa using habsent entry hentry
  simp only [liveValue, hfind]

theorem liveValue_of_mem (hsorted : Ascending Entry.key entries) (hentry : entry ∈ entries) :
    liveValue entries entry.key = if entry.deleted then none else some entry.value := by
  obtain ⟨i, hi, hget⟩ := List.mem_iff_getElem.mp hentry
  have hfound := searchKey_complete hsorted
    (hget ▸ List.getElem?_eq_getElem hi) rfl (Nat.zero_le i) hi (le_refl _)
    (le_of_eq (Nat.sub_zero _))
  rw [searchKey_eq_find? hsorted] at hfound
  simp only [liveValue, hfound]

namespace Block

theorem parseBlockEntries_ascending (hsorted : Ascending Entry.key entries) :
    Ascending Entry.key (parseBlockEntries entries) :=
  List.pairwise_map.mpr hsorted

theorem get_parseBlockEntries (hsorted : Ascending Entry.key entries) {key : GoString} :
    get (parseBlockEntries entries) key = liveValue entries key := by
  rw [get, searchKey_eq_find? (parseBlockEntries_ascending hsorted), liveValue,
    parseBlockEntries, List.find?_map]
  change (match ((entries.find? fun entry => entry.key = key).map
    fun entry => { entry with size := 0 }) with
    | none => none
    | some entry => if entry.deleted then none else some entry.value) = _
  cases entries.find? fun entry => decide (entry.key = key) <;> rfl

end Block

def IndexEntry.ofBlock (block : List Entry) : IndexEntry where
  key := (block.head?.map Entry.key).getD []
  block := .ok block

/-- The entries of a table, in blocks of which none is empty. -/
structure SSTable.Holds (table : SSTable) (entries : List Entry) : Prop where
  blocks : ∃ blocks : List (List Entry),
    table.index = blocks.map IndexEntry.ofBlock ∧ (∀ block ∈ blocks, block ≠ []) ∧
      blocks.flatten = entries
  filter : ∃ filter, table.bloomFilter = some filter ∧
    ∀ entry ∈ entries, filter.mayContain entry.key = true
  range : ∀ entry ∈ entries, table.minKey ≤ entry.key ∧ entry.key ≤ table.maxKey

theorem IndexEntry.ofBlock_key_le {block : List Entry}
    (hsorted : Ascending Entry.key block)
    (hentry : entry ∈ block) : (ofBlock block).key ≤ entry.key := by
  cases block with
  | nil => cases hentry
  | cons first rest =>
    rcases List.mem_cons.mp hentry with rfl | hrest
    · exact le_refl _
    · exact le_of_lt (List.rel_of_pairwise_cons hsorted hrest)

theorem IndexEntry.ofBlock_key_mem {block : List Entry} (hne : block ≠ []) :
    ∃ entry ∈ block, entry.key = (ofBlock block).key := by
  cases block with
  | nil => exact absurd rfl hne
  | cons first rest => exact ⟨first, by simp, rfl⟩

theorem ascending_index {blocks : List (List Entry)}
    (hsorted : Ascending Entry.key blocks.flatten)
    (hne : ∀ block ∈ blocks, block ≠ []) :
    Ascending IndexEntry.key (blocks.map IndexEntry.ofBlock) := by
  have hblocks := (List.pairwise_flatten.mp hsorted).2
  apply List.pairwise_map.mpr
  apply hblocks.imp_of_mem
  intro first second hfirst hsecond hlt
  obtain ⟨a, ha, hakey⟩ := IndexEntry.ofBlock_key_mem (hne first hfirst)
  obtain ⟨b, hb, hbkey⟩ := IndexEntry.ofBlock_key_mem (hne second hsecond)
  rw [← hakey, ← hbkey]
  exact hlt a ha b hb

namespace SSTable

variable {table : SSTable} {i : ℕ}

theorem loadBlock_eq {blocks : List (List Entry)}
    (hindex : table.index = blocks.map IndexEntry.ofBlock)
    (hblock : blocks[i]? = some block) :
    table.loadBlock i = .ok (Block.parseBlockEntries block) := by
  rw [loadBlock, hindex, List.getElem?_map, hblock]
  rfl

theorem findBlock_eq {blocks : List (List Entry)}
    (hindex : table.index = blocks.map IndexEntry.ofBlock)
    (hne : ∀ block ∈ blocks, block ≠ [])
    (hsorted : Ascending Entry.key blocks.flatten) {block : List Entry}
    (hblock : blocks[i]? = some block)
    (hentry : entry ∈ block) : table.findBlock entry.key = some i := by
  obtain ⟨hinside, hbetween⟩ := List.pairwise_flatten.mp hsorted
  have hmem := List.mem_of_getElem? hblock
  have hi : i < blocks.length := (List.getElem?_eq_some_iff.mp hblock).1
  have hindexed : table.index[i]? = some (IndexEntry.ofBlock block) := by
    rw [hindex, List.getElem?_map, hblock]
    rfl
  have hnonempty : table.index ≠ [] := by
    intro hnil
    rw [hnil] at hindexed
    cases hindexed
  have hnext : ∀ next, table.index[i + 1]? = some next → entry.key < next.key := by
    intro next hnext
    rw [hindex, List.getElem?_map, Option.map_eq_some_iff] at hnext
    obtain ⟨later, hlater, rfl⟩ := hnext
    obtain ⟨first, hfirst, hkey⟩ :=
      IndexEntry.ofBlock_key_mem (hne later (List.mem_of_getElem? hlater))
    obtain ⟨hj, rfl⟩ := List.getElem?_eq_some_iff.mp hlater
    obtain ⟨_, rfl⟩ := List.getElem?_eq_some_iff.mp hblock
    rw [← hkey]
    exact List.pairwise_iff_getElem.mp hbetween i (i + 1) hi hj (by omega) entry hentry first hfirst
  have hascending : Ascending IndexEntry.key table.index := by
    rw [hindex]
    exact ascending_index hsorted hne
  have hlength : i < table.index.length := by
    rw [hindex, List.length_map]
    exact hi
  have hsearch := searchAbove_eq hascending hindexed
    (IndexEntry.ofBlock_key_le (hinside block hmem) hentry) hnext
    (Nat.zero_le _) hlength (le_refl _) (le_of_eq (Nat.sub_zero _))
  rw [findBlock, if_neg hnonempty, hsearch]
  rfl

theorem findBlock_lt (hfound : table.findBlock key = some i) : i < table.index.length := by
  rw [findBlock] at hfound
  by_cases hnil : table.index = []
  · rw [if_pos hnil] at hfound
    cases hfound
  · rw [if_neg hnil, Option.some.injEq] at hfound
    have hle := searchAbove_le IndexEntry.key table.index key
      table.index.length (Nat.zero_le table.index.length)
    have hpos := List.length_pos_iff.mpr hnil
    omega

theorem Holds.get_eq {entries : List Entry}
    (hholds : table.Holds entries) (hsorted : Ascending Entry.key entries)
    (key : GoString) : table.get key = .ok (liveValue entries key) := by
  obtain ⟨blocks, hindex, hne, rfl⟩ := hholds.blocks
  obtain ⟨filter, hfilter, hcontains⟩ := hholds.filter
  have hinside := (List.pairwise_flatten.mp hsorted).1
  simp only [get, hfilter]
  by_cases hpresent : ∃ entry ∈ blocks.flatten, entry.key = key
  · obtain ⟨entry, hentry, rfl⟩ := hpresent
    obtain ⟨block, hmem, hblock⟩ := List.mem_flatten.mp hentry
    obtain ⟨i, hi⟩ := List.mem_iff_getElem?.mp hmem
    rw [if_pos (hcontains entry hentry), findBlock_eq hindex hne hsorted hi hblock]
    simp only [loadBlock_eq hindex hi]
    rw [Block.get_parseBlockEntries (hinside block hmem),
      liveValue_of_mem (hinside block hmem) hblock,
      liveValue_of_mem hsorted hentry]
  · push Not at hpresent
    rw [liveValue_of_absent hpresent]
    split
    · cases hfind : table.findBlock key with
      | none => rfl
      | some i =>
        have hi := findBlock_lt hfind
        rw [hindex, List.length_map] at hi
        have hblock := List.getElem?_eq_getElem hi
        have hmem := List.mem_of_getElem? hblock
        simp only [loadBlock_eq hindex hblock]
        rw [Block.get_parseBlockEntries (hinside _ hmem), liveValue_of_absent]
        intro entry hentry
        exact hpresent entry (List.mem_flatten_of_mem hmem hentry)
    · rfl

end SSTable

namespace SSTableWriter

structure Holds (writer : SSTableWriter) (entries : List Entry) : Prop where
  blocks : ∃ blocks : List (List Entry),
    writer.index = blocks.map IndexEntry.ofBlock ∧ (∀ block ∈ blocks, block ≠ []) ∧
      blocks.flatten ++ writer.currentBlock = entries
  filter : ∀ entry ∈ entries, writer.bloom.mayContain entry.key = true
  count : writer.numEntries = entries.length
  first : ∀ entry ∈ entries.head?, writer.minKey = entry.key
  last : ∀ entry ∈ entries.getLast?, writer.maxKey = entry.key

theorem new_holds (path : GoString) (config : LSMConfig) : (new path config).Holds [] where
  blocks := ⟨[], rfl, by simp, rfl⟩
  filter := by simp
  count := rfl
  first := by simp
  last := by simp

variable {writer : SSTableWriter} {entries : List Entry}

theorem Holds.flushBlock (hholds : writer.Holds entries) :
    writer.flushBlock.Holds entries ∧ writer.flushBlock.currentBlock = [] := by
  cases hblock : writer.currentBlock with
  | nil =>
    have hsame : writer.flushBlock = writer := by
      simp only [SSTableWriter.flushBlock, hblock]
    rw [hsame]
    exact ⟨hholds, hblock⟩
  | cons first rest =>
    obtain ⟨blocks, hindex, hne, hentries⟩ := hholds.blocks
    simp only [SSTableWriter.flushBlock, hblock]
    refine ⟨⟨⟨blocks ++ [first :: rest], ?_, ?_, ?_⟩, hholds.filter,
      hholds.count, hholds.first, hholds.last⟩, trivial⟩
    · rw [List.map_append, hindex]
      rfl
    · intro block hmem
      rcases List.mem_append.mp hmem with hold | hnew
      · exact hne block hold
      · rw [List.mem_singleton.mp hnew]
        exact List.cons_ne_nil first rest
    · rw [List.flatten_append, List.flatten_singleton, List.append_nil, ← hblock]
      exact hentries

theorem Holds.append (hholds : writer.Holds entries) (entry : Entry) :
    (writer.append entry).Holds (entries ++ [entry]) := by
  obtain ⟨blocks, hindex, hne, hentries⟩ := hholds.blocks
  constructor
  · refine ⟨blocks, hindex, hne, ?_⟩
    rw [← hentries, List.append_assoc]
    rfl
  · intro other hother
    rcases List.mem_append.mp hother with hold | hnew
    · exact BloomFilter.mayContain_add (hholds.filter other hold)
    · rw [List.mem_singleton.mp hnew]
      exact BloomFilter.mayContain_add_self
  · rw [List.length_append, ← hholds.count]
    rfl
  · intro other hother
    rw [SSTableWriter.append, hholds.count]
    cases entries with
    | nil =>
      rw [List.nil_append, List.head?_cons, Option.mem_some_iff] at hother
      rw [← hother]
      rfl
    | cons head tail => exact hholds.first other hother
  · intro other hother
    rw [List.getLast?_concat, Option.mem_some_iff] at hother
    rw [← hother]
    rfl

theorem Holds.add (hholds : writer.Holds entries) (now : ℤ) (key : GoString) (value : Bytes)
    (deleted : Bool) :
    ∃ entry : Entry, entry.key = key ∧ entry.value = value ∧ entry.deleted = deleted ∧
      (writer.add now key value deleted).Holds (entries ++ [entry]) := by
  refine ⟨⟨key, value, now, deleted, key.length + value.length + 32⟩, rfl, rfl, rfl, ?_⟩
  rw [SSTableWriter.add]
  split_ifs
  · exact (hholds.append _).flushBlock.1
  · exact hholds.append _

theorem Holds.finish (hholds : writer.Holds entries) (hsorted : Ascending Entry.key entries) :
    writer.finish.Holds entries := by
  obtain ⟨hflushed, hempty⟩ := hholds.flushBlock
  obtain ⟨blocks, hindex, hne, hentries⟩ := hflushed.blocks
  rw [hempty, List.append_nil] at hentries
  constructor
  · exact ⟨blocks, hindex, hne, hentries⟩
  · exact ⟨_, rfl, hflushed.filter⟩
  · intro entry hentry
    constructor
    · cases entries with
      | nil => cases hentry
      | cons head tail =>
        have hmin : writer.finish.minKey = head.key := hflushed.first head rfl
        rw [hmin]
        rcases List.mem_cons.mp hentry with rfl | htail
        · exact le_refl _
        · exact le_of_lt (List.rel_of_pairwise_cons hsorted htail)
    · rcases List.eq_nil_or_concat entries with hnil | ⟨front, last, hconcat⟩
      · rw [hnil] at hentry
        cases hentry
      · rw [List.concat_eq_append] at hconcat
        subst hconcat
        have hmax : writer.finish.maxKey = last.key := hflushed.last last (by simp)
        rw [hmax]
        rcases List.mem_append.mp hentry with hfront | hlast
        · exact le_of_lt ((List.pairwise_append.mp hsorted).2.2 entry hfront last (by simp))
        · rw [List.mem_singleton.mp hlast]

end SSTableWriter

end Govc
