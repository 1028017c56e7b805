import Govc.GuardedRuns
import Govc.LsmRecovery

/-!
# Durability of acknowledged puts

A put and a flush are three steps each, and all steps of all calls interleave.  A
crash keeps a part of the log file at least as long as it was at the last sync.
The truncation also drops the records of puts that went into the new memory
table, and a log that is rotated away is never read again.  Runs without such
puts and without rotation lose no put that was acknowledged and synced.
-/

namespace Govc

open Go LSMStore

/-! ## The log of a run -/

namespace WriteAheadLog

/-- The log holds the records of `entries`; those of `kept` survive a crash. -/
structure Holds (wal : WriteAheadLog) (entries kept : List WALEntry) :
    Prop where
  content_eq : wal.content = records entries
  recordable : ∀ entry ∈ entries, entry.Recordable
  kept_prefix : kept <+: entries
  kept_durable : (records kept).length ≤ wal.durable
  durable_le : wal.durable ≤ wal.file.length

theorem new_holds : (newWriteAheadLog []).Holds [] [] where
  content_eq := rfl
  recordable := by simp
  kept_prefix := List.prefix_refl []
  kept_durable := Nat.zero_le _
  durable_le := Nat.zero_le _

variable {wal : WriteAheadLog} {entries kept : List WALEntry}

theorem bufferedWrite_durable (wal : WriteAheadLog) :
    (wal.bufferedWrite data).durable = wal.durable ∧
      wal.file.length ≤ (wal.bufferedWrite data).file.length := by
  unfold bufferedWrite
  dsimp only
  split_ifs
  · exact ⟨rfl, le_refl _⟩
  · exact ⟨rfl, by simp⟩
  · refine ⟨rfl, ?_⟩
    simp only [List.append_assoc, List.length_append]
    omega
  · refine ⟨rfl, ?_⟩
    simp only [List.append_assoc, List.length_append]
    omega

def recordLength (key : GoString) (value : Bytes) : ℕ := 25 + key.length + value.length

theorem Holds.write (hholds : wal.Holds entries kept)
    (hfits : wal.size + recordLength key value ≤ maxSize)
    (deleted : Bool) :
    (wal.write key value deleted).Holds
      (entries ++ [.make (wal.sequence + 1) key value deleted]) kept := by
  have hlength : (WALEntry.make (wal.sequence + 1) key value
      deleted).serializeEntry.length = recordLength key value :=
    WALEntry.encode_length _ _
  have hmax : maxSize < 2 ^ 32 := by decide
  unfold recordLength at hfits hlength
  obtain ⟨hsize, -⟩ :=
    ({ wal with sequence := wal.sequence + 1 }).bufferedWrite_size
      (WALEntry.make (wal.sequence + 1) key value deleted).serializeEntry
  have hcontent :=
    ({ wal with sequence := wal.sequence + 1 }).bufferedWrite_content
      (WALEntry.make (wal.sequence + 1) key value deleted).serializeEntry
  obtain ⟨hdurable, hgrows⟩ := ({ wal with sequence := wal.sequence + 1 }).bufferedWrite_durable
  dsimp only at hsize hdurable hgrows
  rw [WriteAheadLog.write]
  dsimp only
  rw [if_neg (by omega)]
  constructor
  · rw [records_append, ← hholds.content_eq]
    refine Eq.trans hcontent ?_
    rw [records_cons, records_nil, List.append_nil]
    rfl
  · intro entry hentry
    rcases List.mem_append.mp hentry with hold | hnew
    · exact hholds.recordable entry hold
    · rw [List.mem_singleton.mp hnew]
      exact WALEntry.make_recordable (by omega) (by omega)
  · exact hholds.kept_prefix.trans (List.prefix_append _ _)
  · exact hholds.kept_durable.trans (le_of_eq hdurable.symm)
  · dsimp only
    have hle := hholds.durable_le
    omega

theorem Holds.sync (hholds : wal.Holds entries kept) : wal.sync.Holds entries entries where
  content_eq := by
    rw [← hholds.content_eq]
    exact List.append_nil _
  recordable := hholds.recordable
  kept_prefix := List.prefix_refl entries
  kept_durable := by
    rw [← hholds.content_eq]
    exact le_refl _
  durable_le := le_refl _

theorem truncate_holds (wal : WriteAheadLog) : wal.truncate.Holds [] [] where
  content_eq := rfl
  recordable := by simp
  kept_prefix := List.prefix_refl []
  kept_durable := Nat.zero_le _
  durable_le := Nat.zero_le _

theorem Holds.mem_readAll (hholds : wal.Holds entries kept) (hentry : entry ∈ kept) :
    entry ∈ (newWriteAheadLog (wal.file.take (max n wal.durable))).readAll := by
  have hcut : wal.file.take (max n wal.durable) =
      (records entries).take (min (max n wal.durable) wal.file.length) := by
    rw [← hholds.content_eq, content, List.take_append_of_le_length (by omega)]
    rcases Nat.le_total (max n wal.durable) wal.file.length with hle | hle
    · rw [min_eq_left hle]
    · rw [min_eq_right hle, List.take_length, List.take_of_length_le hle]
  have hkept := hholds.kept_durable
  have hdurable := hholds.durable_le
  have hread : (newWriteAheadLog (wal.file.take (max n wal.durable))).readAll =
      fitting entries (min (max n wal.durable) wal.file.length) := by
    rw [hcut]
    exact scan_take hholds.recordable
  rw [hread]
  exact (prefix_fitting hholds.kept_prefix (by omega)).subset hentry

end WriteAheadLog

/-! ## The steps -/

inductive PutPhase where
  | logged
  | fetched (generation : ℕ)
  | acked
  | failed
  deriving DecidableEq

/-- A call of `PutObject`; `synced` says whether a sync came after its write
to the log. -/
structure PutCall where
  key : GoString
  value : Bytes
  phase : PutPhase
  synced : Bool
  deriving DecidableEq

inductive FlushPhase where
  | idle
  | swapped
  | written
  deriving DecidableEq

/-- `generation` stands for the pointer to the memory table: a put that holds
an older one inserts into a sealed table. -/
structure DurableRun where
  store : LSMStore
  generation : ℕ
  flush : FlushPhase
  puts : List PutCall

inductive DurableStep where
  | log (key : GoString) (value : Bytes)
  | fetch (put : ℕ)
  | insert (put : ℕ) (now : ℤ)
  | sync
  | swap
  | writeTable (clock : ℕ → ℤ)
  | truncate

namespace DurableRun

def setPhase (state : DurableRun) (i : ℕ) (call : PutCall) (phase : PutPhase) : DurableRun :=
  { state with puts := state.puts.set i { call with phase := phase } }

def fetch (state : DurableRun) (i : ℕ) : Option DurableRun :=
  match state.puts[i]? with
  | some call =>
    if call.phase = .logged then
      some (state.setPhase i call (.fetched state.generation))
    else none
  | none => none

def insert (state : DurableRun) (i : ℕ) (now : ℤ) : Option DurableRun :=
  match state.puts[i]? with
  | none => none
  | some call =>
    match call.phase with
    | .fetched generation =>
      if generation = state.generation then
        match writeMemTable (str "failed to write to memtable: ")
            (·.put now call.key call.value) state.store with
        | (.ok _, store) =>
          some ({ state with store := store }.setPhase i call .acked)
        | (_, store) =>
          some ({ state with store := store }.setPhase i call .failed)
      else some (state.setPhase i call .failed)
    | _ => none

def step (state : DurableRun) : DurableStep → Option DurableRun
  | .log key value =>
    if key = [] then none
    else
      some { state with
        store := state.store.writeLog key value false
        puts := state.puts ++ [⟨key, value, .logged, false⟩] }
  | .fetch i => state.fetch i
  | .insert i now => state.insert i now
  | .sync =>
    some { state with
      store.wal := state.store.wal.map (·.sync)
      puts := state.puts.map fun call => { call with synced := true } }
  | .swap =>
    match state.flush, state.store.memTable with
    | .idle, some current =>
      some { state with
        store := state.store.swapMemTable current
        generation := state.generation + 1
        flush := .swapped }
    | _, _ => none
  | .writeTable clock =>
    match state.flush, state.store.immutable, state.store.levels with
    | .swapped, some current, some level0 :: levels =>
      some { state with
        store.levels := some (LSMStore.writeTable clock level0 current) :: levels
        store.immutable := none
        flush := .written }
    | _, _, _ => none
  | .truncate =>
    match state.flush with
    | .written =>
      some { state with
        store := state.store.truncateLog
        flush := .idle }
    | _ => none

end DurableRun

def durabilitySystem (path : GoString) (config : LSMConfig) :
    Runs.System DurableRun DurableStep where
  init state := state = ⟨.initialized path config, 0, .idle, []⟩
  step state label state' := state.step label = some state'

def LSMStore.level0Tables (store : LSMStore) : List SSTable :=
  match store.levels with
  | some level0 :: _ => level0.sstables
  | _ => []

def LSMStore.InTables (store : LSMStore) (call : PutCall) : Prop :=
  ∃ table ∈ store.level0Tables, table.get call.key = .ok (some call.value)

instance (store : LSMStore) (call : PutCall) : Decidable (store.InTables call) :=
  inferInstanceAs (Decidable (∃ table ∈ store.level0Tables, _))

/-- The put is in a finished table, or is read from the log after a crash that
keeps `n` bytes of the file or as many as are durable. -/
def LSMStore.Survives (store : LSMStore) (n : ℕ) (call : PutCall) : Prop :=
  store.InTables call ∨
    ∃ entry ∈ (WriteAheadLog.newWriteAheadLog (store.afterCrash n)).readAll,
      entry.key = call.key ∧ entry.value = call.value ∧ entry.deleted = false

instance (store : LSMStore) (n : ℕ) (call : PutCall) :
    Decidable (store.Survives n call) :=
  inferInstanceAs (Decidable (store.InTables call ∨
    ∃ entry ∈ (WriteAheadLog.newWriteAheadLog (store.afterCrash n)).readAll, _))

/-- Every put that was acknowledged and synced survives every crash. -/
def DurableRun.LosesNothing (state : DurableRun) : Prop :=
  ∀ call ∈ state.puts, call.phase = .acked → call.synced = true → ∀ n, state.store.Survives n call

/-- No write to the log while a flush runs, nor one that makes the log rotate;
no swap while a put has logged and not yet read the pointer; no insert over a
different value. -/
def durableSafe (state : DurableRun) : DurableStep → Prop
  | .log key value =>
    state.flush = .idle ∧ ∀ wal ∈ state.store.wal,
      wal.size + WriteAheadLog.recordLength key value ≤ WriteAheadLog.maxSize
  | .insert i _ =>
    ∀ call ∈ state.puts[i]?, ∀ memTable ∈ state.store.memTable,
      ∀ value ∈ memTable.get call.key, value = call.value
  | .swap => ∀ call ∈ state.puts, call.phase ≠ .logged
  | _ => True

instance (state : DurableRun) (label : DurableStep) :
    Decidable (durableSafe state label) :=
  match label with
  | .log key value =>
    inferInstanceAs (Decidable (state.flush = .idle ∧
      ∀ wal ∈ state.store.wal,
        wal.size + WriteAheadLog.recordLength key value ≤ WriteAheadLog.maxSize))
  | .insert i _ =>
    inferInstanceAs (Decidable (∀ call ∈ state.puts[i]?,
      ∀ memTable ∈ state.store.memTable, ∀ value ∈ memTable.get call.key, value = call.value))
  | .swap => inferInstanceAs (Decidable (∀ call ∈ state.puts, _))
  | .fetch _ => .isTrue trivial
  | .sync => .isTrue trivial
  | .writeTable _ => .isTrue trivial
  | .truncate => .isTrue trivial

/-! ## The invariant -/

def WALEntry.Records (entry : WALEntry) (call : PutCall) : Prop :=
  entry.key = call.key ∧ entry.value = call.value ∧ entry.deleted = false

/-- The put is in the log, and below the durable mark if it was synced. -/
structure PutCall.InLog (call : PutCall) (entries kept : List WALEntry) :
    Prop where
  present : ∃ entry ∈ entries, entry.Records call
  durable : call.synced = true → ∃ entry ∈ kept, entry.Records call

def PutCall.InMemory (call : PutCall) (memTable : Option MemTable) : Prop :=
  ∃ table, memTable = some table ∧ table.get call.key = some call.value

namespace DurableRun

/-- Where an acknowledged put is while the flush is in a phase. -/
def Buffered (state : DurableRun) (call : PutCall) : Prop :=
  match state.flush with
  | .idle => call.InMemory state.store.memTable
  | .swapped => call.InMemory state.store.immutable
  | .written => False

def Accounted (state : DurableRun) (entries kept : List WALEntry) (call : PutCall) : Prop :=
  match call.phase with
  | .logged => state.flush = .idle ∧ call.InLog entries kept
  | .fetched generation =>
    generation ≤ state.generation ∧
      (generation = state.generation → state.flush = .idle ∧ call.InLog entries kept)
  | .acked =>
    state.store.InTables call ∨ call.InLog entries kept ∧ state.Buffered call
  | .failed => True

structure Coherent (state : DurableRun) (entries kept : List WALEntry) :
    Prop where
  wal : ∃ wal, state.store.wal = some wal ∧ wal.Holds entries kept
  memTable : ∃ memTable, state.store.memTable = some memTable ∧ memTable.sealed = false
  puts : ∀ call ∈ state.puts, state.Accounted entries kept call

variable {state after : DurableRun} {entries kept : List WALEntry}

theorem Coherent.losesNothing (hcoherent : state.Coherent entries kept) : state.LosesNothing := by
  intro call hcall hacked hsynced n
  have haccounted := hcoherent.puts call hcall
  simp only [Accounted, hacked] at haccounted
  rcases haccounted with htables | ⟨hlog, -⟩
  · exact .inl htables
  · right
    obtain ⟨wal, hwal, hholds⟩ := hcoherent.wal
    obtain ⟨entry, hentry, hrecords⟩ := hlog.durable hsynced
    refine ⟨entry, ?_, hrecords⟩
    simp only [afterCrash, hwal]
    exact hholds.mem_readAll hentry

theorem coherent_init : Coherent ⟨.initialized path config, 0, .idle, []⟩ [] [] where
  wal := ⟨_, rfl, WriteAheadLog.new_holds⟩
  memTable := ⟨_, rfl, rfl⟩
  puts := by simp

theorem InLog.mono {call : PutCall} (hlog : call.InLog entries kept)
    (new : List WALEntry) : call.InLog (entries ++ new) kept := by
  obtain ⟨entry, hentry, hrecords⟩ := hlog.present
  exact ⟨⟨entry, List.mem_append_left new hentry, hrecords⟩, hlog.durable⟩

theorem Accounted.imp {call other : PutCall}
    (haccounted : state.Accounted entries kept call)
    (hphase : other.phase = call.phase) (hflush : after.flush = state.flush)
    (hgeneration : after.generation = state.generation)
    (hlog : call.InLog entries kept → other.InLog entries' kept')
    (htables : state.store.InTables call → after.store.InTables other)
    (hbuffered : state.Buffered call → after.Buffered other) :
    after.Accounted entries' kept' other := by
  simp only [Accounted, hphase, hflush, hgeneration] at haccounted ⊢
  cases hcall : call.phase with
  | logged =>
    simp only [hcall] at haccounted
    exact ⟨haccounted.1, hlog haccounted.2⟩
  | fetched generation =>
    simp only [hcall] at haccounted
    refine ⟨haccounted.1, fun heq => ?_⟩
    obtain ⟨hidle, hlogged⟩ := haccounted.2 heq
    exact ⟨hidle, hlog hlogged⟩
  | acked =>
    simp only [hcall] at haccounted
    rcases haccounted with hold | ⟨hlogged, hheld⟩
    · exact .inl (htables hold)
    · exact .inr ⟨hlog hlogged, hbuffered hheld⟩
  | failed => trivial

theorem Accounted.of_flushing (haccounted : state.Accounted entries kept call)
    (hbusy : state.flush ≠ .idle)
    (hgeneration : after.generation = state.generation)
    (htables : state.store.InTables call ∨ state.Buffered call → after.store.InTables call) :
    after.Accounted entries' kept' call := by
  simp only [Accounted, hgeneration] at haccounted ⊢
  cases hcall : call.phase with
  | logged =>
    simp only [hcall] at haccounted
    exact absurd haccounted.1 hbusy
  | fetched generation =>
    simp only [hcall] at haccounted
    exact ⟨haccounted.1, fun heq => absurd (haccounted.2 heq).1 hbusy⟩
  | acked =>
    simp only [hcall] at haccounted
    rcases haccounted with hold | ⟨-, hheld⟩
    · exact .inl (htables (.inl hold))
    · exact .inl (htables (.inr hheld))
  | failed => trivial

variable (hcoherent : state.Coherent entries kept)

include hcoherent

theorem Coherent.log (hsafe : durableSafe state (.log key value))
    (hstep : state.step (.log key value) = some after) :
    ∃ entries' kept', after.Coherent entries' kept' := by
  obtain ⟨wal, hwal, hholds⟩ := hcoherent.wal
  obtain ⟨hidle, hfits⟩ := hsafe
  simp only [step] at hstep
  split_ifs at hstep
  rw [Option.some.injEq] at hstep
  subst hstep
  refine ⟨entries ++ [.make (wal.sequence + 1) key value false], kept,
    ⟨wal.write key value false, ?_, hholds.write (hfits wal hwal) false⟩,
    hcoherent.memTable, ?_⟩
  · simp only [writeLog, hwal, Option.map_some]
  · intro call hcall
    rcases List.mem_append.mp hcall with hold | hnew
    · exact (hcoherent.puts call hold).imp rfl rfl rfl
        (fun hlog => InLog.mono hlog _) (fun htables => htables)
        fun hbuffered => hbuffered
    · rw [List.mem_singleton.mp hnew]
      refine ⟨hidle, ⟨.make (wal.sequence + 1) key value false,
        List.mem_append_right _ (List.mem_singleton_self _), rfl, rfl, rfl⟩, ?_⟩
      intro hsynced
      cases hsynced

theorem Coherent.setPhase (hnew : state.Accounted entries kept { call with phase := phase }) :
    (state.setPhase i call phase).Coherent entries kept where
  wal := hcoherent.wal
  memTable := hcoherent.memTable
  puts := by
    intro other hother
    rcases List.mem_or_eq_of_mem_set hother with hold | rfl
    · exact hcoherent.puts other hold
    · exact hnew

theorem Coherent.fetch (hstep : state.fetch i = some after) : after.Coherent entries kept := by
  rw [DurableRun.fetch] at hstep
  cases hcall : state.puts[i]? with
  | none => simp [hcall] at hstep
  | some call =>
    simp only [hcall] at hstep
    split_ifs at hstep with hlogged
    rw [Option.some.injEq] at hstep
    subst hstep
    have haccounted := hcoherent.puts call (List.mem_of_getElem? hcall)
    simp only [Accounted, hlogged] at haccounted
    apply hcoherent.setPhase
    exact ⟨le_refl _, fun _ => ⟨haccounted.1, haccounted.2.1, haccounted.2.2⟩⟩

theorem Coherent.written (hidle : state.flush = .idle) {memTable written : MemTable} {entry : Entry}
    (hmem : state.store.memTable = some memTable)
    (hstillOpen : written.sealed = false) (hlive : entry.deleted = false)
    (hdata : written.data = memTable.data.insert entry.key entry)
    (hsame : ∀ value ∈ memTable.get entry.key, value = entry.value)
    (flushCh : Bool) :
    Coherent { state with
      store := { state.store with
        memTable := some written
        flushCh := flushCh } } entries kept where
  wal := hcoherent.wal
  memTable := ⟨written, rfl, hstillOpen⟩
  puts := by
    intro call hcall
    refine (hcoherent.puts call hcall).imp rfl rfl rfl (fun hlog => hlog)
      (fun htables => htables) fun hbuffered => ?_
    simp only [Buffered, hidle] at hbuffered ⊢
    obtain ⟨table, htable, hget⟩ := hbuffered
    rw [hmem, Option.some.injEq] at htable
    subst htable
    refine ⟨written, rfl, ?_⟩
    rw [MemTable.get_of_insert hdata]
    by_cases hkey : call.key = entry.key
    · rw [hkey] at hget
      have hvalue := hsame call.value hget
      simp [hkey, hlive, hvalue]
    · rw [if_neg hkey]
      exact hget

theorem Coherent.insert (hsafe : durableSafe state (.insert i now))
    (hstep : state.insert i now = some after) :
    after.Coherent entries kept := by
  rw [DurableRun.insert] at hstep
  cases hcall : state.puts[i]? with
  | none => simp [hcall] at hstep
  | some call =>
    have haccounted := hcoherent.puts call (List.mem_of_getElem? hcall)
    simp only [hcall] at hstep
    cases hphase : call.phase with
    | fetched generation =>
      simp only [hphase] at hstep
      simp only [Accounted, hphase] at haccounted
      by_cases hcurrent : generation = state.generation
      · obtain ⟨hidle, hlog⟩ := haccounted.2 hcurrent
        obtain ⟨memTable, hmem, hopen⟩ := hcoherent.memTable
        obtain ⟨written, hstore, hstillOpen, hdata⟩ :=
          MemTable.store_of_open hopen
            ⟨call.key, call.value, now, false, call.key.length + call.value.length + 64⟩
        have hput : memTable.put now call.key call.value = .ok written := hstore
        simp only [if_pos hcurrent, writeMemTable, hmem, hput, Option.some.injEq] at hstep
        subst hstep
        have hwritten := hcoherent.written hidle hmem hstillOpen rfl hdata
          (hsafe call hcall memTable hmem)
          (state.store.flushCh || written.isFull)
        apply hwritten.setPhase
        right
        refine ⟨⟨hlog.present, hlog.durable⟩, ?_⟩
        simp only [Buffered, hidle]
        refine ⟨written, rfl, ?_⟩
        rw [MemTable.get_of_insert hdata]
        simp
      · rw [if_neg hcurrent, Option.some.injEq] at hstep
        subst hstep
        exact hcoherent.setPhase trivial
    | _ => simp [hphase] at hstep

theorem Coherent.sync (hstep : state.step .sync = some after) : after.Coherent entries entries := by
  obtain ⟨wal, hwal, hholds⟩ := hcoherent.wal
  simp only [step, Option.some.injEq] at hstep
  subst hstep
  refine ⟨⟨wal.sync, ?_, hholds.sync⟩, hcoherent.memTable, ?_⟩
  · simp only [hwal, Option.map_some]
  · intro call hcall
    obtain ⟨old, hold, rfl⟩ := List.mem_map.mp hcall
    exact (hcoherent.puts old hold).imp rfl rfl rfl
      (fun hlog => ⟨hlog.present, fun _ => hlog.present⟩)
      (fun htables => htables) fun hbuffered => hbuffered

theorem Coherent.swap (hsafe : durableSafe state .swap) (hstep : state.step .swap = some after) :
    after.Coherent entries kept := by
  obtain ⟨memTable, hmem, -⟩ := hcoherent.memTable
  cases hflush : state.flush with
  | swapped => simp [step, hflush] at hstep
  | written => simp [step, hflush] at hstep
  | idle =>
    simp only [step, hflush, hmem, Option.some.injEq] at hstep
    subst hstep
    refine ⟨hcoherent.wal, ⟨_, rfl, rfl⟩, ?_⟩
    intro call hcall
    have haccounted := hcoherent.puts call hcall
    simp only [Accounted] at haccounted ⊢
    cases hphase : call.phase with
    | logged => exact absurd hphase (hsafe call hcall)
    | fetched generation =>
      simp only [hphase] at haccounted
      exact ⟨Nat.le_succ_of_le haccounted.1, fun heq => by omega⟩
    | acked =>
      simp only [hphase] at haccounted
      rcases haccounted with htables | ⟨hlog, hbuffered⟩
      · exact .inl htables
      · simp only [Buffered, hflush] at hbuffered
        obtain ⟨table, htable, hget⟩ := hbuffered
        rw [hmem, Option.some.injEq] at htable
        subst htable
        exact .inr ⟨hlog, memTable.sealTable, rfl, hget⟩
    | failed => trivial

theorem Coherent.writeTable (hstep : state.step (.writeTable clock) = some after) :
    after.Coherent entries kept := by
  simp only [step] at hstep
  split at hstep
  next current level0 levels hflush himmutable hlevels =>
    rw [Option.some.injEq] at hstep
    subst hstep
    obtain ⟨table, written, htables, hholds, hsorted, hlive⟩ := writeTable_spec clock level0 current
    refine ⟨hcoherent.wal, hcoherent.memTable, ?_⟩
    intro call hcall
    have hbusy : state.flush ≠ .idle := by
      rw [hflush]
      exact nofun
    refine (hcoherent.puts call hcall).of_flushing hbusy rfl ?_
    rintro (hold | hbuffered)
    · obtain ⟨other, hother, hget⟩ := hold
      simp only [level0Tables, hlevels] at hother
      refine ⟨other, ?_, hget⟩
      exact List.mem_append_left _ hother
    · simp only [Buffered, hflush] at hbuffered
      obtain ⟨old, hold, hget⟩ := hbuffered
      rw [himmutable, Option.some.injEq] at hold
      subst hold
      refine ⟨table, ?_, ?_⟩
      · simp only [level0Tables, htables]
        exact List.mem_append_right _ (List.mem_singleton_self table)
      · rw [hholds.get_eq hsorted, hlive, hget]
  next => cases hstep

theorem Coherent.truncate (hstep : state.step .truncate = some after) : after.Coherent [] [] := by
  obtain ⟨wal, hwal, -⟩ := hcoherent.wal
  cases hflush : state.flush with
  | idle => simp [step, hflush] at hstep
  | swapped => simp [step, hflush] at hstep
  | written =>
    simp only [step, hflush, Option.some.injEq] at hstep
    subst hstep
    refine ⟨⟨wal.truncate, ?_, wal.truncate_holds⟩, hcoherent.memTable, ?_⟩
    · simp only [truncateLog, hwal, Option.map_some]
    · intro call hcall
      have hbusy : state.flush ≠ .idle := by
        rw [hflush]
        exact nofun
      refine (hcoherent.puts call hcall).of_flushing hbusy rfl ?_
      rintro (htables | hbuffered)
      · exact htables
      · simp only [Buffered, hflush] at hbuffered

theorem Coherent.step (hsafe : durableSafe state label) (hstep : state.step label = some after) :
    ∃ entries' kept', after.Coherent entries' kept' := by
  cases label with
  | log key value => exact hcoherent.log hsafe hstep
  | fetch i => exact ⟨_, _, hcoherent.fetch hstep⟩
  | insert i now => exact ⟨_, _, hcoherent.insert hsafe hstep⟩
  | sync => exact ⟨_, _, hcoherent.sync hstep⟩
  | swap => exact ⟨_, _, hcoherent.swap hsafe hstep⟩
  | writeTable clock => exact ⟨_, _, hcoherent.writeTable hstep⟩
  | truncate => exact ⟨_, _, hcoherent.truncate hstep⟩

end DurableRun

namespace DurableRun

/-- The state after some steps, if all of them can be taken and pass the
check. -/
def steps (check : DurableRun → DurableStep → Bool) :
    DurableRun → List DurableStep → Option DurableRun
  | state, [] => some state
  | state, label :: labels =>
    if check state label then
      (state.step label).bind fun next => next.steps check labels
    else none

theorem reachable_of_steps {guard : DurableRun → DurableStep → Prop}
    (hcheck : ∀ state label, check state label = true → guard state label)
    (hfirst : Runs.Reachable (durabilitySystem path config) guard first)
    (hsteps : first.steps check labels = some last) :
    Runs.Reachable (durabilitySystem path config) guard last := by
  induction labels generalizing first with
  | nil =>
    rw [steps, Option.some.injEq] at hsteps
    rw [← hsteps]
    exact hfirst
  | cons label labels ih =>
    rw [steps] at hsteps
    split_ifs at hsteps with hguard
    rw [Option.bind_eq_some_iff] at hsteps
    obtain ⟨next, hstep, hrest⟩ := hsteps
    obtain ⟨start, hstart, hrun⟩ := hfirst
    exact ih ⟨start, hstart, .tail hrun (hcheck first label hguard) hstep⟩ hrest

def start : DurableRun := ⟨.initialized (str "data") smallConfig, 0, .idle, []⟩

theorem reachable_from_start {guard : DurableRun → DurableStep → Prop}
    (hcheck : ∀ state label, check state label = true → guard state label)
    (htaken : (start.steps check labels).isSome = true) :
    Runs.Reachable (durabilitySystem (str "data") smallConfig) guard
      ((start.steps check labels).getD start) := by
  obtain ⟨last, hlast⟩ := Option.isSome_iff_exists.mp htaken
  rw [hlast]
  exact reachable_of_steps hcheck ⟨start, rfl, .refl⟩ hlast

def putThenFlush : DurableRun :=
  (start.steps (fun state label => decide (durableSafe state label))
    [.log (str "a") (str "x"), .fetch 0, .insert 0 0, .sync, .swap,
      .writeTable fun _ => 0, .truncate]).getD start

def putDuringFlush : DurableRun :=
  (start.steps (fun _ _ => true)
    [.swap, .log (str "a") (str "x"), .sync, .fetch 0, .insert 0 0,
      .writeTable fun _ => 0, .truncate]).getD start

end DurableRun

end Govc
