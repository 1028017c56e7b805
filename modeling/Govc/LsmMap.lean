import Govc.GuardedRuns
import Govc.LsmStore

/-!
# The LSM store as a map

A client puts, deletes and flushes; the map it expects has under every key the
last value put and not deleted since.  The store departs from it in two ways.
A tombstone in the memory table does not hide an older value in a table, and
of two tables of level 0 the older one answers.  Runs that avoid both keep the
store equal to the map.
-/

namespace Govc

open Go

inductive LsmCall where
  | put (now : ℤ) (hash : GoString) (data : Bytes)
  | delete (now : ℤ) (hash : GoString)
  | flush (clock : ℕ → ℤ)

namespace LsmCall

def run : LsmCall → GoM LSMStore Unit
  | put now hash data => LSMStore.putObject now hash data
  | delete now hash => LSMStore.deleteObject now hash
  | flush clock => LSMStore.flushMemTable clock

def completes : LsmCall → Outcome Unit → Prop
  | put _ _ _, _ => True
  | delete _ _, _ => True
  | flush _, outcome => outcome = .ok ()

def apply (contents : GoString → Option Bytes) : LsmCall → GoString → Option Bytes
  | put _ hash data => fun key => if key = hash then some data else contents key
  | delete _ hash => fun key => if key = hash then none else contents key
  | flush _ => contents

end LsmCall

def expected : List LsmCall → GoString → Option Bytes
  | [] => fun _ => none
  | call :: past => call.apply (expected past)

structure LsmRun where
  store : LSMStore
  past : List LsmCall

def lsmSystem (path : GoString) (config : LSMConfig) : Runs.System LsmRun LsmCall where
  init state := state = ⟨.initialized path config, []⟩
  step state call state' :=
    call.completes (call.run state.store).1 ∧
      state' = ⟨(call.run state.store).2, call :: state.past⟩

def answerOf : Option Bytes → Outcome Bytes
  | some value => .ok value
  | none => .error errNotFound

/-- `GetObject` answers as the map does; it takes no empty key. -/
def LsmRun.AnswersAsMap (state : LsmRun) : Prop :=
  ∀ key, key ≠ [] → state.store.getObject key = answerOf (expected state.past key)

/-- A key is deleted only while the levels hold no live value for it, and a
memory table is flushed only if every table of level 0 that will answer for
one of its live keys already gives the same value. -/
def mapSafe (state : LsmRun) : LsmCall → Prop
  | .put _ _ _ => True
  | .delete _ hash =>
    LSMStore.getFromLevels state.store.levels hash = .error errNotFound
  | .flush _ =>
    ∀ level0 key value table, state.store.levels.head? = some (some level0) →
      state.store.memGet key = some value →
      level0.sstables.find? (Level.admits key) = some table →
      table.get key = .ok (some value)

/-! ## The levels of a run -/

def SSTable.Readable (table : SSTable) : Prop :=
  ∃ entries, table.Holds entries ∧ Ascending Entry.key entries

def Level.Unused (level : Option Level) : Prop := ∃ l, level = some l ∧ l.sstables = []

theorem getFromLevels_unused {levels : List (Option Level)}
    (hunused : ∀ level ∈ levels, Level.Unused level) {key : GoString} :
    LSMStore.getFromLevels levels key = .error errNotFound := by
  induction levels with
  | nil => rfl
  | cons level levels ih =>
    obtain ⟨l, rfl, htables⟩ := hunused level (by simp)
    have hget : l.get key = .ok none := by
      rw [Level.get, htables]
      rfl
    simp only [LSMStore.getFromLevels, hget]
    exact ih fun other hother => hunused other (by simp [hother])

theorem getFromLevels_level0 (hreadable : ∀ table ∈ level0.sstables, table.Readable)
    (hunused : ∀ level ∈ levels, Level.Unused level) :
    ∃ value, level0.get key = .ok value ∧
      LSMStore.getFromLevels (some level0 :: levels) key = answerOf value := by
  have hget : ∃ value, level0.get key = .ok value := by
    rw [Level.get]
    cases hfind : level0.sstables.find? (Level.admits key) with
    | none => exact ⟨none, rfl⟩
    | some table =>
      obtain ⟨entries, hholds, hsorted⟩ := hreadable table (List.mem_of_find?_eq_some hfind)
      exact ⟨_, hholds.get_eq hsorted key⟩
  obtain ⟨value, hvalue⟩ := hget
  refine ⟨value, hvalue, ?_⟩
  simp only [LSMStore.getFromLevels, hvalue]
  cases value with
  | none => exact getFromLevels_unused hunused
  | some data => rfl

/-- The part of the invariant that does not speak of answers. -/
structure LSMStore.InOrder (store : LSMStore) : Prop where
  memTable : ∃ memTable, store.memTable = some memTable ∧ memTable.sealed = false
  immutable : store.immutable = none
  level0 : ∀ level0 levels, store.levels = level0 :: levels →
    ∃ l, level0 = some l ∧ ∀ table ∈ l.sstables, table.Readable
  unused : ∀ level ∈ store.levels.tail, Level.Unused level

theorem LSMStore.initialized_unused (path : GoString) (config : LSMConfig) :
    ∀ level ∈ (initialized path config).levels, Level.Unused level := by
  intro level hlevel
  obtain ⟨number, -, rfl⟩ := List.mem_map.mp hlevel
  exact ⟨_, rfl, rfl⟩

theorem LSMStore.initialized_inOrder (path : GoString) (config : LSMConfig) :
    (initialized path config).InOrder := by
  have hlevel := initialized_unused path config
  constructor
  · exact ⟨_, rfl, rfl⟩
  · rfl
  · intro level0 levels hlevels
    obtain ⟨l, rfl, htables⟩ := hlevel level0 (by rw [hlevels]; simp)
    refine ⟨l, rfl, ?_⟩
    intro table htable
    rw [htables] at htable
    cases htable
  · intro level hmem
    exact hlevel level (List.mem_of_mem_tail hmem)

namespace LSMStore

variable {store : LSMStore} {memTable : MemTable}

theorem memGet_eq (hmem : store.memTable = some memTable)
    (himmutable : store.immutable = none) (key : GoString) :
    store.memGet key = memTable.get key := by
  simp [memGet, hmem, himmutable]

theorem getObject_eq (hmem : store.memTable = some memTable)
    (himmutable : store.immutable = none) (hkey : key ≠ []) :
    store.getObject key =
      match memTable.get key with
      | some value => .ok value
      | none => getFromLevels store.levels key := by
  have hget := memGet_eq hmem himmutable key
  cases hvalue : memTable.get key <;> simp only [getObject, if_neg hkey, hget, hvalue]

variable (horder : store.InOrder)

include horder

theorem writeMemTable_spec (entry : Entry) :
    ∃ after, writeMemTable context (·.store entry) store = (.ok (), after) ∧
      after.InOrder ∧ after.levels = store.levels ∧
      ∀ key, key ≠ [] → after.getObject key =
        if key = entry.key then
          if entry.deleted then getFromLevels store.levels key
          else .ok entry.value
        else store.getObject key := by
  obtain ⟨memTable, hmem, hopen⟩ := horder.memTable
  obtain ⟨written, hstore, hstillOpen, hdata⟩ := MemTable.store_of_open hopen entry
  let after : LSMStore := { store with
    memTable := some written
    flushCh := store.flushCh || written.isFull }
  refine ⟨after, ?_, ?_, rfl, ?_⟩
  · simp only [writeMemTable, hmem, hstore]
    rfl
  · exact ⟨⟨written, rfl, hstillOpen⟩, horder.immutable, horder.level0, horder.unused⟩
  · intro key hkey
    have hwritten : after.memTable = some written := rfl
    rw [getObject_eq hwritten horder.immutable hkey,
      getObject_eq hmem horder.immutable hkey, MemTable.get_of_insert hdata]
    by_cases hsame : key = entry.key
    · rw [if_pos hsame, if_pos hsame]
      cases entry.deleted <;> rfl
    · rw [if_neg hsame, if_neg hsame]

theorem writeLog_inOrder {hash : GoString} {data : Bytes} (deleted : Bool) :
    (store.writeLog hash data deleted).InOrder :=
  ⟨horder.memTable, horder.immutable, horder.level0, horder.unused⟩

theorem putObject_spec {now : ℤ} {hash : GoString}
    (hhash : hash ≠ []) {data : Bytes} :
    ∃ after, putObject now hash data store = (.ok (), after) ∧ after.InOrder ∧
      ∀ key, key ≠ [] → after.getObject key =
        if key = hash then .ok data else store.getObject key := by
  obtain ⟨after, hwrite, hafter, -, hget⟩ :=
    writeMemTable_spec (writeLog_inOrder horder false)
      ⟨hash, data, now, false, hash.length + data.length + 64⟩
  refine ⟨after, ?_, hafter, hget⟩
  rw [putObject, if_neg hhash]
  exact hwrite

theorem deleteObject_spec {now : ℤ} {hash : GoString} (hhash : hash ≠ []) {value : Bytes}
    (hfound : store.getObject hash = .ok value) :
    ∃ after, deleteObject now hash store = (.ok (), after) ∧ after.InOrder ∧
      ∀ key, key ≠ [] → after.getObject key =
        if key = hash then getFromLevels store.levels key
        else store.getObject key := by
  obtain ⟨after, hwrite, hafter, -, hget⟩ :=
    writeMemTable_spec (writeLog_inOrder horder true)
      ⟨hash, [], now, true, hash.length + 64⟩
  refine ⟨after, ?_, hafter, hget⟩
  rw [deleteObject, if_neg hhash, hfound]
  exact hwrite

/-- After a flush a key is answered by the table that answered before, if one
admits it, and else by what was in the memory table. -/
theorem flushMemTable_spec {clock : ℕ → ℤ}
    {after : LSMStore} (hflush : flushMemTable clock store = (.ok (), after)) :
    after.InOrder ∧ ∃ level0, store.levels.head? = some (some level0) ∧
      ∀ key, key ≠ [] → after.getObject key =
        match level0.sstables.find? (Level.admits key) with
        | some _ => getFromLevels store.levels key
        | none => answerOf (store.memGet key) := by
  obtain ⟨memTable, hmem, hopen⟩ := horder.memTable
  cases hlevels : store.levels with
  | nil => simp [flushMemTable, hmem, swapMemTable, hlevels] at hflush
  | cons first levels =>
    obtain ⟨level0, rfl, hreadable⟩ := horder.level0 first levels hlevels
    have hunused : ∀ level ∈ levels, Level.Unused level := by
      intro level hlevel
      apply horder.unused
      rw [hlevels]
      exact hlevel
    obtain ⟨table, entries, htables, hholds, hsorted, hlive⟩ :=
      writeTable_spec clock level0 memTable
    simp only [flushMemTable, hmem, swapMemTable, hlevels, Prod.mk.injEq, true_and] at hflush
    have hnewReadable : ∀ other ∈ (writeTable clock level0 memTable).sstables, other.Readable := by
      intro other hother
      rw [htables, List.mem_append, List.mem_singleton] at hother
      rcases hother with hold | rfl
      · exact hreadable other hold
      · exact ⟨entries, hholds, hsorted⟩
    have horderAfter : after.InOrder := by
      rw [← hflush]
      refine ⟨⟨_, rfl, rfl⟩, rfl, ?_, hunused⟩
      intro other rest hcons
      obtain ⟨rfl, rfl⟩ := List.cons.inj hcons
      exact ⟨_, rfl, hnewReadable⟩
    refine ⟨horderAfter, level0, rfl, ?_⟩
    intro key hkey
    have hafterLevels : after.levels = some (writeTable clock level0 memTable) :: levels := by
      rw [← hflush]
      rfl
    have hafterGet : after.getObject key =
        getFromLevels (some (writeTable clock level0 memTable) :: levels) key := by
      have hempty : after.memTable = some (.new memTable.maxSize) := by
        rw [← hflush]
        rfl
      rw [getObject_eq hempty horderAfter.immutable hkey, MemTable.get_new, hafterLevels]
    obtain ⟨new, hnewGet, hnewAnswer⟩ := getFromLevels_level0 hnewReadable hunused
    obtain ⟨old, holdGet, holdAnswer⟩ := getFromLevels_level0 hreadable hunused
    rw [hafterGet, hnewAnswer, holdAnswer, memGet_eq hmem horder.immutable]
    rw [Level.get, htables, List.find?_append] at hnewGet
    rw [Level.get] at holdGet
    cases hfind : level0.sstables.find? (Level.admits key) with
    | some decider =>
      simp only [hfind, Option.some_or] at hnewGet holdGet
      rw [hnewGet, Outcome.ok.injEq] at holdGet
      rw [holdGet]
    | none =>
      simp only [hfind, Option.none_or] at hnewGet
      rw [← hlive key]
      cases hadmits : Level.admits key table with
      | true =>
        rw [List.find?_cons_of_pos hadmits] at hnewGet
        simp only [hholds.get_eq hsorted key, Outcome.ok.injEq] at hnewGet
        rw [hnewGet]
      | false =>
        rw [List.find?_cons_of_neg (by simp [hadmits])] at hnewGet
        simp only [List.find?_nil, Outcome.ok.injEq] at hnewGet
        rw [← hnewGet]
        cases hvalue : liveValue entries key with
        | none => rfl
        | some value =>
          rw [hholds.admits hvalue] at hadmits
          cases hadmits

end LSMStore

/-! ## Runs -/

namespace LsmRun

def call (state : LsmRun) (c : LsmCall) : LsmRun := ⟨(c.run state.store).2, c :: state.past⟩

variable {state : LsmRun}

theorem put_answers (horder : state.store.InOrder)
    (hanswers : state.AnswersAsMap) (now : ℤ) (hash : GoString) (data : Bytes) :
    (state.call (.put now hash data)).store.InOrder ∧
      (state.call (.put now hash data)).AnswersAsMap := by
  by_cases hhash : hash = []
  · subst hhash
    refine ⟨horder, ?_⟩
    intro key hkey
    change state.store.getObject key = answerOf (if key = [] then _ else _)
    rw [if_neg hkey]
    exact hanswers key hkey
  · obtain ⟨after, hput, hafter, hget⟩ := LSMStore.putObject_spec horder hhash
    have hstore : (state.call (.put now hash data)).store = after := congrArg Prod.snd hput
    rw [hstore]
    refine ⟨hafter, ?_⟩
    intro key hkey
    rw [hstore, hget key hkey]
    change _ = answerOf (if key = hash then _ else _)
    split
    · rfl
    · exact hanswers key hkey

theorem delete_answers (horder : state.store.InOrder)
    (hanswers : state.AnswersAsMap) (now : ℤ) {hash : GoString}
    (hsafe : mapSafe state (.delete now hash)) :
    (state.call (.delete now hash)).store.InOrder ∧
      (state.call (.delete now hash)).AnswersAsMap := by
  by_cases hhash : hash = []
  · subst hhash
    refine ⟨horder, ?_⟩
    intro key hkey
    change state.store.getObject key = answerOf (if key = [] then _ else _)
    rw [if_neg hkey]
    exact hanswers key hkey
  · have hfound := hanswers hash hhash
    cases hold : expected state.past hash with
    | none =>
      -- The call returns `ErrNotFound` and changes nothing.
      rw [hold] at hfound
      have hstore : (state.call (.delete now hash)).store = state.store := by
        simp only [call, LsmCall.run, LSMStore.deleteObject, if_neg hhash, hfound, answerOf]
      rw [hstore]
      refine ⟨horder, ?_⟩
      intro key hkey
      rw [hstore]
      change _ = answerOf (if key = hash then none else _)
      split_ifs with hsame
      · rw [hsame]
        exact hfound
      · exact hanswers key hkey
    | some value =>
      rw [hold] at hfound
      obtain ⟨after, hdelete, hafter, hget⟩ := LSMStore.deleteObject_spec horder hhash hfound
      have hstore : (state.call (.delete now hash)).store = after := congrArg Prod.snd hdelete
      rw [hstore]
      refine ⟨hafter, ?_⟩
      intro key hkey
      rw [hstore, hget key hkey]
      change _ = answerOf (if key = hash then none else _)
      split_ifs with hsame
      · rw [hsame]
        exact hsafe
      · exact hanswers key hkey

theorem flush_answers (horder : state.store.InOrder) (hanswers : state.AnswersAsMap) {clock : ℕ → ℤ}
    (hsafe : mapSafe state (.flush clock))
    (hcompletes : (LSMStore.flushMemTable clock state.store).1 = .ok ()) :
    (state.call (.flush clock)).store.InOrder ∧ (state.call (.flush clock)).AnswersAsMap := by
  have hflush : LSMStore.flushMemTable clock state.store =
      (.ok (), (state.call (.flush clock)).store) :=
    Prod.ext hcompletes rfl
  obtain ⟨hafter, level0, hhead, hget⟩ := LSMStore.flushMemTable_spec horder hflush
  obtain ⟨levels, hlevels⟩ : ∃ levels, state.store.levels = some level0 :: levels :=
    ⟨_, List.eq_cons_of_mem_head? hhead⟩
  refine ⟨hafter, ?_⟩
  intro key hkey
  change _ = answerOf (expected state.past key)
  rw [hget key hkey, ← hanswers key hkey, LSMStore.getObject, if_neg hkey]
  cases hfind : level0.sstables.find? (Level.admits key) with
  | none =>
    cases hvalue : state.store.memGet key with
    | some value => rfl
    | none =>
      have hunused : ∀ level ∈ levels, Level.Unused level := by
        intro level hlevel
        apply horder.unused
        rw [hlevels]
        exact hlevel
      have hnone : level0.get key = .ok none := by
        rw [Level.get, hfind]
      simp only [hlevels, LSMStore.getFromLevels, hnone]
      exact (getFromLevels_unused hunused).symm
  | some table =>
    cases hvalue : state.store.memGet key with
    | none => rfl
    | some value =>
      have hsame := hsafe level0 key value table hhead hvalue hfind
      have hlevel : level0.get key = .ok (some value) := by
        rw [Level.get, hfind]
        exact hsame
      simp only [hlevels, LSMStore.getFromLevels, hlevel]

end LsmRun

theorem LsmRun.reachable_call {guard : LsmRun → LsmCall → Prop}
    (hreach : Runs.Reachable (lsmSystem path config) guard state) (c : LsmCall)
    (hguard : guard state c) (hcompletes : c.completes (c.run state.store).1) :
    Runs.Reachable (lsmSystem path config) guard (state.call c) := by
  obtain ⟨first, hfirst, hrun⟩ := hreach
  exact ⟨first, hfirst, .tail hrun hguard ⟨hcompletes, rfl⟩⟩

namespace LsmRun

def start : LsmRun := ⟨.initialized (str "data") smallConfig, []⟩

theorem start_reachable (guard : LsmRun → LsmCall → Prop) :
    Runs.Reachable (lsmSystem (str "data") smallConfig) guard start :=
  ⟨start, rfl, .refl⟩

def flushed : LsmRun := (start.call (.put 0 (str "a") (str "x"))).call (.flush fun _ => 0)

theorem flushed_reachable {guard : LsmRun → LsmCall → Prop}
    (hguard : ∀ state call, mapSafe state call → guard state call) :
    Runs.Reachable (lsmSystem (str "data") smallConfig) guard flushed := by
  have hput := reachable_call (start_reachable guard)
    (.put 0 (str "a") (str "x")) (hguard _ _ trivial) trivial
  apply reachable_call hput (.flush fun _ => 0) _ rfl
  apply hguard
  intro level0 key value table hhead _ hfind
  cases hhead
  cases hfind

end LsmRun

end Govc
