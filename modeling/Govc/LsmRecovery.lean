import Govc.LsmStore
import Govc.WalRecovery

/-!
# Recovery from the log

A store that is opened puts every entry of the log into its new memory table
and then starts the log over.  A tombstone is put like any other entry, with
its empty value; and from then on only the memory table holds what was in the
log.  So a recovery is faithful, now and after a second crash, only if there
was nothing to recover.
-/

namespace Govc

open Go

namespace LSMStore

/-- The entries are put one by one; an error of a put is not looked at. -/
def replay (clock : ℕ → ℤ) : ℕ → MemTable → List WALEntry → MemTable
  | _, memTable, [] => memTable
  | i, memTable, entry :: entries =>
    match memTable.put (clock i) entry.key entry.value with
    | .ok written => replay clock (i + 1) written entries
    | .error _ => replay clock (i + 1) memTable entries

def recover (clock : ℕ → ℤ) : GoM LSMStore Unit := fun store =>
  match store.wal with
  | none => (.ok (), store)
  | some wal =>
    match store.memTable, wal.readAll with
    | none, _ :: _ => (.panic nilPointer, store)
    | none, [] => (.ok (), store.truncateLog)
    | some memTable, entries =>
      (.ok (), ({ store with
        memTable := some (replay clock 0 memTable entries) }).truncateLog)

/-- `New` and `Initialize` on a directory whose log file holds these bytes.
The levels start empty: no table file is opened again. -/
def initializeFrom (clock : ℕ → ℤ) (path : GoString) (config : LSMConfig)
    (file : Bytes) : Outcome Unit × LSMStore :=
  recover clock { initialized path config with
    wal := some (.newWriteAheadLog file) }

def memAnswer (store : LSMStore) (key : GoString) : Option Bytes := store.memTable.bind (·.get key)

/-- What a crash leaves of the log file: at least its durable part. -/
def afterCrash (store : LSMStore) (n : ℕ) : Bytes :=
  match store.wal with
  | none => []
  | some wal => wal.file.take (max n wal.durable)

end LSMStore

def loggedValue (entries : List WALEntry) (key : GoString) : Option Bytes :=
  entries.foldl
    (fun value entry =>
      if entry.key = key then
        if entry.deleted then none else some entry.value
      else value) none

def putValue (entries : List WALEntry) (key : GoString) (value : Option Bytes) : Option Bytes :=
  entries.foldl (fun value entry => if entry.key = key then some entry.value else value) value

theorem replay_get (clock : ℕ → ℤ) (i : ℕ)
    (hopen : memTable.sealed = false) (entries : List WALEntry)
    (key : GoString) :
    (LSMStore.replay clock i memTable entries).get key =
      putValue entries key (memTable.get key) := by
  induction entries generalizing i memTable with
  | nil => rfl
  | cons entry entries ih =>
    obtain ⟨written, hput, hstillOpen, hdata⟩ :=
      MemTable.store_of_open hopen ⟨entry.key, entry.value, clock i, false,
        entry.key.length + entry.value.length + 64⟩
    have hput : memTable.put (clock i) entry.key entry.value = .ok written := hput
    simp only [LSMStore.replay, hput]
    rw [ih (i + 1) hstillOpen, MemTable.get_of_insert hdata, putValue, putValue, List.foldl_cons]
    by_cases hkey : key = entry.key
    · rw [if_pos hkey, if_pos hkey.symm]
      rfl
    · rw [if_neg hkey, if_neg fun heq => hkey heq.symm]

namespace LSMStore

theorem initializeFrom_spec :
    (initializeFrom clock path config file).1 = .ok () ∧
      (∀ key, (initializeFrom clock path config file).2.memAnswer key =
        putValue (scan file) key none) ∧
      ∀ n, (initializeFrom clock path config file).2.afterCrash n = [] := by
  refine ⟨rfl, ?_, ?_⟩
  · intro key
    have hopen : (MemTable.new config.memTableSize).sealed = false := rfl
    have hreplay := replay_get clock 0 hopen (scan file) key
    exact hreplay
  · intro n
    exact List.take_nil

end LSMStore

theorem putValue_concat {last : WALEntry} :
    putValue (entries ++ [last]) last.key none = some last.value := by
  rw [putValue, List.foldl_append]
  simp

/-- The recovered memory table answers as the logged operations would, and so
does the one that is recovered after a crash of the recovered store. -/
structure RecoversFaithfully (clock clock' : ℕ → ℤ) (path : GoString)
    (config : LSMConfig) (entries : List WALEntry) : Prop where
  answers : ∀ key,
    (LSMStore.initializeFrom clock path config
      (records entries)).2.memAnswer key = loggedValue entries key
  again : ∀ n key,
    (LSMStore.initializeFrom clock' path config
      ((LSMStore.initializeFrom clock path config
        (records entries)).2.afterCrash n)).2.memAnswer key =
      loggedValue entries key

/-- A recovery is faithful exactly if the log was empty. -/
theorem recoversFaithfully_iff (clock clock' : ℕ → ℤ) (path : GoString)
    (config : LSMConfig) {entries : List WALEntry}
    (hentries : ∀ entry ∈ entries, entry.Recordable) :
    RecoversFaithfully clock clock' path config entries ↔ entries = [] := by
  obtain ⟨-, hanswer, hcrash⟩ := LSMStore.initializeFrom_spec
  rw [scan_records hentries] at hanswer
  have hsecond (key : GoString) :
      (LSMStore.initializeFrom clock' path config []).2.memAnswer key = none := by
    rfl
  constructor
  · rintro ⟨hfirst, hlost⟩
    rcases List.eq_nil_or_concat entries with hnil | ⟨front, last, hconcat⟩
    · exact hnil
    · -- The last entry decides: a tombstone is answered, a put is lost.
      rw [List.concat_eq_append] at hconcat
      subst hconcat
      have hkey := hfirst last.key
      have hgone := hlost 0 last.key
      rw [hanswer, putValue_concat] at hkey
      rw [hcrash, hsecond, ← hkey] at hgone
      cases hgone
  · rintro rfl
    refine ⟨hanswer, ?_⟩
    intro n key
    rw [hcrash, hsecond]
    rfl

theorem recoversFaithfully_putAndDelete_iff :
    (∀ entry ∈ putAndDelete, entry.Recordable) ∧
      (RecoversFaithfully (fun _ => 0) (fun _ => 1) (str "data") smallConfig
        putAndDelete ↔ putAndDelete = []) :=
  ⟨putAndDelete_recordable, recoversFaithfully_iff _ _ _ _ putAndDelete_recordable⟩

/-- A deleted key is answered after a recovery, and a key that was put is lost
in a crash after it. -/
theorem recovery_revives_and_loses :
    ((LSMStore.initializeFrom (fun _ => 0) (str "data") smallConfig
          (records putAndDelete)).2.memAnswer (str "a") = some [] ∧
        loggedValue putAndDelete (str "a") = none) ∧
      (LSMStore.initializeFrom (fun _ => 1) (str "data") smallConfig
          ((LSMStore.initializeFrom (fun _ => 0) (str "data") smallConfig
            (records (putAndDelete.take 1))).2.afterCrash 0)).2.memAnswer (str "a") = none ∧
        loggedValue (putAndDelete.take 1) (str "a") = some (str "x") := by
  refine ⟨⟨?_, by decide⟩, ?_, by decide⟩
  · decide +kernel
  · decide +kernel

end Govc
