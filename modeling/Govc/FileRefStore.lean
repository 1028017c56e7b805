import Govc.RefStore
import Govc.GoPaths
import Govc.GuardedRuns

/-!
# References kept in files

A reference is a file of its own or a line of `packed-refs`.  `SetRef` and
`DeleteRef` know files only.  As long as no name is both and only names outside
`packed-refs` are set and deleted, the store is a map.
-/

namespace Govc

open Go Filepath Runs

inductive RefType where
  | branch
  | tag
  | remote
  deriving DecidableEq, Repr

structure Ref where
  name : GoString
  hash : GoString
  type : RefType
  deriving DecidableEq

/-- The regular files below the directory of the store, under their paths
relative to it. -/
structure FileRefStore where
  files : GoMap GoString Bytes
  cleanPaths : ∀ path ∈ files.keys, clean path = path

/-- What becomes of `os.WriteFile`: the file may be left with the first bytes
only. -/
inductive WriteReply where
  | done
  | refused (err : GoString)
  | cut (count : ℕ) (err : GoString)

namespace FileRefStore

def normalizeRefName (name : GoString) : GoString := RefStore.normalizeRefName name

def refPath (name : GoString) : GoString := clean (normalizeRefName name)

def readFile (store : FileRefStore) (path : GoString) : Option Bytes := store.files.lookup path

def writeFile (store : FileRefStore) (path : GoString) (data : Bytes) : FileRefStore where
  files := store.files.insert (clean path) data
  cleanPaths := by
    intro other hother
    rw [← AList.mem_keys, AList.mem_insert] at hother
    rcases hother with rfl | hother
    · exact clean_clean
    · exact store.cleanPaths other (AList.mem_keys.mp hother)

def removeFile (store : FileRefStore) (path : GoString) : FileRefStore where
  files := store.files.erase path
  cleanPaths := by
    intro other hother
    rw [← AList.mem_keys, AList.mem_erase] at hother
    exact store.cleanPaths other (AList.mem_keys.mp hother.2)

def readPackedLine (refs : GoMap GoString GoString) (text : GoString) : GoMap GoString GoString :=
  let line := trimSpace text
  if line = [] ∨ hasPrefix line (str "#") then refs
  else
    match fields line with
    | [hash, name] => refs.insert name hash
    | _ => refs

def readPackedRefs (store : FileRefStore) : Option (GoMap GoString GoString) :=
  (store.readFile (str "packed-refs")).map fun data =>
    (data.splitOn newline).foldl readPackedLine ∅

def getRef (store : FileRefStore) (name : GoString) : Except GoString GoString :=
  match store.readFile (refPath name) with
  | some data => .ok (trimSpace data)
  | none =>
    match store.readPackedRefs with
    | none => .error (str "ref not found: " ++ name)
    | some packedRefs =>
      match packedRefs.lookup (normalizeRefName name) with
      | none => .error (str "ref not found: " ++ name)
      | some hash => .ok hash

def setRef (store : FileRefStore) (mkdirAll : Except GoString Unit)
    (reply : WriteReply) (name hash : GoString) :
    FileRefStore × Option GoString :=
  match mkdirAll with
  | .error err => (store, some (str "failed to create ref directory: " ++ err))
  | .ok () =>
    match reply with
    | .done => (store.writeFile (refPath name) (hash ++ [newline]), none)
    | .refused err => (store, some err)
    | .cut count err =>
      (store.writeFile (refPath name) ((hash ++ [newline]).take count), some err)

def deleteRef (store : FileRefStore) (remove : Except GoString Unit)
    (name : GoString) : FileRefStore × Option GoString :=
  match remove with
  | .error err => (store, some err)
  | .ok () => (store.removeFile (refPath name), none)

def getRefType (name : GoString) : RefType :=
  if hasPrefix name (str "refs/heads/") then .branch
  else if hasPrefix name (str "refs/tags/") then .tag
  else if hasPrefix name (str "refs/remotes/") then .remote
  else .branch

/-- The files `filepath.Walk` comes to: those below `refs`, or `refs` itself
when that is a file. -/
def walk (order : RangeOrder) (store : FileRefStore) : List GoString :=
  (order.visit store.files.keys).filter fun path =>
    path = str "refs" || hasPrefix path (str "refs/")

def looseRef (store : FileRefStore) (start relPath : GoString) : Option Ref :=
  if start ≠ [] ∧ hasPrefix relPath start = false then none
  else
    match store.getRef relPath with
    | .error _ => none
    | .ok hash => some ⟨relPath, hash, getRefType relPath⟩

def listLooseRefs (store : FileRefStore) (order : RangeOrder) (start : GoString) : List Ref :=
  (store.walk order).filterMap (store.looseRef start)

def packedRef (start : GoString) (entry : GoString × GoString) : Option Ref :=
  if start = [] ∨ hasPrefix entry.1 start then
    some ⟨entry.1, entry.2, getRefType entry.1⟩
  else none

def listPackedRefs (store : FileRefStore) (order : RangeOrder) (start : GoString) : List Ref :=
  match store.readPackedRefs with
  | some packedRefs => (packedRefs.range order).filterMap (packedRef start)
  | none => []

def listRefs (store : FileRefStore) (walkOrder order : RangeOrder) (start : GoString) : List Ref :=
  store.listLooseRefs walkOrder start ++ store.listPackedRefs order start

/-! ## Calls -/

inductive Call where
  | setRef (name hash : GoString) (mkdirAll : Except GoString Unit)
      (reply : WriteReply)
  | deleteRef (name : GoString) (remove : Except GoString Unit)

def step (store : FileRefStore) : Call → FileRefStore
  | .setRef name hash mkdirAll reply =>
    (store.setRef mkdirAll reply name hash).1
  | .deleteRef name remove => (store.deleteRef remove name).1

/-- The map that the store should be: a call without an error sets or removes
one full name. -/
def remember (values : GoString → Option GoString) : Call → GoString → Option GoString
  | .setRef name hash (.ok ()) .done =>
    Function.update values (normalizeRefName name) (some hash)
  | .deleteRef name (.ok ()) =>
    Function.update values (normalizeRefName name) none
  | _ => values

/-- A full name below `refs/` that is its own path. -/
structure IsPlain (name : GoString) : Prop where
  below : hasPrefix name (str "refs/") = true
  clean : clean name = name

def packed (store : FileRefStore) (name : GoString) : Option GoString :=
  store.readPackedRefs.bind fun packedRefs => packedRefs.lookup name

def value (store : FileRefStore) (name : GoString) : Option GoString :=
  match store.readFile name with
  | some data => some (trimSpace data)
  | none => store.packed name

structure Separate (store : FileRefStore) : Prop where
  noFile : store.readFile (str "refs") = none
  plain : ∀ name hash, store.packed name = some hash → IsPlain name
  apart : ∀ name hash, store.packed name = some hash → store.readFile name = none

/-- The call is about a name below `refs/` that has no line in `packed-refs`;
a hash is written whole and without white space around it. -/
def Apart (store : FileRefStore) : Call → Prop
  | .setRef name hash _ reply =>
    IsPlain (normalizeRefName name) ∧ store.packed (normalizeRefName name) = none ∧
      trimSpace hash = hash ∧ ∀ count err, reply ≠ .cut count err
  | .deleteRef name _ =>
    IsPlain (normalizeRefName name) ∧ store.packed (normalizeRefName name) = none

/-! ## Names -/

variable {name : GoString}

theorem IsPlain.normalizeRefName (hplain : IsPlain name) :
    FileRefStore.normalizeRefName name = name :=
  if_pos hplain.below

theorem IsPlain.refPath (hplain : IsPlain (FileRefStore.normalizeRefName name)) :
    FileRefStore.refPath name = FileRefStore.normalizeRefName name :=
  hplain.clean

theorem IsPlain.ne_packedRefs (hplain : IsPlain name) : name ≠ str "packed-refs" := by
  rintro rfl
  exact absurd hplain.below (by decide)

theorem IsPlain.ne_refs (hplain : IsPlain name) : name ≠ str "refs" := by
  rintro rfl
  exact absurd hplain.below (by decide)

theorem getRef_eq (store : FileRefStore) (hplain : IsPlain (normalizeRefName name)) :
    store.getRef name =
      match store.value (normalizeRefName name) with
      | some hash => .ok hash
      | none => .error (str "ref not found: " ++ name) := by
  unfold getRef value packed
  rw [hplain.refPath]
  cases store.readFile (normalizeRefName name) with
  | some data => rfl
  | none =>
    cases store.readPackedRefs with
    | none => rfl
    | some packedRefs =>
      simp only [Option.bind_some]
      cases packedRefs.lookup (normalizeRefName name) <;> rfl

theorem getRef_eq_ok_iff {store : FileRefStore} {hash : GoString}
    (hplain : IsPlain name) :
    store.getRef name = .ok hash ↔ store.value name = some hash := by
  have hname := hplain.normalizeRefName
  rw [getRef_eq store (by rwa [hname]), hname]
  cases store.value name <;> simp

/-! ## One call -/

variable {path : GoString}

theorem readFile_writeFile {store : FileRefStore}
    (hpath : clean path = path) :
    (store.writeFile path data).readFile other =
      if other = path then some data else store.readFile other := by
  have hinsert := GoMap.lookup_insert_eq store.files (clean path) other data
  exact hinsert.trans (by rw [hpath]; rfl)

theorem readFile_removeFile {store : FileRefStore} :
    (store.removeFile path).readFile other = if other = path then none else store.readFile other :=
  GoMap.lookup_erase_eq

theorem packed_writeFile {store : FileRefStore} (hplain : IsPlain path) :
    (store.writeFile path data).packed = store.packed := by
  unfold packed readPackedRefs
  rw [readFile_writeFile hplain.clean, if_neg hplain.ne_packedRefs.symm]

theorem packed_removeFile {store : FileRefStore} (hplain : IsPlain path) :
    (store.removeFile path).packed = store.packed := by
  unfold packed readPackedRefs
  rw [readFile_removeFile, if_neg hplain.ne_packedRefs.symm]

variable {store : FileRefStore}

theorem Separate.writeFile (hstore : Separate store) (hplain : IsPlain path)
    (hpacked : store.packed path = none) (data : Bytes) :
    Separate (store.writeFile path data) where
  noFile := by
    rw [readFile_writeFile hplain.clean, if_neg hplain.ne_refs.symm]
    exact hstore.noFile
  plain := by
    rw [packed_writeFile hplain]
    exact hstore.plain
  apart := by
    rw [packed_writeFile hplain]
    intro name hash hname
    have hne : name ≠ path := by
      rintro rfl
      simp [hpacked] at hname
    rw [readFile_writeFile hplain.clean, if_neg hne]
    exact hstore.apart name hash hname

theorem Separate.removeFile (hstore : Separate store) (hplain : IsPlain path) :
    Separate (store.removeFile path) where
  noFile := by
    rw [readFile_removeFile, if_neg hplain.ne_refs.symm]
    exact hstore.noFile
  plain := by
    rw [packed_removeFile hplain]
    exact hstore.plain
  apart := by
    rw [packed_removeFile hplain]
    intro name hash hname
    rw [readFile_removeFile, hstore.apart name hash hname, ite_self]

variable {call : Call}

/-- What a call does to the files: nothing, or one plain name outside
`packed-refs` is written whole or removed. -/
theorem step_cases (hcall : Apart store call) (values : GoString → Option GoString) :
    (step store call = store ∧ remember values call = values) ∨
    ∃ path, IsPlain path ∧ store.packed path = none ∧
      ((∃ hash, trimSpace hash = hash ∧ step store call = store.writeFile path (hash ++ [newline]) ∧
          remember values call = Function.update values path (some hash)) ∨
        (step store call = store.removeFile path ∧
          remember values call = Function.update values path none)) := by
  cases call with
  | setRef name hash mkdirAll reply =>
    obtain ⟨hplain, hpacked, htrimmed, hwhole⟩ := hcall
    cases mkdirAll with
    | error err => exact .inl ⟨rfl, rfl⟩
    | ok =>
      cases reply with
      | done =>
        refine .inr ⟨normalizeRefName name, hplain, hpacked, .inl ⟨hash, htrimmed, ?_, rfl⟩⟩
        simp [step, setRef, hplain.refPath]
      | refused err => exact .inl ⟨rfl, rfl⟩
      | cut count err => exact absurd rfl (hwhole count err)
  | deleteRef name remove =>
    obtain ⟨hplain, hpacked⟩ := hcall
    cases remove with
    | error err => exact .inl ⟨rfl, rfl⟩
    | ok =>
      refine .inr ⟨normalizeRefName name, hplain, hpacked, .inr ⟨?_, rfl⟩⟩
      simp [step, deleteRef, hplain.refPath]

theorem Separate.step (hstore : Separate store) (hcall : Apart store call) :
    Separate (FileRefStore.step store call) := by
  rcases step_cases hcall store.value with
    ⟨hsame, -⟩ | ⟨path, hplain, hpacked, ⟨hash, -, hset, -⟩ | ⟨hgone, -⟩⟩
  · rwa [hsame]
  · rw [hset]
    exact hstore.writeFile hplain hpacked _
  · rw [hgone]
    exact hstore.removeFile hplain

theorem value_step (hcall : Apart store call) :
    (step store call).value = remember store.value call := by
  rcases step_cases hcall store.value with
    ⟨hsame, hvalues⟩ | ⟨path, hplain, hpacked, ⟨hash, htrimmed, hset, hvalues⟩ | ⟨hgone, hvalues⟩⟩
  · rw [hsame, hvalues]
  · rw [hset, hvalues]
    funext name
    unfold value
    rw [packed_writeFile hplain, readFile_writeFile hplain.clean]
    by_cases hname : name = path
    · subst hname
      simp [trimSpace_append_ascii (b := newline) (by decide), htrimmed]
    · simp [hname]
  · rw [hgone, hvalues]
    funext name
    unfold value
    rw [packed_removeFile hplain, readFile_removeFile]
    by_cases hname : name = path
    · subst hname
      simp [hpacked]
    · simp [hname]

/-! ## Listing -/

theorem ne_nil_of_not_hasPrefix (hstart : ¬ hasPrefix name start = true) : start ≠ [] := by
  rintro rfl
  simp [hasPrefix_iff] at hstart

theorem looseRef_eq_some_iff {store : FileRefStore} :
    store.looseRef start relPath = some ref ↔
      hasPrefix relPath start = true ∧ ∃ hash,
        store.getRef relPath = .ok hash ∧ ref = ⟨relPath, hash, getRefType relPath⟩ := by
  unfold looseRef
  by_cases hstart : hasPrefix relPath start = true
  · cases store.getRef relPath with
    | error err => simp [hstart]
    | ok hash => simp [hstart, eq_comm]
  · simp [hstart, ne_nil_of_not_hasPrefix hstart]

theorem packedRef_eq_some_iff {entry : GoString × GoString} :
    packedRef start entry = some ref ↔
      hasPrefix entry.1 start = true ∧ ref = ⟨entry.1, entry.2, getRefType entry.1⟩ := by
  unfold packedRef
  by_cases hstart : hasPrefix entry.1 start = true
  · simp [hstart, eq_comm]
  · simp [hstart, ne_nil_of_not_hasPrefix hstart]

theorem mem_walk (hstore : Separate store) :
    path ∈ store.walk order ↔ IsPlain path ∧ (store.readFile path).isSome = true := by
  unfold walk readFile
  rw [List.mem_filter, (order.perm _).mem_iff, AList.lookup_isSome,
    AList.mem_keys, Bool.or_eq_true, decide_eq_true_iff]
  constructor
  · rintro ⟨hkey, rfl | hbelow⟩
    · have hfile := hstore.noFile
      rw [readFile, AList.lookup_eq_none, AList.mem_keys] at hfile
      exact absurd hkey hfile
    · exact ⟨⟨hbelow, store.cleanPaths path hkey⟩, hkey⟩
  · rintro ⟨hplain, hkey⟩
    exact ⟨hkey, .inr hplain.below⟩

theorem mem_listLooseRefs (hstore : Separate store) {ref : Ref} :
    ref ∈ store.listLooseRefs order start ↔
      IsPlain ref.name ∧ (store.readFile ref.name).isSome = true ∧ hasPrefix ref.name start = true ∧
        store.getRef ref.name = .ok ref.hash ∧
        ref.type = getRefType ref.name := by
  unfold listLooseRefs
  simp only [List.mem_filterMap, mem_walk hstore, looseRef_eq_some_iff]
  constructor
  · rintro ⟨path, ⟨hplain, hfile⟩, hstart, hash, hget, rfl⟩
    exact ⟨hplain, hfile, hstart, hget, rfl⟩
  · rintro ⟨hplain, hfile, hstart, hget, htype⟩
    refine ⟨ref.name, ⟨hplain, hfile⟩, hstart, ref.hash, hget, ?_⟩
    rw [← htype]

theorem mem_listPackedRefs {store : FileRefStore}
    {ref : Ref} :
    ref ∈ store.listPackedRefs order start ↔
      store.packed ref.name = some ref.hash ∧ hasPrefix ref.name start = true ∧
        ref.type = getRefType ref.name := by
  unfold listPackedRefs packed
  cases store.readPackedRefs with
  | none => simp
  | some packedRefs =>
    simp only [List.mem_filterMap, packedRef_eq_some_iff, Prod.exists,
      GoMap.mem_range, Option.bind_some]
    constructor
    · rintro ⟨name, hash, hname, hstart, rfl⟩
      exact ⟨hname, hstart, rfl⟩
    · rintro ⟨hname, hstart, htype⟩
      refine ⟨ref.name, ref.hash, hname, hstart, ?_⟩
      rw [← htype]

theorem mem_listRefs (hstore : Separate store)
    {walkOrder order : RangeOrder} {start : GoString} {ref : Ref} :
    ref ∈ store.listRefs walkOrder order start ↔
      IsPlain ref.name ∧ hasPrefix ref.name start = true ∧ store.getRef ref.name = .ok ref.hash ∧
        ref.type = getRefType ref.name := by
  unfold listRefs
  rw [List.mem_append, mem_listLooseRefs hstore, mem_listPackedRefs]
  constructor
  · rintro (⟨hplain, -, hrest⟩ | ⟨hpacked, hstart, htype⟩)
    · exact ⟨hplain, hrest⟩
    · have hplain := hstore.plain _ _ hpacked
      refine ⟨hplain, hstart, ?_, htype⟩
      rw [getRef_eq_ok_iff hplain]
      simp [value, hstore.apart _ _ hpacked, hpacked]
  · rintro ⟨hplain, hstart, hget, htype⟩
    have hvalue := (getRef_eq_ok_iff hplain).mp hget
    unfold value at hvalue
    cases hfile : store.readFile ref.name with
    | some data => exact .inl ⟨hplain, rfl, hstart, hget, htype⟩
    | none =>
      rw [hfile] at hvalue
      exact .inr ⟨hvalue, hstart, htype⟩

theorem names_filterMap_sublist {α : Type} {key : α → GoString}
    {f : α → Option Ref} (hname : ∀ a ref, f a = some ref → ref.name = key a)
    {entries : List α} :
    ((entries.filterMap f).map Ref.name).Sublist (entries.map key) := by
  induction entries with
  | nil => simp
  | cons entry rest ih =>
    cases hentry : f entry with
    | none =>
      rw [List.filterMap_cons_none hentry]
      exact ih.cons _
    | some ref =>
      rw [List.filterMap_cons_some hentry, List.map_cons, hname entry ref hentry]
      exact ih.cons_cons _

theorem nodup_listLooseRefs {store : FileRefStore} {order : RangeOrder} {start : GoString} :
    ((store.listLooseRefs order start).map Ref.name).Nodup := by
  have hwalk : (store.walk order).Nodup :=
    ((order.perm _).nodup_iff.mpr store.files.nodupKeys).filter _
  have hsublist : ((store.listLooseRefs order start).map Ref.name).Sublist
      ((store.walk order).map id) := by
    apply names_filterMap_sublist
    intro path ref href
    obtain ⟨-, hash, -, rfl⟩ := looseRef_eq_some_iff.mp href
    rfl
  rw [List.map_id] at hsublist
  exact hwalk.sublist hsublist

theorem nodup_listPackedRefs {store : FileRefStore} {order : RangeOrder} {start : GoString} :
    ((store.listPackedRefs order start).map Ref.name).Nodup := by
  unfold listPackedRefs
  cases store.readPackedRefs with
  | none => simp
  | some packedRefs =>
    refine List.Nodup.sublist ?_ (GoMap.range_keys_nodup order packedRefs)
    apply names_filterMap_sublist
    intro entry ref href
    obtain ⟨-, rfl⟩ := packedRef_eq_some_iff.mp href
    rfl

theorem nodup_listRefs (hstore : Separate store) :
    ((store.listRefs walkOrder order start).map Ref.name).Nodup := by
  unfold listRefs
  rw [List.map_append]
  refine nodup_listLooseRefs.append (nodup_listPackedRefs) ?_
  intro name hloose hpacked
  obtain ⟨ref, href, rfl⟩ := List.mem_map.mp hloose
  obtain ⟨other, hother, hsame⟩ := List.mem_map.mp hpacked
  -- the file of a listed line does not exist
  have hfile := ((mem_listLooseRefs hstore).mp href).2.1
  have hline := (mem_listPackedRefs.mp hother).1
  rw [← hsame, hstore.apart _ _ hline] at hfile
  exact Bool.false_ne_true hfile

/-! ## Runs -/

/-- The listing has every existing reference once, with the value of
`GetRef`. -/
structure ListsExactly (store : FileRefStore) (start : GoString)
    (refs : List Ref) : Prop where
  once : (refs.map Ref.name).Nodup
  exact : ∀ name hash, (∃ ref ∈ refs, ref.name = name ∧ ref.hash = hash) ↔
    IsPlain name ∧ hasPrefix name start = true ∧ store.getRef name = .ok hash

theorem listsExactly_listRefs (hstore : Separate store)
    (walkOrder order : RangeOrder) (start : GoString) :
    ListsExactly store start (store.listRefs walkOrder order start) where
  once := nodup_listRefs hstore
  exact := by
    intro name hash
    constructor
    · rintro ⟨ref, href, rfl, rfl⟩
      rw [mem_listRefs hstore] at href
      exact ⟨href.1, href.2.1, href.2.2.1⟩
    · rintro ⟨hplain, hstart, hget⟩
      refine ⟨⟨name, hash, getRefType name⟩, ?_, rfl, rfl⟩
      rw [mem_listRefs hstore]
      exact ⟨hplain, hstart, hget, rfl⟩

theorem value_run {calls : List Call} (hcalls : Admits step Apart store calls) :
    (calls.foldl step store).value = calls.foldl remember store.value := by
  induction calls generalizing store with
  | nil => rfl
  | cons call rest ih =>
    rw [List.foldl_cons, List.foldl_cons, ih hcalls.2, value_step hcalls.1]

/-- From a store without a name that is both a file and a line, calls on names
outside `packed-refs` make the store a map: `GetRef` finds the last value set
and nothing after a delete, and `ListRefs` lists what `GetRef` finds, once. -/
theorem file_refs_are_a_map {store : FileRefStore} (hstore : Separate store)
    {calls : List Call} (hcalls : Admits step Apart store calls) :
    (∀ name, IsPlain (normalizeRefName name) →
      (calls.foldl step store).getRef name =
        match calls.foldl remember store.value (normalizeRefName name) with
        | some hash => .ok hash
        | none => .error (str "ref not found: " ++ name)) ∧
    ∀ walkOrder order start, ListsExactly (calls.foldl step store) start
      ((calls.foldl step store).listRefs walkOrder order start) := by
  have hlast : Separate (calls.foldl step store) :=
    hcalls.invariant (fun _ _ hkept hcall => hkept.step hcall) hstore
  constructor
  · intro name hplain
    rw [getRef_eq _ hplain, value_run hcalls]
  · exact listsExactly_listRefs hlast

def packedMain : FileRefStore where
  files := AList.singleton (str "packed-refs") (str "1a refs/heads/main\n")
  cleanPaths := by decide +kernel

theorem packed_packedMain :
    packedMain.packed name = if name = str "refs/heads/main" then some (str "1a") else none := by
  have hread : packedMain.readPackedRefs =
      some ((∅ : GoMap GoString GoString).insert (str "refs/heads/main") (str "1a")) := by
    unfold readPackedRefs
    rw [show packedMain.readFile (str "packed-refs") =
      some (str "1a refs/heads/main\n") by decide +kernel, Option.map_some]
    exact congrArg some (AList.ext (by decide +kernel))
  rw [packed, hread, Option.bind_some, GoMap.lookup_insert_eq, AList.lookup_empty]

theorem separate_packedMain : Separate packedMain where
  noFile := by decide +kernel
  plain := by
    intro name hash hname
    rw [packed_packedMain] at hname
    split_ifs at hname with hmain
    subst hmain
    exact ⟨by decide +kernel, by decide +kernel⟩
  apart := by
    intro name hash hname
    rw [packed_packedMain] at hname
    split_ifs at hname with hmain
    subst hmain
    decide +kernel

def setDev : Call := .setRef (str "dev") (str "2b") (.ok ()) .done

def deleteDev : Call := .deleteRef (str "dev") (.ok ())

theorem isPlain_dev : IsPlain (normalizeRefName (str "dev")) :=
  ⟨by decide +kernel, by decide +kernel⟩

theorem apart_dev : Admits step Apart packedMain [setDev, deleteDev] := by
  refine ⟨⟨isPlain_dev, by decide +kernel, by decide +kernel, ?_⟩,
    ⟨isPlain_dev, by decide +kernel⟩, trivial⟩
  intro count err
  simp

theorem file_refs_are_a_map_beside_packed :
    (packedMain.step setDev).getRef (str "dev") = .ok (str "2b") ∧
    ([setDev, deleteDev].foldl step packedMain).getRef (str "dev") =
      .error (str "ref not found: dev") ∧
    ListsExactly ([setDev, deleteDev].foldl step packedMain) []
      (([setDev, deleteDev].foldl step packedMain).listRefs
        RangeOrder.inserted RangeOrder.inserted []) := by
  have hset : Admits step Apart packedMain [setDev] := ⟨apart_dev.1, trivial⟩
  refine ⟨?_, ?_, ?_⟩
  · exact (file_refs_are_a_map separate_packedMain hset).1 _ isPlain_dev
  · exact (file_refs_are_a_map separate_packedMain apart_dev).1 _ isPlain_dev
  · exact (file_refs_are_a_map separate_packedMain apart_dev).2 _ _ _

def setMain : Call := .setRef (str "main") (str "2b") (.ok ()) .done

def deleteMain : Call := .deleteRef (str "main") (.ok ())

/-- The branch `main` has a line in `packed-refs`.  Set once, it is listed
twice, with two values; deleted, it has its old value again. -/
theorem deleted_ref_returns : (packedMain.step setMain).getRef (str "main") = .ok (str "2b") ∧
    (packedMain.step setMain).listRefs RangeOrder.inserted RangeOrder.inserted [] =
      [⟨str "refs/heads/main", str "2b", .branch⟩, ⟨str "refs/heads/main", str "1a", .branch⟩] ∧
    ((packedMain.step setMain).deleteRef (.ok ()) (str "main")).2 = none ∧
    ([setMain, deleteMain].foldl step packedMain).getRef (str "main") = .ok (str "1a") := by
  decide +kernel

end FileRefStore

end Govc
