import Govc.GoFiles
import Govc.GoPaths
import Govc.ObjectModel

/-!
# Files written under a directory

Three components write files under a directory that they are given: the restore
of a backup, the copy of virtual files to a temporary directory, and the
worktree on disk.  Each of them joins the directory and a name that it was
given, makes the directory of the result and writes the file.  None of them
looks at the name before.
-/

namespace Govc

open Go Filepath Machine

/-! ## Restoring a backup -/

structure TarEntry where
  name : GoString
  mode : ℤ
  content : Bytes

/-- What `tarReader.Next` gives, until the end of the archive. -/
abbrev TarStream := List (Except GoString TarEntry)

inductive BackupFile where
  | unreadable (e : GoString)
  | badGzip (e : GoString)
  | archive (stream : TarStream)

structure BackupMetadata where
  version : GoString

structure RestoreOptions where
  target : GoString
  overwrite : Bool
  dryRun : Bool
  verification : Bool

namespace BackupManager

def readMetadata (unmarshal : Bytes → Except GoString BackupMetadata) :
    TarStream → Except GoString (BackupMetadata × TarStream)
  | [] => .error (str "metadata.json not found in backup")
  | .error e :: _ => .error e
  | .ok header :: rest =>
    if header.name = str "metadata.json" then
      (unmarshal header.content).map fun metadata => (metadata, rest)
    else readMetadata unmarshal rest

def verifyMetadata (metadata : BackupMetadata) : Except GoString Unit :=
  if metadata.version ≠ str "1.0" then
    .error (str "unsupported backup version: " ++ metadata.version)
  else .ok ()

def because (what cause : GoString) : GoString := what ++ str ": " ++ cause

def initializeTarget (targetPath : GoString) (overwrite : Bool) : GoM Machine Unit := do
  if ← stat targetPath then
    if overwrite then
      GoM.mapError (because (str "failed to remove existing target"))
        (perform (.removeAll targetPath))
    else GoM.fail (str "target directory exists and overwrite is false")
  GoM.mapError (because (str "failed to create target directory")) (perform (.mkdirAll targetPath))

def restoreFile (target relPath : GoString) (header : TarEntry) : GoM Machine Unit := do
  let targetPath := join target relPath
  let dir := dirOf targetPath
  GoM.mapError (because (str "failed to create directory " ++ dir)) (perform (.mkdirAll dir))
  GoM.mapError (because (str "failed to create file " ++ targetPath)) (perform (.create targetPath))
  GoM.mapError (because (str "failed to write file " ++ targetPath))
    (perform (.copy targetPath header.content))
  GoM.mapError (because (str "failed to set file mode for " ++ targetPath))
    (perform (.chmod targetPath (UInt32.ofInt header.mode)))
  checkCancelled

def restoredName (opts : RestoreOptions) (header : TarEntry) : Option GoString :=
  if header.name = str "metadata.json" then none
  else if hasPrefix header.name (str "repository/") then
    if opts.dryRun then none
    else some (trimPrefix header.name (str "repository/"))
  else none

def restoreRepositoryData (opts : RestoreOptions) : TarStream → GoM Machine Unit
  | [] => pure ()
  | .error e :: _ => GoM.fail e
  | .ok header :: rest => do
    match restoredName opts header with
    | none => pure ()
    | some relPath => restoreFile opts.target relPath header
    restoreRepositoryData opts rest

/-- The entries of the file, which is unpacked first if it is compressed. -/
def openArchive (file : BackupFile) : Except GoString TarStream :=
  match file with
  | .unreadable e => .error (because (str "failed to open backup file") e)
  | .badGzip e => .error (because (str "failed to create gzip reader") e)
  | .archive stream => .ok stream

def restoreInto (opts : RestoreOptions) (rest : TarStream) : GoM Machine Unit := do
  if !opts.dryRun then
    GoM.mapError (because (str "failed to initialize target"))
      (initializeTarget opts.target opts.overwrite)
  GoM.mapError (because (str "failed to restore repository data")) (restoreRepositoryData opts rest)

def restore (unmarshal : Bytes → Except GoString BackupMetadata)
    (file : BackupFile) (opts : RestoreOptions) : GoM Machine Unit := do
  let stream ← GoM.ofExcept (openArchive file)
  let found ← GoM.mapError (because (str "failed to read metadata"))
    (GoM.ofExcept (readMetadata unmarshal stream))
  if opts.verification then
    GoM.mapError (because (str "metadata verification failed"))
      (GoM.ofExcept (verifyMetadata found.1))
  restoreInto opts found.2

end BackupManager

/-! ## Copying virtual files -/

structure VirtualFiles where
  list : Except GoString (List GoString)
  read : GoString → Except GoString Bytes

namespace MemoryFSBridge

open BackupManager (because)

def syncFile (vfs : VirtualFiles) (tempDir file : GoString) : GoM Machine Unit := do
  let content ← GoM.mapError (because (str "failed to read " ++ file))
    (GoM.ofExcept (vfs.read file))
  let fullPath := join tempDir file
  let dir := dirOf fullPath
  GoM.mapError (because (str "failed to create directory " ++ dir)) (perform (.mkdirAll dir))
  GoM.mapError (because (str "failed to write " ++ fullPath))
    (perform (.writeFile fullPath content))

def syncToTemp (vfs : VirtualFiles) (tempDir : GoString) : GoM Machine Unit := do
  let files ← GoM.mapError (because (str "failed to list files"))
    (GoM.ofExcept vfs.list)
  GoM.forEach files (syncFile vfs tempDir)

end MemoryFSBridge

/-! ## The worktree on disk

A worktree with the path `:memory:` keeps its files to itself and asks for
nothing. -/

namespace DiskWorktree

def inMemory (root : GoString) : Bool := root = str ":memory:"

def writeFile (root path : GoString) (content : Bytes) : GoM Machine Unit :=
  if inMemory root then pure ()
  else do
    let fullPath := join root path
    perform (.mkdirAll (dirOf fullPath))
    perform (.writeFile fullPath content)

def removeFile (root path : GoString) : GoM Machine Unit :=
  if inMemory root then pure () else perform (.remove (join root path))

def writeEntry (root : GoString) (getBlob : GoString → Except GoString Bytes)
    (entry : TreeEntry) : GoM Machine Unit := do
  let content ← GoM.ofExcept (getBlob entry.hash)
  writeFile root entry.name content

/-- `listed` are the files found in the worktree. -/
def updateWorktree (root : GoString) (listed : List GoString)
    (getBlob : GoString → Except GoString Bytes) (tree : Tree) :
    GoM Machine Unit := do
  GoM.forEach listed fun file =>
    if tree.entries.any (fun entry => entry.name = file) then pure ()
    else removeFile root file
  GoM.forEach tree.entries (writeEntry root getBlob)

end DiskWorktree

/-! ## The three components together -/

inductive FileWriter where
  | restore (unmarshal : Bytes → Except GoString BackupMetadata)
      (file : BackupFile) (opts : RestoreOptions)
  | syncToTemp (vfs : VirtualFiles) (tempDir : GoString)
  | writeFile (root name : GoString) (content : Bytes)
  | updateWorktree (root : GoString) (listed : List GoString)
      (getBlob : GoString → Except GoString Bytes) (tree : Tree)

namespace FileWriter

def run : FileWriter → GoM Machine Unit
  | .restore unmarshal file opts => BackupManager.restore unmarshal file opts
  | .syncToTemp vfs tempDir => MemoryFSBridge.syncToTemp vfs tempDir
  | .writeFile root name content => DiskWorktree.writeFile root name content
  | .updateWorktree root listed getBlob tree =>
    DiskWorktree.updateWorktree root listed getBlob tree

def root : FileWriter → GoString
  | .restore _ _ opts => opts.target
  | .syncToTemp _ tempDir => tempDir
  | .writeFile root _ _ => root
  | .updateWorktree root _ _ _ => root

def restoredNames (opts : RestoreOptions) : TarStream → List GoString
  | [] => []
  | .error _ :: _ => []
  | .ok header :: rest =>
    (BackupManager.restoredName opts header).toList ++ restoredNames opts rest

def backupNames (unmarshal : Bytes → Except GoString BackupMetadata)
    (file : BackupFile) (opts : RestoreOptions) : List GoString :=
  match (BackupManager.openArchive file).bind
    (BackupManager.readMetadata unmarshal) with
  | .error _ => []
  | .ok found =>
    if opts.verification ∧ found.1.version ≠ str "1.0" then []
    else restoredNames opts found.2

def readable {α : Type} (read : α → Except GoString Bytes) (items : List α) : List α :=
  items.takeWhile fun item => (read item).isOk

def syncedNames (vfs : VirtualFiles) : List GoString :=
  match vfs.list with
  | .error _ => []
  | .ok files => readable vfs.read files

/-- Of the names, those that a worktree on disk joins to its root. -/
def onDisk (root : GoString) (names : List GoString) : List GoString :=
  if DiskWorktree.inMemory root then [] else names

def entryNames (getBlob : GoString → Except GoString Bytes) (tree : Tree) : List GoString :=
  (readable (fun entry => getBlob entry.hash) tree.entries).map fun entry => entry.name

/-- The names that the component joins to its directory if no request is
refused. -/
def names : FileWriter → List GoString
  | .restore unmarshal file opts => backupNames unmarshal file opts
  | .syncToTemp vfs _ => syncedNames vfs
  | .writeFile root name _ => onDisk root [name]
  | .updateWorktree root _ getBlob tree =>
    onDisk root (entryNames getBlob tree)

theorem mem_onDisk {root name : GoString} {names : List GoString} :
    name ∈ onDisk root names ↔ DiskWorktree.inMemory root = false ∧ name ∈ names := by
  unfold onDisk
  cases DiskWorktree.inMemory root <;> simp

end FileWriter

/-- The request writes a file below the directory, or makes the directory or
one below it. -/
def Confined (root : GoString) : FileCall → Prop
  | .mkdirAll dir => Within root dir
  | .create path => Below root path
  | .copy path _ => Below root path
  | .writeFile path _ => Below root path
  | .chmod path _ => Below root path
  | .remove _ => True
  | .removeAll _ => True

open BackupManager (because restoreFile restoredName restoreRepositoryData restoreInto
  initializeTarget readMetadata verifyMetadata openArchive)
open DiskWorktree (inMemory writeEntry removeFile)
open MemoryFSBridge (syncFile syncToTemp)
open FileWriter (restoredNames backupNames readable syncedNames onDisk entryNames mem_onDisk)

variable {root : GoString}

theorem Confined.below {path : GoString} {call : FileCall}
    (h : Confined root call) (hwritten : call.written = some path) :
    Below root path := by
  cases call with
  | mkdirAll dir => cases hwritten
  | remove p => cases hwritten
  | removeAll p => cases hwritten
  | _ =>
    cases hwritten
    exact h

theorem within_self (root : GoString) : Within root root :=
  ⟨rfl, [], List.not_mem_nil, (List.append_nil _).symm⟩

/-! ## Names that lead below the directory -/

def KeepsTo {α : Type} (root : GoString) (m : GoM Machine α) : Prop :=
  GoM.Triple (Only (Confined root)) m (fun _ => Only (Confined root)) (Only (Confined root))

section

variable {root : GoString} {α : Type}

theorem keepsTo_perform (call : FileCall) (hcall : Confined root call) :
    KeepsTo root (perform call) :=
  perform_only hcall

theorem KeepsTo.mapError {m : GoM Machine α} (hm : KeepsTo root m)
    {f : GoString → GoString} : KeepsTo root (GoM.mapError f m) :=
  GoM.Triple.mapError hm

variable {γ : Type} {f : α → GoM Machine γ}

theorem KeepsTo.bind {m : GoM Machine α}
    (hm : KeepsTo root m) (hf : ∀ value, KeepsTo root (f value)) :
    KeepsTo root (m >>= f) :=
  GoM.Triple.bind hm hf

theorem keepsTo_pure (value : α) : KeepsTo root (pure value : GoM Machine α) :=
  GoM.Triple.pure fun _ honly => honly

theorem keepsTo_fail (text : GoString) : KeepsTo root (GoM.fail text : GoM Machine α) :=
  GoM.Triple.fail fun _ honly => honly

theorem keepsTo_ofExcept_bind (hf : ∀ value, result = .ok value → KeepsTo root (f value)) :
    KeepsTo root (GoM.ofExcept result >>= f) := by
  cases result with
  | error e => exact keepsTo_fail e
  | ok value => exact hf value rfl

theorem keepsTo_mapError_ofExcept_bind (hf : ∀ value, result = .ok value → KeepsTo root (f value)) :
    KeepsTo root (GoM.mapError g (GoM.ofExcept result) >>= f) := by
  cases result with
  | error e => exact keepsTo_fail (g e)
  | ok value => exact hf value rfl

theorem keepsTo_restoreFile (hname : Descends root relPath) :
    KeepsTo root (restoreFile root relPath header) := by
  have hbelow := below_join_iff.mpr hname
  apply (keepsTo_perform (.mkdirAll _) (within_dirOf_join hbelow)).mapError.bind
  intro _
  apply (keepsTo_perform (.create _) hbelow).mapError.bind
  intro _
  apply (keepsTo_perform (.copy _ _) hbelow).mapError.bind
  intro _
  apply (keepsTo_perform (.chmod _ _) hbelow).mapError.bind
  intro _
  exact checkCancelled_only

variable {opts : RestoreOptions}

theorem keepsTo_restoreRepositoryData
    (hnames : ∀ name ∈ restoredNames opts stream, Descends opts.target name) :
    KeepsTo opts.target (restoreRepositoryData opts stream) := by
  induction stream with
  | nil => exact keepsTo_pure ()
  | cons next rest ih =>
    cases next with
    | error e => exact keepsTo_fail e
    | ok header =>
      unfold restoredNames at hnames
      have hrest := ih fun name hmem =>
        hnames name (List.mem_append_right _ hmem)
      unfold restoreRepositoryData
      cases hname : restoredName opts header with
      | none => exact (keepsTo_pure ()).bind fun _ => hrest
      | some relPath =>
        have hdescends := hnames relPath (by rw [hname]; simp)
        exact (keepsTo_restoreFile hdescends).bind fun _ => hrest

theorem keepsTo_initializeTarget (overwrite : Bool) :
    KeepsTo root (initializeTarget root overwrite) := by
  have hmake : KeepsTo root
      (GoM.mapError (because (str "failed to create target directory"))
        (perform (.mkdirAll root))) :=
    (keepsTo_perform (.mkdirAll root) (within_self root)).mapError
  apply KeepsTo.bind (stat_only)
  intro found
  cases found with
  | false => exact (keepsTo_pure ()).bind fun _ => hmake
  | true =>
    cases overwrite with
    | true =>
      exact (keepsTo_perform (.removeAll root) trivial).mapError.bind fun _ => hmake
    | false => exact (keepsTo_fail _).bind fun _ => hmake

theorem keepsTo_restoreInto (hnames : ∀ name ∈ restoredNames opts rest, Descends opts.target name) :
    KeepsTo opts.target (restoreInto opts rest) := by
  have hdata := keepsTo_restoreRepositoryData hnames
  unfold restoreInto
  cases opts.dryRun with
  | true => exact (keepsTo_pure ()).bind fun _ => hdata.mapError
  | false =>
    exact (keepsTo_initializeTarget opts.overwrite).mapError.bind fun _ => hdata.mapError

theorem keepsTo_restore
    (hnames : ∀ name ∈ backupNames unmarshal file opts, Descends opts.target name) :
    KeepsTo opts.target (BackupManager.restore unmarshal file opts) := by
  unfold backupNames at hnames
  apply keepsTo_ofExcept_bind
  intro stream hopen
  apply keepsTo_mapError_ofExcept_bind
  intro found hread
  rw [hopen, Except.bind, hread] at hnames
  dsimp only at hnames
  cases hverify : opts.verification with
  | false =>
    rw [hverify, if_neg (by simp)] at hnames
    exact (keepsTo_pure ()).bind fun _ => keepsTo_restoreInto hnames
  | true =>
    apply keepsTo_mapError_ofExcept_bind
    intro _ hverified
    apply keepsTo_restoreInto
    have hversion : found.1.version = str "1.0" := by
      by_contra hother
      unfold verifyMetadata at hverified
      rw [if_pos hother] at hverified
      cases hverified
    rw [if_neg (by simp [hversion])] at hnames
    exact hnames

theorem keepsTo_forEach {read : α → Except GoString Bytes}
    {body : α → GoM Machine Unit} {good : α → Prop}
    (hbody : ∀ item, ((read item).isOk = true → good item) → KeepsTo root (body item))
    (hstop : ∀ item, (read item).isOk = false →
      ∀ machine, ∃ e, body item machine = (.error e, machine))
    (hgood : ∀ item ∈ readable read items, good item) :
    KeepsTo root (GoM.forEach items body) := by
  induction items with
  | nil => exact keepsTo_pure ()
  | cons item items ih =>
    unfold readable at hgood ih
    cases hread : (read item).isOk with
    | false =>
      intro machine honly
      obtain ⟨e, hrun⟩ := hstop item hread machine
      have hloop : GoM.forEach (item :: items) body machine = (.error e, machine) :=
        GoM.bind_of_error hrun
      rw [hloop]
      exact ⟨fun _ _ => honly, fun _ => honly⟩
    | true =>
      rw [List.takeWhile_cons, hread, if_pos rfl] at hgood
      apply KeepsTo.bind
      · apply hbody
        intro _
        exact hgood item List.mem_cons_self
      · intro _
        exact ih fun other hmem =>
          hgood other (List.mem_cons_of_mem item hmem)

theorem keepsTo_syncFile (hname : (vfs.read file).isOk = true → Descends root file) :
    KeepsTo root (syncFile vfs root file) := by
  apply keepsTo_mapError_ofExcept_bind
  intro content hread
  have hbelow := below_join_iff.mpr (hname (by rw [hread]; rfl))
  apply (keepsTo_perform (.mkdirAll _) (within_dirOf_join hbelow)).mapError.bind
  intro _
  exact (keepsTo_perform (.writeFile _ _) hbelow).mapError

theorem keepsTo_writeFile {content : Bytes} (hname : inMemory root = false → Descends root name) :
    KeepsTo root (DiskWorktree.writeFile root name content) := by
  unfold DiskWorktree.writeFile
  cases hmemory : inMemory root with
  | true => exact keepsTo_pure ()
  | false =>
    have hbelow := below_join_iff.mpr (hname hmemory)
    apply (keepsTo_perform (.mkdirAll _) (within_dirOf_join hbelow)).bind
    intro _
    exact keepsTo_perform (.writeFile _ _) hbelow

theorem keepsTo_writeEntry
    (hname : (getBlob entry.hash).isOk = true → inMemory root = false → Descends root entry.name) :
    KeepsTo root (writeEntry root getBlob entry) := by
  apply keepsTo_ofExcept_bind
  intro content hread
  exact keepsTo_writeFile (hname (by rw [hread]; rfl))

theorem keepsTo_removeFile {path : GoString} :
    KeepsTo root (removeFile root path) := by
  unfold removeFile
  split_ifs
  · exact keepsTo_pure ()
  · exact keepsTo_perform (.remove _) trivial

end

variable {α : Type}

theorem ok_of_isOk {result : Except GoString α}
    (hok : result.isOk = true) : ∃ value, result = .ok value := by
  cases result with
  | error e => cases hok
  | ok value => exact ⟨value, rfl⟩

theorem error_of_not_isOk {result : Except GoString α}
    (hfail : result.isOk = false) : ∃ e, result = .error e := by
  cases result with
  | error e => exact ⟨e, rfl⟩
  | ok value => cases hfail

theorem syncFile_stops {vfs : VirtualFiles} {tempDir file : GoString}
    (hfail : (vfs.read file).isOk = false) {machine : Machine} :
    ∃ e, syncFile vfs tempDir file machine = (.error e, machine) := by
  obtain ⟨e, hread⟩ := error_of_not_isOk hfail
  unfold syncFile
  rw [hread]
  exact ⟨_, rfl⟩

theorem writeEntry_stops {getBlob : GoString → Except GoString Bytes} {entry : TreeEntry}
    (hfail : (getBlob entry.hash).isOk = false) {machine : Machine} :
    ∃ e, writeEntry root getBlob entry machine = (.error e, machine) := by
  obtain ⟨e, hread⟩ := error_of_not_isOk hfail
  unfold writeEntry
  rw [hread]
  exact ⟨e, rfl⟩

theorem keepsTo_syncToTemp {vfs : VirtualFiles}
    (hnames : ∀ name ∈ syncedNames vfs, Descends tempDir name) :
    KeepsTo tempDir (syncToTemp vfs tempDir) := by
  unfold syncedNames at hnames
  apply keepsTo_mapError_ofExcept_bind
  intro files hlist
  rw [hlist] at hnames
  exact keepsTo_forEach (fun _ => keepsTo_syncFile) (fun _ => syncFile_stops) hnames

theorem keepsTo_updateWorktree {listed : List GoString}
    {getBlob : GoString → Except GoString Bytes}
    (hnames : ∀ name ∈ onDisk root (entryNames getBlob tree), Descends root name) :
    KeepsTo root (DiskWorktree.updateWorktree root listed getBlob tree) := by
  apply KeepsTo.bind
  · apply GoM.Triple.forEach
    intro file _
    apply GoM.Triple.ite
    · intro _
      exact keepsTo_pure ()
    · intro _
      exact keepsTo_removeFile
  · intro _
    apply keepsTo_forEach (fun _ => keepsTo_writeEntry) fun _ => writeEntry_stops
    intro entry hmem hdisk
    apply hnames
    exact mem_onDisk.mpr ⟨hdisk, List.mem_map_of_mem hmem⟩

theorem FileWriter.keepsTo {writer : FileWriter}
    (hnames : ∀ name ∈ writer.names, Descends writer.root name) :
    KeepsTo writer.root writer.run := by
  cases writer with
  | restore unmarshal file opts => exact keepsTo_restore hnames
  | syncToTemp vfs tempDir => exact keepsTo_syncToTemp hnames
  | writeFile root name content =>
    apply keepsTo_writeFile
    intro hdisk
    exact hnames name (mem_onDisk.mpr ⟨hdisk, List.mem_singleton_self name⟩)
  | updateWorktree root listed getBlob tree =>
    exact keepsTo_updateWorktree hnames

/-! ## Names that are reached -/

theorem asks_restoreFile {target relPath : GoString} {header : TarEntry} :
    Asks (restoreFile target relPath header) ()
      [.mkdirAll (dirOf (join target relPath)), .create (join target relPath),
        .copy (join target relPath) header.content,
        .chmod (join target relPath) (UInt32.ofInt header.mode)] :=
  asks_perform.mapError.bind <|
    asks_perform.mapError.bind <|
      asks_perform.mapError.bind <| asks_perform.mapError.bind asks_checkCancelled

theorem asks_initializeTarget {target : GoString} {overwrite : Bool} :
    Asks (initializeTarget target overwrite) () [.mkdirAll target] :=
  asks_stat.bind asks_perform.mapError

theorem writes_restoreRepositoryData (opts : RestoreOptions) (stream : TarStream) :
    Writes (restoreRepositoryData opts stream)
      ((restoredNames opts stream).map (join opts.target)) := by
  induction stream with
  | nil => exact (asks_pure ()).writes (by simp [restoredNames])
  | cons next rest ih =>
    cases next with
    | error e =>
      intro machine _
      exact ⟨[], after_nil.symm, by simp [restoredNames]⟩
    | ok header =>
      unfold restoredNames
      unfold restoreRepositoryData
      cases hname : restoredName opts header with
      | none =>
        exact Writes.after (f := fun _ =>
          restoreRepositoryData opts rest) ih (asks_pure ())
      | some relPath =>
        have hfirst : ∀ path ∈ [join opts.target relPath],
            ∃ call ∈ [.mkdirAll (dirOf (join opts.target relPath)),
              .create (join opts.target relPath),
              .copy (join opts.target relPath) header.content,
              .chmod (join opts.target relPath) (UInt32.ofInt header.mode)],
              FileCall.written call = some path := by
          simp [FileCall.written]
        exact Writes.bind (f := fun _ =>
          restoreRepositoryData opts rest)
          (asks_restoreFile) hfirst ih

theorem writes_restoreInto (opts : RestoreOptions) (rest : TarStream) :
    Writes (restoreInto opts rest) ((restoredNames opts rest).map (join opts.target)) := by
  have hdata := writes_restoreRepositoryData opts rest
  unfold restoreInto
  cases opts.dryRun with
  | true => exact hdata.mapError
  | false =>
    exact Writes.after (f := fun _ => GoM.mapError _
      (restoreRepositoryData opts rest)) hdata.mapError
      asks_initializeTarget.mapError

variable {name : GoString}

theorem writes_restore {unmarshal : Bytes → Except GoString BackupMetadata}
    {file : BackupFile} {opts : RestoreOptions}
    (hname : name ∈ backupNames unmarshal file opts) :
    Writes (BackupManager.restore unmarshal file opts) [join opts.target name] := by
  unfold backupNames at hname
  unfold BackupManager.restore
  cases hopen : openArchive file with
  | error e =>
    rw [hopen] at hname
    cases hname
  | ok stream =>
    rw [hopen, Except.bind] at hname
    apply Writes.after _ (asks_ofExcept)
    cases hread : readMetadata unmarshal stream with
    | error e =>
      rw [hread] at hname
      cases hname
    | ok found =>
      rw [hread] at hname
      dsimp only at hname
      split_ifs at hname with hrefused
      · cases hname
      · have hinto : Writes (restoreInto opts found.2) [join opts.target name] :=
          (writes_restoreInto opts found.2).mono (by simpa using ⟨name, hname, rfl⟩)
        apply Writes.after _ asks_ofExcept.mapError
        cases hverify : opts.verification with
        | false => exact hinto
        | true =>
          have hverified : verifyMetadata found.1 = .ok () := by
            exact if_neg fun hother => hrefused ⟨hverify, hother⟩
          rw [hverified]
          exact Writes.after (f := fun _ => restoreInto opts found.2) hinto
            asks_ofExcept.mapError

theorem writes_forEach {read : α → Except GoString Bytes}
    {body : α → GoM Machine Unit} {path : α → GoString}
    (hbody : ∀ item, (read item).isOk = true →
      ∃ calls, Asks (body item) () calls ∧ ∃ call ∈ calls, call.written = some (path item))
    (hstop : ∀ item, (read item).isOk = false →
      ∀ machine, ∃ e, body item machine = (.error e, machine))
    {items : List α} :
    Writes (GoM.forEach items body) ((readable read items).map path) := by
  induction items with
  | nil => exact (asks_pure ()).writes (by simp [readable])
  | cons item items ih =>
    unfold readable at ih ⊢
    rw [List.takeWhile_cons]
    cases hread : (read item).isOk with
    | false => exact writes_nil_of_error (hstop item hread)
    | true =>
      obtain ⟨calls, hcalls, call, hmem, hwritten⟩ := hbody item hread
      have hfirst : ∀ p ∈ [path item], ∃ call ∈ calls, call.written = some p := by
        intro p hp
        rw [List.mem_singleton.mp hp]
        exact ⟨call, hmem, hwritten⟩
      exact Writes.bind (f := fun _ => GoM.forEach items body) hcalls hfirst ih

theorem writes_syncToTemp {vfs : VirtualFiles} {tempDir : GoString}
    (hname : name ∈ syncedNames vfs) :
    Writes (syncToTemp vfs tempDir) [join tempDir name] := by
  unfold syncedNames at hname
  unfold syncToTemp
  cases hlist : vfs.list with
  | error e =>
    rw [hlist] at hname
    cases hname
  | ok files =>
    rw [hlist] at hname
    have hloop : Writes (GoM.forEach files (syncFile vfs
        tempDir)) ((readable vfs.read files).map (join tempDir)) := by
      apply writes_forEach _ fun _ => syncFile_stops
      intro file hok
      obtain ⟨content, hread⟩ := ok_of_isOk hok
      refine ⟨[.mkdirAll (dirOf (join tempDir file)), .writeFile (join tempDir file) content], ?_,
        .writeFile (join tempDir file) content, by simp, rfl⟩
      unfold syncFile
      rw [hread]
      exact asks_ofExcept.mapError.bind
        (asks_perform.mapError.bind asks_perform.mapError)
    exact hloop.mono (by simpa using ⟨name, hname, rfl⟩)

theorem asks_writeFile (hdisk : inMemory root = false) {name : GoString}
    {content : Bytes} :
    Asks (DiskWorktree.writeFile root name content) ()
      [.mkdirAll (dirOf (join root name)), .writeFile (join root name) content] := by
  unfold DiskWorktree.writeFile
  rw [hdisk]
  exact asks_perform.bind (asks_perform)

theorem asks_removeListed {root : GoString} {tree : Tree} {listed : List GoString} :
    ∃ calls, Asks (GoM.forEach listed fun file =>
      if tree.entries.any (fun entry => entry.name = file) then pure ()
      else removeFile root file) () calls := by
  induction listed with
  | nil => exact ⟨[], asks_pure ()⟩
  | cons file listed ih =>
    obtain ⟨rest, hrest⟩ := ih
    have hfirst : ∃ calls, Asks (if tree.entries.any (fun entry =>
        entry.name = file) then pure ()
      else removeFile root file) () calls := by
      unfold removeFile
      split_ifs
      · exact ⟨[], asks_pure ()⟩
      · exact ⟨[], asks_pure ()⟩
      · exact ⟨_, asks_perform⟩
    obtain ⟨first, hfirst⟩ := hfirst
    exact ⟨first ++ rest, hfirst.bind hrest⟩

theorem writes_updateWorktree (hdisk : inMemory root = false) {listed : List GoString}
    {getBlob : GoString → Except GoString Bytes} {tree : Tree}
    (hname : name ∈ entryNames getBlob tree) :
    Writes (DiskWorktree.updateWorktree root listed getBlob tree) [join root name] := by
  obtain ⟨entry, hentry, rfl⟩ := List.mem_map.mp hname
  obtain ⟨calls, hcalls⟩ := asks_removeListed
  apply Writes.after _ hcalls
  have hloop : Writes (GoM.forEach tree.entries (writeEntry root getBlob))
      ((readable (fun entry => getBlob entry.hash)
        tree.entries).map fun entry => join root entry.name) := by
    apply writes_forEach _ fun _ => writeEntry_stops
    intro entry hok
    obtain ⟨content, hread⟩ := ok_of_isOk hok
    refine ⟨[.mkdirAll (dirOf (join root entry.name)),
      .writeFile (join root entry.name) content], ?_,
      .writeFile (join root entry.name) content, by simp, rfl⟩
    unfold writeEntry
    rw [hread]
    exact asks_ofExcept.bind (asks_writeFile hdisk)
  exact hloop.mono (by simpa using ⟨entry, hentry, rfl⟩)

theorem FileWriter.writes {writer : FileWriter} (hname : name ∈ writer.names) :
    Writes writer.run [join writer.root name] := by
  cases writer with
  | restore unmarshal file opts => exact writes_restore hname
  | syncToTemp vfs tempDir => exact writes_syncToTemp hname
  | writeFile root written content =>
    obtain ⟨hdisk, hmem⟩ := mem_onDisk.mp hname
    rw [List.mem_singleton.mp hmem]
    exact (asks_writeFile hdisk).writes (by simp [FileCall.written, FileWriter.root])
  | updateWorktree root listed getBlob tree =>
    obtain ⟨hdisk, hmem⟩ := mem_onDisk.mp hname
    exact writes_updateWorktree hdisk hmem

/-! ## Confinement -/

/-- Whatever the machine answers, every file that the component writes to lies
below its directory. -/
def FileWriter.StaysInside (writer : FileWriter) : Prop :=
  ∀ machine, machine.calls = [] →
    ∀ call ∈ (writer.run machine).2.calls, ∀ path, call.written = some path → Below writer.root path

/-- The component writes only below its directory exactly if every name that it
comes to leads there. -/
theorem stays_inside_iff (writer : FileWriter) :
    writer.StaysInside ↔ ∀ name ∈ writer.names, Descends writer.root name := by
  constructor
  · intro hinside name hname
    obtain ⟨calls, hrun, hwrites⟩ := FileWriter.writes hname obliging obliging_obliging
    obtain ⟨call, hcall, hwritten⟩ := hwrites _ (List.mem_singleton_self _)
    rw [← below_join_iff]
    apply hinside obliging rfl call _ _ hwritten
    rw [hrun]
    exact List.mem_append_right _ hcall
  · intro hnames machine hfresh call hcall path hwritten
    have hstart : Only (Confined writer.root) machine := by
      intro other hmem
      rw [hfresh] at hmem
      cases hmem
    have hafter := (FileWriter.keepsTo hnames).exit hstart
    exact (hafter call hcall).below hwritten

def climbingArchive : FileWriter :=
  .restore (fun _ => .ok ⟨str "1.0"⟩)
    (.archive [.ok ⟨str "metadata.json", 0, []⟩,
      .ok ⟨str "repository/../../etc/passwd", 420, [120]⟩])
    ⟨str "/srv/restore", false, false, false⟩

/-- Restoring the archive writes outside of its directory. -/
theorem restore_writes_outside : ¬ climbingArchive.StaysInside := by
  intro hinside
  have hpath := hinside obliging rfl (.create (str "/etc/passwd"))
    (by decide) (str "/etc/passwd") rfl
  obtain ⟨-, below, -, -, helements⟩ := hpath
  exact absurd (List.cons.inj helements).1 (by decide)

end Govc
