import Govc.RepositoryModel

/-!
# The staging file

A persistent staging area keeps its staged files in `staging.json`.  Staged
removals are not written, and a file that is read is added to what the new
staging area already holds.
-/

namespace Govc

open Go

/-- JSON objects of strings.  What is read is the members of the object that
was written, in some order. -/
structure MapJson (δ : Type) where
  marshal : GoMap GoString GoString → δ
  members : δ → Except GoString (List (GoString × GoString))
  round_trip : ∀ files, ∃ order, members (marshal files) = .ok (files.range order)

structure StagingDisk (δ : Type) where
  staging : StagingArea
  file : Option δ

/-- A call with what a failed write of the file left there, if it failed. -/
inductive StagingCall (δ : Type) where
  | add (path : GoString) (content : Bytes) (failed : Option (Option δ))
  | addHash (path hash : GoString)
  | remove (path : GoString)
  | clear (failed : Option (Option δ))

namespace StagingDisk

variable {δ : Type}

def save (json : MapJson δ) (failed : Option (Option δ)) (disk : StagingDisk δ) : StagingDisk δ :=
  { disk with file := failed.getD (some (json.marshal disk.staging.files)) }

def step (host : Host) (json : MapJson δ) (disk : StagingDisk δ) : StagingCall δ → StagingDisk δ
  | .add path content failed =>
    save json failed { disk with staging := disk.staging.add host path content }
  | .addHash path hash => { disk with staging := disk.staging.addHash path hash }
  | .remove path => { disk with staging := disk.staging.remove path }
  | .clear failed => save json failed { disk with staging := disk.staging.clear }

def load (json : MapJson δ) (staging : StagingArea) : Option δ → Except GoString StagingArea
  | none => .ok { staging with files := ∅ }
  | some data =>
    match json.members data with
    | .error e => .error e
    | .ok entries =>
      .ok { staging with
        files := entries.foldl (fun files entry => files.insert entry.1 entry.2) staging.files }

/-- The staging area that a new process has after reading the file. -/
def restart (json : MapJson δ) (disk : StagingDisk δ) (staging : StagingArea) :
    Except GoString StagingArea :=
  load json staging (disk.save json none).file

theorem restart_eq {staging : StagingArea} :
    ∃ files, restart json disk staging = .ok { staging with files := files } ∧
      ∀ path, files.lookup path =
        (disk.staging.files.lookup path).or (staging.files.lookup path) := by
  obtain ⟨order, hmembers⟩ := json.round_trip disk.staging.files
  refine ⟨_, by simp only [restart, load, save, Option.getD_none, hmembers]; rfl, fun path => ?_⟩
  cases hlookup : disk.staging.files.lookup path with
  | some hash =>
    exact GoMap.lookup_foldl_insert_of_mem id (GoMap.range_keys_nodup order _)
      ((GoMap.mem_range order _ path).mpr hlookup) staging.files
  | none =>
    refine GoMap.lookup_foldl_insert_of_notMem id (fun hmem => ?_) staging.files
    obtain ⟨⟨found, hash⟩, hentry, rfl⟩ := List.mem_map.mp hmem
    rw [GoMap.mem_range, hlookup] at hentry
    cases hentry

def Survives (json : MapJson δ) (disk : StagingDisk δ) (staging : StagingArea) : Prop :=
  ∃ after, restart json disk staging = .ok after ∧
    (∀ path, after.files.lookup path = disk.staging.files.lookup path) ∧
    ∀ path, after.isRemoved path = disk.staging.isRemoved path

theorem survives_iff (host : Host) (json : MapJson δ) (calls : List (StagingCall δ))
    (start : StagingDisk δ) (staging : StagingArea) :
    Survives json (calls.foldl (step host json) start) staging ↔
      (∀ path, staging.contains path → (calls.foldl (step host json) start).staging.contains path) ∧
      ∀ path, staging.isRemoved path =
        (calls.foldl (step host json) start).staging.isRemoved path := by
  generalize calls.foldl (step host json) start = disk
  obtain ⟨files, hrestart, hfiles⟩ := restart_eq
  unfold Survives
  rw [hrestart]
  constructor
  · rintro ⟨after, hafter, hsame, hremoved⟩
    cases hafter
    refine ⟨fun path hcontains => ?_, hremoved⟩
    have hpath := hsame path
    rw [hfiles] at hpath
    simp only [StagingArea.contains, GoMap.contains] at hcontains ⊢
    rw [← hpath, Option.isSome_or, hcontains, Bool.or_true]
  · rintro ⟨hcontains, hremoved⟩
    refine ⟨_, rfl, fun path => ?_, hremoved⟩
    have hpath := hcontains path
    simp only [StagingArea.contains, GoMap.contains] at hpath
    rw [hfiles]
    cases hlookup : disk.staging.files.lookup path with
    | some hash => rfl
    | none =>
      rw [hlookup] at hpath
      simpa using hpath

/-- The map itself as its encoding. -/
def plainJson : MapJson (GoMap GoString GoString) where
  marshal := id
  members files := .ok (files.range .inserted)
  round_trip _ := ⟨.inserted, rfl⟩

theorem removal_lost :
    ¬ Survives plainJson ([.remove (str "a")].foldl (step Host.checksums plainJson) ⟨.new, none⟩)
      .new := by
  rintro ⟨after, hafter, -, hremoved⟩
  cases hafter
  exact absurd (hremoved (str "a")) (by decide)

end StagingDisk

end Govc
