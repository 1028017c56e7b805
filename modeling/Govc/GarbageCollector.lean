import Govc.GoMaps
import Govc.GuardedRuns

/-!
# The garbage collector

A compaction selects the objects without references and then removes them one by
one, without a second look at their counts.  If no selected object gets a
reference before it is removed, no object with a positive count is dropped.
-/

namespace Govc

open Go

structure CompactionRun where
  candidates : List GoString
  objectsCollected : Int64

/-- `run` is there while `compactionMutex` is held by a compaction. -/
structure GarbageCollector where
  hasStore : Bool
  refCounter : GoMap GoString Int64
  maxObjectsPerCycle : Int64
  run : Option CompactionRun

namespace GarbageCollector

def new (hasStore : Bool) : GarbageCollector where
  hasStore := hasStore
  refCounter := ∅
  maxObjectsPerCycle := 1000
  run := none

def getReferenceCount (gc : GarbageCollector) (objectHash : GoString) : Int64 :=
  (gc.refCounter.lookup objectHash).getD 0

def addReference (gc : GarbageCollector) (objectHash : GoString) : GarbageCollector := { gc with
    refCounter := gc.refCounter.insert objectHash (gc.getReferenceCount objectHash + 1) }

def removeReference (gc : GarbageCollector) (objectHash : GoString) : GarbageCollector :=
  match gc.refCounter.lookup objectHash with
  | none => gc
  | some count =>
    if count ≤ 1 then
      { gc with refCounter := gc.refCounter.insert objectHash 0 }
    else
      { gc with
        refCounter := gc.refCounter.insert objectHash (count - 1) }

def identifyGarbageObjects (order : RangeOrder) (gc : GarbageCollector) : List GoString :=
  ((gc.refCounter.range order).filter fun entry => entry.2 ≤ 0).map Prod.fst

def isObjectOldEnough (_objectHash : GoString) : Bool := true

/-- The store has no way to remove an object: only its counter goes. -/
def removeObject (gc : GarbageCollector) (objectHash : GoString) :
    Except GoString GarbageCollector :=
  if gc.hasStore then
    .ok { gc with refCounter := gc.refCounter.erase objectHash }
  else .error (str "store is nil")

def sweepObject (gc : GarbageCollector) (objectHash : GoString)
    (rest : List GoString) (objectsCollected : Int64) : GarbageCollector :=
  if !isObjectOldEnough objectHash then
    { gc with run := some ⟨rest, objectsCollected⟩ }
  else
    match gc.removeObject objectHash with
    | .error _ => { gc with run := some ⟨rest, objectsCollected⟩ }
    | .ok removed =>
      if 0 < gc.maxObjectsPerCycle ∧
          gc.maxObjectsPerCycle ≤ objectsCollected + 1 then
        { removed with run := none }
      else
        { removed with run := some ⟨rest, objectsCollected + 1⟩ }

def sweep (gc : GarbageCollector) (cancelled : Bool) : GarbageCollector :=
  match gc.run with
  | none => gc
  | some ⟨[], _⟩ => { gc with run := none }
  | some ⟨objectHash :: rest, objectsCollected⟩ =>
    if cancelled then { gc with run := none }
    else gc.sweepObject objectHash rest objectsCollected

inductive Step where
  | addReference (objectHash : GoString)
  | removeReference (objectHash : GoString)
  | setPolicy (maxObjectsPerCycle : Int64)
  | selectGarbage (order : RangeOrder)
  | sweep (cancelled : Bool)

/-- `SetPolicy` and a second compaction wait for the one that is running. -/
def step (gc : GarbageCollector) : Step → GarbageCollector
  | .addReference objectHash => gc.addReference objectHash
  | .removeReference objectHash => gc.removeReference objectHash
  | .setPolicy maxObjectsPerCycle =>
    if gc.run.isNone then
      { gc with maxObjectsPerCycle := maxObjectsPerCycle }
    else gc
  | .selectGarbage order =>
    if gc.run.isNone then
      { gc with run := some ⟨gc.identifyGarbageObjects order, 0⟩ }
    else gc
  | .sweep cancelled => gc.sweep cancelled

def selected : Option CompactionRun → List GoString
  | none => []
  | some run => run.candidates

def pending (gc : GarbageCollector) : List GoString := selected gc.run

def KeepsLive (gc : GarbageCollector) (label : Step) : Prop :=
  ∀ objectHash, 0 < gc.getReferenceCount objectHash →
    (gc.step label).refCounter.contains objectHash = true

/-- Nobody adds a reference to an object that is about to be removed. -/
def Unselected (gc : GarbageCollector) : Step → Prop
  | .addReference objectHash =>
    gc.hasStore = true → objectHash ∉ gc.pending
  | _ => True

/-! ## Counters -/

section

variable {gc : GarbageCollector} {objectHash : GoString}

theorem contains_of_positive (hlive : 0 < gc.getReferenceCount objectHash) :
    gc.refCounter.contains objectHash = true := by
  unfold getReferenceCount at hlive
  cases hentry : gc.refCounter.lookup objectHash with
  | none => simp [hentry] at hlive
  | some count => simp [GoMap.contains, hentry]

theorem contains_insert {m : GoMap GoString Int64}
    (hthere : m.contains other = true) :
    GoMap.contains (m.insert key value) other = true := by
  unfold GoMap.contains at hthere ⊢
  by_cases hkey : other = key
  · simp [GoMap.lookup_insert_eq, hkey]
  · simpa [GoMap.lookup_insert_eq, hkey] using hthere

theorem getReferenceCount_insert {key other : GoString} {value : Int64} :
    ({ gc with refCounter := gc.refCounter.insert key value } :
        GarbageCollector).getReferenceCount other =
      if other = key then value else gc.getReferenceCount other := by
  unfold getReferenceCount
  by_cases hkey : other = key
  · simp [GoMap.lookup_insert_eq, hkey]
  · simp [hkey]

theorem getReferenceCount_erase (gc : GarbageCollector) (key other : GoString) :
    ({ gc with refCounter := gc.refCounter.erase key } :
        GarbageCollector).getReferenceCount other =
      if other = key then 0 else gc.getReferenceCount other := by
  unfold getReferenceCount
  by_cases hkey : other = key
  · simp [GoMap.lookup_erase_eq, hkey]
  · simp [hkey]

theorem removeReference_cases (gc : GarbageCollector) (objectHash : GoString) :
    gc.removeReference objectHash = gc ∨
      ∃ count, gc.removeReference objectHash =
          { gc with refCounter := gc.refCounter.insert objectHash count } ∧
        (gc.getReferenceCount objectHash ≤ 0 → count = 0) := by
  unfold removeReference getReferenceCount
  cases hentry : gc.refCounter.lookup objectHash with
  | none => simp
  | some count =>
    by_cases hlast : count ≤ 1
    · exact .inr ⟨0, by simp [hlast], by simp⟩
    · have hpositive : ¬ count ≤ 0 := fun hle => hlast (Int64.le_trans hle (by decide))
      exact .inr ⟨count - 1, by simp [hlast], by simp [hpositive]⟩

theorem identifyGarbageObjects_count (hmem : objectHash ∈ gc.identifyGarbageObjects order) :
    gc.getReferenceCount objectHash ≤ 0 := by
  simp only [identifyGarbageObjects, List.mem_map, List.mem_filter] at hmem
  obtain ⟨entry, ⟨hentry, hcount⟩, rfl⟩ := hmem
  have hlookup := (GoMap.mem_range order gc.refCounter _).mp hentry
  simpa [getReferenceCount, hlookup] using hcount

end

/-! ## Runs -/

theorem sweep_cases (gc : GarbageCollector) (cancelled : Bool) :
    ∃ run, (∀ objectHash ∈ selected run, objectHash ∈ gc.pending) ∧
      (gc.sweep cancelled = { gc with run := run } ∨
        gc.hasStore = true ∧ ∃ objectHash ∈ gc.pending, gc.sweep cancelled =
          { gc with
            refCounter := gc.refCounter.erase objectHash
            run := run }) := by
  unfold sweep pending
  cases hrun : gc.run with
  | none => exact ⟨none, by simp [selected], .inl (by simp [← hrun])⟩
  | some run =>
    obtain ⟨candidates, objectsCollected⟩ := run
    cases candidates with
    | nil => exact ⟨none, by simp [selected], .inl rfl⟩
    | cons objectHash rest =>
      cases cancelled with
      | true => exact ⟨none, by simp [selected], .inl rfl⟩
      | false =>
        by_cases hstore : gc.hasStore = true
        · by_cases hlimit : 0 < gc.maxObjectsPerCycle ∧ gc.maxObjectsPerCycle ≤ objectsCollected + 1
          · refine ⟨none, by simp [selected], .inr ⟨hstore, objectHash,
              by simp [selected], ?_⟩⟩
            simp [sweepObject, isObjectOldEnough, removeObject, hstore, hlimit]
          · refine ⟨some ⟨rest, objectsCollected + 1⟩, ?_,
              .inr ⟨hstore, objectHash, by simp [selected], ?_⟩⟩
            · simp +contextual [selected]
            · simp only [sweepObject, isObjectOldEnough, removeObject, hstore, if_neg hlimit]
              simp
        · refine ⟨some ⟨rest, objectsCollected⟩, ?_, .inl ?_⟩
          · simp +contextual [selected]
          · simp [sweepObject, isObjectOldEnough, removeObject, hstore]

def Settled (gc : GarbageCollector) : Prop :=
  gc.hasStore = true → ∀ objectHash ∈ gc.pending, gc.getReferenceCount objectHash ≤ 0

theorem Settled.step {gc : GarbageCollector} (h : gc.Settled)
    (hguard : gc.Unselected label) : (gc.step label).Settled := by
  cases label with
  | addReference objectHash =>
    intro hstore other hpending
    have hother : other ≠ objectHash := by
      rintro rfl
      exact hguard hstore hpending
    have hcount := h hstore other hpending
    simp only [GarbageCollector.step, addReference, getReferenceCount_insert, if_neg hother]
    exact hcount
  | removeReference objectHash =>
    rcases gc.removeReference_cases objectHash with
      hsame | ⟨count, hchanged, hzero⟩
    · simp only [GarbageCollector.step, hsame]
      exact h
    · simp only [GarbageCollector.step, hchanged]
      intro hstore other hpending
      have hcount := h hstore other hpending
      rw [getReferenceCount_insert]
      by_cases hother : other = objectHash
      · rw [hother] at hcount
        simp [hother, hzero hcount]
      · simpa [hother] using hcount
  | setPolicy maxObjectsPerCycle =>
    unfold GarbageCollector.step
    split_ifs
    · exact h
    · exact h
  | selectGarbage order =>
    unfold GarbageCollector.step
    split_ifs
    · intro _ objectHash hselected
      exact identifyGarbageObjects_count hselected
    · exact h
  | sweep cancelled =>
    obtain ⟨run, hfewer, hsame | ⟨hstore, objectHash, _, hdropped⟩⟩ := gc.sweep_cases cancelled
    · simp only [GarbageCollector.step, hsame]
      intro hstore other hselected
      exact h hstore other (hfewer other hselected)
    · simp only [GarbageCollector.step, hdropped]
      intro _ other hselected
      have hcount := h hstore other (hfewer other hselected)
      have herase := gc.getReferenceCount_erase objectHash other
      unfold getReferenceCount at herase hcount ⊢
      rw [herase]
      by_cases hother : other = objectHash
      · simp [hother]
      · simpa [hother] using hcount

theorem Settled.keepsLive {gc : GarbageCollector} (h : gc.Settled)
    (label : Step) : gc.KeepsLive label := by
  intro objectHash hlive
  have hthere := contains_of_positive hlive
  cases label with
  | addReference added => exact contains_insert hthere
  | removeReference removed =>
    rcases gc.removeReference_cases removed with hsame | ⟨_, hchanged, _⟩
    · simpa [GarbageCollector.step, hsame] using hthere
    · simp only [GarbageCollector.step, hchanged]
      exact contains_insert hthere
  | sweep cancelled =>
    obtain ⟨run, _, hsame | ⟨hstore, dropped, hpending, hdropped⟩⟩ := gc.sweep_cases cancelled
    · simpa [GarbageCollector.step, hsame] using hthere
    · have hother : objectHash ≠ dropped := by
        rintro rfl
        exact absurd (h hstore objectHash hpending) (Int64.not_le.mpr hlive)
      simpa [GarbageCollector.step, hdropped, GoMap.contains,
        GoMap.lookup_erase_eq, hother] using hthere
  | _ =>
    unfold GarbageCollector.step
    split_ifs with hidle
    · exact hthere
    · exact hthere

/-- From a collector that is idle, in every interleaving in which no selected
object gets a reference before it is removed. -/
theorem live_objects_kept {gc : GarbageCollector} (hidle : gc.run = none)
    {labels : List Step} (hguarded : Runs.Admits step Unselected gc labels) :
    Runs.Admits step KeepsLive gc labels := by
  have hsettled : gc.Settled := by
    simp [Settled, pending, selected, hidle]
  exact hguarded.steps (I := Settled) (fun state label hstate hguard => hstate.step hguard)
    (fun state label hstate _ => hstate.keepsLive label) hsettled

/-- An object that loses its last reference while another one gets its
first. -/
theorem live_objects_kept_beside_garbage :
    Runs.Admits step KeepsLive (.new true)
      [.addReference (str "a"), .removeReference (str "a"),
        .selectGarbage .inserted, .addReference (str "b"), .sweep false] := by
  refine live_objects_kept rfl ⟨?_, trivial, trivial, ?_, trivial, trivial⟩
  · exact fun _ => by decide
  · exact fun _ => by decide

def revived : GarbageCollector :=
  List.foldl step (.new true)
    [.addReference (str "a"), .removeReference (str "a"),
      .selectGarbage .inserted, .addReference (str "a")]

theorem live_object_removed :
    0 < revived.getReferenceCount (str "a") ∧
      (revived.step (.sweep false)).refCounter.contains (str "a") = false := by
  decide

end GarbageCollector

end Govc
