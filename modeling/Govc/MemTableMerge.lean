import Govc.LsmStore
import Mathlib.Data.List.MinMax

/-!
# Merging memory tables

`MergeMemTables` keeps for every key the newest entry, and of equally new ones
the first.  Tables and keys are visited in whatever order the runtime gives.
-/

namespace Govc

open Go

/-! ## The first greatest item of parts of a list -/

section

variable {α β : Type} [LinearOrder β] (f : α → β) (front back : List α)

theorem argmax_toList_append :
    List.argmax f ((front.argmax f).toList ++ back) = List.argmax f (front ++ back) := by
  induction back using List.reverseRecOn with
  | nil => cases h : front.argmax f <;> simp [h]
  | append_singleton back item ih =>
    rw [← List.append_assoc, ← List.append_assoc, List.argmax_concat, List.argmax_concat, ih]

theorem argmax_append_toList :
    List.argmax f (front ++ (back.argmax f).toList) = List.argmax f (front ++ back) := by
  induction front with
  | nil => cases h : back.argmax f <;> simp [h]
  | cons item front ih =>
    rw [List.cons_append, List.cons_append, List.argmax_cons, List.argmax_cons, ih]

theorem argmax_of_perm {items others : List α} (hperm : others.Perm items)
    (hdistinct : (items.map f).Nodup) : others.argmax f = items.argmax f := by
  classical
  ext item
  simp only [← Option.mem_def, List.mem_argmax_iff, hperm.mem_iff]
  refine and_congr_right fun hmem => and_congr_right fun hgreatest => ?_
  have hfirst (a : α) (ha : a ∈ items) (hle : f item ≤ f a) : a = item :=
    List.inj_on_of_nodup_map hdistinct ha hmem (le_antisymm (hgreatest a ha) hle)
  apply iff_of_true
  · exact fun a ha hle => by rw [hfirst a ha hle]
  · exact fun a ha hle => by rw [hfirst a ha hle]

end

namespace MemTable

def mergeEntry (all : GoMap GoString Entry) (item : GoString × Entry) : GoMap GoString Entry :=
  match all.lookup item.1 with
  | none => all.insert item.1 item.2
  | some existing =>
    if existing.timestamp < item.2.timestamp then all.insert item.1 item.2 else all

def mergeEntries (order : ℕ → RangeOrder) :
    ℕ → GoMap GoString Entry → List MemTable → GoMap GoString Entry
  | _, all, [] => all
  | i, all, table :: tables =>
    mergeEntries order (i + 1) ((table.data.range (order i)).foldl mergeEntry all) tables

def addEntry (data : GoMap GoString Entry) (item : GoString × Entry) : GoMap GoString Entry :=
  data.insert item.2.key item.2

theorem keyed_foldl_addEntry {items : List (GoString × Entry)} {data : GoMap GoString Entry}
    (hdata : ∀ key entry, data.lookup key = some entry → entry.key = key) :
    ∀ key entry, (items.foldl addEntry data).lookup key = some entry → entry.key = key := by
  induction items generalizing data with
  | nil => exact hdata
  | cons item items ih => exact ih (GoMap.forall_insert hdata rfl)

def mergeMemTables (order : ℕ → RangeOrder) (tables : List MemTable) : Except GoString MemTable :=
  if tables.length = 0 then .error (str "no memtables to merge")
  else
    let items := (mergeEntries order 1 ∅ tables).range (order 0)
    .ok {
      data := items.foldl addEntry ∅
      maxSize := (tables.map maxSize).sum
      currentSize := (items.map fun item => (item.2.size : ℤ)).sum
      sealed := true
      keyed := keyed_foldl_addEntry (MemTable.new 0).keyed }

/-! ## What a merge holds -/

/-- The entry of a key with the greatest timestamp, of the first table that
has such an entry. -/
noncomputable def newest (tables : List MemTable) (key : GoString) : Option Entry :=
  (tables.filterMap (·.data.lookup key)).argmax Entry.timestamp

structure IsMerge (tables : List MemTable) (merged : MemTable) : Prop where
  sealed : merged.sealed = true
  maxSize : merged.maxSize = (tables.map MemTable.maxSize).sum
  lookup : ∀ key, merged.data.lookup key = newest tables key
  currentSize : ∀ order, merged.currentSize =
    ((merged.data.range order).map fun item => (item.2.size : ℤ)).sum

/-- Tables that no reader can tell apart. -/
structure Same (first second : MemTable) : Prop where
  sealed : first.sealed = second.sealed
  maxSize : first.maxSize = second.maxSize
  currentSize : first.currentSize = second.currentSize
  lookup : ∀ key, first.data.lookup key = second.data.lookup key

theorem lookup_mergeEntry (all : GoMap GoString Entry) (item : GoString × Entry) (key : GoString) :
    (mergeEntry all item).lookup key =
      if key = item.1 then ((all.lookup key).toList ++ [item.2]).argmax Entry.timestamp
      else all.lookup key := by
  unfold mergeEntry
  by_cases hkey : key = item.1
  · subst hkey
    cases hold : all.lookup item.1 with
    | none => simp
    | some existing =>
      simp only [Option.toList_some, List.argmax_concat, List.argmax_singleton, if_true]
      split_ifs
      · simp
      · exact hold
  · rw [if_neg hkey]
    split
    · rw [GoMap.lookup_insert_eq, if_neg hkey]
    · split_ifs
      · rw [GoMap.lookup_insert_eq, if_neg hkey]
      · rfl

theorem lookup_mergeEntries {all : GoMap GoString Entry}
    {tables : List MemTable} :
    (mergeEntries order i all tables).lookup key =
      ((all.lookup key).toList ++ tables.filterMap (·.data.lookup key)).argmax Entry.timestamp := by
  induction tables generalizing i all with
  | nil => cases h : all.lookup key <;> simp [mergeEntries, h]
  | cons table tables ih =>
    rw [mergeEntries, ih, GoMap.foldl_range_get (·.lookup ·) mergeEntry
      (fun item old => (old.toList ++ [item.2]).argmax Entry.timestamp) lookup_mergeEntry,
      List.filterMap_cons]
    cases table.data.lookup key with
    | none => rfl
    | some entry =>
      rw [Option.elim_some, argmax_toList_append, List.append_assoc]
      rfl

theorem isMerge_of_mergeMemTables (hmerge : mergeMemTables order tables = .ok merged) :
    IsMerge tables merged := by
  unfold mergeMemTables at hmerge
  split_ifs at hmerge
  cases hmerge
  have hall (key : GoString) : (mergeEntries order 1 ∅ tables).lookup key = newest tables key := by
    rw [lookup_mergeEntries, AList.lookup_empty]
    rfl
  have hkeyed : ∀ item ∈ (mergeEntries order 1 ∅ tables).range (order 0), item.2.key = item.1 := by
    rintro ⟨key, entry⟩ hitem
    rw [GoMap.mem_range, hall] at hitem
    obtain ⟨table, -, hentry⟩ := List.mem_filterMap.mp (List.argmax_mem hitem)
    exact table.keyed key entry hentry
  have hlookup (key : GoString) : (((mergeEntries order 1 ∅ tables).range (order 0)).foldl
      addEntry ∅).lookup key = (mergeEntries order 1 ∅ tables).lookup key := by
    rw [List.foldl_ext _ (fun data item => data.insert item.1 item.2) _
      fun data item hitem => by rw [addEntry, hkeyed item hitem]]
    exact GoMap.lookup_copy.trans Option.map_id_apply
  refine ⟨rfl, rfl, fun key => (hlookup key).trans (hall key), fun order' => ?_⟩
  exact ((GoMap.range_perm hlookup).symm.map _).sum_eq

theorem IsMerge.same {tables others : List MemTable}
    (h : IsMerge tables first) (hother : IsMerge others second)
    (hsize : (tables.map MemTable.maxSize).sum = (others.map MemTable.maxSize).sum)
    (hnewest : ∀ key, newest tables key = newest others key) : Same first second := by
  have hlookup (key : GoString) : first.data.lookup key = second.data.lookup key := by
    rw [h.lookup, hother.lookup, hnewest]
  refine ⟨h.sealed.trans hother.sealed.symm, ?_, ?_, hlookup⟩
  · rw [h.maxSize, hother.maxSize, hsize]
  · rw [h.currentSize .inserted, hother.currentSize .inserted]
    exact ((GoMap.range_perm hlookup).map _).sum_eq

theorem newest_pair (h : IsMerge tables first) (hother : IsMerge others second) (key : GoString) :
    newest [first, second] key = newest (tables ++ others) key := by
  have hpair : [first, second].filterMap (·.data.lookup key) =
      (newest tables key).toList ++ (newest others key).toList := by
    rw [← h.lookup, ← hother.lookup]
    cases hfirst : first.data.lookup key <;> cases hsecond : second.data.lookup key <;>
      simp [hfirst, hsecond]
  rw [newest, hpair, newest, newest, argmax_toList_append, argmax_append_toList, newest,
    List.filterMap_append]

end MemTable

end Govc
