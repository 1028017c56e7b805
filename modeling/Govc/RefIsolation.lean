import Govc.DatastoreModel

/-!
# References of two repositories

A repository owns the keys that begin with its identifier and a colon.  Where an
identifier followed by a colon is the beginning of another one, it owns keys of
the other; otherwise neither sees the calls for the other.
-/

namespace Govc.Datastore

open Go
open Process (refKey)

/-- The keys that `ListRefs` and `DeleteRepository` go through. -/
def Owns (repoID key : GoString) : Prop := hasPrefix key (repoID ++ str ":") = true

instance decidableOwns (repoID key : GoString) : Decidable (Owns repoID key) :=
  inferInstanceAs (Decidable (_ = true))

/-- One identifier, with a colon, is the beginning of the other. -/
def Nested (a b : GoString) : Prop :=
  hasPrefix b (a ++ str ":") = true ∨ hasPrefix a (b ++ str ":") = true

theorem owns_iff : Owns repoID key ↔ ∃ name, refKey repoID name = key := by
  unfold Owns
  rw [hasPrefix_iff]
  exact Iff.rfl

theorem owns_refKey : Owns repoID (refKey repoID name) := owns_iff.mpr ⟨name, rfl⟩

theorem colon_eq : str ":" = [58] := by
  decide

theorem nested_of_owns (hne : a ≠ b) (ha : Owns a key) (hb : Owns b key) : Nested a b := by
  unfold Owns at ha hb
  unfold Nested
  simp only [hasPrefix_iff, colon_eq] at ha hb ⊢
  rcases List.prefix_or_prefix_of_prefix ha hb with hfirst | hsecond
  · rcases List.prefix_concat_iff.mp hfirst with hsame | hless
    · exact absurd (List.append_cancel_right hsame) hne
    · exact .inl hless
  · rcases List.prefix_concat_iff.mp hsecond with hsame | hless
    · exact absurd (List.append_cancel_right hsame).symm hne
    · exact .inr hless

/-! ## What a repository shows -/

def Process.refAt (p : Process) (key : GoString) : Option Reference :=
  (p.store.refs.lookup key).map p.records.references

def Process.shownRef (repoID name : GoString) (p : Process) : Except GoString Reference :=
  (p.getRef repoID name).map p.records.references

def Process.shownRefs (order : RangeOrder) (repoID refType : GoString)
    (p : Process) : List Reference :=
  (p.listRefs order repoID refType).map p.records.references

/-- `GetRef` and `ListRefs` return the same, in whichever order the table is
listed. -/
structure SameRefs (repoID : GoString) (p after : Process) : Prop where
  get : ∀ name, after.shownRef repoID name = p.shownRef repoID name
  list : ∀ order other refType, (after.shownRefs order repoID refType).Perm
    (p.shownRefs other repoID refType)

theorem shownRef_eq {p : Process} :
    p.shownRef repoID name = found (p.refAt (refKey repoID name)) := by
  unfold Process.shownRef Process.getRef Process.refAt
  cases p.store.refs.lookup (refKey repoID name) <;> rfl

def Process.ownRefs (order : RangeOrder) (repoID : GoString) (p : Process) :
    List (GoString × Reference) :=
  ((p.store.refs.range order).filter fun entry =>
    hasPrefix entry.1 (repoID ++ str ":")).map fun entry =>
      (entry.1, p.records.references entry.2)

variable (order : RangeOrder)

theorem shownRefs_eq {repoID refType : GoString} {p : Process} :
    p.shownRefs order repoID refType =
      ((p.ownRefs order repoID).map Prod.snd).filter fun ref =>
        matchesText refType ref.type := by
  unfold Process.shownRefs Process.listRefs Process.ownRefs
  rw [List.map_map, List.filter_map, List.filter_map, List.map_map]
  rfl

theorem mem_ownRefs {p : Process}
    :
    entry ∈ p.ownRefs order repoID ↔ Owns repoID entry.1 ∧ p.refAt entry.1 = some entry.2 := by
  unfold Process.ownRefs Process.refAt Owns
  rw [List.mem_map]
  constructor
  · rintro ⟨⟨key, pointer⟩, hmem, rfl⟩
    obtain ⟨hrange, howns⟩ := List.mem_filter.mp hmem
    rw [GoMap.mem_range] at hrange
    exact ⟨howns, by rw [hrange, Option.map_some]⟩
  · rintro ⟨howns, href⟩
    obtain ⟨pointer, hlookup, hcontent⟩ := Option.map_eq_some_iff.mp href
    refine ⟨(entry.1, pointer), List.mem_filter.mpr ⟨?_, howns⟩, ?_⟩
    · exact (GoMap.mem_range order _ _).mpr hlookup
    · rw [hcontent]

theorem nodup_ownRefs {p : Process} : (p.ownRefs order repoID).Nodup := by
  apply List.Nodup.of_map Prod.fst
  unfold Process.ownRefs
  rw [List.map_map]
  exact (GoMap.range_keys_nodup order p.store.refs).sublist (List.filter_sublist.map _)

theorem sameRefs_of_refAt {p after : Process}
    (hsame : ∀ key, Owns repoID key → after.refAt key = p.refAt key) :
    SameRefs repoID p after := by
  constructor
  case get =>
    intro name
    rw [shownRef_eq, shownRef_eq, hsame _ (owns_refKey)]
  case list =>
    intro order other refType
    have hperm : (after.ownRefs order repoID).Perm (p.ownRefs other repoID) := by
      rw [List.perm_ext_iff_of_nodup (nodup_ownRefs ..) (nodup_ownRefs ..)]
      intro entry
      rw [mem_ownRefs, mem_ownRefs]
      exact and_congr_right fun howns => by rw [hsame entry.1 howns]
    rw [shownRefs_eq, shownRefs_eq]
    exact (hperm.map _).filter _

/-! ## Calls for a repository -/

/-- `saveRef` is called with the record at an address. -/
inductive RefCall where
  | saveRef (now : Time) (pointer : Pointer)
  | updateRef (now : Time) (name newHash : GoString)
  | deleteRef (name : GoString)
  | deleteRepository (order : RangeOrder)

namespace RefCall

def perform (repoID : GoString) (p : Process) : RefCall → Process
  | saveRef now pointer => (Process.saveRef now repoID pointer p).2
  | updateRef now name newHash =>
    (Process.updateRef now repoID name newHash p).2
  | deleteRef name => (Process.deleteRef repoID name p).2
  | deleteRepository order => (Process.deleteRepository order repoID p).2

def record (repoID : GoString) (p : Process) : RefCall → Option (Pointer × GoString)
  | saveRef _ pointer =>
    some (pointer, refKey repoID (p.records.references pointer).name)
  | updateRef _ name _ =>
    (p.store.refs.lookup (refKey repoID name)).map fun pointer =>
      (pointer, refKey repoID name)
  | deleteRef _ => none
  | deleteRepository _ => none

/-- The record that the call writes to is under no other key of the other
repository. -/
def Unshared (a b : GoString) (p : Process) (call : RefCall) : Prop :=
  ∀ pointer own, call.record a p = some (pointer, own) →
    ∀ key, Owns b key → p.store.refs.lookup key = some pointer → key = own

end RefCall

theorem lookup_refs_deleteRepository (id : GoString) (p : Process) (key : GoString) :
    (Process.deleteRepository order id p).2.store.refs.lookup key =
      if p.store.repositories.contains id = true ∧ Owns id key then none
      else p.store.refs.lookup key := by
  unfold Process.deleteRepository
  split_ifs with hexists hboth hboth
  · exact GoMap.lookup_erase_where.trans (if_pos hboth.2)
  · refine GoMap.lookup_erase_where.trans (if_neg ?_)
    exact fun howns => hboth ⟨hexists, howns⟩
  · exact absurd hboth.1 hexists
  · rfl

namespace RefCall

variable {a b : GoString} {p : Process} {key : GoString}

theorem refAt_setReference (hother : p.store.refs.lookup key ≠ some pointer) :
    (p.setReference pointer ref).refAt key = p.refAt key := by
  unfold Process.refAt
  cases hlookup : p.store.refs.lookup key with
  | none =>
    change (p.store.refs.lookup key).map _ = _
    rw [hlookup]
    rfl
  | some found =>
    change (p.store.refs.lookup key).map (Function.update p.records.references pointer ref) = _
    have hne : found ≠ pointer := by
      rintro rfl
      exact hother hlookup
    rw [hlookup, Option.map_some, Option.map_some, Function.update_of_ne hne]

theorem refAt_perform {call : RefCall} (hunshared : call.Unshared a b p)
    (hb : Owns b key) (ha : ¬ Owns a key) :
    (call.perform a p).refAt key = p.refAt key := by
  have hne : ∀ name, key ≠ refKey a name := by
    rintro name rfl
    exact ha (owns_refKey)
  cases call with
  | saveRef now pointer =>
    have hother : p.store.refs.lookup key ≠ some pointer :=
      fun hlookup => hne _ (hunshared _ _ rfl key hb hlookup)
    rw [← refAt_setReference hother]
    exact congrArg (Option.map _) (AList.lookup_insert_ne (hne _))
  | updateRef now name newHash =>
    change (Process.updateRef now a name newHash p).2.refAt key = _
    unfold Process.updateRef
    cases hlookup : p.store.refs.lookup (refKey a name) with
    | none => rfl
    | some pointer =>
      apply refAt_setReference
      intro hfound
      apply hne name
      apply hunshared pointer _ _ key hb hfound
      change (p.store.refs.lookup (refKey a name)).map _ = _
      rw [hlookup, Option.map_some]
  | deleteRef name =>
    change (Process.deleteRef a name p).2.refAt key = _
    unfold Process.deleteRef
    split_ifs with hexists
    · exact congrArg (Option.map _) (AList.lookup_erase_ne (hne name))
    · rfl
  | deleteRepository order =>
    have hlookup : (Process.deleteRepository order a p).2.store.refs.lookup
        key = p.store.refs.lookup key := by
      rw [lookup_refs_deleteRepository, if_neg fun hboth => ha hboth.2]
    have hrecords : (Process.deleteRepository order a p).2.records = p.records := by
      unfold Process.deleteRepository
      split_ifs with hexists
      · rfl
      · rfl
    change (Process.deleteRepository order a p).2.refAt key = _
    unfold Process.refAt
    rw [hlookup, hrecords]

end RefCall

theorem refKey_eq_of_nested (hnested : Nested a b) :
    ∃ name other, refKey a name = refKey b other := by
  unfold Nested at hnested
  simp only [hasPrefix_iff] at hnested
  unfold refKey
  rcases hnested with ⟨rest, rfl⟩ | ⟨rest, rfl⟩
  · exact ⟨rest ++ str ":", [], by simp⟩
  · exact ⟨[], rest ++ str ":", by simp⟩

def oneRef (repoID key : GoString) : Process where
  records := .zero
  store :=
    { MemoryStore.new 0 with
      repositories := AList.insert repoID 0 ∅
      refs := AList.insert key 0 ∅ }

theorem refAt_oneRef : (oneRef repoID key).refAt key = some (Records.zero.references 0) := by
  unfold Process.refAt oneRef
  rw [AList.lookup_insert, Option.map_some]

theorem refAt_deleteRef_oneRef (hkey : refKey a name = key) :
    ((RefCall.deleteRef name).perform a (oneRef repoID key)).refAt key = none := by
  change (Process.deleteRef a name (oneRef repoID key)).2.refAt key = none
  have hexists : (oneRef repoID key).store.refs.contains (refKey a name) = true := by
    unfold oneRef GoMap.contains
    rw [hkey, AList.lookup_insert]
    rfl
  unfold Process.deleteRef
  rw [if_pos hexists, hkey]
  simp [Process.refAt]

/-- The calls for one repository leave the references of the other alone, in
every store, if and only if the identifiers are not nested. -/
theorem refs_isolated_iff {a b : GoString} (hne : a ≠ b) :
    (∀ (p : Process) (call : RefCall), call.Unshared a b p →
      SameRefs b p (call.perform a p)) ↔ ¬ Nested a b := by
  constructor
  · intro hisolated hnested
    obtain ⟨name, other, hkey⟩ := refKey_eq_of_nested hnested
    -- The key is deleted for the one repository and missed by the other.
    have hunshared : (RefCall.deleteRef name).Unshared a b (oneRef a (refKey b other)) := by
      intro pointer own hrecord
      cases hrecord
    have hsame := (hisolated _ _ hunshared).get other
    rw [shownRef_eq, shownRef_eq, refAt_oneRef, refAt_deleteRef_oneRef hkey] at hsame
    cases hsame
  · intro hapart p call hunshared
    apply sameRefs_of_refAt
    intro key hb
    apply RefCall.refAt_perform hunshared hb
    exact fun ha => hapart (nested_of_owns hne ha hb)

theorem refs_isolated_iff_plain :
    (∀ (p : Process) (call : RefCall), call.Unshared (str "x") (str "y") p →
      SameRefs (str "y") p (call.perform (str "x") p)) ↔
      ¬ Nested (str "x") (str "y") :=
  refs_isolated_iff (by decide)

/-- The references of `x:y` go with the repository `x`. -/
theorem refs_deleted_with_other :
    ¬ SameRefs (str "x:y") (oneRef (str "x") (str "x:y:main"))
      ((RefCall.deleteRepository .inserted).perform (str "x")
        (oneRef (str "x") (str "x:y:main"))) := by
  intro hsame
  have hget := hsame.get (str "main")
  revert hget
  decide +kernel

end Govc.Datastore
