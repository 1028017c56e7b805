import Govc.CommitLoops

/-!
# What `Commit` publishes

`Commit` stops at the first save that fails and leaves what it saved before.
Where no save can fail and the keys were used with care, the tables are
afterwards what the changes of the transaction make of them, the indexes of the
users are exact and the records that were saved have new times; nothing else is
changed.
-/

namespace Govc.Datastore

open Go GoMap

namespace Tracks

variable {p : Process} {s : Session} {done : List Change}

theorem bind_pick_of_deletes (h : Tracks p s done) {β : Type} {kind : Kind}
    {pick : Queued → Option β} (hpick : Picks kind pick) {key : GoString}
    (hdeletes : s.tx.Deletes kind key) :
    (s.tx.mutations.lookup key).bind pick = none := by
  cases hlookup : s.tx.mutations.lookup key with
  | none => rfl
  | some value =>
    apply hpick.other
    rintro rfl
    exact h.exclusive key value hlookup hdeletes

theorem layer_eq (h : Tracks p s done) {β : Type} {kind : Kind}
    {pick : Queued → Option β} (hpick : Picks kind pick)
    {table : GoString → Option β} {key : GoString} :
    (if s.tx.Deletes kind key then none
      else ((s.tx.mutations.lookup key).bind pick).or (table key)) =
        s.tx.layer kind pick table key := by
  unfold MemoryTransaction.layer
  split_ifs with hdeletes
  · rw [h.bind_pick_of_deletes hpick hdeletes]
    rfl
  · rfl

theorem tables_loops (h : Tracks p s done) {saves deletes : RangeOrder}
    {seen : Tables × List Pointer} :
    (s.tx.deleted.range deletes).foldl dropEntry
        ((s.tx.mutations.range saves).foldl saveEntry seen).1 =
      s.tx.overlay seen.1 := by
  apply Tables.ext
  case objects =>
    funext key
    rw [get_foldl_dropEntry deletes _ _ key
      fun t entry key => objects_dropEntry t key entry, objects_saveEntry]
    exact h.layer_eq picks_asObject
  case repositories =>
    funext key
    rw [get_foldl_dropEntry deletes _ _ key
      fun t entry key => repositories_dropEntry t key entry,
      repositories_saveEntry]
    exact h.layer_eq picks_asRepository
  case users =>
    have hnever : ∀ key, ¬ s.tx.Deletes .user key :=
      fun key hdeletes => shape_ne_user key hdeletes.2
    funext key
    rw [foldl_field users_dropEntry, users_saveEntry]
    exact (if_neg (hnever key)).symm.trans (h.layer_eq picks_asUser)
  case refs =>
    have hgone : ∀ key,
        (∃ entry ∈ s.tx.deleted.range deletes,
          Takes ((s.tx.mutations.range saves).foldl saveEntry seen).1 entry key) ↔
          s.tx.Sweeps seen.1 key ∨ s.tx.Deletes .reference key := by
      intro key
      constructor
      · rintro ⟨⟨own, value⟩, hmem, hvalue, hcases⟩
        rw [mem_range] at hmem
        have htrue : value = true := hvalue
        rw [htrue] at hmem
        rcases hcases with ⟨hshape, hkey⟩ | ⟨hshape, hthere, howns⟩
        · have hown : own = key := hkey
          rw [hown] at hmem hshape
          exact .inr ⟨hmem, hshape⟩
        · have hdeletes : s.tx.Deletes .repository own := ⟨hmem, hshape⟩
          rw [repositories_saveEntry, h.bind_pick_of_deletes picks_asRepository hdeletes,
            Option.none_or] at hthere
          exact .inl ⟨own, hdeletes, hthere, howns⟩
      · rintro (⟨id, hdeletes, hthere, howns⟩ | hdeletes)
        · refine ⟨(id, true), (mem_range _ _ _).mpr hdeletes.1, rfl, .inr ⟨hdeletes.2, ?_, howns⟩⟩
          rw [repositories_saveEntry, h.bind_pick_of_deletes picks_asRepository hdeletes,
            Option.none_or]
          exact hthere
        · exact ⟨(key, true), (mem_range _ _ _).mpr hdeletes.1, rfl, .inl ⟨hdeletes.2, rfl⟩⟩
    rw [refs_foldl_dropEntry _ (range_keys_nodup deletes _), without_congr hgone]
    funext key
    change _ = without (s.tx.Sweeps seen.1)
      (s.tx.layer .reference Queued.asReference seen.1.refs) key
    by_cases hswept : s.tx.Sweeps seen.1 key
    · rw [without_of (.inl hswept), without_of hswept]
    · rw [without_of_not hswept, ← h.layer_eq picks_asReference]
      by_cases hdeletes : s.tx.Deletes .reference key
      · rw [without_of (.inr hdeletes), if_pos hdeletes]
      · rw [without_of_not (not_or.mpr ⟨hswept, hdeletes⟩), if_neg hdeletes, refs_saveEntry]
  case config =>
    funext key
    rw [get_foldl_dropEntry deletes _ _ key
      fun t entry key => config_dropEntry t key entry, config_saveEntry]
    exact h.layer_eq picks_asConfig

end Tracks

/-- What `Commit` should do: the changes are made, the indexes of the users are
exact, the records that were saved have new times, and the events of the
changes were logged in some order. -/
structure Published (before after : Process) (changes : List Change) :
    Prop where
  tables : after.tables = changes.foldl Change.apply before.tables
  indexes : Consistent after
  records : Restamped (fun pointer => ∃ id, Change.saveRepository id pointer ∈ changes)
    (fun pointer => ∃ id, Change.saveUser id pointer ∈ changes)
    (fun pointer => ∃ repoID name,
      Change.saveRef repoID name pointer ∈ changes)
    (fun pointer => ∃ id, Change.logEvent id pointer ∈ changes)
    before.records after.records
  events : ∃ entries : List (GoString × Pointer), entries.Perm (changes.filterMap Change.event) ∧
    after.store.events =
      entries.foldl (fun events entry => logged events entry.2) before.store.events
  excess : after.store.excess = before.store.excess
  limit : after.store.maxSize = before.store.maxSize
  running : after.store.closed = before.store.closed

namespace Tracks

variable {p : Process} {s : Session} {done : List Change}

theorem restamped (h : Tracks p s done)
    (hrecords : Restamped (s.tx.Queues .repository) (s.tx.Queues .user)
      (s.tx.Queues .reference) (s.tx.Queues .event) before after) :
    Restamped (fun pointer => ∃ id, Change.saveRepository id pointer ∈ done)
      (fun pointer => ∃ id, Change.saveUser id pointer ∈ done)
      (fun pointer => ∃ repoID name,
        Change.saveRef repoID name pointer ∈ done)
      (fun pointer => ∃ id, Change.logEvent id pointer ∈ done)
      before after := by
  constructor
  case repositories =>
    apply hrecords.repositories.weaken
    rintro pointer ⟨key, hlookup⟩
    obtain ⟨c, hmem, -, hsaved⟩ := h.recorded key _ hlookup
    cases c with
    | saveRepository id found => cases hsaved; exact ⟨id, hmem⟩
    | _ => cases hsaved
  case users =>
    apply hrecords.users.weaken
    rintro pointer ⟨key, hlookup⟩
    obtain ⟨c, hmem, -, hsaved⟩ := h.recorded key _ hlookup
    cases c with
    | saveUser id found => cases hsaved; exact ⟨id, hmem⟩
    | _ => cases hsaved
  case references =>
    apply hrecords.references.weaken
    rintro pointer ⟨key, hlookup⟩
    obtain ⟨c, hmem, -, hsaved⟩ := h.recorded key _ hlookup
    cases c with
    | saveRef repoID name found => cases hsaved; exact ⟨repoID, name, hmem⟩
    | _ => cases hsaved
  case events =>
    apply hrecords.events.weaken
    rintro pointer ⟨key, hlookup⟩
    obtain ⟨c, hmem, -, hsaved⟩ := h.recorded key _ hlookup
    cases c with
    | logEvent id found => cases hsaved; exact ⟨id, hmem⟩
    | _ => cases hsaved

theorem publish (h : Tracks p s done) (hready : s.Ready) (run : Session.CommitRun) :
    ∃ after, Session.publish run s.tx s.process = (.ok (), after) ∧
      Published s.process after done := by
  have hsave : ∀ entry ∈ s.tx.mutations.range run.saves, ∀ q, Saving s q →
      Saves s q entry (Session.applyMutation (run.stamps entry.1) entry.1 entry.2) := by
    rintro ⟨key, value⟩ hmem q hq
    have hlookup := (mem_range _ _ _).mp hmem
    exact hq.applyMutation hready _ (h.filed key value hlookup) hlookup
  obtain ⟨middle, hsaves, hsaving, hseen⟩ :=
    GoM.Triple.forEach_simulates hsave (Saving.start hready)
  have hdelete : ∀ entry ∈ s.tx.deleted.range run.deletes, ∀ q, Dropping middle q →
      Drops middle q (dropEntry q.tables entry)
        (if entry.2 then Session.applyDeletion run.refs entry.1
          else pure ()) :=
    fun entry _ q hq => hq.pass run.refs
  obtain ⟨last, hdeletes, hdropping, htables⟩ :=
    GoM.Triple.forEach_simulates hdelete (Dropping.refl middle)
  have hmiddle : middle.tables =
      ((s.tx.mutations.range run.saves).foldl saveEntry s.process.seen).1 :=
    congrArg Prod.fst hseen
  refine ⟨last, ?_, ?_⟩
  · unfold Session.publish
    rw [GoM.bind_of_ok hsaves]
    exact hdeletes
  constructor
  case tables =>
    rw [htables, hmiddle, h.tables_loops]
    change s.tx.overlay s.process.tables = _
    rw [h.tables_eq]
    exact h.overlay
  case indexes =>
    exact Saving.consistent_congr hsaving.consistent
      (congrArg Records.users hdropping.records) hdropping.users
      hdropping.names hdropping.emails
  case records =>
    rw [hdropping.records]
    exact h.restamped hsaving.records
  case events =>
    refine ⟨_, h.events_perm run.saves, ?_⟩
    rw [hdropping.events]
    exact (congrArg Prod.snd hseen).trans (events_saveEntry _)
  case excess => exact hdropping.excess.trans hsaving.excess
  case limit => exact hdropping.limit.trans hsaving.limit
  case running =>
    rw [hdropping.running, hsaving.running, hready.running]

end Tracks

/-- A commit that returns has made the changes, and one that returns an error
has changed nothing. -/
def AllOrNothing (run : Session.CommitRun) (changes : List Change) (s : Session) : Prop :=
  (∀ after, Session.commit run s = (.ok (), after) → Published s.process after.process changes) ∧
    ∀ e after, Session.commit run s = (.error e, after) → after.process = s.process

theorem Session.commit_of_closed (hclosed : s.tx.closed = true)
    : ∃ e, commit run s = (.error e, s) := by
  unfold MemoryTransaction.closed at hclosed
  unfold commit
  by_cases hcommitted : s.tx.committed = true
  · exact ⟨_, if_pos hcommitted⟩
  · rw [if_neg hcommitted]
    rw [Bool.eq_false_of_not_eq_true hcommitted, Bool.false_or] at hclosed
    exact ⟨_, if_pos hclosed⟩

theorem Session.commit_of_publish (hopen : s.tx.closed = false)
    (hpublish : publish run s.tx s.process = (.ok (), after)) :
    commit run s = (.ok (), ⟨after, { s.tx with committed := true }⟩) := by
  unfold MemoryTransaction.closed at hopen
  rw [Bool.or_eq_false_iff] at hopen
  have hzoom : GoM.zoom Session.process (fun s p => { s with process := p })
      (publish run s.tx) s = (.ok (), { s with process := after }) := by
    rw [GoM.zoom_apply, hpublish]
  unfold commit
  rw [if_neg (Bool.eq_false_iff.mp hopen.1),
    if_neg (Bool.eq_false_iff.mp hopen.2), GoM.bind_of_ok hzoom]
  rfl

def plainRun : Session.CommitRun := ⟨.inserted, .inserted, .inserted, fun _ => ⟨str "uuid", 1, 1⟩⟩

def configured : Process := (Process.setConfig (str "old") (str "0") ⟨.zero, .new 1000⟩).2

def oneUser : Process :=
  (Process.saveUser ⟨str "uuid", 1, 1⟩ 0
    ⟨{ Records.zero with
        users := fun _ =>
          { User.zero with
            id := str "u", username := str "eve", email := str "e" } },
      .new 1000⟩).2

end Govc.Datastore
