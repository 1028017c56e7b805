import Govc.DatastoreTransaction
import Govc.RefIsolation

/-!
# The changes of a transaction

What the operations of a transaction are for: changes of tables.  `overlay` is
what the queue makes of the tables.  The two agree if no key is used for two
kinds of records, a key is only deleted as the kind that it is taken for, and
what was deleted is not saved again, objects apart.
-/

namespace Govc.Datastore

open Go

inductive Kind where
  | object
  | repository
  | user
  | reference
  | event
  | config
  deriving DecidableEq

def Queued.kind : Queued → Kind
  | object _ => .object
  | repository _ => .repository
  | user _ => .user
  | reference _ => .reference
  | event _ => .event
  | config .. => .config

def Queued.asConfig : Queued → Option GoString
  | config _ value => some value
  | _ => none

def Queued.asEvent : Queued → Option Pointer
  | event pointer => some pointer
  | _ => none

/-- What `Commit` takes a deleted key for; never for that of a user. -/
def shape (key : GoString) : Kind :=
  if Session.isObjectKey key then .object
  else if Session.isRepoKey key then .repository
  else if (Session.splitRefKey key).isSome then .reference
  else .config

theorem shape_ne_user (key : GoString) : shape key ≠ .user := by
  unfold shape
  split_ifs with hobject hrepo href
  all_goals exact Kind.noConfusion

/-! ## Tables -/

@[ext]
structure Tables where
  objects : GoString → Option Bytes
  repositories : GoString → Option Pointer
  users : GoString → Option Pointer
  refs : GoString → Option Pointer
  config : GoString → Option GoString

def Process.tables (p : Process) : Tables where
  objects := fun hash => p.store.objects.lookup hash
  repositories := fun id => p.store.repositories.lookup id
  users := fun id => p.store.users.lookup id
  refs := fun key => p.store.refs.lookup key
  config := fun key => p.store.config.lookup key

inductive Change where
  | putObject (hash : GoString) (data : Bytes)
  | deleteObject (hash : GoString)
  | saveRepository (id : GoString) (pointer : Pointer)
  | deleteRepository (id : GoString)
  | saveUser (id : GoString) (pointer : Pointer)
  | deleteUser (id : GoString)
  | saveRef (repoID name : GoString) (pointer : Pointer)
  | deleteRef (repoID name : GoString)
  | logEvent (id : GoString) (pointer : Pointer)
  | setConfig (key value : GoString)
  | deleteConfig (key : GoString)
  deriving DecidableEq

namespace Change

def key : Change → GoString
  | putObject hash _ => hash
  | deleteObject hash => hash
  | saveRepository id _ => id
  | deleteRepository id => id
  | saveUser id _ => id
  | deleteUser id => id
  | saveRef repoID name _ => Process.refKey repoID name
  | deleteRef repoID name => Process.refKey repoID name
  | logEvent id _ => id
  | setConfig key _ => key
  | deleteConfig key => key

def kind : Change → Kind
  | putObject .. => .object
  | deleteObject _ => .object
  | saveRepository .. => .repository
  | deleteRepository _ => .repository
  | saveUser .. => .user
  | deleteUser _ => .user
  | saveRef .. => .reference
  | deleteRef .. => .reference
  | logEvent .. => .event
  | setConfig .. => .config
  | deleteConfig _ => .config

def saved : Change → Option Queued
  | putObject _ data => some (.object data)
  | deleteObject _ => none
  | saveRepository _ pointer => some (.repository pointer)
  | deleteRepository _ => none
  | saveUser _ pointer => some (.user pointer)
  | deleteUser _ => none
  | saveRef _ _ pointer => some (.reference pointer)
  | deleteRef .. => none
  | logEvent _ pointer => some (.event pointer)
  | setConfig key value => some (.config key value)
  | deleteConfig _ => none

def sweep (id : GoString) (t : Tables) : GoString → Option Pointer := fun key =>
  if (t.repositories id).isSome = true ∧ Owns id key then none else t.refs key

def apply (t : Tables) : Change → Tables
  | putObject hash data =>
    { t with objects := Function.update t.objects hash (some data) }
  | deleteObject hash =>
    { t with objects := Function.update t.objects hash none }
  | saveRepository id pointer =>
    { t with repositories := Function.update t.repositories id (some pointer) }
  | deleteRepository id =>
    { t with
      repositories := Function.update t.repositories id none
      refs := sweep id t }
  | saveUser id pointer =>
    { t with users := Function.update t.users id (some pointer) }
  | deleteUser id => { t with users := Function.update t.users id none }
  | saveRef repoID name pointer =>
    { t with
      refs := Function.update t.refs (Process.refKey repoID name) (some pointer) }
  | deleteRef repoID name =>
    { t with
      refs := Function.update t.refs (Process.refKey repoID name) none }
  | logEvent .. => t
  | setConfig key value =>
    { t with config := Function.update t.config key (some value) }
  | deleteConfig key => { t with config := Function.update t.config key none }

def enqueue (c : Change) (tx : MemoryTransaction) : MemoryTransaction :=
  match c.saved with
  | none => tx.delete c.key
  | some (.object data) => tx.put c.key data
  | some value => tx.save c.key value

theorem kind_of_saved {c : Change} {value : Queued}
    (hsaved : c.saved = some value) : value.kind = c.kind := by
  cases c with
  | deleteObject hash => cases hsaved
  | deleteRepository id => cases hsaved
  | deleteUser id => cases hsaved
  | deleteRef repoID name => cases hsaved
  | deleteConfig key => cases hsaved
  | _ => cases hsaved; rfl

end Change

/-! ## Keys -/

/-- The key is deleted, and is taken for that of a record of the kind. -/
def MemoryTransaction.Deletes (tx : MemoryTransaction) (kind : Kind) (key : GoString) : Prop :=
  tx.deleted.lookup key = some true ∧ shape key = kind

instance decidableDeletes (tx : MemoryTransaction) (kind : Kind)
    (key : GoString) : Decidable (tx.Deletes kind key) :=
  inferInstanceAs (Decidable (_ ∧ _))

def Change.Fits (s : Session) : Change → Prop
  | saveRepository id _ => id ≠ []
  | saveUser id _ => id ≠ []
  -- The repository is the part of the key before its first colon, and it is
  -- not deleted with its references.
  | saveRef repoID name _ => repoID ≠ [] ∧ 58 ∉ repoID ∧
      ∀ id, s.tx.Deletes .repository id → s.process.store.repositories.contains id = true →
        ¬ Owns id (Process.refKey repoID name)
  -- A repository that is only in the queue does not take its references away.
  | deleteRepository id => s.tx.mutations.contains id = true →
      s.process.store.repositories.contains id = true
  | logEvent id _ => s.tx.mutations.contains id = false
  | _ => True

structure Change.Keyed (s : Session) (c : Change) : Prop where
  /-- The key is used for one kind of records. -/
  own : ∀ value, s.tx.mutations.lookup c.key = some value → value.kind = c.kind
  /-- A key is deleted as what it is taken for. -/
  shaped : c.saved = none → shape c.key = c.kind
  /-- An object that is put cancels the deletion of an object. -/
  revived : c.kind = .object → c.saved ≠ none →
    s.tx.deleted.lookup c.key = some true → shape c.key = .object
  /-- Nothing else is saved after it was deleted. -/
  kept : c.kind ≠ .object → c.saved ≠ none → ¬ s.tx.Deletes c.kind c.key
  fits : c.Fits s

namespace Change

variable {c : Change} {s : Session} {kind : Kind} {key : GoString}

theorem lookup_mutations_enqueue (c : Change) (tx : MemoryTransaction) (key : GoString) :
    (c.enqueue tx).mutations.lookup key =
      if key = c.key then c.saved else tx.mutations.lookup key := by
  have hput : ∀ value,
      (tx.mutations.insert c.key value).lookup key =
        if key = c.key then some value else tx.mutations.lookup key :=
    fun value => GoMap.lookup_insert_eq _ _ _ _
  unfold enqueue
  cases hsaved : c.saved with
  | none => exact GoMap.lookup_erase_eq
  | some value =>
    cases value <;> exact hput _

theorem lookup_deleted_enqueue (c : Change) (tx : MemoryTransaction) (key : GoString) :
    (c.enqueue tx).deleted.lookup key =
      if key = c.key then
        if c.saved = none then some true
        else if c.kind = .object then none
        else tx.deleted.lookup key
      else tx.deleted.lookup key := by
  have hkind : ∀ value, c.saved = some value → value.kind = c.kind :=
    fun _ hsaved => kind_of_saved hsaved
  unfold enqueue
  cases hsaved : c.saved with
  | none =>
    exact GoMap.lookup_insert_eq _ _ _ _
  | some value =>
    have hvalue := hkind value hsaved
    rw [if_neg (Option.some_ne_none value), ← hvalue]
    cases value with
    | object data => exact GoMap.lookup_erase_eq
    | _ => simp [MemoryTransaction.save, Queued.kind]

theorem Keyed.deletes_other (h : c.Keyed s) (hkind : kind ≠ c.kind) :
    (c.enqueue s.tx).Deletes kind key ↔ s.tx.Deletes kind key := by
  unfold MemoryTransaction.Deletes
  rw [lookup_deleted_enqueue]
  split_ifs with hkey hsaved hobject
  · have hne : shape key ≠ kind := by
      rw [hkey, h.shaped hsaved]
      exact hkind.symm
    exact ⟨fun hboth => absurd hboth.2 hne, fun hboth => absurd hboth.2 hne⟩
  · constructor
    · rintro ⟨hnone, -⟩
      cases hnone
    · rintro ⟨hdeleted, hshape⟩
      rw [hkey] at hdeleted hshape
      rw [h.revived hobject hsaved hdeleted, ← hobject] at hshape
      exact absurd hshape.symm hkind
  · exact Iff.rfl
  · exact Iff.rfl

theorem Keyed.deletes_own (h : c.Keyed s) (hsaved : c.saved = none) :
    (c.enqueue s.tx).Deletes c.kind key ↔ key = c.key ∨ s.tx.Deletes c.kind key := by
  unfold MemoryTransaction.Deletes
  rw [lookup_deleted_enqueue]
  by_cases hkey : key = c.key
  · rw [if_pos hkey, if_pos hsaved, hkey]
    simp [h.shaped hsaved]
  · simp [hkey]

theorem deletes_save (hsaved : c.saved ≠ none) (hobject : c.kind ≠ .object) :
    (c.enqueue s.tx).Deletes kind key ↔ s.tx.Deletes kind key := by
  unfold MemoryTransaction.Deletes
  rw [lookup_deleted_enqueue, if_neg hsaved, if_neg hobject]
  split_ifs with hkey
  · exact Iff.rfl
  · exact Iff.rfl

end Change

/-! ## What the queue makes of the tables -/

/-- The table of one kind: what is saved, without what is deleted. -/
def MemoryTransaction.layer {β : Type} (tx : MemoryTransaction) (kind : Kind)
    (pick : Queued → Option β) (table : GoString → Option β) :
    GoString → Option β := fun key =>
  ((tx.mutations.lookup key).bind pick).or (if tx.Deletes kind key then none else table key)

structure Picks {β : Type} (kind : Kind) (pick : Queued → Option β) : Prop where
  own : ∀ value : Queued, value.kind = kind → (pick value).isSome = true
  other : ∀ value : Queued, value.kind ≠ kind → pick value = none

variable {β : Type}

theorem picks_of_isSome {kind : Kind} {pick : Queued → Option β}
    (hpick : ∀ value, (pick value).isSome = decide (value.kind = kind)) :
    Picks kind pick where
  own value hkind := by simp [hpick, hkind]
  other value hkind := by
    rw [← Option.not_isSome_iff_eq_none, hpick]
    simp [hkind]

theorem picks_asObject : Picks .object Queued.asObject := by
  apply picks_of_isSome
  intro value
  cases value <;> rfl

theorem picks_asRepository : Picks .repository Queued.asRepository := by
  apply picks_of_isSome
  intro value
  cases value <;> rfl

theorem picks_asUser : Picks .user Queued.asUser := by
  apply picks_of_isSome
  intro value
  cases value <;> rfl

theorem picks_asReference : Picks .reference Queued.asReference := by
  apply picks_of_isSome
  intro value
  cases value <;> rfl

theorem picks_asConfig : Picks .config Queued.asConfig := by
  apply picks_of_isSome
  intro value
  cases value <;> rfl

section

variable {β : Type} {pick : Queued → Option β} {kind : Kind} {c : Change}
  {s : Session} (table : GoString → Option β)

theorem Change.Keyed.bind_pick_other (h : c.Keyed s) (hpick : Picks kind pick)
    (hkind : kind ≠ c.kind) :
    c.saved.bind pick = none ∧ (s.tx.mutations.lookup c.key).bind pick = none := by
  constructor
  · cases hsaved : c.saved with
    | none => rfl
    | some value =>
      apply hpick.other
      rw [Change.kind_of_saved hsaved]
      exact hkind.symm
  · cases hlookup : s.tx.mutations.lookup c.key with
    | none => rfl
    | some value =>
      apply hpick.other
      rw [h.own value hlookup]
      exact hkind.symm

theorem Change.Keyed.layer_other (h : c.Keyed s) (hpick : Picks kind pick) (hkind : kind ≠ c.kind) :
    (c.enqueue s.tx).layer kind pick table = s.tx.layer kind pick table := by
  obtain ⟨hsaved, hold⟩ := h.bind_pick_other hpick hkind
  funext key
  unfold MemoryTransaction.layer
  simp only [h.deletes_other hkind]
  rw [Change.lookup_mutations_enqueue]
  split_ifs with hkey hdeletes hdeletes
  · rw [hkey, hsaved, hold]
  · rw [hkey, hsaved, hold]
  · rfl
  · rfl

theorem Change.Keyed.layer_own (h : c.Keyed s) (hpick : Picks c.kind pick) :
    (c.enqueue s.tx).layer c.kind pick table =
      Function.update (s.tx.layer c.kind pick table) c.key (c.saved.bind pick) := by
  funext key
  unfold MemoryTransaction.layer
  rw [Change.lookup_mutations_enqueue]
  by_cases hkey : key = c.key
  · rw [if_pos hkey, hkey, Function.update_self]
    cases hsaved : c.saved with
    | none =>
      rw [if_pos ((h.deletes_own hsaved).mpr (.inl rfl))]
      rfl
    | some value =>
      obtain ⟨b, hb⟩ := Option.isSome_iff_exists.mp (hpick.own value (Change.kind_of_saved hsaved))
      rw [Option.bind_some, hb, Option.some_or]
  · have hdeletes : (c.enqueue s.tx).Deletes c.kind key ↔ s.tx.Deletes c.kind key := by
      unfold MemoryTransaction.Deletes
      rw [Change.lookup_deleted_enqueue, if_neg hkey]
    rw [if_neg hkey, Function.update_of_ne hkey]
    simp only [hdeletes]

end

/-- The reference goes with a repository of the tables that is deleted. -/
def MemoryTransaction.Sweeps (tx : MemoryTransaction) (t : Tables) (key : GoString) : Prop :=
  ∃ id, tx.Deletes .repository id ∧ (t.repositories id).isSome = true ∧ Owns id key

open Classical in
/-- A table without some of its keys. -/
noncomputable def without {β : Type} (gone : GoString → Prop)
    (table : GoString → Option β) : GoString → Option β := fun key =>
  if gone key then none else table key

variable {gone : GoString → Prop}

theorem without_of {key : GoString}
    (hgone : gone key) (table : GoString → Option β) :
    without gone table key = none :=
  if_pos hgone

theorem without_of_not {key : GoString}
    (hkept : ¬ gone key) (table : GoString → Option β) :
    without gone table key = table key :=
  if_neg hkept

theorem without_congr {other : GoString → Prop}
    (hsame : ∀ key, gone key ↔ other key) (table : GoString → Option β) :
    without gone table = without other table := by
  have heq : gone = other := funext fun key => propext (hsame key)
  rw [heq]

/-- The tables with the queue laid over them. -/
noncomputable def MemoryTransaction.overlay (tx : MemoryTransaction) (t : Tables) : Tables where
  objects := tx.layer .object Queued.asObject t.objects
  repositories := tx.layer .repository Queued.asRepository t.repositories
  users := tx.layer .user Queued.asUser t.users
  refs := without (tx.Sweeps t) (tx.layer .reference Queued.asReference t.refs)
  config := tx.layer .config Queued.asConfig t.config

theorem overlay_empty (t : Tables) : MemoryTransaction.overlay ⟨∅, ∅, false, false⟩ t = t := by
  have hdeletes : ∀ kind key, ¬ MemoryTransaction.Deletes ⟨∅, ∅, false, false⟩ kind key := by
    rintro kind key ⟨hdeleted, -⟩
    cases hdeleted
  have hlayer : ∀ {β : Type} (kind : Kind) (pick : Queued → Option β) (table : GoString → Option β),
      MemoryTransaction.layer ⟨∅, ∅, false, false⟩ kind pick table = table := by
    intro β kind pick table
    rfl
  have hsweeps : ∀ key, ¬ MemoryTransaction.Sweeps ⟨∅, ∅, false, false⟩ t key := by
    rintro key ⟨id, hid, -⟩
    exact hdeletes _ id hid
  unfold MemoryTransaction.overlay
  simp only [hlayer]
  have hrefs : without (MemoryTransaction.Sweeps ⟨∅, ∅, false, false⟩ t) t.refs = t.refs :=
    funext fun key => without_of_not (hsweeps key) t.refs
  rw [hrefs]

namespace Change.Keyed

variable {c : Change} {s : Session} {t : Tables}

theorem sweeps_other (h : c.Keyed s) (hkind : c.kind ≠ .repository)
    (key : GoString) : (c.enqueue s.tx).Sweeps t key ↔ s.tx.Sweeps t key := by
  unfold MemoryTransaction.Sweeps
  simp only [h.deletes_other hkind.symm]

theorem overlay_other (h : c.Keyed s) :
    (c.kind ≠ .object → ((c.enqueue s.tx).overlay t).objects = (s.tx.overlay t).objects) ∧
      (c.kind ≠ .repository → ((c.enqueue s.tx).overlay t).repositories =
        (s.tx.overlay t).repositories) ∧
      (c.kind ≠ .user → ((c.enqueue s.tx).overlay t).users = (s.tx.overlay t).users) ∧
      (c.kind ≠ .reference → c.kind ≠ .repository →
        ((c.enqueue s.tx).overlay t).refs = (s.tx.overlay t).refs) ∧
      (c.kind ≠ .config → ((c.enqueue s.tx).overlay t).config = (s.tx.overlay t).config) := by
  refine ⟨?_, ?_, ?_, ?_, ?_⟩
  · exact fun hkind => h.layer_other _ picks_asObject hkind.symm
  · exact fun hkind => h.layer_other _ picks_asRepository hkind.symm
  · exact fun hkind => h.layer_other _ picks_asUser hkind.symm
  · intro hkind hrepository
    unfold MemoryTransaction.overlay
    rw [without_congr (h.sweeps_other hrepository), h.layer_other _ picks_asReference hkind.symm]
  · exact fun hkind => h.layer_other _ picks_asConfig hkind.symm

theorem refs_overlay (h : c.Keyed s) (hkind : c.kind = .reference)
    (hunswept : c.saved ≠ none → ¬ s.tx.Sweeps t c.key) :
    ((c.enqueue s.tx).overlay t).refs =
      Function.update (s.tx.overlay t).refs c.key (c.saved.bind Queued.asReference) := by
  have hown := h.layer_own t.refs (hkind ▸ picks_asReference)
  rw [hkind] at hown
  have hrepository : c.kind ≠ .repository := by
    rw [hkind]
    exact Kind.noConfusion
  unfold MemoryTransaction.overlay
  dsimp only
  rw [without_congr (h.sweeps_other hrepository), hown]
  funext key
  by_cases hkey : key = c.key
  · rw [hkey, Function.update_self]
    by_cases hswept : s.tx.Sweeps t c.key
    · have hdeleted : c.saved = none := by
        by_contra hsaved
        exact hunswept hsaved hswept
      rw [without_of hswept, hdeleted]
      rfl
    · rw [without_of_not hswept, Function.update_self]
  · rw [Function.update_of_ne hkey]
    by_cases hswept : s.tx.Sweeps t key
    · rw [without_of hswept, without_of hswept]
    · rw [without_of_not hswept, without_of_not hswept, Function.update_of_ne hkey]

variable {id : GoString}

theorem isSome_of_overlay (h : (Change.deleteRepository id).Keyed s)
    (hsome : ((s.tx.overlay s.process.tables).repositories id).isSome = true) :
    (s.process.tables.repositories id).isSome = true := by
  change (((s.tx.mutations.lookup id).bind Queued.asRepository).or _).isSome = true at hsome
  cases hlookup : s.tx.mutations.lookup id with
  | some value =>
    apply h.fits
    rw [GoMap.contains, hlookup]
    rfl
  | none =>
    rw [hlookup, Option.bind_none, Option.none_or] at hsome
    split_ifs at hsome with hdeletes
    · cases hsome
    · exact hsome

theorem deletes_of_overlay (hsome : (t.repositories id).isSome = true)
    (hnone : ¬ ((s.tx.overlay t).repositories id).isSome = true) :
    s.tx.Deletes .repository id := by
  by_contra hkept
  apply hnone
  change (((s.tx.mutations.lookup id).bind Queued.asRepository).or
    (if s.tx.Deletes .repository id then none else t.repositories id)).isSome = true
  rw [if_neg hkept, Option.isSome_or, hsome, Bool.or_true]

theorem refs_deleteRepository (h : (Change.deleteRepository id).Keyed s) :
    (((Change.deleteRepository id).enqueue s.tx).overlay s.process.tables).refs =
      Change.sweep id (s.tx.overlay s.process.tables) := by
  have hsweeps : ∀ key,
      ((Change.deleteRepository id).enqueue s.tx).Sweeps s.process.tables key ↔
        s.tx.Sweeps s.process.tables key ∨
          (s.process.tables.repositories id).isSome = true ∧ Owns id key := by
    intro key
    unfold MemoryTransaction.Sweeps
    have hdeletes : ∀ other,
        ((Change.deleteRepository id).enqueue s.tx).Deletes .repository
            other ↔ other = id ∨ s.tx.Deletes .repository other :=
      fun other => h.deletes_own rfl
    simp only [hdeletes]
    constructor
    · rintro ⟨other, rfl | hother, hrest⟩
      · exact .inr hrest
      · exact .inl ⟨other, hother, hrest⟩
    · rintro (⟨other, hother, hrest⟩ | hrest)
      · exact ⟨other, .inr hother, hrest⟩
      · exact ⟨id, .inl rfl, hrest⟩
  have hlayer := h.layer_other s.process.tables.refs picks_asReference Kind.noConfusion
  have hrefs : (s.tx.overlay s.process.tables).refs =
      without (s.tx.Sweeps s.process.tables)
        (s.tx.layer .reference Queued.asReference s.process.tables.refs) :=
    rfl
  funext key
  change without _ _ key = _
  rw [without_congr hsweeps, hlayer]
  unfold Change.sweep
  rw [hrefs]
  by_cases hswept : s.tx.Sweeps s.process.tables key
  · rw [without_of (.inl hswept), without_of hswept, ite_self]
  · by_cases howns : (s.process.tables.repositories id).isSome = true ∧ Owns id key
    · -- The repository is there: its references would be gone already if it
      -- were deleted.
      have hthere : ((s.tx.overlay s.process.tables).repositories id).isSome = true := by
        by_contra hnone
        exact hswept ⟨id, deletes_of_overlay howns.1 hnone, howns⟩
      rw [without_of (.inr howns), if_pos ⟨hthere, howns.2⟩]
    · have hkept : ¬ (((s.tx.overlay s.process.tables).repositories
          id).isSome = true ∧ Owns id key) :=
        fun hboth => howns ⟨h.isSome_of_overlay hboth.1, hboth.2⟩
      rw [if_neg hkept, without_of_not (not_or.mpr ⟨hswept, howns⟩), without_of_not hswept]

theorem overlay_enqueue (h : c.Keyed s) :
    (c.enqueue s.tx).overlay s.process.tables = c.apply (s.tx.overlay s.process.tables) := by
  obtain ⟨hobjects, hrepositories, husers, hrefs, hconfig⟩ :=
    h.overlay_other (t := s.process.tables)
  cases c with
  | putObject | deleteObject =>
    exact Tables.ext (h.layer_own _ picks_asObject)
      (hrepositories Kind.noConfusion) (husers Kind.noConfusion)
      (hrefs Kind.noConfusion Kind.noConfusion) (hconfig Kind.noConfusion)
  | saveRepository id pointer =>
    exact Tables.ext (hobjects Kind.noConfusion)
      (h.layer_own _ picks_asRepository) (husers Kind.noConfusion)
      (congrArg (without _) (h.layer_other _ picks_asReference Kind.noConfusion))
      (hconfig Kind.noConfusion)
  | deleteRepository id =>
    exact Tables.ext (hobjects Kind.noConfusion)
      (h.layer_own _ picks_asRepository) (husers Kind.noConfusion)
      h.refs_deleteRepository (hconfig Kind.noConfusion)
  | saveUser id pointer =>
    exact Tables.ext (hobjects Kind.noConfusion)
      (hrepositories Kind.noConfusion) (h.layer_own _ picks_asUser)
      (hrefs Kind.noConfusion Kind.noConfusion) (hconfig Kind.noConfusion)
  | deleteUser id =>
    exact absurd (h.shaped rfl) (shape_ne_user id)
  | saveRef repoID name pointer =>
    refine Tables.ext (hobjects Kind.noConfusion)
      (hrepositories Kind.noConfusion) (husers Kind.noConfusion) ?_
      (hconfig Kind.noConfusion)
    apply h.refs_overlay rfl
    rintro - ⟨id, hdeletes, hthere, howns⟩
    exact h.fits.2.2 id hdeletes hthere howns
  | deleteRef repoID name =>
    refine Tables.ext (hobjects Kind.noConfusion)
      (hrepositories Kind.noConfusion) (husers Kind.noConfusion) ?_
      (hconfig Kind.noConfusion)
    exact h.refs_overlay rfl fun hsaved => absurd rfl hsaved
  | logEvent id pointer =>
    exact Tables.ext (hobjects Kind.noConfusion)
      (hrepositories Kind.noConfusion) (husers Kind.noConfusion)
      (hrefs Kind.noConfusion Kind.noConfusion) (hconfig Kind.noConfusion)
  | _ =>
    exact Tables.ext (hobjects Kind.noConfusion)
      (hrepositories Kind.noConfusion) (husers Kind.noConfusion)
      (hrefs Kind.noConfusion Kind.noConfusion)
      (h.layer_own _ picks_asConfig)

end Change.Keyed

end Govc.Datastore
