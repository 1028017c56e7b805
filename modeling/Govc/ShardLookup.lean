import Govc.ClusterEffects
import Govc.GuardedRuns
import Govc.LexIntervals

/-!
# Looking a shard up by a key

The answer is unique while no two ranges share a key.  Ranges include both bounds,
so neighbouring ranges of `DistributeRepository` share the keys of the second
byte; from 0x80 on the bounds are two bytes long and mostly miss their key.
Whether two ranges share a key is decided by their lower bounds and the keys of
one byte.
-/

namespace Govc

open Go Cluster

/-! ## Ranges that share a key -/

namespace ShardKeyRange

def Single (keyRange : ShardKeyRange) : Prop := keyRange.start.length = 1 ∧ keyRange.stop.length = 1

instance (keyRange : ShardKeyRange) : Decidable keyRange.Single :=
  inferInstanceAs (Decidable (_ ∧ _))

def simpleKeys (first second : ShardKeyRange) : List GoString :=
  first.start :: second.start :: (List.range 256).map fun b => [UInt8.ofNat b]

def meets (first second : ShardKeyRange) : Bool := (simpleKeys first second).any fun key =>
    decide (key ≠ []) && keyInRange key first && keyInRange key second

end ShardKeyRange

open ShardKeyRange

variable {keyRange : ShardKeyRange}

theorem keyInRange_of_single (hsingle : keyRange.Single) :
    keyInRange (first :: rest) keyRange = keyInRange (first :: other) keyRange := by
  unfold Single at hsingle
  unfold keyInRange
  dsimp only
  rw [if_pos hsingle, if_pos hsingle]

theorem keyInRange_of_not_single (hlong : ¬ keyRange.Single) :
    keyInRange key keyRange = true ↔ keyRange.start ≤ key ∧ key ≤ keyRange.stop := by
  unfold Single at hlong
  unfold keyInRange
  cases key with
  | nil => simp
  | cons first rest =>
    dsimp only
    rw [if_neg hlong]
    simp

theorem mem_simpleKeys_singleton (first second : ShardKeyRange) (b : UInt8) :
    [b] ∈ simpleKeys first second := by
  refine List.mem_cons_of_mem _ (List.mem_cons_of_mem _ ?_)
  rw [List.mem_map]
  exact ⟨b.toNat, List.mem_range.mpr b.toNat_lt, by rw [UInt8.ofNat_toNat]⟩

variable {first second : ShardKeyRange}

theorem meets_of_key (hmem : key ∈ simpleKeys first second) (hkey : key ≠ [])
    (hfirst : keyInRange key first = true)
    (hsecond : keyInRange key second = true) : first.meets second = true := by
  unfold meets
  rw [List.any_eq_true]
  exact ⟨key, hmem, by simp [hkey, hfirst, hsecond]⟩

theorem exists_key_of_meets (hmeets : first.meets second = true) :
    ∃ key ∈ simpleKeys first second, key ≠ [] ∧
      keyInRange key first = true ∧ keyInRange key second = true := by
  unfold meets at hmeets
  rw [List.any_eq_true] at hmeets
  obtain ⟨key, hmem, hkey⟩ := hmeets
  simp only [Bool.and_eq_true, decide_eq_true_eq] at hkey
  exact ⟨key, hmem, hkey.1.1, hkey.1.2, hkey.2⟩

theorem meets_symm (hmeets : first.meets second = true) : second.meets first = true := by
  obtain ⟨key, hmem, hkey, hfirst, hsecond⟩ := exists_key_of_meets hmeets
  apply meets_of_key _ hkey hsecond hfirst
  unfold simpleKeys at *
  rw [List.mem_cons, List.mem_cons] at *
  tauto

variable {rest : GoString}

/-- A key in a range that is not of single bytes can be cut down to its first
byte or replaced by the lower bound, which then starts with that byte. -/
theorem simple_key_of_not_single (hlong : ¬ keyRange.Single) {first : UInt8}
    (hin : keyInRange (first :: rest) keyRange = true) :
    keyInRange [first] keyRange = true ∨
      ∃ tail, keyRange.start = first :: tail ∧ keyInRange keyRange.start keyRange = true := by
  rw [keyInRange_of_not_single hlong] at hin
  rcases LexInterval.le_singleton_or_cons hin.1 with hbelow | ⟨tail, htail⟩
  · left
    rw [keyInRange_of_not_single hlong]
    exact ⟨hbelow, (LexInterval.singleton_le_cons first rest).trans hin.2⟩
  · right
    refine ⟨tail, htail, ?_⟩
    rw [keyInRange_of_not_single hlong]
    exact ⟨le_refl _, hin.1.trans hin.2⟩

theorem meets_of_single (hsingle : first.Single) {b : UInt8}
    (hfirst : keyInRange (b :: rest) first = true)
    (hsecond : keyInRange (b :: rest) second = true) :
    first.meets second = true := by
  have hone := mem_simpleKeys_singleton first second b
  have hcut : ∀ tail, keyInRange (b :: tail) first = true := by
    intro tail
    rw [keyInRange_of_single hsingle]
    exact hfirst
  by_cases hother : second.Single
  · apply meets_of_key hone (List.cons_ne_nil b []) (hcut [])
    rw [keyInRange_of_single hother]
    exact hsecond
  · rcases simple_key_of_not_single hother hsecond with
      hbyte | ⟨tail, htail, hstart⟩
    · exact meets_of_key hone (List.cons_ne_nil b []) (hcut []) hbyte
    · rw [htail] at hstart
      refine meets_of_key ?_ (List.cons_ne_nil b tail) (hcut tail) hstart
      rw [← htail]
      exact List.mem_cons_of_mem _ List.mem_cons_self

theorem meets_of_not_single (hlong : ¬ first.Single) (hother : ¬ second.Single)
    (hle : first.start ≤ second.start)
    (hfirst : keyInRange (b :: rest) first = true)
    (hsecond : keyInRange (b :: rest) second = true) :
    first.meets second = true := by
  rcases simple_key_of_not_single hother hsecond with
    hbyte | ⟨tail, htail, hstart⟩
  · apply meets_of_key (mem_simpleKeys_singleton first second b) (List.cons_ne_nil b []) _ hbyte
    rw [keyInRange_of_not_single hlong] at hfirst ⊢
    rw [keyInRange_of_not_single hother] at hbyte
    exact ⟨hle.trans hbyte.1, (LexInterval.singleton_le_cons b rest).trans hfirst.2⟩
  · refine meets_of_key (List.mem_cons_of_mem _ List.mem_cons_self) ?_ ?_ hstart
    · rw [htail]
      exact List.cons_ne_nil b tail
    · rw [keyInRange_of_not_single hlong] at hfirst ⊢
      rw [keyInRange_of_not_single hother] at hsecond
      exact ⟨hle, hsecond.1.trans hfirst.2⟩

theorem meets_of_mem_both (hkey : key ≠ []) (hfirst : keyInRange key first = true)
    (hsecond : keyInRange key second = true) : first.meets second = true := by
  cases key with
  | nil => exact absurd rfl hkey
  | cons b rest =>
    by_cases hsingle : first.Single
    · exact meets_of_single hsingle hfirst hsecond
    by_cases hother : second.Single
    · exact meets_symm (meets_of_single hother hsecond hfirst)
    rcases le_total first.start second.start with hle | hle
    · exact meets_of_not_single hsingle hother hle hfirst hsecond
    · exact meets_symm (meets_of_not_single hother hsingle hle hsecond hfirst)

theorem meets_iff {first second : ShardKeyRange} :
    first.meets second = true ↔
      ∃ key ≠ [], keyInRange key first = true ∧ keyInRange key second = true := by
  constructor
  · intro hmeets
    obtain ⟨key, -, hkey, hboth⟩ := exists_key_of_meets hmeets
    exact ⟨key, hkey, hboth⟩
  · rintro ⟨key, hkey, hfirst, hsecond⟩
    exact meets_of_mem_both hkey hfirst hsecond

/-! ## The invariant of the table -/

namespace Cluster

/-- A shard can be made for the range: it shares no key with the range of
another shard, and it takes the place of no shard that lists something. -/
structure Fits (c : Cluster) (keyRange : ShardKeyRange) : Prop where
  vacant : c.Vacant (generateShardID keyRange)
  apart : ∀ shardID shard, c.shard? shardID = some shard → shardID ≠ generateShardID keyRange →
    keyRange.meets shard.keyRange = false

/-- If no range has the key, then the one that is made for it fits and has
it. -/
def Accepts (c : Cluster) (repoID : GoString) : Prop :=
  ∀ first rest, repoID = first :: rest →
    (∀ shardID shard, c.shard? shardID = some shard → keyInRange repoID shard.keyRange = false) →
    keyInRange repoID (firstByteRange first) = true ∧ c.Fits (firstByteRange first)

/-- The shard behind the pointer is in the table and has the key. -/
def Covers (c : Cluster) (repoID : GoString) (pointer : ℕ) : Prop :=
  ∃ shardID shard, c.shards.lookup shardID = some pointer ∧
    c.shard? shardID = some shard ∧ keyInRange repoID shard.keyRange = true

/-- No key is in the ranges of two shards, and every filed repository is
listed by the shard it was filed in. -/
structure Unmixed (c : Cluster) (filed : List (GoString × ℕ)) : Prop where
  apart : ∀ shardID other shard another, c.shard? shardID = some shard →
    c.shard? other = some another → shardID ≠ other →
    shard.keyRange.meets another.keyRange = false
  kept : ∀ entry ∈ filed, ∃ shardID shard,
    c.shards.lookup shardID = some entry.2 ∧ c.shard? shardID = some shard ∧
      shard.lists entry.1 = true ∧ keyInRange entry.1 shard.keyRange = true

namespace Unmixed

variable {c after : Cluster} {filed : List (GoString × ℕ)}

section

variable (hunmixed : c.Unmixed filed)

include hunmixed

theorem of_map {change : GoString → Shard → Shard}
    (htable : after.shards = c.shards) (hshards : ∀ shardID,
      after.shard? shardID = (c.shard? shardID).map (change shardID))
    (hrange : ∀ shardID shard, (change shardID shard).keyRange = shard.keyRange)
    (hlists : ∀ shardID shard repoID, shard.lists repoID = true →
      (change shardID shard).lists repoID = true) :
    after.Unmixed filed where
  apart := by
    intro shardID other shard another hshard hanother hne
    rw [hshards, Option.map_eq_some_iff] at hshard hanother
    obtain ⟨old, hold, rfl⟩ := hshard
    obtain ⟨oldOther, holdOther, rfl⟩ := hanother
    rw [hrange, hrange]
    exact hunmixed.apart shardID other old oldOther hold holdOther hne
  kept := by
    intro entry hentry
    obtain ⟨shardID, shard, hlookup, hshard, hlisted, hin⟩ := hunmixed.kept entry hentry
    refine ⟨shardID, change shardID shard, ?_, ?_, ?_, ?_⟩
    · rw [htable]
      exact hlookup
    · rw [hshards, hshard]
      rfl
    · exact hlists shardID shard entry.1 hlisted
    · rw [hrange]
      exact hin

theorem of_same (htable : after.shards = c.shards) (hheap : after.heap = c.heap) :
    after.Unmixed filed := by
  have hshards : ∀ shardID, after.shard? shardID = (c.shard? shardID).map fun shard => shard := by
    intro shardID
    rw [shard?_congr htable hheap, Option.map_id']
  exact hunmixed.of_map htable hshards (fun _ _ => rfl) (fun _ _ _ hlisted => hlisted)

theorem sameBut (hsame : SameBut c after) : after.Unmixed filed := by
  obtain ⟨taken, rfl⟩ := hsame
  exact hunmixed.of_same rfl rfl

theorem departed (order : RangeOrder)
    (nodeID : GoString) : (c.departed order nodeID).Unmixed filed := by
  apply hunmixed.of_map (departed_shards)
    (fun shardID => shard?_departed)
  · intro shardID shard
    exact Shard.keyRange_withoutNode
  · intro shardID shard repoID hlisted
    rw [Shard.lists_withoutNode]
    exact hlisted

theorem placeShard {shard : Shard}
    (hid : shard.id = generateShardID shard.keyRange)
    (hfits : c.Fits shard.keyRange) : (c.placeShard shard).Unmixed filed where
  apart := by
    intro shardID other first second hfirst hsecond hne
    rw [shard?_placeShard] at hfirst hsecond
    split_ifs at hfirst hsecond with hnew hother hother
    · exact absurd (hnew.trans hother.symm) hne
    · rw [Option.some.injEq] at hfirst
      subst hfirst
      exact hfits.apart other second hsecond (hid ▸ hother)
    · rw [Option.some.injEq] at hsecond
      subst hsecond
      have hapart := hfits.apart shardID first hfirst (hid ▸ hnew)
      rw [Bool.eq_false_iff] at hapart ⊢
      exact fun hmeets => hapart (meets_symm hmeets)
    · exact hunmixed.apart shardID other first second hfirst hsecond hne
  kept := by
    intro entry hentry
    obtain ⟨shardID, old, hlookup, hold, hlisted, hin⟩ := hunmixed.kept entry hentry
    have hother : shardID ≠ shard.id := by
      rintro rfl
      rw [hid] at hold
      rw [hfits.vacant old hold] at hlisted
      exact absurd hlisted Bool.false_ne_true
    refine ⟨shardID, old, ?_, ?_, hlisted, hin⟩
    · change (c.shards.insert shard.id c.heap.length).lookup shardID = _
      rw [GoMap.lookup_insert_eq, if_neg hother]
      exact hlookup
    · rw [shard?_placeShard, if_neg hother]
      exact hold

theorem selects {keyRange : ShardKeyRange}
    {shard : Shard} (hselects : c.Selects keyRange shard)
    (hfits : c.Fits keyRange) : (c.placeShard shard).Unmixed filed := by
  obtain ⟨order, primaryNode, replicaNodes, -, -, rfl⟩ := hselects
  exact hunmixed.placeShard rfl hfits

variable {repoID : GoString} {pointer : ℕ}

theorem filed_append (hcovers : c.Covers repoID pointer) {repo : ℕ} :
    (c.filed pointer repoID repo).Unmixed (filed ++ [(repoID, pointer)]) := by
  have hshards : ∀ shardID, (c.filed pointer repoID repo).shard? shardID =
      (c.shard? shardID).map fun shard =>
        if c.shards.lookup shardID = some pointer then
          shard.addRepository repoID
        else shard := by
    intro shardID
    rw [Cluster.filed, (nodeFree_shard? shardID).putOnAll, shard?_updateShard]
  have htable : (c.filed pointer repoID repo).shards = c.shards :=
    NodeFree.putOnAll updateNode_shards repoID repo _ _
  have hbefore : (c.filed pointer repoID repo).Unmixed filed := by
    apply hunmixed.of_map htable hshards
    · intro shardID shard
      split_ifs with hchosen
      · rfl
      · rfl
    · intro shardID shard asked hlisted
      split_ifs with hchosen
      · exact shard.lists_addRepository.mpr (.inr hlisted)
      · exact hlisted
  refine ⟨hbefore.apart, ?_⟩
  intro entry hentry
  rcases List.mem_append.mp hentry with hold | hnew
  · exact hbefore.kept entry hold
  · rw [List.mem_singleton] at hnew
    subst hnew
    obtain ⟨shardID, shard, hlookup, hshard, hin⟩ := hcovers
    refine ⟨shardID, shard.addRepository repoID, ?_, ?_, ?_, hin⟩
    · rw [htable]
      exact hlookup
    · rw [hshards, hshard, Option.map_some, if_pos hlookup]
    · exact shard.lists_addRepository.mpr (.inl rfl)

/-! ## What the search finds -/

theorem findShard_eq (hkey : repoID ≠ []) (hcovers : c.Covers repoID pointer)
    {order : RangeOrder} : c.findShard order repoID = some pointer := by
  obtain ⟨shardID, shard, hlookup, hshard, hin⟩ := hcovers
  cases hfound : c.findShard order repoID with
  | none =>
    rw [findShard_eq_none hfound hshard] at hin
    exact absurd hin Bool.false_ne_true
  | some found =>
    obtain ⟨other, another, hother, hheap, hrange⟩ := findShard_eq_some hfound
    have hanother : c.shard? other = some another := shard?_eq_some.mpr ⟨found, hother, hheap⟩
    have hsame : shardID = other := by
      by_contra hne
      have hapart := hunmixed.apart shardID other shard another hshard hanother hne
      rw [Bool.eq_false_iff, Ne, meets_iff] at hapart
      exact hapart ⟨repoID, hkey, hin, hrange⟩
    rw [← hsame, hlookup] at hother
    exact hother.symm

end

theorem covers_of_findShard (hfound : c.findShard order repoID = some pointer) :
    c.Covers repoID pointer := by
  obtain ⟨shardID, shard, hlookup, hheap, hin⟩ := findShard_eq_some hfound
  exact ⟨shardID, shard, hlookup, shard?_eq_some.mpr ⟨pointer, hlookup, hheap⟩, hin⟩

theorem findShard_comm (hunmixed : c.Unmixed filed) (hkey : repoID ≠ []) :
    c.findShard order repoID = c.findShard other repoID := by
  cases hfound : c.findShard order repoID with
  | some pointer =>
    exact (hunmixed.findShard_eq hkey (covers_of_findShard hfound)).symm
  | none =>
    cases hother : c.findShard other repoID with
    | none => rfl
    | some pointer =>
      rw [hunmixed.findShard_eq hkey (covers_of_findShard hother)] at hfound
      cases hfound

end Unmixed

end Cluster

/-! ## Runs -/

inductive ShardInput where
  | addNode (node : ClusterNode) (written : Except GoString Unit)
  | removeNode (order : RangeOrder) (nodeID : GoString)
      (written : Except GoString Unit)
  | createShard (order : RangeOrder) (keyRange : ShardKeyRange)
      (written : Except GoString Unit)
  | distribute (order : ℕ → RangeOrder) (repoID : GoString) (repo : ℕ)
      (written : ℕ → Except GoString Unit)

/-- A cluster and, for each distribution that came to a shard, the repository
and the shard it was put into. -/
structure ShardRun where
  cluster : Cluster
  filed : List (GoString × ℕ)

namespace ShardRun

def after (run : ShardRun) : ShardInput → ShardRun
  | .addNode node written =>
    { run with cluster := (Cluster.addNode node written run.cluster).2 }
  | .removeNode order nodeID written =>
    { run with
      cluster := (Cluster.removeNode order nodeID written run.cluster).2 }
  | .createShard order keyRange written =>
    { run with
      cluster := (Cluster.createShard order keyRange written run.cluster).2 }
  | .distribute order repoID repo written =>
    { cluster :=
        (distributeRepository order repoID repo written run.cluster).2
      filed := run.filed ++
        ((shardForKey order repoID (written 0)
          run.cluster).1.toOption.map fun pointer =>
            (repoID, pointer)).toList }

/-- The condition on steps: a new range fits, and one that is made for a key
has the key. -/
def keepsLookup (run : ShardRun) : ShardInput → Prop
  | .createShard _ keyRange _ => run.cluster.Fits keyRange
  | .distribute _ repoID _ _ => run.cluster.Accepts repoID
  | _ => True

/-- A key is in one range at most, so the order of the search does not matter,
and every repository is found in the shard it was put into. -/
structure Unambiguous (run : ShardRun) : Prop where
  unique : ∀ key ≠ [], ∀ shardID other shard another, run.cluster.shard? shardID = some shard →
    run.cluster.shard? other = some another →
    keyInRange key shard.keyRange = true →
    keyInRange key another.keyRange = true → shardID = other
  orderless : ∀ key ≠ [], ∀ order other,
    Cluster.getShardForRepository order key run.cluster =
      Cluster.getShardForRepository other key run.cluster
  found : ∀ entry ∈ run.filed, entry.1 ≠ [] → run.cluster.mu = false →
    (∀ order, Cluster.getShardForRepository order entry.1 run.cluster =
      (.ok (some entry.2), run.cluster)) ∧
      ∃ shard, run.cluster.heap[entry.2]? = some shard ∧ shard.lists entry.1 = true

end ShardRun

namespace Cluster.Unmixed

variable {c : Cluster} {filed : List (GoString × ℕ)}

theorem unambiguous {run : ShardRun}
    (hunmixed : run.cluster.Unmixed run.filed) : run.Unambiguous where
  unique := by
    intro key hkey shardID other shard another hshard hanother hin hrange
    by_contra hne
    have hapart := hunmixed.apart shardID other shard another hshard hanother hne
    rw [Bool.eq_false_iff, Ne, meets_iff] at hapart
    exact hapart ⟨key, hkey, hin, hrange⟩
  orderless := by
    intro key hkey order other
    have hsame : findShard order key run.cluster = findShard other key run.cluster :=
      hunmixed.findShard_comm hkey
    cases hheld : run.cluster.mu with
    | true =>
      rw [getShardForRepository, getShardForRepository,
        mutex.reading_of_held hheld, mutex.reading_of_held hheld]
    | false =>
      rw [getShardForRepository, getShardForRepository,
        mutex.reading_of_free hheld, mutex.reading_of_free hheld,
        GoM.view_apply, GoM.view_apply, hsame]
  found := by
    intro entry hentry hkey hfree
    obtain ⟨shardID, shard, hlookup, hshard, hlisted, hin⟩ := hunmixed.kept entry hentry
    have hcovers : run.cluster.Covers entry.1 entry.2 := ⟨shardID, shard, hlookup, hshard, hin⟩
    refine ⟨?_, shard, ?_, hlisted⟩
    · intro order
      rw [getShardForRepository, mutex.reading_of_free hfree, GoM.view_apply]
      rw [show findShard order entry.1 run.cluster = some entry.2 from
        hunmixed.findShard_eq hkey hcovers]
    · obtain ⟨pointer, hpointer, hheap⟩ := shard?_eq_some.mp hshard
      rw [hlookup, Option.some.injEq] at hpointer
      rw [hpointer]
      exact hheap

theorem opens (hunmixed : c.Unmixed filed) (hopens : c.Opens order repoID opened pointer)
    (haccepts : c.Accepts repoID) :
    opened.Unmixed filed ∧ opened.Covers repoID pointer := by
  cases hopens with
  | found hfound => exact ⟨hunmixed, covers_of_findShard hfound⟩
  | @made first rest shard hkey hnone hselects =>
    obtain ⟨hin, hfits⟩ := haccepts first rest hkey
      (fun shardID shard hshard => findShard_eq_none hnone hshard)
    refine ⟨(hunmixed.selects hselects hfits).sameBut ⟨false, rfl⟩, ?_⟩
    obtain ⟨selected, primaryNode, replicaNodes, -, -, rfl⟩ := hselects
    refine ⟨generateShardID (firstByteRange first),
      .new (firstByteRange first) primaryNode replicaNodes, ?_, ?_, hin⟩
    · exact (GoMap.lookup_insert_eq _ _ _ _).trans (if_pos rfl)
    · exact (shard?_placeShard).trans (if_pos rfl)

theorem stalls (hunmixed : c.Unmixed filed)
    (hstalls : c.Stalls order repoID after) (haccepts : c.Accepts repoID) :
    after.Unmixed filed := by
  rcases hstalls with hsame | ⟨first, rest, shard, hkey, hnone, hselects, hmade⟩
  · exact hunmixed.sameBut hsame
  · obtain ⟨-, hfits⟩ := haccepts first rest hkey
      (fun shardID shard hshard => findShard_eq_none hnone hshard)
    exact (hunmixed.selects hselects hfits).sameBut hmade

end Cluster.Unmixed

theorem ShardRun.unmixed_after {run : ShardRun}
    (hunmixed : run.cluster.Unmixed run.filed)
    (hguard : run.keepsLookup input) :
    (run.after input).cluster.Unmixed (run.after input).filed := by
  cases input with
  | addNode node written =>
    rcases addNode_cases with
      hsame | ⟨-, hjoined⟩
    · exact hunmixed.sameBut hsame
    · refine Cluster.Unmixed.sameBut ?_ hjoined
      exact hunmixed.of_same rfl rfl
  | removeNode order nodeID written =>
    rcases removeNode_cases with
      hsame | ⟨-, hleft⟩
    · exact hunmixed.sameBut hsame
    · exact (hunmixed.departed order nodeID).sameBut hleft
  | createShard order keyRange written =>
    rcases createShard_cases with
      ⟨hsame, -⟩ | ⟨shard, hselects, hmade, -⟩
    · exact hunmixed.sameBut hsame
    · exact (hunmixed.selects hselects hguard).sameBut hmade
  | distribute order repoID repo written =>
    rcases shardForKey_cases with
      ⟨hstalls, hnone⟩ | ⟨opened, pointer, hopens, hfree, hrun⟩
    · obtain ⟨-, hleft⟩ := distributeRepository_of_stalls hnone
      have hfiled : (run.after (.distribute order repoID repo written)).filed = run.filed := by
        have hopened : (shardForKey order repoID (written 0) run.cluster).1.toOption = none := by
          rw [Option.eq_none_iff_forall_ne_some]
          intro pointer hreturned
          exact hnone pointer (Outcome.eq_ok_of_toOption hreturned)
        rw [after, hopened]
        exact List.append_nil run.filed
      rw [hfiled]
      change (distributeRepository order repoID repo written run.cluster).2.Unmixed run.filed
      rw [hleft]
      exact hunmixed.stalls hstalls hguard
    · obtain ⟨hopened, hcovers⟩ := hunmixed.opens hopens hguard
      have hfiled : (run.after (.distribute order repoID repo written)).filed =
          run.filed ++ [(repoID, pointer)] := by
        rw [after, hrun]
        rfl
      rw [hfiled]
      change (distributeRepository order repoID repo written run.cluster).2.Unmixed _
      rw [distributeRepository_of_opens hrun hfree]
      exact hopened.filed_append hcovers

def lookupSystem : Runs.System ShardRun ShardInput where
  init run := ∃ replicationFactor dataDir loaded, run = ⟨.new replicationFactor dataDir loaded, []⟩
  step run input after := after = run.after input

/-- In every run whose new ranges all fit, the search is unambiguous. -/
theorem shard_lookup_unambiguous {run : ShardRun}
    (hreach : Runs.Reachable lookupSystem ShardRun.keepsLookup run) :
    run.Unambiguous := by
  have hunmixed : run.cluster.Unmixed run.filed := by
    apply hreach.invariant
    · rintro first ⟨replicationFactor, dataDir, loaded, rfl⟩
      refine ⟨?_, ?_⟩
      · intro shardID other shard another hshard
        cases hshard
      · intro entry hentry
        cases hentry
    · rintro before input after hbefore hguard rfl
      exact ShardRun.unmixed_after hbefore hguard
  exact hunmixed.unambiguous

def ShardRun.from (inputs : List ShardInput) : ShardRun :=
  inputs.foldl ShardRun.after ⟨.new 1 [] none, []⟩

theorem ShardRun.reachable_from {guard : ShardRun → ShardInput → Prop}
    (hadmits : Runs.Admits ShardRun.after guard ⟨.new 1 [] none, []⟩ inputs) :
    Runs.Reachable lookupSystem guard (ShardRun.from inputs) :=
  ⟨_, ⟨1, [], none, rfl⟩, Runs.steps_foldl (fun _ _ => rfl) hadmits⟩

def filing (repoID : String) : ShardInput :=
  .distribute (fun _ => .inserted) (str repoID) 7 (fun _ => .ok ())

def distantKeys : List ShardInput :=
  [.addNode (joining "n") (.ok ()), filing "cherry", filing "apple"]

theorem shard_lookup_unambiguous_distant :
    (ShardRun.from distantKeys).filed = [(str "cherry", 0), (str "apple", 1)] ∧
      (ShardRun.from distantKeys).Unambiguous := by
  refine ⟨by decide, shard_lookup_unambiguous (ShardRun.reachable_from ?_)⟩
  refine ⟨trivial, ?_, ?_, trivial⟩
  · rintro first rest hkey -
    cases hkey
    refine ⟨by decide, ?_, by decide⟩
    intro shard hshard
    cases hshard
  · rintro first rest hkey -
    cases hkey
    refine ⟨by decide, ?_, by decide +kernel⟩
    intro shard hshard
    cases hshard

/-- The range that is made for the second of these has the first as well. -/
def neighbouringKeys : List ShardInput :=
  [.addNode (joining "n") (.ok ()), filing "banana", filing "apple"]

theorem neighbouring_ranges_share_keys :
    Runs.Reachable lookupSystem (fun _ _ => True) (ShardRun.from neighbouringKeys) ∧
      ¬ (ShardRun.from neighbouringKeys).Unambiguous := by
  refine ⟨ShardRun.reachable_from ⟨trivial, trivial, trivial, trivial⟩, ?_⟩
  intro hclear
  have hsame := hclear.unique (str "banana") (by decide) (str "shard-b-c")
    (str "shard-a-b") _ _ rfl rfl (by decide) (by decide)
  revert hsame
  decide

end Govc
