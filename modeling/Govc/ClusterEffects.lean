import Govc.FailoverManager
import Mathlib.Tactic

/-!
# What the operations of a cluster can do

One statement for each operation, with all the ways it can end: the lock apart,
a call leaves the cluster as it was or makes one named change to it.  Facts
about runs are derived from these and from what the named changes do to the
tables; no other proof opens an operation.
-/

namespace Govc

open Go GoM GoMap

namespace Shard

theorem lists_withoutNode (shard : Shard) (nodeID repoID : GoString) :
    (shard.withoutNode nodeID).lists repoID = shard.lists repoID := by
  unfold withoutNode
  split
  · cases shard.replicaNodes <;> rfl
  · rfl

theorem lists_addRepository (shard : Shard) :
    (shard.addRepository repoID).lists asked = true ↔
      asked = repoID ∨ shard.lists asked = true := by
  unfold addRepository lists GoMap.contains
  rw [lookup_insert_eq]
  by_cases hasked : asked = repoID
  · simp [hasked]
  · simp [hasked]

theorem keyRange_withoutNode {shard : Shard} :
    (shard.withoutNode nodeID).keyRange = shard.keyRange := by
  unfold withoutNode
  split
  · cases shard.replicaNodes <;> rfl
  · rfl

end Shard

namespace Cluster

/-! ## The tables after a change -/

@[simp] theorem updateShard_nodes {pointer : ℕ} {change : Shard → Shard}
    {c : Cluster} : (c.updateShard pointer change).nodes = c.nodes := rfl

@[simp] theorem updateShard_shards
    {c : Cluster} : (c.updateShard pointer change).shards = c.shards := rfl

@[simp] theorem placeShard_nodes {c : Cluster} :
    (c.placeShard shard).nodes = c.nodes := rfl

theorem getElem?_updateShard (pointer other : ℕ) (change : Shard → Shard) (c : Cluster) :
    (c.updateShard pointer change).heap[other]? =
      (c.heap[other]?).map fun shard =>
        if pointer = other then change shard else shard := by
  rw [updateShard, List.getElem?_modify]
  rfl

variable {c : Cluster} {shardID : GoString} {pointer : ℕ}

theorem exists_shard (hlookup : c.shards.lookup shardID = some pointer) :
    ∃ shard, c.heap[pointer]? = some shard :=
  ⟨_, List.getElem?_eq_getElem (c.allocated shardID pointer hlookup)⟩

variable {shard : Shard}

theorem shard?_eq_some :
    c.shard? shardID = some shard ↔
      ∃ pointer, c.shards.lookup shardID = some pointer ∧ c.heap[pointer]? = some shard := by
  unfold shard?
  rw [Option.bind_eq_some_iff]

theorem mem_keys_of_shard? (hshard : c.shard? shardID = some shard) : shardID ∈ c.shards.keys := by
  obtain ⟨pointer, hlookup, -⟩ := shard?_eq_some.mp hshard
  rw [← AList.mem_keys, ← AList.lookup_isSome, hlookup]
  rfl

/-- What all shards of the table have can be tried. -/
instance (c : Cluster) (P : GoString → Shard → Prop)
    [∀ shardID shard, Decidable (P shardID shard)] :
    Decidable (∀ shardID shard, c.shard? shardID = some shard → P shardID shard) :=
  decidable_of_iff (∀ shardID ∈ c.shards.keys, ∀ shard ∈ c.shard? shardID, P shardID shard)
    ⟨fun hall shardID shard hshard =>
      hall shardID (mem_keys_of_shard? hshard) shard hshard,
    fun hall shardID _ shard hshard => hall shardID shard hshard⟩

theorem shard?_updateShard (pointer : ℕ) (change : Shard → Shard)
    (c : Cluster) (shardID : GoString) :
    (c.updateShard pointer change).shard? shardID =
      (c.shard? shardID).map fun shard =>
        if c.shards.lookup shardID = some pointer then change shard
        else shard := by
  unfold shard?
  rw [updateShard_shards]
  cases hlookup : c.shards.lookup shardID with
  | none => rfl
  | some other =>
    rw [Option.bind_some, getElem?_updateShard, Option.bind_some]
    simp only [Option.some.injEq, eq_comm]

theorem shard?_placeShard {shard : Shard} {c : Cluster} :
    (c.placeShard shard).shard? shardID =
      if shardID = shard.id then some shard else c.shard? shardID := by
  unfold shard? placeShard
  rw [lookup_insert_eq]
  split
  · rw [Option.bind_some, List.getElem?_concat_length]
  · cases hlookup : c.shards.lookup shardID with
    | none => rfl
    | some pointer =>
      rw [Option.bind_some, Option.bind_some,
        List.getElem?_append_left (c.allocated shardID pointer hlookup)]

theorem lookup_updateNode (nodeID other : GoString)
    (change : ClusterNode → ClusterNode) (c : Cluster) :
    (c.updateNode nodeID change).nodes.lookup other =
      if other = nodeID then (c.nodes.lookup nodeID).map change
      else c.nodes.lookup other := by
  unfold updateNode
  cases hnode : c.nodes.lookup nodeID with
  | none =>
    by_cases hsame : other = nodeID
    · subst hsame
      simp only [hnode, if_true, Option.map_none]
    · simp only [hsame, if_false]
  | some node =>
    simp only [lookup_insert_eq, Option.map_some]

@[simp] theorem updateNode_shards (nodeID : GoString)
    (change : ClusterNode → ClusterNode) (c : Cluster) :
    (c.updateNode nodeID change).shards = c.shards := by
  unfold updateNode
  cases c.nodes.lookup nodeID <;> rfl

@[simp] theorem updateNode_heap (nodeID : GoString)
    (change : ClusterNode → ClusterNode) {c : Cluster} :
    (c.updateNode nodeID change).heap = c.heap := by
  unfold updateNode
  cases c.nodes.lookup nodeID <;> rfl

@[simp] theorem hasNode_updateNode
    {c : Cluster} :
    (c.updateNode nodeID change).hasNode other = c.hasNode other := by
  unfold hasNode GoMap.contains
  rw [lookup_updateNode]
  split_ifs with hsame
  · rw [Option.isSome_map, hsame]
  · rfl

theorem shard?_congr {d : Cluster} (hshards : d.shards = c.shards)
    (hheap : d.heap = c.heap) :
    d.shard? shardID = c.shard? shardID := by
  unfold shard?
  rw [hshards, hheap]

@[simp] theorem shard?_updateNode
    {c : Cluster} :
    (c.updateNode nodeID change).shard? shardID = c.shard? shardID :=
  shard?_congr (updateNode_shards nodeID change c) (updateNode_heap nodeID change)

/-! ## Changes to several shards -/

def pointers (order : RangeOrder) (c : Cluster) : List ℕ := (c.shards.range order).map Prod.snd

variable {order : RangeOrder}

theorem mem_pointers :
    pointer ∈ c.pointers order ↔ ∃ shardID, c.shards.lookup shardID = some pointer := by
  unfold pointers
  rw [List.mem_map]
  constructor
  · rintro ⟨⟨shardID, other⟩, hmem, rfl⟩
    exact ⟨shardID, (mem_range order c.shards shardID).mp hmem⟩
  · rintro ⟨shardID, hlookup⟩
    exact ⟨(shardID, pointer), (mem_range order c.shards shardID).mpr hlookup, rfl⟩

theorem pointers_nodup (order : RangeOrder) (c : Cluster) : (c.pointers order).Nodup := by
  have hentries : (c.shards.range order).Nodup :=
    List.Nodup.of_map Prod.fst (range_keys_nodup order c.shards)
  apply hentries.map_on
  rintro ⟨shardID, pointer⟩ hfirst ⟨other, -⟩ hsecond rfl
  rw [mem_range] at hfirst hsecond
  rw [c.separate shardID other pointer hfirst hsecond]

theorem getElem?_foldl_updateShard
    (hstep : ∀ c pointer,
      (step c pointer).heap = (c.updateShard pointer change).heap)
    {pointers : List ℕ} (hdistinct : pointers.Nodup) (c : Cluster)
    (other : ℕ) :
    (pointers.foldl step c).heap[other]? =
      (c.heap[other]?).map fun shard =>
        if other ∈ pointers then change shard else shard := by
  induction pointers generalizing c with
  | nil => simp
  | cons pointer rest ih =>
    rw [List.nodup_cons] at hdistinct
    rw [List.foldl_cons, ih hdistinct.2, hstep, getElem?_updateShard, Option.map_map]
    congr 1
    funext shard
    by_cases hsame : pointer = other
    · subst hsame
      simp [hdistinct.1]
    · simp [hsame, Ne.symm hsame]

theorem foldl_unchanged {β γ : Type} (field : Cluster → γ) {step : Cluster → β → Cluster}
    (hstep : ∀ c item, field (step c item) = field c)
    (items : List β) (c : Cluster) : field (items.foldl step c) = field c := by
  induction items generalizing c with
  | nil => rfl
  | cons item items ih => rw [List.foldl_cons, ih, hstep]

/-! ## What a call leaves -/

theorem saveState_snd (written : Except GoString Unit) (c : Cluster) :
    (saveState written c).2 = c := by
  unfold saveState
  split
  · rfl
  · apply mutex.reading_keeps (Q := fun after => after = c) rfl
    cases written <;> rfl

def SameBut (c after : Cluster) : Prop := ∃ taken, after = { c with mu := taken }

theorem SameBut.refl (c : Cluster) : SameBut c c := ⟨c.mu, rfl⟩

theorem addNode_cases {node : ClusterNode} {c : Cluster} :
    SameBut c (addNode node written c).2 ∨
      (c.hasNode node.id = false ∧
        SameBut { c with nodes := c.nodes.insert node.id node }
          (addNode node written c).2) := by
  rcases mutex.locking_cases with
    hwaits | ⟨taken, hdone⟩
  · left
    rw [addNode, hwaits]
    exact .refl c
  · rw [addNode, hdone, addNodeHeld, bind_apply]
    simp only [view_apply]
    cases hknown : c.hasNode node.id with
    | true =>
      left
      rw [show (mutex.hold c true).hasNode node.id = true from hknown]
      exact ⟨taken, rfl⟩
    | false =>
      right
      rw [show (mutex.hold c true).hasNode node.id = false from hknown,
        if_neg Bool.false_ne_true, bind_of_ok (update_apply _ _),
        saveState_snd]
      exact ⟨rfl, taken, rfl⟩

def departed (order : RangeOrder) (nodeID : GoString) (c : Cluster) : Cluster :=
  { c.migrateNodeShards order nodeID with
    nodes := (c.migrateNodeShards order nodeID).nodes.erase nodeID }

theorem migrateNodeShards_eq {order : RangeOrder} {nodeID : GoString} {c : Cluster} :
    c.migrateNodeShards order nodeID =
      (c.pointers order).foldl
        (fun c pointer => c.updateShard pointer (Shard.withoutNode nodeID)) c := by
  rw [migrateNodeShards, pointers, List.foldl_map]

@[simp] theorem departed_shards {order : RangeOrder} {nodeID : GoString}
    {c : Cluster} : (c.departed order nodeID).shards = c.shards := by
  change (c.migrateNodeShards order nodeID).shards = c.shards
  rw [migrateNodeShards_eq]
  exact foldl_unchanged Cluster.shards (fun c pointer => updateShard_shards) _ c

theorem shard?_departed {c : Cluster} :
    (c.departed order nodeID).shard? shardID =
      (c.shard? shardID).map (Shard.withoutNode nodeID) := by
  unfold shard?
  rw [departed_shards]
  cases hlookup : c.shards.lookup shardID with
  | none => rfl
  | some pointer =>
    rw [Option.bind_some, Option.bind_some, departed, migrateNodeShards_eq]
    rw [getElem?_foldl_updateShard (fun _ _ => rfl) (c.pointers_nodup order)]
    simp only [mem_pointers.mpr ⟨shardID, hlookup⟩, if_true]

theorem lookup_departed (order : RangeOrder) (nodeID other : GoString) (c : Cluster) :
    (c.departed order nodeID).nodes.lookup other =
      if other = nodeID then none else c.nodes.lookup other := by
  have hnodes : (c.migrateNodeShards order nodeID).nodes = c.nodes := by
    rw [migrateNodeShards_eq]
    exact foldl_unchanged Cluster.nodes (fun c pointer => updateShard_nodes) _ c
  unfold departed
  rw [hnodes, lookup_erase_eq]

theorem migrateNodeShards_hold {order : RangeOrder} {nodeID : GoString}
    {c : Cluster} {taken : Bool} :
    (mutex.hold c taken).migrateNodeShards order nodeID =
      mutex.hold (c.migrateNodeShards order nodeID) taken :=
  List.foldl_hom (fun c => mutex.hold c taken) (fun _ _ => rfl)

theorem removeNode_cases {order : RangeOrder} {nodeID : GoString}
    {written : Except GoString Unit} {c : Cluster} :
    SameBut c (removeNode order nodeID written c).2 ∨
      (c.hasNode nodeID = true ∧
        SameBut (c.departed order nodeID) (removeNode order nodeID written c).2) := by
  rcases mutex.locking_cases with
    hwaits | ⟨taken, hdone⟩
  · left
    rw [removeNode, hwaits]
    exact .refl c
  · rw [removeNode, hdone, removeNodeHeld, bind_apply]
    simp only [view_apply]
    cases hknown : c.hasNode nodeID with
    | false =>
      left
      rw [show (mutex.hold c true).hasNode nodeID = false from hknown]
      exact ⟨taken, rfl⟩
    | true =>
      right
      rw [show (mutex.hold c true).hasNode nodeID = true from hknown,
        if_pos rfl, bind_of_ok (update_apply _ _),
        bind_of_ok (update_apply _ _), saveState_snd]
      rw [migrateNodeShards_hold]
      exact ⟨rfl, taken, rfl⟩

/-! ## New shards -/

def Selects (c : Cluster) (keyRange : ShardKeyRange) (shard : Shard) : Prop :=
  ∃ order primaryNode replicaNodes,
    c.selectNodesForShard order = .ok (primaryNode, replicaNodes) ∧
      primaryNode ≠ [] ∧ shard = .new keyRange primaryNode replicaNodes

theorem Selects.placed {keyRange : ShardKeyRange}
    (hselects : c.Selects keyRange shard) :
    shard.holders.Nodup ∧ ∀ nodeID ∈ shard.holders, c.hasNode nodeID = true := by
  obtain ⟨order, primaryNode, replicaNodes, hselected, hnonempty, rfl⟩ := hselects
  have hperm := order.perm c.nodes.keys
  unfold selectNodesForShard at hselected
  cases hvisit : order.visit c.nodes.keys with
  | nil =>
    simp only [hvisit, Outcome.ok.injEq, Prod.mk.injEq] at hselected
    exact absurd hselected.1.symm hnonempty
  | cons primary others =>
    rw [hvisit] at hselected hperm
    dsimp only at hselected
    split_ifs at hselected with hnegative
    simp only [Outcome.ok.injEq, Prod.mk.injEq] at hselected
    have hsub : (Shard.new keyRange primaryNode replicaNodes).holders.Sublist
        (primary :: others) := by
      rw [← hselected.1, ← hselected.2]
      exact (List.take_sublist _ _).cons_cons primary
    refine ⟨(hperm.nodup_iff.mpr c.nodes.nodupKeys).sublist hsub, ?_⟩
    intro nodeID hholder
    have hkey := hperm.mem_iff.mp (hsub.subset hholder)
    exact AList.lookup_isSome.mpr (AList.mem_keys.mpr hkey)

theorem createShardHeld_cases {order : RangeOrder} {keyRange : ShardKeyRange}
    {written : Except GoString Unit} {c : Cluster} :
    ((createShardHeld order keyRange written c).2 = c ∧
        ∀ pointer, (createShardHeld order keyRange written c).1 ≠ .ok pointer) ∨
      ∃ shard, c.Selects keyRange shard ∧
        (createShardHeld order keyRange written c).2 = c.placeShard shard ∧
        ∀ pointer, (createShardHeld order keyRange written c).1 = .ok pointer →
          pointer = c.heap.length := by
  unfold createShardHeld
  rw [bind_apply, inspect_apply]
  cases hselected : c.selectNodesForShard order with
  | ok selected =>
    dsimp only
    by_cases hnone : selected.1 = []
    · rw [if_pos hnone]
      exact .inl ⟨rfl, by simp⟩
    · right
      refine ⟨.new keyRange selected.1 selected.2,
        ⟨order, selected.1, selected.2, hselected, hnone, rfl⟩, ?_⟩
      rw [if_neg hnone, bind_of_ok (view_apply), bind_of_ok (update_apply _ _), bind_apply]
      have hsaved := saveState_snd written (c.placeShard (.new keyRange selected.1 selected.2))
      rcases hsave : saveState written
        (c.placeShard (.new keyRange selected.1 selected.2)) with ⟨outcome, after⟩
      rw [hsave] at hsaved
      subst hsaved
      cases outcome with
      | ok u => exact ⟨rfl, fun pointer h => (Outcome.ok.inj h).symm⟩
      | _ => exact ⟨rfl, by simp⟩
  | _ => exact .inl ⟨rfl, by simp⟩

/-- A call that makes no shard returns none; one that returns a shard has made
it and has freed the lock. -/
theorem createShard_cases
    {c : Cluster} :
    (SameBut c (createShard order keyRange written c).2 ∧
        ∀ pointer, (createShard order keyRange written c).1 ≠ .ok pointer) ∨
      ∃ shard, c.Selects keyRange shard ∧
        SameBut (c.placeShard shard) (createShard order keyRange written c).2 ∧
        ∀ pointer, (createShard order keyRange written c).1 = .ok pointer →
          pointer = c.heap.length ∧
            (createShard order keyRange written c).2 = { c.placeShard shard with mu := false } := by
  rcases mutex.locking_cases with
    hwaits | ⟨taken, hdone⟩
  · left
    rw [createShard, hwaits]
    exact ⟨.refl c, by simp⟩
  rcases createShardHeld_cases with
    ⟨hsame, hnone⟩ | ⟨shard, hselects, hmade, hpointer⟩
  · left
    refine ⟨?_, fun pointer hreturned =>
      hnone pointer (mutex.locking_ok hreturned).1⟩
    rw [createShard, hdone, hsame]
    exact ⟨taken, rfl⟩
  · right
    refine ⟨shard, hselects, ?_, ?_⟩
    · rw [createShard, hdone, hmade]
      exact ⟨taken, rfl⟩
    · intro pointer hreturned
      obtain ⟨hbody, hafter⟩ := mutex.locking_ok hreturned
      refine ⟨hpointer pointer hbody, ?_⟩
      rw [createShard, hafter, hmade]
      rfl

/-! ## Filing a repository -/

@[simp] theorem updateNode_mu (nodeID : GoString)
    (change : ClusterNode → ClusterNode) (c : Cluster) :
    (c.updateNode nodeID change).mu = c.mu := by
  unfold updateNode
  cases c.nodes.lookup nodeID <;> rfl

def putOnAll (repoID : GoString) (repo : ℕ) (nodeIDs : List GoString) (c : Cluster) : Cluster :=
  nodeIDs.foldl (fun c nodeID => c.putRepository repoID repo nodeID) c

def NodeFree {γ : Type} (field : Cluster → γ) : Prop :=
  ∀ nodeID change c, field (updateNode nodeID change c) = field c

theorem nodeFree_shard? (shardID : GoString) : NodeFree fun c => c.shard? shardID :=
  fun nodeID change c => shard?_updateNode

theorem nodeFree_hasNode : NodeFree fun c => c.hasNode nodeID :=
  fun other change c => hasNode_updateNode

theorem NodeFree.putOnAll {γ : Type} {field : Cluster → γ}
    (hfield : NodeFree field) (repoID : GoString) (repo : ℕ)
    (nodeIDs : List GoString) (c : Cluster) :
    field (c.putOnAll repoID repo nodeIDs) = field c :=
  foldl_unchanged field (fun c nodeID => hfield nodeID _ c) nodeIDs c

def filed (pointer : ℕ) (repoID : GoString) (repo : ℕ) (c : Cluster) : Cluster :=
  (c.updateShard pointer (Shard.addRepository repoID)).putOnAll repoID repo
    ((c.updateShard pointer (Shard.addRepository repoID)).holdersAt pointer)

theorem forEach_storeOn (hfree : c.mu = false) :
    forEach nodeIDs (storeOn repoID repo) c = (.ok (), c.putOnAll repoID repo nodeIDs) := by
  induction nodeIDs generalizing c with
  | nil => rfl
  | cons nodeID nodeIDs ih =>
    have hstored : storeOn repoID repo nodeID c = (.ok (), c.putRepository repoID repo nodeID) :=
      mutex.reading_of_free hfree
    change (storeOn repoID repo nodeID >>= fun _ =>
      forEach nodeIDs (storeOn repoID repo)) c = _
    rw [bind_of_ok hstored]
    exact ih ((updateNode_mu nodeID _ c).trans hfree)

variable {repoID : GoString}

theorem findShard_eq_some (hfound : c.findShard order repoID = some pointer) :
    ∃ shardID shard, c.shards.lookup shardID = some pointer ∧ c.heap[pointer]? = some shard ∧
      keyInRange repoID shard.keyRange = true := by
  obtain ⟨⟨shardID, other⟩, hmem, hentry⟩ := List.exists_of_findSome?_eq_some hfound
  rw [mem_range] at hmem
  cases hheap : c.heap[other]? with
  | none =>
    rw [hheap] at hentry
    cases hentry
  | some shard =>
    simp only [hheap] at hentry
    split_ifs at hentry with hrange
    rw [Option.some.injEq] at hentry
    subst hentry
    exact ⟨shardID, shard, hmem, hheap, hrange⟩

theorem findShard_eq_none (hnone : c.findShard order repoID = none)
    (hshard : c.shard? shardID = some shard) :
    keyInRange repoID shard.keyRange = false := by
  obtain ⟨pointer, hlookup, hheap⟩ := shard?_eq_some.mp hshard
  unfold findShard at hnone
  rw [List.findSome?_eq_none_iff] at hnone
  have hentry := hnone (shardID, pointer) ((mem_range order c.shards shardID).mpr hlookup)
  simp only [hheap] at hentry
  split_ifs at hentry with hrange
  exact Bool.eq_false_iff.mpr hrange

/-- The shard that a distribution files the repository in: the one that the
search finds, or a new one if it finds none. -/
inductive Opens (c : Cluster) (order : RangeOrder) (repoID : GoString) :
    Cluster → ℕ → Prop where
  | found {pointer : ℕ} (hfound : c.findShard order repoID = some pointer) :
      Opens c order repoID c pointer
  | made {first : UInt8} {rest : GoString} {shard : Shard}
      (hkey : repoID = first :: rest)
      (hnone : c.findShard order repoID = none)
      (hselects : c.Selects (firstByteRange first) shard) :
      Opens c order repoID { c.placeShard shard with mu := false } c.heap.length

/-- A distribution that does not come to its shard has changed nothing, or it
has made the shard and waits to save the state. -/
def Stalls (c : Cluster) (order : RangeOrder) (repoID : GoString) (after : Cluster) : Prop :=
  SameBut c after ∨
    ∃ first rest shard, repoID = first :: rest ∧ c.findShard order repoID = none ∧
      c.Selects (firstByteRange first) shard ∧
      SameBut (c.placeShard shard) after

theorem shardForKey_cases {order : ℕ → RangeOrder} {repoID : GoString}
    {written : Except GoString Unit} {c : Cluster} :
    (c.Stalls (order 0) repoID (shardForKey order repoID written c).2 ∧
        ∀ pointer, (shardForKey order repoID written c).1 ≠ .ok pointer) ∨
      ∃ opened pointer, c.Opens (order 0) repoID opened pointer ∧ opened.mu = false ∧
        shardForKey order repoID written c = (.ok pointer, opened) := by
  unfold shardForKey
  cases hheld : c.mu with
  | true =>
    left
    have hwaits : getShardForRepository (order 0) repoID c = (.diverge, c) :=
      mutex.reading_of_held hheld
    rw [bind_apply, hwaits]
    exact ⟨.inl (.refl c), by simp⟩
  | false =>
    have hread : getShardForRepository (order 0) repoID c =
        (.ok (c.findShard (order 0) repoID), c) :=
      mutex.reading_of_free hheld
    rw [bind_of_ok hread]
    cases hfound : c.findShard (order 0) repoID with
    | some pointer =>
      exact .inr ⟨c, pointer, .found hfound, hheld, rfl⟩
    | none =>
      dsimp only
      cases repoID with
      | nil =>
        left
        refine ⟨.inl (.refl c), ?_⟩
        intro pointer hok
        cases hok
      | cons first rest =>
        have hrange : calculateKeyRange (first :: rest) c = (.ok (firstByteRange first), c) := rfl
        rw [bind_of_ok hrange, mapError]
        rcases createShard_cases
          with ⟨hsame, hnone⟩ | ⟨shard, hselects, hmade, hreturns⟩
        · left
          rcases hrun : createShard (order 1) (firstByteRange first) written c with ⟨outcome, after⟩
          rw [hrun] at hsame hnone
          cases outcome with
          | ok pointer => exact absurd rfl (hnone pointer)
          | _ => exact ⟨.inl hsame, by simp⟩
        · have hstalls : c.Stalls (order 0) (first :: rest)
              (createShard (order 1) (firstByteRange first) written c).2 :=
            .inr ⟨first, rest, shard, rfl, hfound, hselects, hmade⟩
          rcases hrun : createShard (order 1) (firstByteRange first) written c with ⟨outcome, after⟩
          rw [hrun] at hstalls hreturns
          cases outcome with
          | ok pointer =>
            right
            obtain ⟨hpointer, hafter⟩ := hreturns pointer rfl
            subst hpointer hafter
            exact ⟨_, _, .made rfl hfound hselects, rfl, rfl⟩
          | _ => exact .inl ⟨hstalls, by simp⟩

theorem distributeRepository_of_stalls {order : ℕ → RangeOrder} {repo : ℕ}
    (hnone : ∀ pointer, (shardForKey order repoID (written 0) c).1 ≠ .ok pointer) :
    (distributeRepository order repoID repo written c).1 ≠ .ok () ∧
      (distributeRepository order repoID repo written c).2 =
        (shardForKey order repoID (written 0) c).2 := by
  obtain ⟨hbad, hleft⟩ := bind_of_not_ok
    (f := fun pointer => do
      update (updateShard pointer (Shard.addRepository repoID))
      let holders ← view fun c => c.holdersAt pointer
      forEach holders (storeOn repoID repo)
      saveState (written 1)) hnone
  exact ⟨hbad (), hleft⟩

theorem distributeRepository_of_opens {order : ℕ → RangeOrder} {repo : ℕ}
    {written : ℕ → Except GoString Unit}
    (hrun : shardForKey order repoID (written 0) c = (.ok pointer, opened))
    (hfree : opened.mu = false) :
    (distributeRepository order repoID repo written c).2 = opened.filed pointer repoID repo := by
  have hlisted : (opened.updateShard pointer (Shard.addRepository repoID)).mu = false := hfree
  rw [distributeRepository, bind_of_ok hrun,
    bind_of_ok (update_apply _ _), bind_of_ok (view_apply),
    bind_of_ok (forEach_storeOn hlisted), saveState_snd]
  rfl

theorem distributeRepository_cases {order : ℕ → RangeOrder}
    {repoID : GoString} {repo : ℕ} {written : ℕ → Except GoString Unit}
    {c : Cluster} :
    (c.Stalls (order 0) repoID (distributeRepository order repoID repo written c).2 ∧
        (distributeRepository order repoID repo written c).1 ≠ .ok ()) ∨
      ∃ opened pointer, c.Opens (order 0) repoID opened pointer ∧
        (distributeRepository order repoID repo written c).2 =
          opened.filed pointer repoID repo := by
  rcases shardForKey_cases with
    ⟨hstalls, hnone⟩ | ⟨opened, pointer, hopens, hfree, hrun⟩
  · obtain ⟨hbad, hleft⟩ := distributeRepository_of_stalls hnone
    rw [hleft]
    exact .inl ⟨hstalls, hbad⟩
  · exact .inr ⟨opened, pointer, hopens, distributeRepository_of_opens hrun hfree⟩

def Vacant (c : Cluster) (shardID : GoString) : Prop :=
  ∀ shard, c.shard? shardID = some shard → ∀ repoID, shard.lists repoID = false

end Cluster

end Govc
