import Govc.ClusterEffects
import Mathlib.Tactic

/-!
# What the managers can do

The same for the operations of the sharding manager and the failover manager:
each leaves the tables of nodes and shards as they were or makes one named
change to them.  What a manager notes for itself is left open here, the part
apart that decides about later changes.
-/

namespace Govc

open Go Cluster GoM Shard

namespace Deployment

variable {host : Host}

structure SameTables (d after : Deployment host) : Prop where
  cluster : after.cluster = d.cluster
  shardMap : after.shardMap = d.shardMap

theorem SameTables.refl (d : Deployment host) : SameTables d d := ⟨rfl, rfl⟩

variable {d after : Deployment host}

theorem SameTables.trans (hfirst : SameTables d middle) (hsecond : SameTables middle after) :
    SameTables d after :=
  ⟨hsecond.cluster.trans hfirst.cluster, hsecond.shardMap.trans hfirst.shardMap⟩

/-! ## The sharding manager -/

theorem startSharding_tables : SameTables d (startSharding order d).2 := by
  apply clusterMutex.reading_keeps (Q := SameTables d) (.refl d)
  rw [update_apply]
  split
  · exact .refl d
  · exact ⟨rfl, rfl⟩

theorem getShardForRepository_cases {d : Deployment host} :
    SameTables d (getShardForRepository repoID d).2 ∨
      (d.hashRing.getNode repoID ≠ [] ∧ d.shardMap.lookup (d.ringShard repoID).id = none ∧
        (getShardForRepository repoID d).2.cluster = d.cluster.placeShard (d.ringShard repoID) ∧
        (getShardForRepository repoID d).2.shardMap =
          d.shardMap.insert (d.ringShard repoID).id d.cluster.heap.length) := by
  rw [getShardForRepository]
  rcases shardingMutex.reading_cases with ⟨-, hrun⟩ | ⟨-, hrun⟩
  · rw [hrun]
    exact .inl (.refl d)
  · rw [hrun, managedShard]
    split_ifs with hnone
    · exact .inl (.refl d)
    · dsimp only
      cases hknown : d.shardMap.lookup (d.ringShard repoID).id with
      | some pointer => exact .inl (.refl d)
      | none => exact .inr ⟨hnone, rfl, rfl, rfl⟩

theorem distributeRepository_eq (repoID : GoString) (repo : ℕ) (d : Deployment host) :
    distributeRepository repoID repo d = (.diverge, { d with shardingMu := true }) := by
  cases hheld : d.shardingMu with
  | true =>
    have hsame : ({ d with shardingMu := true } : Deployment host) = d := by
      rw [← hheld]
    rw [hsame, distributeRepository, Mutex.locking, show shardingMutex.held d = true from hheld]
    rfl
  | false =>
    rw [distributeRepository, Mutex.locking, show shardingMutex.held d = false from hheld]
    rfl

theorem migrateShard_tables : SameTables d (migrateShard order shardID source target d).2 := by
  apply shardingMutex.locking_keeps (Q := SameTables d) _ (.refl d)
  · unfold queueMigration
    cases ((shardingMutex.hold d true).shardMap.lookup shardID).bind
        fun pointer => (shardingMutex.hold d true).cluster.heap[pointer]? with
    | none => exact ⟨rfl, rfl⟩
    | some shard => exact ⟨rfl, rfl⟩
  · intro t taken htables
    exact ⟨htables.cluster, htables.shardMap⟩

def migrated (task : MigrationTask) (shardMap : GoMap GoString ℕ) (c : Cluster) : Cluster :=
  reassignShard task shardMap (moveRepositories task c)

variable {γ : Type} {field : Cluster → γ}

theorem moveRepositories_unchanged
    (hfield : Cluster.NodeFree field) (c : Cluster) :
    field (moveRepositories task c) = field c := by
  apply foldl_unchanged field
  intro c repoID
  unfold moveRepository
  cases c.repositoryOn task.sourceNode repoID with
  | none => rfl
  | some repo => exact (hfield _ _ _).trans (hfield _ _ _)

/-- A task whose nodes are there moves its repositories and then reassigns the
shard, unless the manager's lock is never freed. -/
def Migrates (task : MigrationTask) (d after : Deployment host) : Prop :=
  d.cluster.hasNode task.sourceNode = true ∧ d.cluster.hasNode task.targetNode = true ∧
    after.shardMap = d.shardMap ∧
    after.cluster =
      if d.shardingMu then moveRepositories task d.cluster
      else migrated task d.shardMap d.cluster

theorem executeMigration_cases (d : Deployment host) :
    SameTables d (executeMigration task d).2 ∨ Migrates task d (executeMigration task d).2 := by
  unfold executeMigration
  cases hheld : d.cluster.mu with
  | true =>
    left
    rw [bind_apply, clusterMutex.reading_of_held hheld]
    exact .refl d
  | false =>
    have hread : clusterMutex.reading (view fun d : Deployment host =>
        d.cluster.hasNode task.sourceNode && d.cluster.hasNode task.targetNode) d =
        (.ok (d.cluster.hasNode task.sourceNode && d.cluster.hasNode task.targetNode), d) :=
      clusterMutex.reading_of_free hheld
    rw [bind_of_ok hread]
    cases hpresent : d.cluster.hasNode task.sourceNode && d.cluster.hasNode task.targetNode with
    | false =>
      left
      exact .refl d
    | true =>
      right
      rw [Bool.and_eq_true] at hpresent
      refine ⟨hpresent.1, hpresent.2, ?_⟩
      rw [if_pos rfl, bind_of_ok (update_apply _ _)]
      cases hsharding : d.shardingMu with
      | true =>
        have hlocked : shardingMutex.held
            (d.updateCluster (moveRepositories task)) = true := hsharding
        rw [bind_apply, shardingMutex.locking_of_held hlocked]
        exact ⟨rfl, rfl⟩
      | false =>
        have hopen : shardingMutex.held
            (d.updateCluster (moveRepositories task)) = false := hsharding
        rw [bind_of_ok (shardingMutex.locking_of_free hopen (update_apply _ _))]
        exact ⟨rfl, rfl⟩

theorem processMigration_cases {d : Deployment host} :
    SameTables d (processMigration index d).2 ∨
      ∃ task, d.migrations[index]? = some task ∧ Migrates task d (processMigration index d).2 := by
  unfold processMigration
  rw [bind_of_ok (view_apply)]
  cases htask : d.migrations[index]? with
  | none => exact .inl (.refl d)
  | some task =>
    dsimp only
    rw [bind_of_ok (update_apply _ _), snd_bind_pure]
    rcases executeMigration_cases { d with migrations := d.migrations.eraseIdx index } with
      hsame | hmigrates
    · exact .inl ⟨hsame.cluster, hsame.shardMap⟩
    · exact .inr ⟨task, rfl, hmigrates⟩

/-! ## The failover manager -/

theorem checkAllNodes_tables : SameTables d (checkAllNodes order responseTime d).2 := by
  apply clusterMutex.reading_keeps (Q := SameTables d) (.refl d)
  exact ⟨rfl, rfl⟩

/-- Tables, health and policy are the same: only what the failover manager has
started and logged may differ. -/
structure SameHealth (d after : Deployment host) : Prop
    extends SameTables d after where
  nodeStatus : after.nodeStatus = d.nodeStatus

theorem SameHealth.refl (d : Deployment host) : SameHealth d d := ⟨.refl d, rfl⟩

theorem SameHealth.trans (hfirst : SameHealth d middle) (hsecond : SameHealth middle after) :
    SameHealth d after :=
  ⟨hfirst.toSameTables.trans hsecond.toSameTables, hsecond.nodeStatus.trans hfirst.nodeStatus⟩

theorem handleNodeFailure_health (order : RangeOrder) (now : ℤ)
    (nodeID : GoString) (d : Deployment host) :
    SameHealth d (handleNodeFailure order now nodeID d).2 := by
  unfold handleNodeFailure
  rw [bind_of_ok (view_apply)]
  cases d.isInCooldown now nodeID with
  | true => exact .refl d
  | false =>
    rw [if_neg Bool.false_ne_true, bind_of_ok (update_apply _ _), bind_apply]
    rcases clusterMutex.reading_cases with ⟨-, hrun⟩ | ⟨-, hrun⟩
    · rw [hrun]
      exact ⟨⟨rfl, rfl⟩, rfl⟩
    · rw [hrun, view_apply]
      dsimp only
      by_cases hnone : (d.logEvent ⟨nodeID, now⟩).findReplacementNode order nodeID = []
      · rw [if_pos hnone]
        exact ⟨⟨rfl, rfl⟩, rfl⟩
      · rw [if_neg hnone]
        exact ⟨⟨rfl, rfl⟩, rfl⟩

theorem forEach_handleNodeFailure (order : RangeOrder) (now : ℤ)
    (unhealthy : List NodeHealth) (d : Deployment host) :
    SameHealth d (forEach unhealthy
      (fun health => handleNodeFailure order now health.nodeID) d).2 := by
  induction unhealthy generalizing d with
  | nil => exact .refl d
  | cons health rest ih =>
    change SameHealth d ((handleNodeFailure order now health.nodeID >>=
      fun _ => forEach rest fun health =>
        handleNodeFailure order now health.nodeID) d).2
    have hfirst := handleNodeFailure_health order now health.nodeID d
    rw [bind_apply]
    rcases hrun : handleNodeFailure order now health.nodeID d with
      ⟨outcome, after⟩
    rw [hrun] at hfirst
    cases outcome with
    | ok u => exact hfirst.trans (ih after)
    | _ => exact hfirst

def Promotes (order : RangeOrder) (d after : Deployment host) : Prop :=
  d.findLeaderCandidate order ≠ [] ∧
    after.cluster = d.cluster.promote (d.findLeaderCandidate order) ∧ after.shardMap = d.shardMap

theorem triggerLeaderElection_cases :
    SameTables d (triggerLeaderElection order now d).2 ∨
      Promotes order d (triggerLeaderElection order now d).2 := by
  unfold triggerLeaderElection
  rw [bind_of_ok (view_apply)]
  split_ifs with hnone
  · exact .inl (.refl d)
  · rw [bind_of_ok (update_apply _ _)]
    rcases clusterMutex.reading_cases with ⟨-, hrun⟩ | ⟨-, hrun⟩
    · rw [hrun]
      exact .inl ⟨rfl, rfl⟩
    · rw [hrun]
      exact .inr ⟨hnone, rfl, rfl⟩

theorem hasQuorum_snd (healthy : ℕ) (d : Deployment host) : (hasQuorum healthy d).2 = d := by
  unfold hasQuorum
  rw [bind_of_ok (view_apply)]
  cases d.policy.requireQuorum with
  | false => rfl
  | true => exact clusterMutex.reading_keeps (Q := fun after => after = d) rfl rfl

theorem SameHealth.leaderMissing (hsame : SameHealth d after) (order : RangeOrder) :
    after.leaderMissing order = d.leaderMissing order := by
  unfold Deployment.leaderMissing isNodeUnhealthy
  rw [hsame.cluster, hsame.nodeStatus]

theorem SameHealth.findLeaderCandidate (hsame : SameHealth d after) (order : RangeOrder) :
    after.findLeaderCandidate order = d.findLeaderCandidate order := by
  unfold Deployment.findLeaderCandidate
  rw [hsame.nodeStatus]

theorem ensureLeader_cases {d : Deployment host} :
    SameTables d (ensureLeader order now d).2 ∨
      d.leaderMissing (order 2) = true ∧ Promotes (order 3) d (ensureLeader order now d).2 := by
  unfold ensureLeader
  cases hheld : d.cluster.mu with
  | true =>
    rw [bind_apply, clusterMutex.reading_of_held hheld]
    exact .inl (.refl d)
  | false =>
    have hread : clusterMutex.reading (view (@leaderMissing host (order 2))) d =
        (.ok (d.leaderMissing (order 2)), d) :=
      clusterMutex.reading_of_free hheld
    rw [bind_of_ok hread]
    cases hmissing : d.leaderMissing (order 2) with
    | false => exact .inl (.refl d)
    | true =>
      rcases triggerLeaderElection_cases with hsame | hpromotes
      · exact .inl hsame
      · exact .inr ⟨rfl, hpromotes⟩

/-- Unhealthy nodes are handled before the check for a leader; that changes
neither the nodes nor their health. -/
theorem checkFailoverConditions_cases {d : Deployment host} :
    SameTables d (checkFailoverConditions order now d).2 ∨
      d.leaderMissing (order 2) = true ∧
        Promotes (order 3) d (checkFailoverConditions order now d).2 := by
  unfold checkFailoverConditions
  rw [bind_of_ok (view_apply)]
  cases d.policy.autoFailoverEnabled with
  | false => exact .inl (.refl d)
  | true =>
    rw [if_pos rfl, bind_of_ok (view_apply)]
    generalize (d.nodeStatus.range (order 0)).map Prod.snd = status
    rw [bind_of_ok (view_apply)]
    split
    · exact .inl (.refl d)
    rw [bind_apply]
    have hquorum := hasQuorum_snd (status.filter NodeHealth.isHealthy).length d
    rcases hrun : hasQuorum (status.filter NodeHealth.isHealthy).length d with
      ⟨outcome, after⟩
    rw [hrun] at hquorum
    subst hquorum
    cases outcome with
    | ok enough =>
      cases enough with
      | false => exact .inl (.refl after)
      | true =>
        dsimp only
        rw [if_pos rfl, bind_apply]
        have hhandled := forEach_handleNodeFailure (order 1) now
          (status.filter NodeHealth.isUnhealthy) after
        rcases hloop : forEach (status.filter NodeHealth.isUnhealthy)
          (fun health => handleNodeFailure (order 1) now health.nodeID)
          after with ⟨result, handled⟩
        rw [hloop] at hhandled
        cases result with
        | error e => exact .inl hhandled.toSameTables
        | panic e => exact .inl hhandled.toSameTables
        | diverge => exact .inl hhandled.toSameTables
        | ok u =>
          rcases ensureLeader_cases with
            hsame | ⟨hmissing, hsome, hcluster, hmap⟩
          · exact .inl (hhandled.toSameTables.trans hsame)
          · refine .inr ⟨?_, ?_, ?_, ?_⟩
            · rw [← hhandled.leaderMissing]
              exact hmissing
            · rw [← hhandled.findLeaderCandidate]
              exact hsome
            · rw [hcluster, hhandled.cluster, hhandled.findLeaderCandidate]
            · exact hmap.trans hhandled.shardMap
    | _ => exact .inl (.refl after)

def failedOver (order : RangeOrder) (task : FailoverTask) (c : Cluster) (pointer : ℕ) : Cluster :=
  (c.updateShard pointer (failOver task.targetNode)).copyRepositories
    order task.sourceNode task.targetNode pointer

theorem copyRepositories_unchanged (hfield : Cluster.NodeFree field) {c : Cluster} :
    field (c.copyRepositories order source target pointer) = field c := by
  unfold copyRepositories
  cases c.nodes.lookup source with
  | none => rfl
  | some sourceNode =>
    cases c.nodes.lookup target with
    | none => rfl
    | some targetNode =>
      cases c.heap[pointer]? with
      | none => rfl
      | some shard =>
        apply foldl_unchanged field
        intro c entry
        cases shard.lists entry.1 with
        | false => rfl
        | true => exact hfield target _ c

theorem failedOver_unchanged (hfield : Cluster.NodeFree field) {order : RangeOrder}
    {task : FailoverTask} (c : Cluster) {pointer : ℕ} :
    field (failedOver order task c pointer) =
      field (c.updateShard pointer (failOver task.targetNode)) :=
  copyRepositories_unchanged hfield

theorem mem_shardsOf {c : Cluster}
    :
    pointer ∈ c.shardsOf order nodeID ↔
      pointer ∈ c.pointers order ∧
        ∃ shard, c.heap[pointer]? = some shard ∧ shard.primaryNode = nodeID := by
  unfold shardsOf Cluster.pointers
  rw [List.mem_filter]
  cases c.heap[pointer]? <;> simp

theorem shard?_foldl_failedOver {shardOrder order : RangeOrder}
    {task : FailoverTask} {c : Cluster} (shardID : GoString) :
    ((c.shardsOf shardOrder task.sourceNode).foldl (failedOver order task) c).shard? shardID =
      (c.shard? shardID).map fun shard =>
        if shard.primaryNode = task.sourceNode then
          shard.failOver task.targetNode
        else shard := by
  have htable : ((c.shardsOf shardOrder task.sourceNode).foldl
      (failedOver order task) c).shards = c.shards := by
    apply foldl_unchanged Cluster.shards
    intro c pointer
    exact failedOver_unchanged updateNode_shards c
  have hdistinct : (c.shardsOf shardOrder task.sourceNode).Nodup :=
    (c.pointers_nodup shardOrder).sublist List.filter_sublist
  unfold Cluster.shard?
  rw [htable]
  cases hlookup : c.shards.lookup shardID with
  | none => rfl
  | some pointer =>
    rw [Option.bind_some, Option.bind_some,
      Cluster.getElem?_foldl_updateShard
        (failedOver_unchanged updateNode_heap) hdistinct]
    cases hshard : c.heap[pointer]? with
    | none => rfl
    | some shard =>
      have hmem : pointer ∈ c.shardsOf shardOrder task.sourceNode ↔
          shard.primaryNode = task.sourceNode := by
        rw [mem_shardsOf, hshard]
        simp [mem_pointers.mpr ⟨shardID, hlookup⟩]
      simp only [Option.map_some, hmem]

theorem hasNode_foldl_failedOver (order : RangeOrder) (task : FailoverTask)
    (pointers : List ℕ) (c : Cluster) (nodeID : GoString) :
    (pointers.foldl (failedOver order task) c).hasNode nodeID = c.hasNode nodeID := by
  apply foldl_unchanged fun c => c.hasNode nodeID
  intro c pointer
  exact failedOver_unchanged (nodeFree_hasNode) c

theorem failOverShard_of_free (hfree : d.cluster.mu = false) :
    failOverShard order task pointer d =
      (.ok (), d.updateCluster fun c => failedOver order task c pointer) := by
  have hopen : clusterMutex.held (d.updateCluster
      (updateShard pointer (failOver task.targetNode))) = false :=
    hfree
  rw [failOverShard, bind_of_ok (update_apply _ _), clusterMutex.reading_of_free hopen]
  rfl

theorem failOverShard_of_held {task : FailoverTask}
    (hheld : d.cluster.mu = true) :
    failOverShard order task pointer d =
      (.diverge, d.updateCluster (updateShard pointer (failOver task.targetNode))) := by
  have hlocked : clusterMutex.held (d.updateCluster
      (updateShard pointer (failOver task.targetNode))) = true :=
    hheld
  rw [failOverShard, bind_of_ok (update_apply _ _), clusterMutex.reading_of_held hlocked]

theorem forEach_failOverShard {pointers : List ℕ} (hfree : d.cluster.mu = false) :
    forEach pointers (failOverShard order task) d =
      (.ok (), d.updateCluster fun c =>
        pointers.foldl (failedOver order task) c) := by
  induction pointers generalizing d with
  | nil => rfl
  | cons pointer rest ih =>
    change (failOverShard order task pointer >>= fun _ =>
      forEach rest (failOverShard order task)) d = _
    rw [bind_of_ok (failOverShard_of_free hfree)]
    exact ih ((failedOver_unchanged updateNode_mu d.cluster).trans hfree)

/-- A failover hands on all shards of the failed node, or only reassigns the
first if the cluster's lock is never freed. -/
def HandsOn (order : ℕ → RangeOrder) (task : FailoverTask) (d after : Deployment host) : Prop :=
  after.shardMap = d.shardMap ∧
    (d.cluster.mu = false ∧ after.cluster =
        (d.cluster.shardsOf (order 0) task.sourceNode).foldl (failedOver (order 1) task) d.cluster ∨
      d.cluster.mu = true ∧ ∃ pointer ∈ d.cluster.shardsOf (order 0) task.sourceNode,
        after.cluster = d.cluster.updateShard pointer (failOver task.targetNode))

theorem migrateNodeShards_cases {order : ℕ → RangeOrder}
    {task : FailoverTask} (d : Deployment host) :
    SameTables d (migrateNodeShards order task d).2 ∨
      HandsOn order task d (migrateNodeShards order task d).2 := by
  rw [migrateNodeShards, bind_of_ok (view_apply)]
  cases hheld : d.cluster.mu with
  | false =>
    right
    rw [forEach_failOverShard hheld]
    exact ⟨rfl, .inl ⟨hheld, rfl⟩⟩
  | true =>
    cases hshards : d.cluster.shardsOf (order 0) task.sourceNode with
    | nil => exact .inl (.refl d)
    | cons pointer rest =>
      right
      have hwaits : forEach (pointer :: rest) (failOverShard (order 1) task) d =
          (.diverge, d.updateCluster (updateShard pointer (failOver task.targetNode))) := by
        change (failOverShard (order 1) task pointer >>= fun _ =>
          forEach rest (failOverShard (order 1) task)) d = _
        rw [bind_apply, failOverShard_of_held hheld]
      rw [hwaits]
      exact ⟨rfl, .inr ⟨hheld, pointer, hshards ▸ List.mem_cons_self, rfl⟩⟩

theorem processFailover_cases {d : Deployment host} :
    SameTables d (processFailover order index d).2 ∨
      ∃ task, d.failovers[index]? = some task ∧
        HandsOn order task d (processFailover order index d).2 := by
  unfold processFailover
  rw [bind_of_ok (view_apply)]
  cases htask : d.failovers[index]? with
  | none => exact .inl (.refl d)
  | some task =>
    rcases migrateNodeShards_cases
      { d with failovers := d.failovers.eraseIdx index } with hsame | hhanded
    · exact .inl ⟨hsame.cluster, hsame.shardMap⟩
    · exact .inr ⟨task, rfl, hhanded⟩

/-! ## What an input can do -/

/-- All that an input can do to the tables of nodes and shards: nothing, or the
one change that is named.  Invariants of runs are proved by cases on this. -/
inductive Effect (d : Deployment host) : ClusterInput → Deployment host → Prop
  where
  | same {input : ClusterInput} {after : Deployment host}
      (hsame : Cluster.SameBut d.cluster after.cluster)
      (hmap : after.shardMap = d.shardMap) : Effect d input after
  | joined {node : ClusterNode} {written : Except GoString Unit}
      {after : Deployment host} (hnew : d.cluster.hasNode node.id = false)
      (hjoined : Cluster.SameBut { d.cluster with nodes := d.cluster.nodes.insert node.id node }
        after.cluster)
      (hmap : after.shardMap = d.shardMap) :
      Effect d (.addNode node written) after
  | departed {order : RangeOrder} {nodeID : GoString}
      {written : Except GoString Unit} {after : Deployment host}
      (hleft : Cluster.SameBut (d.cluster.departed order nodeID) after.cluster)
      (hmap : after.shardMap = d.shardMap) :
      Effect d (.removeNode order nodeID written) after
  | made {order : RangeOrder} {keyRange : ShardKeyRange}
      {written : Except GoString Unit} {after : Deployment host} {shard : Shard}
      (hselects : d.cluster.Selects keyRange shard)
      (hmade : Cluster.SameBut (d.cluster.placeShard shard) after.cluster)
      (hmap : after.shardMap = d.shardMap) :
      Effect d (.createShard order keyRange written) after
  | stalled {order : ℕ → RangeOrder} {repoID : GoString} {repo : ℕ}
      {written : ℕ → Except GoString Unit} {after : Deployment host}
      (hstalls : d.cluster.Stalls (order 0) repoID after.cluster)
      (hmap : after.shardMap = d.shardMap) :
      Effect d (.distribute order repoID repo written) after
  | filed {order : ℕ → RangeOrder} {repoID : GoString} {repo : ℕ}
      {written : ℕ → Except GoString Unit} {after : Deployment host}
      {opened : Cluster} {pointer : ℕ}
      (hopens : d.cluster.Opens (order 0) repoID opened pointer)
      (hcluster : after.cluster = opened.filed pointer repoID repo)
      (hmap : after.shardMap = d.shardMap) :
      Effect d (.distribute order repoID repo written) after
  | managed {repoID : GoString} {after : Deployment host}
      (hnode : d.hashRing.getNode repoID ≠ [])
      (hnew : d.shardMap.lookup (d.ringShard repoID).id = none)
      (hcluster : after.cluster = d.cluster.placeShard (d.ringShard repoID))
      (hmap : after.shardMap = d.shardMap.insert (d.ringShard repoID).id d.cluster.heap.length) :
      Effect d (.managedShard repoID) after
  | migrated {index : ℕ} {after : Deployment host} {task : MigrationTask}
      (htask : d.migrations[index]? = some task)
      (htarget : d.cluster.hasNode task.targetNode = true)
      (hcluster : after.cluster =
        if d.shardingMu then moveRepositories task d.cluster
        else Deployment.migrated task d.shardMap d.cluster)
      (hmap : after.shardMap = d.shardMap) :
      Effect d (.processMigration index) after
  | replaced {order : ℕ → RangeOrder} {now : ℤ} {after : Deployment host}
      (hmissing : d.leaderMissing (order 2) = true)
      (hsome : d.findLeaderCandidate (order 3) ≠ [])
      (hcluster : after.cluster = d.cluster.promote (d.findLeaderCandidate (order 3)))
      (hmap : after.shardMap = d.shardMap) :
      Effect d (.checkFailover order now) after
  | elected {order : RangeOrder} {now : ℤ} {after : Deployment host}
      (hsome : d.findLeaderCandidate order ≠ [])
      (hcluster : after.cluster = d.cluster.promote (d.findLeaderCandidate order))
      (hmap : after.shardMap = d.shardMap) :
      Effect d (.electLeader order now) after
  | failedOver {order : ℕ → RangeOrder} {index : ℕ}
      {after : Deployment host} {task : FailoverTask}
      (htask : d.failovers[index]? = some task)
      (hcluster : after.cluster =
        (d.cluster.shardsOf (order 0) task.sourceNode).foldl
          (Deployment.failedOver (order 1) task) d.cluster)
      (hmap : after.shardMap = d.shardMap) :
      Effect d (.processFailover order index) after
  | failedOverFirst {order : ℕ → RangeOrder} {index : ℕ}
      {after : Deployment host} {task : FailoverTask} {pointer : ℕ}
      (htask : d.failovers[index]? = some task)
      (hlocked : d.cluster.mu = true)
      (hmem : pointer ∈ d.cluster.shardsOf (order 0) task.sourceNode)
      (hcluster : after.cluster = d.cluster.updateShard pointer (failOver task.targetNode))
      (hmap : after.shardMap = d.shardMap) :
      Effect d (.processFailover order index) after
  | stepped {nodeID : GoString} {event : NodeEvent} {after : Deployment host}
      (hcluster : after.cluster = d.cluster.nodeEvent nodeID event)
      (hmap : after.shardMap = d.shardMap) :
      Effect d (.node nodeID event) after

theorem SameTables.effect (hsame : SameTables d after) : Effect d input after := by
  refine .same ?_ hsame.shardMap
  rw [hsame.cluster]
  exact .refl d.cluster

theorem effect_perform (d : Deployment host) :
    Effect d input (d.perform input) := by
  cases input with
  | addNode node written =>
    rcases addNode_cases with
      hsame | ⟨hnew, hjoined⟩
    · exact .same hsame rfl
    · exact .joined hnew hjoined rfl
  | removeNode order nodeID written =>
    rcases removeNode_cases with
      hsame | ⟨-, hleft⟩
    · exact .same hsame rfl
    · exact .departed hleft rfl
  | createShard order keyRange written =>
    rcases createShard_cases with
      ⟨hsame, -⟩ | ⟨shard, hselects, hmade, -⟩
    · exact .same hsame rfl
    · exact .made hselects hmade rfl
  | distribute order repoID repo written =>
    rcases distributeRepository_cases with ⟨hstalls, -⟩ | ⟨opened, pointer, hopens, hfiled⟩
    · exact .stalled hstalls rfl
    · exact .filed hopens hfiled rfl
  | startSharding order => exact startSharding_tables.effect
  | managedShard repoID =>
    rcases getShardForRepository_cases with
      hsame | ⟨hnode, hnew, hcluster, hmap⟩
    · exact hsame.effect
    · exact .managed hnode hnew hcluster hmap
  | managedDistribute repoID repo =>
    rw [perform, distributeRepository_eq]
    exact SameTables.effect ⟨rfl, rfl⟩
  | migrateShard order shardID source target =>
    exact migrateShard_tables.effect
  | processMigration index =>
    rcases processMigration_cases with
      hsame | ⟨task, htask, -, htarget, hmap, hcluster⟩
    · exact hsame.effect
    · exact .migrated htask htarget hcluster hmap
  | checkAllNodes order responseTime =>
    exact checkAllNodes_tables.effect
  | checkFailover order now =>
    rcases checkFailoverConditions_cases with
      hsame | ⟨hmissing, hsome, hcluster, hmap⟩
    · exact hsame.effect
    · exact .replaced hmissing hsome hcluster hmap
  | nodeFailure order now nodeID =>
    exact (handleNodeFailure_health order now nodeID d).toSameTables.effect
  | electLeader order now =>
    rcases triggerLeaderElection_cases with
      hsame | ⟨hsome, hcluster, hmap⟩
    · exact hsame.effect
    · exact .elected hsome hcluster hmap
  | processFailover order index =>
    rcases processFailover_cases with
      hsame | ⟨task, htask, hmap, ⟨-, hcluster⟩ | ⟨hlocked, pointer, hmem, hcluster⟩⟩
    · exact hsame.effect
    · exact .failedOver htask hcluster hmap
    · exact .failedOverFirst htask hlocked hmem hcluster hmap
  | node nodeID event => exact .stepped rfl rfl

end Deployment

end Govc
