import Govc.ManagerEffects
import Govc.ReplicaSets

/-!
# Where shards are placed

A shard is well placed if its primary and its replicas are different nodes of
the cluster.  Removing the only holder of a shard, migrating a shard to one of
its other holders, failing over to a node that has left and placing a shard by
a ring that still has a removed node break that.  Runs without such a step
keep every shard well placed.
-/

namespace Govc

open Go ClusterRun Deployment

namespace Shard

variable (shard : Shard)

theorem holders_reassign (source target : GoString) :
    (shard.reassign source target).holders = Replicas.handOver source target shard.holders := rfl

theorem holders_withoutNode {shard : Shard}
    (hdistinct : shard.holders.Nodup)
    (hspare : shard.primaryNode = nodeID → shard.replicaNodes ≠ []) :
    (shard.withoutNode nodeID).holders =
      shard.holders.filter fun holder => decide (holder ≠ nodeID) := by
  unfold withoutNode holders at *
  split_ifs with hprimary
  · rw [List.filter_cons_of_neg (by simpa using hprimary)]
    cases hreplicas : shard.replicaNodes with
    | nil => exact absurd hreplicas (hspare hprimary)
    | cons replica rest =>
      have hne : replica ≠ nodeID := by
        rintro rfl
        rw [hreplicas, hprimary] at hdistinct
        exact (List.nodup_cons.mp hdistinct).1 List.mem_cons_self
      rw [List.filter_cons_of_pos (by simpa using hne)]
  · rw [List.filter_cons_of_pos (by simpa using hprimary)]

theorem holders_failOver (target : GoString) :
    (shard.failOver target).holders =
      if shard.replicaNodes = [] then [target] else shard.replicaNodes := by
  unfold failOver holders
  cases hreplicas : shard.replicaNodes with
  | nil => rw [if_pos rfl]
  | cons replica rest => rw [if_neg (List.cons_ne_nil replica rest)]

end Shard

namespace Cluster

def members (c : Cluster) : Set GoString := { nodeID | c.hasNode nodeID = true }

/-- Every shard's primary is a node that is not among the replicas, and these
are different nodes. -/
def WellPlaced (c : Cluster) : Prop :=
  ∀ shardID shard, c.shard? shardID = some shard →
    c.hasNode shard.primaryNode = true ∧ shard.primaryNode ∉ shard.replicaNodes ∧
      shard.replicaNodes.Nodup ∧
      ∀ replica ∈ shard.replicaNodes, c.hasNode replica = true

theorem placed_iff (c : Cluster) {shard : Shard} :
    Replicas.Placed c.members shard.holders ↔
      c.hasNode shard.primaryNode = true ∧ shard.primaryNode ∉ shard.replicaNodes ∧
        shard.replicaNodes.Nodup ∧
        ∀ replica ∈ shard.replicaNodes, c.hasNode replica = true := by
  constructor
  · intro hplaced
    obtain ⟨hprimary, hreplicas⟩ := List.nodup_cons.mp hplaced.distinct
    refine ⟨hplaced.present _ List.mem_cons_self, hprimary, hreplicas, ?_⟩
    intro replica hreplica
    exact hplaced.present replica (List.mem_cons_of_mem _ hreplica)
  · rintro ⟨hprimary, hother, hdistinct, hpresent⟩
    refine ⟨List.nodup_cons.mpr ⟨hother, hdistinct⟩, ?_⟩
    intro holder hholder
    rcases List.mem_cons.mp hholder with rfl | hreplica
    · exact hprimary
    · exact hpresent holder hreplica

def Placed (c : Cluster) : Prop :=
  ∀ shardID shard, c.shard? shardID = some shard → Replicas.Placed c.members shard.holders

namespace Placed

variable {c after : Cluster}

variable (hplaced : c.Placed)

include hplaced

theorem wellPlaced : c.WellPlaced := by
  intro shardID shard hshard
  exact c.placed_iff.mp (hplaced shardID shard hshard)

theorem of_same (hshards : ∀ shardID, after.shard? shardID = c.shard? shardID)
    (hnodes : ∀ nodeID, after.hasNode nodeID = c.hasNode nodeID) :
    after.Placed := by
  intro shardID shard hshard
  rw [hshards] at hshard
  apply (hplaced shardID shard hshard).mono
  intro nodeID hmember
  exact (hnodes nodeID).trans hmember

theorem sameBut (hsame : SameBut c after) : after.Placed := by
  obtain ⟨taken, rfl⟩ := hsame
  exact hplaced.of_same (fun _ => rfl) (fun _ => rfl)

theorem joined (node : ClusterNode) :
    Cluster.Placed { c with nodes := c.nodes.insert node.id node } := by
  intro shardID shard hshard
  apply (hplaced shardID shard hshard).mono
  intro nodeID hmember
  change ((c.nodes.insert node.id node).lookup nodeID).isSome = true
  rw [GoMap.lookup_insert_eq]
  split
  · rfl
  · exact hmember

theorem departed (order : RangeOrder)
    (hspare : ∀ shardID shard, c.shard? shardID = some shard →
      shard.primaryNode = nodeID → shard.replicaNodes ≠ []) :
    (c.departed order nodeID).Placed := by
  intro shardID left hleft
  rw [shard?_departed, Option.map_eq_some_iff] at hleft
  obtain ⟨shard, hshard, rfl⟩ := hleft
  have hholders := hplaced shardID shard hshard
  rw [Shard.holders_withoutNode hholders.distinct (hspare shardID shard hshard)]
  apply (hholders.leave nodeID).mono
  rintro other ⟨hmember, hother⟩
  rw [Set.mem_singleton_iff] at hother
  change ((c.departed order nodeID).nodes.lookup other).isSome = true
  rw [lookup_departed, if_neg hother]
  exact hmember

theorem placeShard {shard : Shard}
    (hholders : Replicas.Placed c.members shard.holders) :
    (c.placeShard shard).Placed := by
  intro shardID other hshard
  rw [shard?_placeShard] at hshard
  split at hshard
  · rw [Option.some.injEq] at hshard
    subst hshard
    exact hholders
  · exact hplaced shardID other hshard

theorem selects (hselects : c.Selects keyRange shard) : (c.placeShard shard).Placed :=
  hplaced.placeShard ⟨hselects.placed.1, hselects.placed.2⟩

theorem updateShard
    (hchange : ∀ shard, c.heap[pointer]? = some shard → Replicas.Placed c.members shard.holders →
      Replicas.Placed c.members (change shard).holders) :
    (c.updateShard pointer change).Placed := by
  intro shardID other hshard
  rw [shard?_updateShard, Option.map_eq_some_iff] at hshard
  obtain ⟨shard, hold, rfl⟩ := hshard
  have hholders := hplaced shardID shard hold
  split_ifs with hpointer
  · rw [shard?, hpointer] at hold
    exact hchange shard hold hholders
  · exact hholders

theorem of_nodeFree (hunchanged : ∀ {γ : Type} {field : Cluster → γ},
      NodeFree field → field after = field c) : after.Placed :=
  hplaced.of_same (fun shardID => hunchanged (nodeFree_shard? shardID))
    (fun nodeID => hunchanged (nodeFree_hasNode))

theorem filed (pointer : ℕ) (repoID : GoString)
    (repo : ℕ) : (c.filed pointer repoID repo).Placed := by
  have hlisted : (c.updateShard pointer (Shard.addRepository repoID)).Placed :=
    hplaced.updateShard (fun _ _ hholders => hholders)
  exact hlisted.of_nodeFree (fun hfield => hfield.putOnAll repoID repo _ _)

theorem opens {opened : Cluster}
    (hopens : c.Opens order repoID opened pointer) : opened.Placed := by
  cases hopens with
  | found hfound => exact hplaced
  | made hkey hnone hselects => exact (hplaced.selects hselects).sameBut ⟨false, rfl⟩

theorem stalls (hstalls : c.Stalls order repoID after) : after.Placed := by
  rcases hstalls with hsame | ⟨first, rest, shard, -, -, hselects, hsame⟩
  · exact hplaced.sameBut hsame
  · exact (hplaced.selects hselects).sameBut hsame

theorem moveRepositories (task : MigrationTask) : (Deployment.moveRepositories task c).Placed :=
  hplaced.of_nodeFree (fun hfield => moveRepositories_unchanged hfield c)

theorem migrated (task : MigrationTask)
    (shardMap : GoMap GoString ℕ) (htarget : c.hasNode task.targetNode = true)
    (hfree : ∀ pointer shard, shardMap.lookup task.shardID = some pointer →
      c.heap[pointer]? = some shard → task.sourceNode ≠ task.targetNode →
      task.sourceNode ∈ shard.holders → task.targetNode ∉ shard.holders) :
    (Deployment.migrated task shardMap c).Placed := by
  have hmoved := hplaced.moveRepositories task
  unfold Deployment.migrated reassignShard
  cases hpointer : shardMap.lookup task.shardID with
  | none => exact hmoved
  | some pointer =>
    apply hmoved.updateShard
    intro shard hshard hholders
    rw [moveRepositories_unchanged updateNode_heap] at hshard
    apply hholders.handOver
    · exact (moveRepositories_unchanged (nodeFree_hasNode) c).trans htarget
    · exact hfree pointer shard hpointer hshard

end Placed

end Cluster

theorem Shard.placed_failOver {shard : Shard}
    (hholders : Replicas.Placed members shard.holders)
    (htarget : shard.replicaNodes = [] → target ∈ members) :
    Replicas.Placed members (shard.failOver target).holders := by
  rw [Shard.holders_failOver]
  split_ifs with hnone
  · exact Replicas.placed_singleton (htarget hnone)
  · exact hholders.sublist (List.sublist_cons_self _ _)

def Cluster.Spare (c : Cluster) (nodeID : GoString) : Prop :=
  ∀ shardID shard, c.shard? shardID = some shard →
    shard.primaryNode = nodeID → shard.replicaNodes ≠ []

instance (c : Cluster) (nodeID : GoString) : Decidable (c.Spare nodeID) :=
  inferInstanceAs (Decidable (∀ _ _, _ → _))

namespace Cluster.Placed

variable {c : Cluster} {task : FailoverTask}

theorem failedOver (hplaced : c.Placed) (shardOrder order : RangeOrder)
    (hready : c.hasNode task.targetNode = true ∨ c.Spare task.sourceNode) :
    Cluster.Placed ((c.shardsOf shardOrder task.sourceNode).foldl
      (Deployment.failedOver order task) c) := by
  intro shardID other hother
  rw [Deployment.shard?_foldl_failedOver, Option.map_eq_some_iff] at hother
  obtain ⟨shard, hshard, rfl⟩ := hother
  have hmembers : Cluster.members ((c.shardsOf shardOrder task.sourceNode).foldl
      (Deployment.failedOver order task) c) = c.members := by
    ext nodeID
    unfold members
    rw [Set.mem_ofPred_eq, hasNode_foldl_failedOver]
    rfl
  rw [hmembers]
  have hholders := hplaced shardID shard hshard
  split_ifs with hprimary
  · apply Shard.placed_failOver hholders
    intro hnone
    rcases hready with htarget | hspare
    · exact htarget
    · exact absurd hnone (hspare shardID shard hshard hprimary)
  · exact hholders

theorem failedOverFirst (hplaced : c.Placed)
    (hmem : pointer ∈ c.shardsOf shardOrder task.sourceNode)
    (hready : c.hasNode task.targetNode = true ∨ c.Spare task.sourceNode) :
    (c.updateShard pointer (Shard.failOver task.targetNode)).Placed := by
  rw [mem_shardsOf, Cluster.mem_pointers] at hmem
  obtain ⟨⟨shardID, hlookup⟩, failed, hfailed, hprimary⟩ := hmem
  apply hplaced.updateShard
  intro shard hshard hholders
  apply Shard.placed_failOver hholders
  intro hnone
  rw [hshard, Option.some.injEq] at hfailed
  subst hfailed
  rcases hready with htarget | hspare
  · exact htarget
  · exact absurd hnone (hspare shardID shard
      (shard?_eq_some.mpr ⟨pointer, hlookup, hshard⟩) hprimary)

end Cluster.Placed

namespace Deployment

variable {host : Host}

theorem placed_ringShard {d : Deployment host}
    (hprimary : d.cluster.hasNode (d.hashRing.getNode repoID) = true)
    (hothers : ∀ nodeID ∈ d.hashRing.getNodes repoID
        d.cluster.replicationFactor, d.cluster.hasNode nodeID = true) :
    Replicas.Placed d.cluster.members (d.ringShard repoID).holders := by
  rw [Cluster.placed_iff]
  refine ⟨hprimary, ?_, ?_, ?_⟩
  · intro hmem
    exact of_decide_eq_true (List.mem_filter.mp hmem).2 rfl
  · exact d.hashRing.getNodes_nodup.filter _
  · intro replica hmem
    exact hothers replica (List.mem_filter.mp hmem).1

/-- A step that keeps shards well placed: a removed node leaves no shard
without a holder, a shard is not migrated to another of its holders, a failed
node's shards have a replica or go to a node that is still there, and the ring
gives nodes that are still there. -/
def keepsPlacement (d : Deployment host) : ClusterInput → Prop
  | .removeNode _ nodeID _ => d.cluster.Spare nodeID
  | .managedShard repoID =>
    d.hashRing.getNode repoID ≠ [] →
      d.shardMap.lookup (shardIDFor host repoID (d.hashRing.getNode repoID)) = none →
      d.cluster.hasNode (d.hashRing.getNode repoID) = true ∧
        ∀ nodeID ∈ d.hashRing.getNodes repoID d.cluster.replicationFactor,
          d.cluster.hasNode nodeID = true
  | .processMigration index =>
    ∀ task pointer shard, d.migrations[index]? = some task →
      d.shardMap.lookup task.shardID = some pointer →
      d.cluster.heap[pointer]? = some shard →
      task.sourceNode ≠ task.targetNode → task.sourceNode ∈ shard.holders →
        task.targetNode ∉ shard.holders
  | .processFailover _ index =>
    ∀ task, d.failovers[index]? = some task →
      d.cluster.hasNode task.targetNode = true ∨ d.cluster.Spare task.sourceNode
  | _ => True

theorem placed_effect {d after : Deployment host}
    (heffect : Effect d input after) (hplaced : d.cluster.Placed)
    (hguard : d.keepsPlacement input) : after.cluster.Placed := by
  cases heffect with
  | same hsame hmap => exact hplaced.sameBut hsame
  | joined hnew hjoined hmap => exact (hplaced.joined _).sameBut hjoined
  | departed hleft hmap => exact (hplaced.departed _ hguard).sameBut hleft
  | made hselects hmade hmap => exact (hplaced.selects hselects).sameBut hmade
  | stalled hstalls hmap => exact hplaced.stalls hstalls
  | filed hopens hcluster hmap =>
    rw [hcluster]
    exact (hplaced.opens hopens).filed _ _ _
  | managed hnode hnew hcluster hmap =>
    rw [hcluster]
    obtain ⟨hprimary, hothers⟩ := hguard hnode hnew
    exact hplaced.placeShard (placed_ringShard hprimary hothers)
  | migrated htask htarget hcluster hmap =>
    rw [hcluster]
    split_ifs with hheld
    · exact hplaced.moveRepositories _
    · exact hplaced.migrated _ d.shardMap htarget
        (fun pointer shard => hguard _ pointer shard htask)
  | replaced hmissing hsome hcluster hmap =>
    rw [hcluster]
    exact hplaced.of_nodeFree (fun hfield => hfield _ _ _)
  | elected hsome hcluster hmap =>
    rw [hcluster]
    exact hplaced.of_nodeFree (fun hfield => hfield _ _ _)
  | failedOver htask hcluster hmap =>
    rw [hcluster]
    exact hplaced.failedOver _ _ (hguard _ htask)
  | failedOverFirst htask hlocked hmem hcluster hmap =>
    rw [hcluster]
    exact hplaced.failedOverFirst hmem (hguard _ htask)
  | stepped hcluster hmap =>
    rw [hcluster]
    exact hplaced.of_nodeFree (fun hfield => hfield _ _ _)

end Deployment

/-- In every run whose steps all keep shards well placed, they are. -/
theorem shards_well_placed {host : Host} {run : ClusterRun host}
    (hreach : Runs.Reachable (clusterSystem host) (fun run input => run.keepsPlacement input) run) :
    run.cluster.WellPlaced := by
  have hplaced : run.cluster.Placed := by
    apply hreach.invariant
    · rintro first ⟨replicationFactor, dataDir, loaded, policy, rfl⟩
      intro shardID shard hshard
      cases hshard
    · rintro before input after hplaced hguard rfl
      exact Deployment.placed_effect (before.effect_perform) hplaced hguard
  exact hplaced.wellPlaced

def removedPrimary : List ClusterInput :=
  [.addNode (joining "a") (.ok ()), .addNode (joining "b") (.ok ()),
    .createShard .inserted ⟨str "a", str "m"⟩ (.ok ()),
    .removeNode .inserted (str "b") (.ok ())]

theorem shards_well_placed_promoted :
    (start.play removedPrimary).cluster.WellPlaced ∧
      ((start.play removedPrimary).cluster.shard?
        (str "shard-a-m")).map Shard.primaryNode = some (str "a") := by
  refine ⟨shards_well_placed (reachable_play ?_), by decide⟩
  refine ⟨trivial, trivial, trivial, ?_, trivial⟩
  change Cluster.Spare _ _
  decide

def removedHolder : List ClusterInput :=
  [.addNode (joining "a") (.ok ()), .createShard .inserted ⟨str "a", str "m"⟩ (.ok ()),
    .removeNode .inserted (str "a") (.ok ())]

/-- The shard keeps a primary that is no node any more. -/
theorem removed_node_stays_primary :
    Runs.Reachable (clusterSystem .checksums) (fun _ _ => True) (start.play removedHolder) ∧
      ¬ (start.play removedHolder).cluster.WellPlaced := by
  refine ⟨reachable_play ⟨trivial, trivial, trivial, trivial⟩, ?_⟩
  intro hplaced
  have hprimary := (hplaced (str "shard-a-m") _ rfl).1
  revert hprimary
  decide

end Govc
