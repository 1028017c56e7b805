import Govc.FailoverManager

/-!
# Calls of a cluster that wait for themselves

With a data directory `saveState` takes the cluster's lock, which `AddNode`,
`RemoveNode` and `CreateShard` still hold.  `DistributeRepository` of the
sharding manager takes the manager's lock twice and never returns.
-/

namespace Govc

open Go GoM

namespace Cluster

theorem saveState_of_held (hheld : c.mu = true) :
    (saveState written c).1 = if c.dataDir = [] then .ok () else .diverge := by
  unfold saveState
  by_cases hdir : c.dataDir = []
  · simp [hdir]
  · simp only [if_neg hdir, mutex.reading_of_held hheld]

theorem saveState_diverges (hheld : c.mu = true) (written : Except GoString Unit) :
    (saveState written c).1 = .diverge ↔ c.dataDir ≠ [] := by
  rw [saveState_of_held hheld]
  by_cases hdir : c.dataDir = []
  · simp [hdir]
  · simp [hdir]

theorem addNodeHeld_diverges (hheld : c.mu = true)
    (node : ClusterNode) (written : Except GoString Unit) :
    (addNodeHeld node written c).1 = .diverge ↔ c.dataDir ≠ [] ∧ c.hasNode node.id = false := by
  unfold addNodeHeld
  rw [bind_apply, view_apply]
  by_cases hnode : c.hasNode node.id = true
  · simp [hnode]
  · have hsave := saveState_diverges
      (c := { c with nodes := c.nodes.insert node.id node }) hheld written
    simp only [if_neg hnode, bind_apply, update_apply, hsave]
    simp [hnode]

theorem dataDir_foldl_updateShard (change : Shard → Shard)
    (entries : List (GoString × ℕ)) (c : Cluster) :
    (entries.foldl (fun c entry => c.updateShard entry.2 change) c).dataDir = c.dataDir ∧
      (entries.foldl (fun c entry => c.updateShard entry.2 change) c).mu = c.mu := by
  induction entries generalizing c with
  | nil => exact ⟨rfl, rfl⟩
  | cons entry rest ih => exact ih (c.updateShard entry.2 change)

theorem removeNodeHeld_diverges (hheld : c.mu = true)
    (order : RangeOrder) (nodeID : GoString) (written : Except GoString Unit) :
    (removeNodeHeld order nodeID written c).1 = .diverge ↔
      c.dataDir ≠ [] ∧ c.hasNode nodeID = true := by
  have hkept := dataDir_foldl_updateShard (Shard.withoutNode nodeID) (c.shards.range order) c
  unfold removeNodeHeld
  rw [bind_apply, view_apply]
  by_cases hnode : c.hasNode nodeID = true
  · have hsave := saveState_diverges
      (c := { c.migrateNodeShards order nodeID with
        nodes := (c.migrateNodeShards order nodeID).nodes.erase nodeID })
      (hkept.2.trans hheld) written
    have hdir : (c.migrateNodeShards order nodeID).dataDir = c.dataDir := hkept.1
    simp only [if_pos hnode, bind_apply, update_apply]
    refine hsave.trans ?_
    simp [hnode, hdir]
  · simp [hnode]

def canPlace (order : RangeOrder) (c : Cluster) : Bool :=
  match c.selectNodesForShard order with
  | .ok selected => decide (selected.1 ≠ [])
  | .error _ => false
  | .panic _ => false
  | .diverge => false

theorem createShardHeld_diverges (hheld : c.mu = true)
    (order : RangeOrder) (keyRange : ShardKeyRange)
    (written : Except GoString Unit) :
    (createShardHeld order keyRange written c).1 = .diverge ↔
      c.dataDir ≠ [] ∧ c.canPlace order = true := by
  have hnever : c.selectNodesForShard order ≠ .diverge := by
    unfold selectNodesForShard
    cases order.visit c.nodes.keys with
    | nil => simp
    | cons primary others =>
      dsimp only
      split_ifs with hcount
      · simp
      · simp
  unfold createShardHeld canPlace
  rw [bind_apply, inspect_apply]
  cases hselected : c.selectNodesForShard order with
  | ok selected =>
    by_cases hnone : selected.1 = []
    · simp [hnone]
    · have hsave := saveState_diverges
        (c := c.placeShard (.new keyRange selected.1 selected.2)) hheld
      have hdir : (c.placeShard (.new keyRange selected.1 selected.2)).dataDir = c.dataDir := rfl
      simp only [if_neg hnone]
      rw [bind_apply, view_apply]
      dsimp only
      rw [bind_apply, update_apply]
      rw [bind_pure_diverges, hsave, hdir]
      simp [hnone]
  | error e => simp
  | panic e => simp
  | diverge => exact absurd hselected hnever

end Cluster

namespace Deployment

variable {host : Host}

inductive LockingCall where
  | addNode (node : ClusterNode) (written : Except GoString Unit)
  | removeNode (order : RangeOrder) (nodeID : GoString)
      (written : Except GoString Unit)
  | createShard (order : RangeOrder) (keyRange : ShardKeyRange)
      (written : Except GoString Unit)
  | distributeRepository (repoID : GoString) (repo : ℕ)

namespace LockingCall

def run : LockingCall → GoM (Deployment host) Unit
  | addNode node written => onCluster (Cluster.addNode node written)
  | removeNode order nodeID written =>
    onCluster (Cluster.removeNode order nodeID written)
  | createShard order keyRange written =>
    onCluster (Cluster.createShard order keyRange written) >>= fun _ =>
      pure ()
  | distributeRepository repoID repo =>
    Deployment.distributeRepository repoID repo

def Avoids (d : Deployment host) : LockingCall → Prop
  | addNode node _ =>
    d.cluster.dataDir = [] ∨ d.cluster.hasNode node.id = true
  | removeNode _ nodeID _ =>
    d.cluster.dataDir = [] ∨ d.cluster.hasNode nodeID = false
  | createShard order _ _ =>
    d.cluster.dataDir = [] ∨ d.cluster.canPlace order = false
  | distributeRepository _ _ => False

end LockingCall

theorem distributeRepository_diverges
    (hfree : d.shardingMu = false) (repoID : GoString) (repo : ℕ) :
    (distributeRepository repoID repo d).1 = .diverge := by
  unfold distributeRepository
  rw [shardingMutex.locking_fst hfree, bind_apply]
  unfold getShardForRepository
  rw [shardingMutex.reading_of_held rfl]

/-- With the locks free, a call returns or panics if and only if it does not
come to a lock that it holds. -/
theorem cluster_call_returns_iff {d : Deployment host}
    (hcluster : d.cluster.mu = false) (hsharding : d.shardingMu = false)
    (call : LockingCall) : (call.run d).1 ≠ .diverge ↔ call.Avoids d := by
  have hheld : (Cluster.mutex.hold d.cluster true).mu = true := rfl
  cases call with
  | addNode node written =>
    have hfst : ((LockingCall.addNode node written).run d).1 =
        (Cluster.addNodeHeld node written (Cluster.mutex.hold d.cluster true)).1 :=
      Cluster.mutex.locking_fst hcluster
    have hdiverges := Cluster.addNodeHeld_diverges hheld node written
    rw [hfst, ne_eq, hdiverges, not_and_or, not_not, Bool.not_eq_false]
    rfl
  | removeNode order nodeID written =>
    have hfst : ((LockingCall.removeNode order nodeID written).run d).1 =
        (Cluster.removeNodeHeld order nodeID written (Cluster.mutex.hold d.cluster true)).1 :=
      Cluster.mutex.locking_fst hcluster
    have hdiverges := Cluster.removeNodeHeld_diverges hheld order nodeID
    rw [hfst, ne_eq, hdiverges, not_and_or, not_not, Bool.not_eq_true]
    rfl
  | createShard order keyRange written =>
    have hfst : (onCluster (Cluster.createShard order keyRange written)
        d).1 = (Cluster.createShardHeld order keyRange written
          (Cluster.mutex.hold d.cluster true)).1 :=
      Cluster.mutex.locking_fst hcluster
    have hdiverges := Cluster.createShardHeld_diverges hheld order keyRange
    unfold LockingCall.run
    rw [ne_eq, bind_pure_diverges, hfst, hdiverges, not_and_or, not_not, Bool.not_eq_true]
    rfl
  | distributeRepository repoID repo =>
    have hwaits := distributeRepository_diverges hsharding repoID repo
    exact iff_of_false (fun hreturns => hreturns hwaits) id

def withDirectory (dataDir : String) : Deployment .checksums :=
  .new (.new 3 (str dataDir) none) ⟨true, 0, false, 1, 0⟩

theorem cluster_call_returns_without_directory :
    ((LockingCall.addNode (joining "a") (.ok ())).run (withDirectory "")).1 ≠ .diverge :=
  (cluster_call_returns_iff rfl rfl _).mpr (.inl rfl)

/-- The first node is added to a cluster that saves its state. -/
theorem add_node_waits_for_itself :
    (withDirectory "data").cluster.mu = false ∧
      ((LockingCall.addNode (joining "a") (.ok ())).run (withDirectory "data")).1 = .diverge := by
  have hfst : ((LockingCall.addNode (joining "a") (.ok ())).run
      (withDirectory "data")).1 =
        (Cluster.addNodeHeld (joining "a") (.ok ())
          (Cluster.mutex.hold (withDirectory "data").cluster true)).1 :=
    Cluster.mutex.locking_fst rfl
  refine ⟨rfl, ?_⟩
  rw [hfst, Cluster.addNodeHeld_diverges rfl]
  exact ⟨by decide, rfl⟩

end Deployment

end Govc
