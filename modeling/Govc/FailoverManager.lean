import Govc.GuardedRuns
import Govc.ShardingManager

/-!
# The failover manager, and everything that moves a cluster

A failover is started in one step and moves the shards in another.  The health
checker handles the failure of a node in the background as well: that is the
step `handleNodeFailure`, which may happen at any time.  `clusterSystem` has all
the steps of the cluster, of both managers and of the nodes.
-/

namespace Govc

open Go GoM

def NodeHealth.isUnhealthy (health : NodeHealth) : Bool := decide (health.status = .unhealthy)

def NodeHealth.isHealthy (health : NodeHealth) : Bool := decide (health.status = .healthy)

def unhealthyThreshold : ℕ := 3

def checkNodeHealth (old : Option NodeHealth) (responseTime : ℤ)
    (node : ClusterNode) : NodeHealth :=
  if node.state = .offline then
    let fails := (old.map NodeHealth.consecutiveFails).getD 0 + 1
    { nodeID := node.id
      status := if unhealthyThreshold ≤ fails then .unhealthy else .degraded
      consecutiveFails := fails
      responseTime := responseTime }
  else
    { nodeID := node.id
      status := .healthy
      consecutiveFails := 0
      responseTime := responseTime }

namespace Cluster

/-- The first node in the order of the loop that takes itself for a leader. -/
def getLeaderNode (order : RangeOrder) (c : Cluster) : Option ClusterNode :=
  ((c.nodes.range order).map Prod.snd).find? fun node => node.isLeader

/-- The candidate is told that it is the leader; no other node is told. -/
def promote (candidate : GoString) : Cluster → Cluster := updateNode candidate fun node =>
    { node with state := .leader, isLeader := true, leaderID := candidate }

/-- The failed node's repositories of a shard are copied to the target. -/
def copyRepositories (order : RangeOrder) (sourceNode targetNode : GoString)
    (pointer : ℕ) (c : Cluster) : Cluster :=
  match c.nodes.lookup sourceNode, c.nodes.lookup targetNode, c.heap[pointer]? with
  | some source, some _, some shard =>
    (source.repositories.range order).foldl
      (fun c entry =>
        if shard.lists entry.1 then
          c.putRepository entry.1 entry.2 targetNode
        else c)
      c
  | _, _, _ => c

def shardsOf (order : RangeOrder) (nodeID : GoString) (c : Cluster) : List ℕ :=
  ((c.shards.range order).map Prod.snd).filter fun pointer =>
    match c.heap[pointer]? with
    | some shard => decide (shard.primaryNode = nodeID)
    | none => false

end Cluster

namespace Deployment

variable {host : Host}

def checkAllNodes (order : RangeOrder) (responseTime : GoString → ℤ) : GoM (Deployment host) Unit :=
  clusterMutex.reading (update fun d =>
    { d with
      nodeStatus := (d.cluster.nodes.range order).foldl
        (fun status entry =>
          status.insert entry.2.id
            (checkNodeHealth (status.lookup entry.2.id) (responseTime entry.2.id) entry.2))
        d.nodeStatus })

def isNodeUnhealthy (d : Deployment host) (nodeID : GoString) : Bool :=
  match d.nodeStatus.lookup nodeID with
  | some health => health.isUnhealthy
  | none => false

def isInCooldown (now : ℤ) (nodeID : GoString) (d : Deployment host) : Bool :=
  let recent := d.eventLog.filter fun event =>
    decide (event.sourceNode = nodeID) && decide (event.startedAt > now - d.policy.cooldownPeriod)
  decide ((recent.length : ℤ) ≥ d.policy.maxFailoversPerMinute)

def findReplacementNode (order : RangeOrder) (failedNodeID : GoString)
    (d : Deployment host) : GoString :=
  match ((d.cluster.nodes.range order).map fun entry => entry.2.id).find?
      fun nodeID =>
        decide (nodeID ≠ failedNodeID) && !d.isNodeUnhealthy nodeID with
  | some nodeID => nodeID
  | none => []

/-- A healthy node with the least response time; empty if there is none. -/
def findLeaderCandidate (order : RangeOrder) (d : Deployment host) : GoString :=
  let healthy := (d.nodeStatus.range order).filter fun entry =>
    entry.2.isHealthy
  let best := healthy.foldl
    (fun (best : Option (GoString × NodeHealth)) entry =>
      match best with
      | none => some entry
      | some other =>
        if entry.2.responseTime < other.2.responseTime then some entry
        else some other)
    none
  (best.map Prod.fst).getD []

def logEvent (event : FailoverEvent) (d : Deployment host) : Deployment host :=
  { d with eventLog := d.eventLog ++ [event] }

def handleNodeFailure (order : RangeOrder) (now : ℤ) (nodeID : GoString) :
    GoM (Deployment host) Unit := do
  if ← view (isInCooldown now nodeID) then pure ()
  else do
    update (logEvent { sourceNode := nodeID, startedAt := now })
    let replacement ← clusterMutex.reading
      (view (findReplacementNode order nodeID))
    if replacement = [] then pure ()
    else
      update fun d =>
        { d with
          failovers := d.failovers ++ [{ sourceNode := nodeID, targetNode := replacement }] }

def triggerLeaderElection (order : RangeOrder) (now : ℤ) : GoM (Deployment host) Unit := do
  let candidate ← view (findLeaderCandidate order)
  if candidate = [] then pure ()
  else do
    update (logEvent { sourceNode := [], startedAt := now })
    clusterMutex.reading (update (updateCluster (Cluster.promote candidate)))

/-- There are more healthy nodes than half of all, if the policy asks for
that. -/
def hasQuorum (healthy : ℕ) : GoM (Deployment host) Bool := do
  if ← view fun d => d.policy.requireQuorum then
    clusterMutex.reading (view fun d =>
      decide (d.cluster.nodes.keys.length / 2 < healthy))
  else pure true

def leaderMissing (order : RangeOrder) (d : Deployment host) : Bool :=
  match d.cluster.getLeaderNode order with
  | some leader => d.isNodeUnhealthy leader.id
  | none => true

/-- The end of `checkFailoverConditions`. -/
def ensureLeader (order : ℕ → RangeOrder) (now : ℤ) : GoM (Deployment host) Unit := do
  if ← clusterMutex.reading (view (leaderMissing (order 2))) then
    triggerLeaderElection (order 3) now
  else pure ()

def checkFailoverConditions (order : ℕ → RangeOrder) (now : ℤ) : GoM (Deployment host) Unit := do
  if ← view fun d => d.policy.autoFailoverEnabled then do
    let status ← view fun d =>
      (d.nodeStatus.range (order 0)).map Prod.snd
    let healthy := (status.filter NodeHealth.isHealthy).length
    if ← view fun d => decide ((healthy : ℤ) < d.policy.minHealthyNodes)
    then pure ()
    else if ← hasQuorum healthy then do
      forEach (status.filter NodeHealth.isUnhealthy) fun health =>
        handleNodeFailure (order 1) now health.nodeID
      ensureLeader order now
    else pure ()
  else pure ()

def failOverShard (order : RangeOrder) (task : FailoverTask) (pointer : ℕ) :
    GoM (Deployment host) Unit := do
  update (updateCluster (Cluster.updateShard pointer (Shard.failOver task.targetNode)))
  clusterMutex.reading (update (updateCluster
    (Cluster.copyRepositories order task.sourceNode task.targetNode pointer)))

def migrateNodeShards (order : ℕ → RangeOrder) (task : FailoverTask) :
    GoM (Deployment host) Unit := do
  let pointers ← view fun d =>
    d.cluster.shardsOf (order 0) task.sourceNode
  forEach pointers (failOverShard (order 1) task)

def processFailover (order : ℕ → RangeOrder) (index : ℕ) : GoM (Deployment host) Unit := do
  match ← view fun d => d.failovers[index]? with
  | some task => do
    update fun d => { d with failovers := d.failovers.eraseIdx index }
    migrateNodeShards order task
  | none => pure ()

end Deployment

/-! ## Steps of the nodes -/

/-- A node goes offline when it fails; it is leaving when it is stopped. -/
inductive NodeEvent where
  | requestVote (now : ℤ) (req : RequestVoteRequest)
  | appendEntries (now : ℤ) (req : AppendEntriesRequest)
  | snapshot (now : ℤ) (req : SnapshotRequest)
  | tick (now : ℤ) (order : RangeOrder)
  | fail
  | stop

namespace Cluster

/-- What a node does with an event.  An election asks the cluster for its
nodes; if the cluster's lock is never released it gets no answer. -/
def nodeAfter (c : Cluster) (event : NodeEvent) (node : Node) : Node :=
  match event with
  | .requestVote now req => (node.handleRequestVote now req).2
  | .appendEntries now req => (node.handleAppendEntries now req).2
  | .snapshot now req => (node.handleSnapshot now req).2
  | .tick now order =>
    node.tick now (if c.mu then none
      else some ((c.nodes.range order).map fun entry => entry.2.id))
  | .fail => { node with state := .offline }
  | .stop => { node with state := .leaving }

def nodeEvent (nodeID : GoString) (event : NodeEvent) (c : Cluster) : Cluster :=
  c.updateNode nodeID fun node =>
    { node with toNode := c.nodeAfter event node.toNode }

end Cluster

/-! ## The system -/

inductive ClusterInput where
  | addNode (node : ClusterNode) (written : Except GoString Unit)
  | removeNode (order : RangeOrder) (nodeID : GoString)
      (written : Except GoString Unit)
  | createShard (order : RangeOrder) (keyRange : ShardKeyRange)
      (written : Except GoString Unit)
  | distribute (order : ℕ → RangeOrder) (repoID : GoString) (repo : ℕ)
      (written : ℕ → Except GoString Unit)
  | startSharding (order : RangeOrder)
  | managedShard (repoID : GoString)
  | managedDistribute (repoID : GoString) (repo : ℕ)
  | migrateShard (order : RangeOrder) (shardID source target : GoString)
  | processMigration (index : ℕ)
  | checkAllNodes (order : RangeOrder) (responseTime : GoString → ℤ)
  | checkFailover (order : ℕ → RangeOrder) (now : ℤ)
  | nodeFailure (order : RangeOrder) (now : ℤ) (nodeID : GoString)
  | electLeader (order : RangeOrder) (now : ℤ)
  | processFailover (order : ℕ → RangeOrder) (index : ℕ)
  | node (nodeID : GoString) (event : NodeEvent)

structure ClusterRun (host : Host) extends Deployment host where
  distributed : List GoString

namespace Deployment

variable {host : Host}

/-- What is left by a call, whether it returns, panics or waits forever. -/
def perform (d : Deployment host) : ClusterInput → Deployment host
  | .addNode node written => (onCluster (Cluster.addNode node written) d).2
  | .removeNode order nodeID written =>
    (onCluster (Cluster.removeNode order nodeID written) d).2
  | .createShard order keyRange written =>
    (onCluster (Cluster.createShard order keyRange written) d).2
  | .distribute order repoID repo written =>
    (onCluster (Cluster.distributeRepository order repoID repo written) d).2
  | .startSharding order => (startSharding order d).2
  | .managedShard repoID => (getShardForRepository repoID d).2
  | .managedDistribute repoID repo => (distributeRepository repoID repo d).2
  | .migrateShard order shardID source target =>
    (migrateShard order shardID source target d).2
  | .processMigration index => (processMigration index d).2
  | .checkAllNodes order responseTime => (checkAllNodes order responseTime d).2
  | .checkFailover order now => (checkFailoverConditions order now d).2
  | .nodeFailure order now nodeID => (handleNodeFailure order now nodeID d).2
  | .electLeader order now => (triggerLeaderElection order now d).2
  | .processFailover order index => (processFailover order index d).2
  | .node nodeID event => d.updateCluster (Cluster.nodeEvent nodeID event)

def succeeded (d : Deployment host) : ClusterInput → Option GoString
  | .distribute order repoID repo written =>
    if (Cluster.distributeRepository order repoID repo written d.cluster).1 =
        .ok () then some repoID
    else none
  | .managedDistribute repoID repo =>
    if (distributeRepository repoID repo d).1 = .ok () then some repoID
    else none
  | _ => none

end Deployment

def ClusterRun.after {host : Host} (run : ClusterRun host)
    (input : ClusterInput) : ClusterRun host where
  toDeployment := run.perform input
  distributed := run.distributed ++ (run.succeeded input).toList

def clusterSystem (host : Host) : Runs.System (ClusterRun host) ClusterInput where
  init run := ∃ replicationFactor dataDir loaded policy,
    run = ⟨.new (.new replicationFactor dataDir loaded) policy, []⟩
  step run input after := after = run.after input

namespace ClusterRun

variable {host : Host}

def play (run : ClusterRun host) (inputs : List ClusterInput) : ClusterRun host :=
  inputs.foldl after run

def start : ClusterRun .checksums := ⟨.new (.new 2 [] none) ⟨true, 0, false, 1, 0⟩, []⟩

theorem reachable_play {guard : ClusterRun .checksums → ClusterInput → Prop}
    (hadmits : Runs.Admits after guard start inputs) :
    Runs.Reachable (clusterSystem .checksums) guard (start.play inputs) :=
  ⟨start, ⟨2, [], none, _, rfl⟩, Runs.steps_foldl (fun _ _ => rfl) hadmits⟩

end ClusterRun

def joining (id : String) : ClusterNode where
  toNode := .new ⟨str id, 0, 0⟩ [] 0 none
  repositories := ∅

end Govc
