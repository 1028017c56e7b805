import Govc.ClusterModel
import Govc.HashRing
import Govc.ObjectModel

/-!
# The sharding manager

The manager shares the cluster's shards, and its ring has the nodes that were in
the cluster when it was created.  Migrations are queued by `MigrateShard` and run
later, each in one go and in any order; rebalancing calls `MigrateShard` only.
The failover manager's part of the state is described with its operations.
-/

namespace Govc

open Go GoM

/-- The first four bytes of the SHA-256, as a big-endian number. -/
def ringHash (host : Host) (key : GoString) : UInt32 :=
  match host.sha256 key with
  | a :: b :: c :: d :: _ =>
    a.toUInt32 <<< 24 ||| b.toUInt32 <<< 16 ||| c.toUInt32 <<< 8 ||| d.toUInt32
  | _ => 0

structure MigrationTask where
  shardID : GoString
  sourceNode : GoString
  targetNode : GoString
  repositories : List GoString
  deriving DecidableEq, Repr

inductive MigrationState where
  | completed
  | failed
  deriving DecidableEq, Repr

inductive HealthStatus where
  | healthy
  | degraded
  | unhealthy
  deriving DecidableEq, Repr

structure NodeHealth where
  nodeID : GoString
  status : HealthStatus
  consecutiveFails : ℕ
  responseTime : ℤ
  deriving DecidableEq, Repr

structure FailoverPolicy where
  autoFailoverEnabled : Bool
  minHealthyNodes : ℤ
  requireQuorum : Bool
  maxFailoversPerMinute : ℤ
  cooldownPeriod : ℤ

structure FailoverEvent where
  sourceNode : GoString
  startedAt : ℤ

/-- A failover that was started and whose shards are still to be moved. -/
structure FailoverTask where
  sourceNode : GoString
  targetNode : GoString
  deriving DecidableEq, Repr

/-- A cluster with its sharding manager, which is created once, and its
failover manager. -/
structure Deployment (host : Host) where
  cluster : Cluster
  managed : Bool
  hashRing : ConsistentHashRing (ringHash host)
  shardMap : GoMap GoString ℕ
  migrations : List MigrationTask
  shardingMu : Bool
  policy : FailoverPolicy
  nodeStatus : GoMap GoString NodeHealth
  eventLog : List FailoverEvent
  failovers : List FailoverTask

namespace Deployment

variable {host : Host}

def new (cluster : Cluster) (policy : FailoverPolicy) : Deployment host where
  cluster := cluster
  managed := false
  hashRing := .new 160
  shardMap := ∅
  migrations := []
  shardingMu := false
  policy := policy
  nodeStatus := ∅
  eventLog := []
  failovers := []

def clusterMutex : Mutex (Deployment host) where
  held := fun d => d.cluster.mu
  hold := fun d taken => { d with cluster := { d.cluster with mu := taken } }
  hold_held := fun _ => rfl

def shardingMutex : Mutex (Deployment host) where
  held := fun d => d.shardingMu
  hold := fun d taken => { d with shardingMu := taken }
  hold_held := fun _ => rfl

def onCluster {α : Type} (m : GoM Cluster α) : GoM (Deployment host) α :=
  zoom (fun d => d.cluster) (fun d cluster => { d with cluster := cluster })
    m

def updateCluster (change : Cluster → Cluster) (d : Deployment host) : Deployment host :=
  { d with cluster := change d.cluster }

def startSharding (order : RangeOrder) : GoM (Deployment host) Unit :=
  clusterMutex.reading (update fun d =>
    if d.managed then d
    else
      { d with
        managed := true
        hashRing := (d.cluster.nodes.range order).foldl
          (fun ring entry => ring.addNode entry.2.id) (.new 160) })

def shardIDFor (host : Host) (repoID nodeID : GoString) : GoString :=
  hexEncode ((host.sha256 (repoID ++ nodeID)).take 8)

def managedKeyRange (repoID : GoString) : ShardKeyRange :=
  match repoID with
  | [] => { start := str "0", stop := str "z" }
  | first :: _ =>
    { start := byteText first
      stop := if first < 122 then byteText (first + 1) else str "z" }

/-- The ring's node for the repository is the primary, the nodes behind it on
the ring are the replicas. -/
def ringShard (d : Deployment host) (repoID : GoString) : Shard :=
  let nodeID := d.hashRing.getNode repoID
  { id := shardIDFor host repoID nodeID
    keyRange := managedKeyRange repoID
    primaryNode := nodeID
    replicaNodes :=
      (d.hashRing.getNodes repoID d.cluster.replicationFactor).filter
        fun node => decide (node ≠ nodeID)
    repositories := ∅ }

def managedShard (repoID : GoString) : GoM (Deployment host) (Option ℕ) := fun d =>
    if d.hashRing.getNode repoID = [] then (.ok none, d)
    else
      let shard := d.ringShard repoID
      match d.shardMap.lookup shard.id with
      | some pointer => (.ok (some pointer), d)
      | none =>
        (.ok (some d.cluster.heap.length),
          { d with
            shardMap := d.shardMap.insert shard.id d.cluster.heap.length
            cluster := d.cluster.placeShard shard })

def getShardForRepository (repoID : GoString) : GoM (Deployment host) (Option ℕ) :=
  shardingMutex.reading (managedShard repoID)

def distributeRepository (repoID : GoString) (repo : ℕ) : GoM (Deployment host) Unit :=
  shardingMutex.locking do
    match ← getShardForRepository repoID with
    | none =>
      fail (str "no available shard for repository " ++ repoID)
    | some pointer => do
      update (updateCluster (Cluster.updateShard pointer (Shard.addRepository repoID)))
      let holders ← view fun d => d.cluster.holdersAt pointer
      forEach holders fun nodeID =>
        onCluster (Cluster.storeOn repoID repo nodeID)

/-- `MigrateShard` with the lock held: the task notes which repositories the
shard has now. -/
def queueMigration (order : RangeOrder)
    (shardID sourceNode targetNode : GoString) : GoM (Deployment host) Unit :=
  fun d =>
    match (d.shardMap.lookup shardID).bind fun pointer =>
        d.cluster.heap[pointer]? with
    | none => (.error (str "shard " ++ shardID ++ str " not found"), d)
    | some shard =>
      (.ok (),
        { d with
          migrations := d.migrations ++
            [{ shardID := shardID
               sourceNode := sourceNode
               targetNode := targetNode
               repositories := order.visit shard.repositories.keys }] })

def migrateShard (order : RangeOrder) (shardID sourceNode targetNode : GoString) :
    GoM (Deployment host) Unit :=
  shardingMutex.locking (queueMigration order shardID sourceNode targetNode)

/-- One turn of the loop of a migration: the target gets the repository, then
the source loses it. -/
def moveRepository (sourceNode targetNode : GoString) (c : Cluster) (repoID : GoString) : Cluster :=
  match c.repositoryOn sourceNode repoID with
  | some repo =>
    (c.putRepository repoID repo targetNode).dropRepository repoID sourceNode
  | none => c

def moveRepositories (task : MigrationTask) (c : Cluster) : Cluster :=
  task.repositories.foldl (moveRepository task.sourceNode task.targetNode) c

def reassignShard (task : MigrationTask) (shardMap : GoMap GoString ℕ) (c : Cluster) : Cluster :=
  match shardMap.lookup task.shardID with
  | some pointer =>
    c.updateShard pointer (Shard.reassign task.sourceNode task.targetNode)
  | none => c

def executeMigration (task : MigrationTask) : GoM (Deployment host) MigrationState := do
  if ← clusterMutex.reading (view fun d =>
      d.cluster.hasNode task.sourceNode && d.cluster.hasNode task.targetNode)
  then do
    update (updateCluster (moveRepositories task))
    shardingMutex.locking (update fun d =>
      d.updateCluster (reassignShard task d.shardMap))
    pure .completed
  else pure .failed

def processMigration (index : ℕ) : GoM (Deployment host) Unit := do
  match ← view fun d => d.migrations[index]? with
  | some task => do
    update fun d => { d with migrations := d.migrations.eraseIdx index }
    let _ ← executeMigration task
    pure ()
  | none => pure ()

end Deployment

end Govc
