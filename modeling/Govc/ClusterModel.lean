import Govc.GoLocks
import Govc.GoMaps
import Govc.GoSort
import Govc.RaftNode

/-!
# The cluster

Nodes, shards and the operations that place shards on nodes and repositories in
shards.  Shards are shared by pointer with the managers, so they live on a heap;
nodes are only reached through the cluster.  Every operation takes the cluster's
lock itself, and `saveState` takes it once more.
-/

namespace Govc

open Go GoM

/-! ## Key ranges -/

structure ShardKeyRange where
  start : GoString
  stop : GoString
  deriving DecidableEq, Repr

/-- `string(b)` for a byte: the UTF-8 text of the code point with that number,
which is two bytes long from 0x80 on. -/
def byteText (b : UInt8) : GoString :=
  if b < 0x80 then [b]
  else if b < 0xC0 then [0xC2, b]
  else [0xC3, b - 0x40]

/-- A range whose bounds are single bytes looks at the first byte of a key. -/
def keyInRange (key : GoString) (keyRange : ShardKeyRange) : Bool :=
  match key with
  | first :: _ =>
    if keyRange.start.length = 1 ∧ keyRange.stop.length = 1 then
      decide (keyRange.start ≤ byteText first) && decide (byteText first ≤ keyRange.stop)
    else decide (keyRange.start ≤ key) && decide (key ≤ keyRange.stop)
  | [] => decide (keyRange.start ≤ key) && decide (key ≤ keyRange.stop)

def firstByteRange (first : UInt8) : ShardKeyRange where
  start := byteText first
  stop := byteText (first + 1)

def calculateKeyRange {σ : Type} (key : GoString) : GoM σ ShardKeyRange :=
  match key with
  | first :: _ => pure (firstByteRange first)
  | [] =>
    crash (str "runtime error: index out of range [0] with length 0")

def generateShardID (keyRange : ShardKeyRange) : GoString :=
  str "shard-" ++ keyRange.start ++ str "-" ++ keyRange.stop

/-! ## Shards, nodes, cluster -/

/-- The repositories are a set: only `true` is ever stored in the map. -/
structure Shard where
  id : GoString
  keyRange : ShardKeyRange
  primaryNode : GoString
  replicaNodes : List GoString
  repositories : GoMap GoString Unit

namespace Shard

def new (keyRange : ShardKeyRange) (primaryNode : GoString)
    (replicaNodes : List GoString) : Shard where
  id := generateShardID keyRange
  keyRange := keyRange
  primaryNode := primaryNode
  replicaNodes := replicaNodes
  repositories := ∅

def holders (shard : Shard) : List GoString := shard.primaryNode :: shard.replicaNodes

def lists (shard : Shard) (repoID : GoString) : Bool := shard.repositories.contains repoID

def addRepository (repoID : GoString) (shard : Shard) : Shard :=
  { shard with repositories := shard.repositories.insert repoID () }

/-- What a departing node leaves behind: the first replica is promoted if the
node was the primary, and the node is struck from the replicas. -/
def withoutNode (nodeID : GoString) (shard : Shard) : Shard :=
  let shard :=
    if shard.primaryNode = nodeID then
      match shard.replicaNodes with
      | replica :: rest =>
        { shard with primaryNode := replica, replicaNodes := rest }
      | [] => shard
    else shard
  { shard with
    replicaNodes := shard.replicaNodes.filter fun replicaID =>
      decide (replicaID ≠ nodeID) }

/-- What a failed node leaves behind: the first replica is promoted, and
without one the target becomes the primary. -/
def failOver (target : GoString) (shard : Shard) : Shard :=
  match shard.replicaNodes with
  | replica :: rest =>
    { shard with primaryNode := replica, replicaNodes := rest }
  | [] => { shard with primaryNode := target }

def reassign (source target : GoString) (shard : Shard) : Shard := { shard with
    primaryNode := if shard.primaryNode = source then target else shard.primaryNode
    replicaNodes := shard.replicaNodes.map fun nodeID =>
      if nodeID = source then target else nodeID }

end Shard

structure ClusterNode extends Node where
  repositories : GoMap GoString ℕ

/-- Every entry of the table of shards points to a shard of its own. -/
structure Cluster where
  nodes : GoMap GoString ClusterNode
  shards : GoMap GoString ℕ
  heap : List Shard
  replicationFactor : ℤ
  dataDir : GoString
  mu : Bool
  allocated : ∀ shardID pointer, shards.lookup shardID = some pointer → pointer < heap.length
  separate : ∀ shardID other pointer, shards.lookup shardID = some pointer →
    shards.lookup other = some pointer → shardID = other

namespace Cluster

/-- A replication factor of zero stands for the default.  The state file of an
earlier run gives no nodes and no shards back; its configuration replaces the
one that was passed. -/
def new (replicationFactor : ℤ) (dataDir : GoString) (loaded : Option ℤ) : Cluster where
  nodes := ∅
  shards := ∅
  heap := []
  replicationFactor := loaded.getD (if replicationFactor = 0 then 3 else replicationFactor)
  dataDir := dataDir
  mu := false
  allocated := by
    intro shardID pointer hlookup
    cases hlookup
  separate := by
    intro shardID other pointer hlookup
    cases hlookup

def mutex : Mutex Cluster where
  held := fun c => c.mu
  hold := fun c taken => { c with mu := taken }
  hold_held := fun _ => rfl

def shard? (c : Cluster) (shardID : GoString) : Option Shard :=
  (c.shards.lookup shardID).bind fun pointer => c.heap[pointer]?

def updateShard (pointer : ℕ) (change : Shard → Shard) (c : Cluster) : Cluster := { c with
    heap := c.heap.modify pointer change
    allocated := by
      intro shardID other hlookup
      rw [List.length_modify]
      exact c.allocated shardID other hlookup }

def placeShard (shard : Shard) (c : Cluster) : Cluster := { c with
    heap := c.heap ++ [shard]
    shards := c.shards.insert shard.id c.heap.length
    allocated := by
      intro shardID pointer hlookup
      rw [GoMap.lookup_insert_eq] at hlookup
      rw [List.length_append, List.length_singleton]
      by_cases hnew : shardID = shard.id
      · rw [if_pos hnew, Option.some.injEq] at hlookup
        omega
      · rw [if_neg hnew] at hlookup
        exact Nat.lt_succ_of_lt (c.allocated shardID pointer hlookup)
    separate := by
      intro shardID other pointer hfirst hsecond
      rw [GoMap.lookup_insert_eq] at hfirst hsecond
      have hfresh : ∀ id, c.shards.lookup id = some c.heap.length → False :=
        fun id hid => Nat.lt_irrefl _ (c.allocated id _ hid)
      split_ifs at hfirst hsecond with hone htwo htwo
      · rw [hone, htwo]
      · exact (hfresh other (Option.some.inj hfirst ▸ hsecond)).elim
      · exact (hfresh shardID (Option.some.inj hsecond ▸ hfirst)).elim
      · exact c.separate shardID other pointer hfirst hsecond }

def updateNode (nodeID : GoString) (change : ClusterNode → ClusterNode) (c : Cluster) : Cluster :=
  match c.nodes.lookup nodeID with
  | some node => { c with nodes := c.nodes.insert nodeID (change node) }
  | none => c

def putRepository (repoID : GoString) (repo : ℕ) (nodeID : GoString) : Cluster → Cluster :=
  updateNode nodeID fun node =>
    { node with repositories := node.repositories.insert repoID repo }

def dropRepository (repoID nodeID : GoString) : Cluster → Cluster := updateNode nodeID fun node =>
    { node with repositories := node.repositories.erase repoID }

def hasNode (c : Cluster) (nodeID : GoString) : Bool := c.nodes.contains nodeID

def repositoryOn (c : Cluster) (nodeID repoID : GoString) : Option ℕ :=
  (c.nodes.lookup nodeID).bind fun node => node.repositories.lookup repoID

/-! ## Operations -/

/-- `written` is what writing the state file gives.  Without a data directory
nothing is saved. -/
def saveState (written : Except GoString Unit) : GoM Cluster Unit := fun c =>
    if c.dataDir = [] then (.ok (), c)
    else mutex.reading (ofExcept written) c

def addNodeHeld (node : ClusterNode) (written : Except GoString Unit) : GoM Cluster Unit := do
  if ← view fun c => c.hasNode node.id then
    fail (str "node " ++ node.id ++ str " already exists in cluster")
  else do
    update fun c => { c with nodes := c.nodes.insert node.id node }
    saveState written

def addNode (node : ClusterNode) (written : Except GoString Unit) : GoM Cluster Unit :=
  mutex.locking (addNodeHeld node written)

def migrateNodeShards (order : RangeOrder) (nodeID : GoString) (c : Cluster) : Cluster :=
  (c.shards.range order).foldl (fun c entry => c.updateShard entry.2 (Shard.withoutNode nodeID)) c

def removeNodeHeld (order : RangeOrder) (nodeID : GoString)
    (written : Except GoString Unit) : GoM Cluster Unit := do
  if ← view fun c => c.hasNode nodeID then do
    update fun c => c.migrateNodeShards order nodeID
    update fun c => { c with nodes := c.nodes.erase nodeID }
    saveState written
  else
    fail (str "node " ++ nodeID ++ str " not found in cluster")

def removeNode (order : RangeOrder) (nodeID : GoString)
    (written : Except GoString Unit) : GoM Cluster Unit :=
  mutex.locking (removeNodeHeld order nodeID written)

/-- The first node in the order of the loop, and the next ones as replicas. -/
def selectNodesForShard (order : RangeOrder) (c : Cluster) : Outcome (GoString × List GoString) :=
  match order.visit c.nodes.keys with
  | [] => .ok ([], [])
  | primary :: others =>
    let replicaCount := min (c.replicationFactor - 1) others.length
    if replicaCount < 0 then
      .panic (str "runtime error: makeslice: cap out of range")
    else .ok (primary, others.take replicaCount.toNat)

def createShardHeld (order : RangeOrder) (keyRange : ShardKeyRange)
    (written : Except GoString Unit) : GoM Cluster ℕ := do
  let selected ← inspect fun c => c.selectNodesForShard order
  if selected.1 = [] then
    fail (str "no available nodes for shard")
  else do
    let pointer ← view fun c => c.heap.length
    update (placeShard (.new keyRange selected.1 selected.2))
    saveState written
    pure pointer

def createShard (order : RangeOrder) (keyRange : ShardKeyRange)
    (written : Except GoString Unit) : GoM Cluster ℕ :=
  mutex.locking (createShardHeld order keyRange written)

def findShard (order : RangeOrder) (repoID : GoString) (c : Cluster) : Option ℕ :=
  (c.shards.range order).findSome? fun entry =>
    match c.heap[entry.2]? with
    | some shard =>
      if keyInRange repoID shard.keyRange then some entry.2 else none
    | none => none

def getShardForRepository (order : RangeOrder) (repoID : GoString) : GoM Cluster (Option ℕ) :=
  mutex.reading (view (findShard order repoID))

def storeOn (repoID : GoString) (repo : ℕ) (nodeID : GoString) : GoM Cluster Unit :=
  mutex.reading (update (putRepository repoID repo nodeID))

def shardForKey (order : ℕ → RangeOrder) (repoID : GoString)
    (written : Except GoString Unit) : GoM Cluster ℕ := do
  match ← getShardForRepository (order 0) repoID with
  | some pointer => pure pointer
  | none => do
    let keyRange ← calculateKeyRange repoID
    mapError
      (fun e => str "failed to create shard for repository " ++ repoID ++
        str ": " ++ e)
      (createShard (order 1) keyRange written)

def holdersAt (c : Cluster) (pointer : ℕ) : List GoString :=
  match c.heap[pointer]? with
  | some shard => shard.holders
  | none => []

def distributeRepository (order : ℕ → RangeOrder) (repoID : GoString)
    (repo : ℕ) (written : ℕ → Except GoString Unit) : GoM Cluster Unit := do
  let pointer ← shardForKey order repoID (written 0)
  update (updateShard pointer (Shard.addRepository repoID))
  let holders ← view fun c => c.holdersAt pointer
  forEach holders (storeOn repoID repo)
  saveState (written 1)

end Cluster

end Govc
