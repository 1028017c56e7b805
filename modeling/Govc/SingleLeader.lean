import Govc.ManagerEffects
import Mathlib.Data.List.MinMax

/-!
# How many leaders a cluster has

A node leads after an election it wins alone, or because the failover manager
promotes it, which does not tell the leader that is replaced.  Runs in which every
leader is preferred to the other candidates whenever an election is held have one
leader at most.
-/

namespace Govc

open Go ClusterRun

/-! ## What a node does on its own -/

namespace Node

variable {now : ℤ} {n : Node}

theorem isLeader_handleRequestVote (hleads : (n.handleRequestVote now req).2.isLeader = true) :
    n.isLeader = true := by
  unfold handleRequestVote at hleads
  split at hleads
  · exact hleads
  · dsimp only at hleads
    split at hleads
    · split_ifs at hleads
    · split_ifs at hleads with hvote
      · exact hleads
      · exact hleads

theorem isLeader_applyFrom {n : Node} : (n.applyFrom turns).isLeader = n.isLeader := by
  induction turns generalizing n with
  | zero => rfl
  | succ turns ih => rw [applyFrom, ih]

theorem isLeader_handleAppendEntries (hleads : (n.handleAppendEntries now req).2.isLeader = true) :
    n.isLeader = true := by
  unfold handleAppendEntries at hleads
  split_ifs at hleads
  · exact hleads
  · dsimp only at hleads
    split_ifs at hleads with hconsistent
    rw [applyCommittedEntries, isLeader_applyFrom] at hleads
    cases hleads

theorem isLeader_handleSnapshot (hleads : (n.handleSnapshot now req).2.isLeader = true) :
    n.isLeader = true := by
  unfold handleSnapshot at hleads
  split at hleads
  · exact hleads
  · by_cases hnew : req.term > n.raftState.currentTerm
    · split_ifs at hleads
    · split_ifs at hleads with hdone
      · exact hleads
      · exact hleads

theorem isLeader_tick (hleads : (n.tick now cluster).isLeader = true) :
    n.isLeader = true ∨ ∃ nodes, cluster = some nodes ∧ nodes.length ≤ 1 := by
  unfold tick at hleads
  have helection : (if n.timedOut now then n.startElection now cluster
      else n).isLeader = true →
      n.isLeader = true ∨ ∃ nodes, cluster = some nodes ∧ nodes.length ≤ 1 := by
    intro hstood
    split_ifs at hstood with htimeout
    · unfold startElection at hstood
      cases cluster with
      | none => exact .inl hstood
      | some nodes =>
        dsimp only at hstood
        split_ifs at hstood with hwon
        · right
          exact ⟨nodes, rfl, by omega⟩
        · exact .inl hstood
    · exact .inl hstood
  cases hstate : n.state with
  | follower =>
    rw [hstate] at hleads
    exact helection hleads
  | candidate =>
    rw [hstate] at hleads
    exact helection hleads
  | leader =>
    rw [hstate] at hleads
    left
    dsimp only at hleads
    split_ifs at hleads with hbeat
    · exact hleads
    · exact hleads
  | _ =>
    rw [hstate] at hleads
    exact .inl hleads

end Node

namespace Cluster

def Leads (c : Cluster) (nodeID : GoString) : Prop :=
  ∃ node, c.nodes.lookup nodeID = some node ∧ node.isLeader = true

def OneLeader (c : Cluster) : Prop :=
  ∀ nodeID other, c.Leads nodeID → c.Leads other → nodeID = other

def Alone (c : Cluster) : Prop :=
  ∀ nodeID other, c.hasNode nodeID = true → c.hasNode other = true → nodeID = other

variable {c : Cluster}

theorem Leads.hasNode (hleads : c.Leads nodeID) : c.hasNode nodeID = true := by
  obtain ⟨node, hlookup, -⟩ := hleads
  unfold Cluster.hasNode GoMap.contains
  rw [hlookup]
  rfl

theorem Leads.getLeaderNode (hleads : c.Leads nodeID) (order : RangeOrder) :
    c.getLeaderNode order ≠ none := by
  obtain ⟨node, hlookup, hflag⟩ := hleads
  intro hnone
  rw [Cluster.getLeaderNode, List.find?_eq_none] at hnone
  refine hnone node ?_ hflag
  rw [List.mem_map]
  exact ⟨(nodeID, node), (GoMap.mem_range order c.nodes nodeID).mpr hlookup, rfl⟩

theorem leads_of_getLeaderNode (hfound : c.getLeaderNode order = some leader) :
    ∃ leaderID, c.nodes.lookup leaderID = some leader ∧ leader.isLeader = true := by
  have hflag := List.find?_some hfound
  obtain ⟨⟨leaderID, found⟩, hentry, rfl⟩ := List.mem_map.mp (List.mem_of_find?_eq_some hfound)
  rw [GoMap.mem_range] at hentry
  exact ⟨leaderID, hentry, hflag⟩

theorem Alone.oneLeader (halone : c.Alone) : c.OneLeader := fun nodeID other hfirst hsecond =>
    halone nodeID other hfirst.hasNode hsecond.hasNode

theorem alone_of_length_le (hfew : (c.nodes.range order).length ≤ 1) : c.Alone := by
  intro nodeID other hfirst hsecond
  obtain ⟨node, hnode⟩ := Option.isSome_iff_exists.mp hfirst
  obtain ⟨second, hsecond⟩ := Option.isSome_iff_exists.mp hsecond
  rw [← GoMap.mem_range order] at hnode hsecond
  cases hlist : c.nodes.range order with
  | nil =>
    rw [hlist] at hnode
    cases hnode
  | cons entry rest =>
    rw [hlist, List.length_cons] at hfew
    have hrest : rest = [] := List.eq_nil_of_length_eq_zero (by omega)
    rw [hlist, hrest, List.mem_singleton] at hnode hsecond
    exact congrArg Prod.fst (hnode.trans hsecond.symm)

theorem isLeader_nodeAfter (hothers : ¬ c.Alone) {event : NodeEvent} {node : Node}
    (hleads : (c.nodeAfter event node).isLeader = true) :
    node.isLeader = true := by
  cases event with
  | requestVote now req => exact Node.isLeader_handleRequestVote hleads
  | appendEntries now req => exact Node.isLeader_handleAppendEntries hleads
  | snapshot now req => exact Node.isLeader_handleSnapshot hleads
  | tick now order =>
    rcases Node.isLeader_tick hleads with hled | ⟨nodes, hnodes, hfew⟩
    · exact hled
    · split_ifs at hnodes with hheld
      rw [Option.some.injEq] at hnodes
      rw [← hnodes, List.length_map] at hfew
      exact absurd (alone_of_length_le hfew) hothers
  | fail => exact hleads
  | stop => exact hleads

/-! ## Changes that make no leader -/

def NoNewLeader (c after : Cluster) : Prop := ∀ nodeID, after.Leads nodeID → c.Leads nodeID

namespace NoNewLeader

variable {c middle after : Cluster}

theorem refl (c : Cluster) : NoNewLeader c c := fun _ hleads => hleads

theorem trans (hfirst : NoNewLeader c middle)
    (hsecond : NoNewLeader middle after) : NoNewLeader c after :=
  fun nodeID hleads => hfirst nodeID (hsecond nodeID hleads)

theorem of_nodes (hnodes : after.nodes = c.nodes) : NoNewLeader c after := by
  rintro nodeID ⟨node, hlookup, hleads⟩
  rw [hnodes] at hlookup
  exact ⟨node, hlookup, hleads⟩

theorem sameBut (hsame : SameBut c after) : NoNewLeader c after := by
  obtain ⟨taken, rfl⟩ := hsame
  exact of_nodes rfl

theorem updateNode (nodeID : GoString) {change : ClusterNode → ClusterNode}
    (hchange : ∀ node, (change node).isLeader = true → node.isLeader = true)
    (c : Cluster) : NoNewLeader c (c.updateNode nodeID change) := by
  rintro other ⟨node, hlookup, hleads⟩
  rw [lookup_updateNode] at hlookup
  split_ifs at hlookup with hsame
  · rw [Option.map_eq_some_iff] at hlookup
    obtain ⟨old, hold, rfl⟩ := hlookup
    rw [hsame]
    exact ⟨old, hold, hchange old hleads⟩
  · exact ⟨node, hlookup, hleads⟩

theorem putRepository (repoID : GoString) (repo : ℕ) (nodeID : GoString)
    (c : Cluster) : NoNewLeader c (c.putRepository repoID repo nodeID) := by
  apply updateNode
  intro node hleads
  exact hleads

theorem dropRepository (repoID nodeID : GoString) (c : Cluster) :
    NoNewLeader c (c.dropRepository repoID nodeID) := by
  apply updateNode
  intro node hleads
  exact hleads

theorem foldl {β : Type} {step : Cluster → β → Cluster}
    (hstep : ∀ c item, NoNewLeader c (step c item)) (items : List β)
    (c : Cluster) : NoNewLeader c (items.foldl step c) := by
  induction items generalizing c with
  | nil => exact refl c
  | cons item items ih => exact (hstep c item).trans (ih (step c item))

theorem departed (order : RangeOrder) (nodeID : GoString) (c : Cluster) :
    NoNewLeader c (c.departed order nodeID) := by
  rintro other ⟨node, hlookup, hleads⟩
  rw [lookup_departed] at hlookup
  split_ifs at hlookup with hleft
  exact ⟨node, hlookup, hleads⟩

theorem stalls (hstalls : c.Stalls order repoID after) : NoNewLeader c after := by
  rcases hstalls with hsame | ⟨first, rest, shard, -, -, -, hmade⟩
  · exact sameBut hsame
  · exact (of_nodes (placeShard_nodes)).trans (sameBut hmade)

theorem opens (hopens : c.Opens order repoID after pointer) : NoNewLeader c after := by
  cases hopens with
  | found hfound => exact refl c
  | made hkey hnone hselects => exact of_nodes rfl

theorem filed (pointer : ℕ) (repoID : GoString) (repo : ℕ) (c : Cluster) :
    NoNewLeader c (c.filed pointer repoID repo) := by
  have hlisted : NoNewLeader c (c.updateShard pointer (Shard.addRepository repoID)) := of_nodes rfl
  exact hlisted.trans (foldl (fun c nodeID => putRepository repoID repo nodeID c) _ _)

theorem moveRepositories (task : MigrationTask) (c : Cluster) :
    NoNewLeader c (Deployment.moveRepositories task c) := by
  apply foldl
  intro c repoID
  unfold Deployment.moveRepository
  cases c.repositoryOn task.sourceNode repoID with
  | none => exact refl c
  | some repo =>
    exact (putRepository repoID repo task.targetNode c).trans
      (dropRepository repoID task.sourceNode _)

theorem migrated (task : MigrationTask) (shardMap : GoMap GoString ℕ)
    (c : Cluster) : NoNewLeader c (Deployment.migrated task shardMap c) := by
  refine trans (moveRepositories task c) ?_
  unfold Deployment.migrated Deployment.reassignShard
  cases shardMap.lookup task.shardID with
  | none => exact refl _
  | some pointer => exact of_nodes rfl

theorem failedOver (order : RangeOrder) (task : FailoverTask) (c : Cluster)
    (pointer : ℕ) : NoNewLeader c (Deployment.failedOver order task c pointer) := by
  unfold Deployment.failedOver copyRepositories
  split
  · apply foldl
    intro c entry
    split_ifs with hlisted
    · exact putRepository entry.1 entry.2 task.targetNode c
    · exact refl c
  · exact refl _

end NoNewLeader

namespace OneLeader

variable {c after : Cluster}

theorem of_noNew (hone : c.OneLeader) (hnone : NoNewLeader c after) : after.OneLeader :=
  fun nodeID other hfirst hsecond =>
    hone nodeID other (hnone nodeID hfirst) (hnone other hsecond)

theorem joined (hone : c.OneLeader) {node : ClusterNode}
    (hunled : node.isLeader = true → ∀ nodeID, ¬ c.Leads nodeID) :
    Cluster.OneLeader { c with nodes := c.nodes.insert node.id node } := by
  have hcases : ∀ nodeID, Leads { c with nodes := c.nodes.insert node.id node } nodeID →
      nodeID = node.id ∧ node.isLeader = true ∨ c.Leads nodeID := by
    rintro nodeID ⟨found, hlookup, hleads⟩
    rcases GoMap.lookup_insert_cases hlookup with ⟨hnew, rfl⟩ | ⟨-, hold⟩
    · exact .inl ⟨hnew, hleads⟩
    · exact .inr ⟨found, hold, hleads⟩
  intro nodeID other hfirst hsecond
  rcases hcases nodeID hfirst with ⟨hid, hleads⟩ | hold
  · rcases hcases other hsecond with ⟨hother, -⟩ | hold
    · rw [hid, hother]
    · exact absurd hold (hunled hleads other)
  · rcases hcases other hsecond with ⟨-, hleads⟩ | hanother
    · exact absurd hold (hunled hleads nodeID)
    · exact hone nodeID other hold hanother

theorem nodeEvent (hone : c.OneLeader) (nodeID : GoString)
    (event : NodeEvent) : (c.nodeEvent nodeID event).OneLeader := by
  by_cases halone : c.Alone
  · apply Alone.oneLeader
    intro first second hfirst hsecond
    rw [Cluster.nodeEvent, hasNode_updateNode] at hfirst hsecond
    exact halone first second hfirst hsecond
  · apply hone.of_noNew
    apply NoNewLeader.updateNode
    intro node hleads
    exact isLeader_nodeAfter halone hleads

theorem promote {candidate : GoString}
    (hunled : ∀ nodeID, c.Leads nodeID → nodeID = candidate) :
    (c.promote candidate).OneLeader := by
  have hcases : ∀ nodeID, (c.promote candidate).Leads nodeID → nodeID = candidate := by
    rintro nodeID ⟨node, hlookup, hleads⟩
    rw [Cluster.promote, lookup_updateNode] at hlookup
    by_contra hother
    rw [if_neg hother] at hlookup
    exact hother (hunled nodeID ⟨node, hlookup, hleads⟩)
  intro nodeID other hfirst hsecond
  rw [hcases nodeID hfirst, hcases other hsecond]

end OneLeader

end Cluster

/-! ## Elections -/

namespace Deployment

variable {host : Host}

/-- Every healthy node apart from this one answers later than this one. -/
def Preferred (d : Deployment host) (nodeID : GoString) : Prop :=
  ∀ other health, d.nodeStatus.lookup other = some health →
    health.isHealthy = true → other ≠ nodeID →
    ∃ own, d.nodeStatus.lookup nodeID = some own ∧ own.isHealthy = true ∧
      own.responseTime < health.responseTime

theorem findLeaderCandidate_eq {order : RangeOrder} {d : Deployment host} :
    d.findLeaderCandidate order =
      ((((d.nodeStatus.range order).filter fun entry =>
        entry.2.isHealthy).argmin fun entry =>
          entry.2.responseTime).map Prod.fst).getD [] := by
  unfold findLeaderCandidate List.argmin
  dsimp only
  congr 3
  funext best entry
  cases best <;> rfl

variable {order : RangeOrder} {d : Deployment host}

theorem findLeaderCandidate_spec (hsome : d.findLeaderCandidate order ≠ []) :
    ∃ health, d.nodeStatus.lookup (d.findLeaderCandidate order) = some health ∧
      health.isHealthy = true ∧
      ∀ other another, d.nodeStatus.lookup other = some another → another.isHealthy = true →
        health.responseTime ≤ another.responseTime := by
  rw [findLeaderCandidate_eq] at hsome ⊢
  cases hbest : ((d.nodeStatus.range order).filter fun entry =>
      entry.2.isHealthy).argmin fun entry => entry.2.responseTime with
  | none =>
    rw [hbest] at hsome
    exact absurd rfl hsome
  | some best =>
    have hmem := List.argmin_mem hbest
    rw [List.mem_filter, GoMap.mem_range] at hmem
    refine ⟨best.2, hmem.1, hmem.2, ?_⟩
    intro other another hlookup hhealthy
    have hother : (other, another) ∈ (d.nodeStatus.range order).filter
        fun entry => entry.2.isHealthy := by
      rw [List.mem_filter, GoMap.mem_range]
      exact ⟨hlookup, hhealthy⟩
    exact List.le_of_mem_argmin (f := fun entry : GoString × NodeHealth => entry.2.responseTime)
      hother hbest

theorem Preferred.eq_candidate (hpreferred : d.Preferred nodeID)
    (hsome : d.findLeaderCandidate order ≠ []) :
    nodeID = d.findLeaderCandidate order := by
  obtain ⟨health, hlookup, hhealthy, hleast⟩ := findLeaderCandidate_spec hsome
  by_contra hother
  obtain ⟨own, hown, hwell, hfaster⟩ := hpreferred _ health hlookup hhealthy (Ne.symm hother)
  have hle := hleast nodeID own hown hwell
  omega

/-- The condition on steps.  A node that joins as a leader finds none; whoever
leads when an election is held is preferred to the other candidates.  The
failover check holds one only if a leader is unhealthy or there is none. -/
def keepsLeader (d : Deployment host) : ClusterInput → Prop
  | .addNode node _ =>
    node.isLeader = true → ∀ nodeID, ¬ d.cluster.Leads nodeID
  | .electLeader _ _ => ∀ nodeID, d.cluster.Leads nodeID → d.Preferred nodeID
  | .checkFailover _ _ =>
    ∀ nodeID node, d.cluster.nodes.lookup nodeID = some node →
      node.isLeader = true → d.isNodeUnhealthy node.id = true →
      d.Preferred nodeID
  | _ => True

theorem preferred_of_leaderMissing (hone : d.cluster.OneLeader)
    (hmissing : d.leaderMissing order = true)
    (hguard : ∀ nodeID node, d.cluster.nodes.lookup nodeID = some node →
      node.isLeader = true → d.isNodeUnhealthy node.id = true →
      d.Preferred nodeID)
    (hleads : d.cluster.Leads nodeID) :
    d.Preferred nodeID := by
  unfold leaderMissing at hmissing
  cases hleader : d.cluster.getLeaderNode order with
  | none => exact absurd hleader (hleads.getLeaderNode order)
  | some leader =>
    rw [hleader] at hmissing
    obtain ⟨leaderID, hlookup, hflag⟩ := Cluster.leads_of_getLeaderNode hleader
    rw [hone nodeID leaderID hleads ⟨leader, hlookup, hflag⟩]
    exact hguard leaderID leader hlookup hflag hmissing

theorem oneLeader_effect {after : Deployment host}
    (heffect : Effect d input after) (hone : d.cluster.OneLeader)
    (hguard : d.keepsLeader input) : after.cluster.OneLeader := by
  cases heffect with
  | same hsame hmap => exact hone.of_noNew (.sameBut hsame)
  | joined hnew hjoined hmap =>
    exact (hone.joined hguard).of_noNew (.sameBut hjoined)
  | departed hleft hmap =>
    exact hone.of_noNew ((Cluster.NoNewLeader.departed _ _ _).trans (.sameBut hleft))
  | @made _ _ _ _ shard hselects hmade hmap =>
    have hplaced : d.cluster.NoNewLeader (d.cluster.placeShard shard) := .of_nodes rfl
    exact hone.of_noNew (hplaced.trans (.sameBut hmade))
  | stalled hstalls hmap => exact hone.of_noNew (.stalls hstalls)
  | filed hopens hcluster hmap =>
    rw [hcluster]
    exact hone.of_noNew ((Cluster.NoNewLeader.opens hopens).trans (.filed _ _ _ _))
  | managed hnode hnew hcluster hmap =>
    rw [hcluster]
    exact hone.of_noNew (.of_nodes rfl)
  | migrated htask htarget hcluster hmap =>
    rw [hcluster]
    split_ifs with hheld
    · exact hone.of_noNew (.moveRepositories _ _)
    · exact hone.of_noNew (.migrated _ _ _)
  | replaced hmissing hsome hcluster hmap =>
    rw [hcluster]
    apply Cluster.OneLeader.promote
    intro nodeID hleads
    exact (preferred_of_leaderMissing hone hmissing hguard hleads).eq_candidate hsome
  | elected hsome hcluster hmap =>
    rw [hcluster]
    apply Cluster.OneLeader.promote
    intro nodeID hleads
    exact (hguard nodeID hleads).eq_candidate hsome
  | failedOver htask hcluster hmap =>
    rw [hcluster]
    exact hone.of_noNew (.foldl (.failedOver _ _) _ _)
  | failedOverFirst htask hlocked hmem hcluster hmap =>
    rw [hcluster]
    exact hone.of_noNew (.of_nodes rfl)
  | stepped hcluster hmap =>
    rw [hcluster]
    exact hone.nodeEvent _ _

end Deployment

/-- In every run whose steps all keep the leader, there is one at most. -/
theorem at_most_one_leader {host : Host} {run : ClusterRun host}
    (hreach : Runs.Reachable (clusterSystem host) (fun run input => run.keepsLeader input) run) :
    run.cluster.OneLeader := by
  apply hreach.invariant (I := fun run : ClusterRun host => run.cluster.OneLeader)
  · rintro first ⟨replicationFactor, dataDir, loaded, policy, rfl⟩
    rintro nodeID other ⟨node, hlookup, -⟩
    cases hlookup
  · rintro before input after hone hguard rfl
    exact Deployment.oneLeader_effect (before.effect_perform) hone hguard

def promoted : List ClusterInput :=
  [.addNode (joining "a") (.ok ()), .addNode (joining "b") (.ok ()),
    .checkAllNodes .inserted fun nodeID => if nodeID = str "a" then 1 else 2,
    .checkFailover (fun _ => .inserted) 0]

theorem at_most_one_leader_promoted :
    (start.play promoted).cluster.Leads (str "a") ∧ (start.play promoted).cluster.OneLeader := by
  refine ⟨⟨_, rfl, by decide⟩, at_most_one_leader (reachable_play ?_)⟩
  refine ⟨?_, ?_, trivial, ?_, trivial⟩
  · intro hleads
    cases hleads
  · intro hleads
    cases hleads
  · intro nodeID node hlookup hflag
    have hleads : Cluster.Leads _ nodeID := ⟨node, hlookup, hflag⟩
    exact absurd rfl (hleads.getLeaderNode .inserted)

/-- The leader fails, which the health checks notice, and the other node is
promoted. -/
def replacedLeader : List ClusterInput :=
  promoted ++
    [.node (str "a") .fail,
      .checkAllNodes .inserted fun _ => 1, .checkAllNodes .inserted fun _ => 1,
      .checkAllNodes .inserted fun _ => 1, .checkFailover (fun _ => .inserted) 1]

/-- The failed leader was not told. -/
theorem failed_leader_still_leads :
    Runs.Reachable (clusterSystem .checksums) (fun _ _ => True) (start.play replacedLeader) ∧
      ¬ (start.play replacedLeader).cluster.OneLeader := by
  refine ⟨reachable_play
    ⟨trivial, trivial, trivial, trivial, trivial, trivial, trivial, trivial, trivial, trivial⟩, ?_⟩
  intro hone
  have hsame := hone (str "a") (str "b") ⟨_, rfl, by decide⟩
    ⟨_, rfl, by decide⟩
  revert hsame
  decide

end Govc
