import Govc.RepositoryCopies
import Govc.ShardPlacement

/-!
# Repositories that were distributed stay

The invariant: every holder of a shard is a node and has every repository that
the shard lists, and every distributed repository is listed by some shard.  A new
shard may replace one with the same id, and a migration takes repositories from
its source; the condition excludes the cases in which that loses something.
-/

namespace Govc

open Go ClusterRun Deployment

namespace Shard

/-- Whoever is left when a node goes was there before; the node itself is not
left if a replica on another node can be promoted. -/
theorem mem_holders_withoutNode {shard : Shard}
    (hspare : shard.primaryNode = nodeID →
      ∃ replica rest, shard.replicaNodes = replica :: rest ∧ replica ≠ nodeID)
    (hholder : holder ∈ (shard.withoutNode nodeID).holders) :
    holder ∈ shard.holders ∧ holder ≠ nodeID := by
  unfold withoutNode holders at *
  by_cases hprimary : shard.primaryNode = nodeID
  · obtain ⟨replica, rest, hreplicas, hother⟩ := hspare hprimary
    simp only [if_pos hprimary, hreplicas, List.mem_cons, List.mem_filter,
      decide_eq_true_eq] at hholder ⊢
    rcases hholder with rfl | ⟨hmem, hne⟩
    · exact ⟨.inr (.inl rfl), hother⟩
    · exact ⟨.inr (.inr hmem), hne⟩
  · simp only [if_neg hprimary, List.mem_cons, List.mem_filter, decide_eq_true_eq] at hholder ⊢
    rcases hholder with rfl | ⟨hmem, hne⟩
    · exact ⟨.inl rfl, hprimary⟩
    · exact ⟨.inr hmem, hne⟩

theorem lists_ite [Decidable P] {shard new : Shard}
    (hnew : new.lists repoID = shard.lists repoID) (hlisted : shard.lists repoID = true) :
    Shard.lists (if P then new else shard) repoID = true := by
  split
  · exact hnew.trans hlisted
  · exact hlisted

end Shard

namespace Cluster

/-- The nodes that are to have a repository are there and have it. -/
def Held (c : Cluster) : Prop :=
  ∀ shardID shard, c.shard? shardID = some shard →
    ∀ holder ∈ shard.holders, c.hasNode holder = true ∧
      ∀ repoID, shard.lists repoID = true → c.hosts holder repoID = true

def Assigns (c : Cluster) (repoID : GoString) : Prop :=
  ∃ shardID shard, c.shard? shardID = some shard ∧ shard.lists repoID = true

namespace Held

variable {c after : Cluster}

variable (hheld : c.Held)

include hheld

theorem of_same (hshards : ∀ shardID, after.shard? shardID = c.shard? shardID)
    (hnodes : ∀ nodeID, c.hasNode nodeID = true → after.hasNode nodeID = true)
    (hhosts : ∀ nodeID repoID, c.hosts nodeID repoID = true →
      after.hosts nodeID repoID = true) : after.Held := by
  intro shardID shard hshard holder hholder
  rw [hshards] at hshard
  obtain ⟨hnode, hrepos⟩ := hheld shardID shard hshard holder hholder
  exact ⟨hnodes holder hnode, fun repoID hlisted => hhosts holder repoID (hrepos repoID hlisted)⟩

theorem sameBut (hsame : SameBut c after) : after.Held := by
  obtain ⟨taken, rfl⟩ := hsame
  exact hheld.of_same (fun _ => rfl) (fun _ h => h) (fun _ _ h => h)

theorem updateNode (nodeID : GoString)
    (hsame : ∀ node, (change node).repositories = node.repositories) :
    (c.updateNode nodeID change).Held := by
  apply hheld.of_same
  · intro shardID
    rw [shard?_updateNode]
  · intro other hnode
    rw [hasNode_updateNode]
    exact hnode
  · intro other repoID hhosts
    rw [hosts_updateNode hsame]
    exact hhosts

theorem joined {node : ClusterNode} (hnew : c.hasNode node.id = false) :
    Cluster.Held { c with nodes := c.nodes.insert node.id node } := by
  have hother : ∀ nodeID, c.hasNode nodeID = true →
      (c.nodes.insert node.id node).lookup nodeID = c.nodes.lookup nodeID := by
    intro nodeID hnode
    rw [GoMap.lookup_insert_eq, if_neg]
    rintro rfl
    rw [hnew] at hnode
    exact absurd hnode Bool.false_ne_true
  intro shardID shard hshard holder hholder
  obtain ⟨hnode, hrepos⟩ := hheld shardID shard hshard holder hholder
  refine ⟨?_, ?_⟩
  · change ((c.nodes.insert node.id node).lookup holder).isSome = true
    rw [hother holder hnode]
    exact hnode
  · intro repoID hlisted
    obtain ⟨old, hold, hhas⟩ := (hosts_eq c).mp (hrepos repoID hlisted)
    exact (hosts_eq _).mpr ⟨old, (hother holder hnode).trans hold, hhas⟩

theorem departed (order : RangeOrder)
    (hspare : ∀ shardID shard, c.shard? shardID = some shard →
      shard.primaryNode = nodeID → ∃ replica rest,
        shard.replicaNodes = replica :: rest ∧ replica ≠ nodeID) :
    (c.departed order nodeID).Held := by
  intro shardID left hleft holder hholder
  rw [shard?_departed, Option.map_eq_some_iff] at hleft
  obtain ⟨shard, hshard, rfl⟩ := hleft
  obtain ⟨hold, hne⟩ := Shard.mem_holders_withoutNode (hspare shardID shard hshard) hholder
  obtain ⟨hnode, hrepos⟩ := hheld shardID shard hshard holder hold
  have hsame : (c.departed order nodeID).nodes.lookup holder = c.nodes.lookup holder := by
    rw [lookup_departed, if_neg hne]
  refine ⟨?_, ?_⟩
  · change ((c.departed order nodeID).nodes.lookup holder).isSome = true
    rw [hsame]
    exact hnode
  · intro repoID hlisted
    rw [Shard.lists_withoutNode] at hlisted
    obtain ⟨node, hlookup, hhas⟩ := (hosts_eq c).mp (hrepos repoID hlisted)
    exact (hosts_eq _).mpr ⟨node, hsame.trans hlookup, hhas⟩

theorem placeShard {shard : Shard}
    (hholders : ∀ holder ∈ shard.holders, c.hasNode holder = true)
    (hempty : ∀ repoID, shard.lists repoID = false) :
    (c.placeShard shard).Held := by
  intro shardID other hother holder hholder
  rw [shard?_placeShard] at hother
  split at hother
  · rw [Option.some.injEq] at hother
    subst hother
    refine ⟨hholders holder hholder, ?_⟩
    intro repoID hlisted
    rw [hempty] at hlisted
    exact absurd hlisted Bool.false_ne_true
  · exact hheld shardID other hother holder hholder

theorem filed (pointer : ℕ) (repoID : GoString)
    (repo : ℕ) : (c.filed pointer repoID repo).Held := by
  intro shardID other hother holder hholder
  rw [Cluster.filed, (nodeFree_shard? shardID).putOnAll, shard?_updateShard,
    Option.map_eq_some_iff] at hother
  obtain ⟨shard, hshard, rfl⟩ := hother
  have hholder' : holder ∈ shard.holders := by
    split_ifs at hholder with hpointer
    · exact hholder
    · exact hholder
  obtain ⟨hnode, hrepos⟩ := hheld shardID shard hshard holder hholder'
  refine ⟨?_, ?_⟩
  · rw [Cluster.filed, nodeFree_hasNode.putOnAll]
    exact hnode
  · intro asked hlisted
    rw [Cluster.filed, hosts_putOnAll]
    split_ifs at hlisted with hpointer
    · rw [Shard.lists_addRepository] at hlisted
      rcases hlisted with hasked | hlisted
      · -- the repository that is filed: its shard's holders get it
        refine .inl ⟨?_, hasked, hnode⟩
        rw [shard?, hpointer, Option.bind_some] at hshard
        rw [holdersAt, getElem?_updateShard, hshard, Option.map_some, if_pos rfl]
        exact hholder'
      · exact .inr (hrepos asked hlisted)
    · exact .inr (hrepos asked hlisted)

end Held

/-! ## Migrations -/

/-- The shard with this id is the one that the task migrates. -/
def IsMigrated (c : Cluster) (shardMap : GoMap GoString ℕ)
    (task : MigrationTask) (shardID : GoString) : Prop :=
  shardMap.lookup task.shardID = c.shards.lookup shardID

/-- A migration that loses nothing.  Where the source remains a holder, it
keeps what the shard lists: that is so for other shards, and for the migrated
one if the source is also the target.  What the migrated shard lists was noted
in the task or is on the target already. -/
structure Migratable (c : Cluster) (shardMap : GoMap GoString ℕ)
    (task : MigrationTask) : Prop where
  kept : ∀ shardID shard, c.shard? shardID = some shard → task.sourceNode ∈ shard.holders →
    task.sourceNode = task.targetNode ∨ ¬ c.IsMigrated shardMap task shardID →
    ∀ repoID ∈ task.repositories, shard.lists repoID = false
  brought : ∀ shardID shard, c.shard? shardID = some shard →
    task.sourceNode ∈ shard.holders → c.IsMigrated shardMap task shardID →
    ∀ repoID, shard.lists repoID = true →
      repoID ∈ task.repositories ∨ c.hosts task.targetNode repoID = true

theorem shard?_migrated (task : MigrationTask) (shardMap : GoMap GoString ℕ)
    (c : Cluster) (shardID : GoString) :
    (Deployment.migrated task shardMap c).shard? shardID =
      (c.shard? shardID).map fun shard =>
        if shardMap.lookup task.shardID = c.shards.lookup shardID then
          shard.reassign task.sourceNode task.targetNode
        else shard := by
  have hmoved : (moveRepositories task c).shard? shardID = c.shard? shardID :=
    moveRepositories_unchanged (nodeFree_shard? shardID) c
  have htable : (moveRepositories task c).shards = c.shards :=
    moveRepositories_unchanged updateNode_shards c
  unfold Deployment.migrated reassignShard
  cases hpointer : shardMap.lookup task.shardID with
  | none =>
    rw [hmoved]
    cases hlookup : c.shards.lookup shardID with
    | none => simp [shard?, hlookup]
    | some pointer => simp
  | some pointer =>
    rw [shard?_updateShard, hmoved, htable]
    simp only [eq_comm]

variable {c : Cluster} {task : MigrationTask}

theorem hosts_migrated (htarget : c.hasNode task.targetNode = true)
    {shardMap : GoMap GoString ℕ} {other asked : GoString} :
    (Deployment.migrated task shardMap c).hosts other asked = true ↔
      if asked ∈ task.repositories ∧ c.hosts task.sourceNode asked = true then
        other ≠ task.sourceNode ∧ (other = task.targetNode ∨ c.hosts other asked = true)
      else c.hosts other asked = true := by
  rw [← hosts_moveRepositories htarget]
  unfold Deployment.migrated reassignShard
  cases shardMap.lookup task.shardID <;> exact Iff.rfl

variable {repoID : GoString}

theorem hosts_migrated_of_hosts (htarget : c.hasNode task.targetNode = true)
    {shardMap : GoMap GoString ℕ}
    (hold : c.hosts other asked = true)
    (hkept : other = task.sourceNode → asked ∉ task.repositories) :
    (Deployment.migrated task shardMap c).hosts other asked = true := by
  rw [hosts_migrated htarget]
  split_ifs with hmoved
  · exact ⟨fun heq => hkept heq hmoved.1, .inr hold⟩
  · exact hold

theorem hasNode_migrated {task : MigrationTask} {shardMap : GoMap GoString ℕ}
    {c : Cluster} {nodeID : GoString} :
    (Deployment.migrated task shardMap c).hasNode nodeID = c.hasNode nodeID := by
  rw [← moveRepositories_unchanged (nodeFree_hasNode) c]
  unfold Deployment.migrated reassignShard
  cases shardMap.lookup task.shardID <;> rfl

theorem Held.migrated (hheld : c.Held) {shardMap : GoMap GoString ℕ}
    (htarget : c.hasNode task.targetNode = true)
    (hguard : c.Migratable shardMap task) :
    (Deployment.migrated task shardMap c).Held := by
  intro shardID other hother holder hholder
  rw [shard?_migrated, Option.map_eq_some_iff] at hother
  obtain ⟨shard, hshard, rfl⟩ := hother
  rw [hasNode_migrated]
  by_cases hmigrated : shardMap.lookup task.shardID = c.shards.lookup shardID
  · rw [if_pos hmigrated] at hholder ⊢
    rw [Shard.holders_reassign, Replicas.mem_handOver] at hholder
    rcases hholder with ⟨hsource, rfl⟩ | ⟨hmem, hne⟩
    · refine ⟨htarget, ?_⟩
      intro repoID hlisted
      have hbefore := (hheld shardID shard hshard _ hsource).2 repoID hlisted
      rw [hosts_migrated htarget]
      by_cases hnoted : repoID ∈ task.repositories
      · rw [if_pos ⟨hnoted, hbefore⟩]
        refine ⟨?_, .inl rfl⟩
        intro hsame
        have hnothing := hguard.kept shardID shard hshard hsource (.inl hsame.symm) repoID hnoted
        exact absurd (hlisted.symm.trans hnothing) Bool.true_eq_false.mp
      · rw [if_neg (fun hmoved => hnoted hmoved.1)]
        rcases hguard.brought shardID shard hshard hsource hmigrated repoID
          hlisted with hin | hthere
        · exact absurd hin hnoted
        · exact hthere
    · obtain ⟨hnode, hrepos⟩ := hheld shardID shard hshard holder hmem
      exact ⟨hnode, fun repoID hlisted => hosts_migrated_of_hosts htarget (hrepos repoID hlisted) (fun heq => absurd heq hne)⟩
  · rw [if_neg hmigrated] at hholder ⊢
    obtain ⟨hnode, hrepos⟩ := hheld shardID shard hshard holder hholder
    refine ⟨hnode, ?_⟩
    intro repoID hlisted
    apply hosts_migrated_of_hosts htarget (hrepos repoID hlisted)
    rintro rfl hnoted
    have hnothing := hguard.kept shardID shard hshard hholder (.inr hmigrated) repoID hnoted
    rw [hlisted] at hnothing
    exact absurd hnothing Bool.true_eq_false.mp

/-! ## Failovers -/

theorem Held.failedOver (hheld : c.Held) {task : FailoverTask}
    (shardOrder order : RangeOrder)
    (hready : c.hasNode task.targetNode = true ∨ c.Spare task.sourceNode) :
    Cluster.Held ((c.shardsOf shardOrder task.sourceNode).foldl
      (Deployment.failedOver order task) c) := by
  intro shardID other hother holder hholder
  rw [Deployment.shard?_foldl_failedOver, Option.map_eq_some_iff] at hother
  obtain ⟨shard, hshard, rfl⟩ := hother
  rw [hasNode_foldl_failedOver]
  by_cases hprimary : shard.primaryNode = task.sourceNode
  · rw [if_pos hprimary] at hholder ⊢
    rw [Shard.holders_failOver] at hholder
    by_cases hnone : shard.replicaNodes = []
    · -- no replica: the target gets what the failed node had
      rw [if_pos hnone, List.mem_singleton] at hholder
      subst hholder
      have htarget : c.hasNode task.targetNode = true := by
        rcases hready with htarget | hspare
        · exact htarget
        · exact absurd hnone (hspare shardID shard hshard hprimary)
      refine ⟨htarget, ?_⟩
      intro repoID hlisted
      rw [lists_failOver] at hlisted
      obtain ⟨pointer, hlookup, hheap⟩ := shard?_eq_some.mp hshard
      have hsource := (hheld shardID shard hshard shard.primaryNode
        List.mem_cons_self).2 repoID hlisted
      rw [hprimary] at hsource
      exact hosts_foldl_failedOver_of_mem
        (mem_shardsOf.mpr ⟨mem_pointers.mpr ⟨shardID, hlookup⟩,
          shard, hheap, hprimary⟩) hheap hlisted htarget hsource
    · rw [if_neg hnone] at hholder
      obtain ⟨hnode, hrepos⟩ := hheld shardID shard hshard holder (List.mem_cons_of_mem _ hholder)
      refine ⟨hnode, ?_⟩
      intro repoID hlisted
      rw [lists_failOver] at hlisted
      exact hosts_foldl_failedOver_of_hosts _ (hrepos repoID hlisted)
  · rw [if_neg hprimary] at hholder ⊢
    obtain ⟨hnode, hrepos⟩ := hheld shardID shard hshard holder hholder
    exact ⟨hnode, fun repoID hlisted =>
      hosts_foldl_failedOver_of_hosts _ (hrepos repoID hlisted)⟩

variable {pointer : ℕ}

theorem Held.failedOverFirst (hheld : c.Held) {task : FailoverTask}
    (hmem : pointer ∈ c.shardsOf shardOrder task.sourceNode)
    (hspare : c.Spare task.sourceNode) :
    (c.updateShard pointer (Shard.failOver task.targetNode)).Held := by
  intro shardID other hother holder hholder
  rw [shard?_updateShard, Option.map_eq_some_iff] at hother
  obtain ⟨shard, hshard, rfl⟩ := hother
  by_cases hpointer : c.shards.lookup shardID = some pointer
  · rw [if_pos hpointer] at hholder ⊢
    rw [mem_shardsOf] at hmem
    obtain ⟨-, failed, hfailed, hprimary⟩ := hmem
    have hsame : c.heap[pointer]? = some shard := by
      rw [shard?, hpointer, Option.bind_some] at hshard
      exact hshard
    rw [hsame, Option.some.injEq] at hfailed
    subst hfailed
    rw [Shard.holders_failOver, if_neg (hspare shardID shard hshard hprimary)] at hholder
    obtain ⟨hnode, hrepos⟩ := hheld shardID shard hshard holder (List.mem_cons_of_mem _ hholder)
    refine ⟨hnode, ?_⟩
    intro repoID hlisted
    rw [lists_failOver] at hlisted
    exact hrepos repoID hlisted
  · rw [if_neg hpointer] at hholder ⊢
    exact hheld shardID shard hshard holder hholder

/-! ## The table of shards -/

/-- The shards are the same ones, and each lists what it listed. -/
structure Carries (c after : Cluster) : Prop where
  back : ∀ shardID shard, after.shard? shardID = some shard → ∃ old, c.shard? shardID = some old
  forth : ∀ shardID shard, c.shard? shardID = some shard →
    ∃ new, after.shard? shardID = some new ∧
      ∀ repoID, shard.lists repoID = true → new.lists repoID = true

instance (c : Cluster) (repoID : GoString) : Decidable (c.Assigns repoID) :=
  decidable_of_iff
    (∃ shardID ∈ c.shards.keys, ∃ shard ∈ c.shard? shardID, shard.lists repoID = true)
    ⟨fun ⟨shardID, _, shard, hshard, hlisted⟩ =>
      ⟨shardID, shard, hshard, hlisted⟩,
    fun ⟨shardID, shard, hshard, hlisted⟩ =>
      ⟨shardID, mem_keys_of_shard? hshard, shard, hshard, hlisted⟩⟩

variable {after : Cluster}

theorem Carries.of_map {change : GoString → Shard → Shard} (hshards : ∀ shardID,
      after.shard? shardID = (c.shard? shardID).map (change shardID))
    (hlists : ∀ shardID shard repoID, shard.lists repoID = true →
      (change shardID shard).lists repoID = true) : c.Carries after where
  back := by
    intro shardID shard hshard
    rw [hshards, Option.map_eq_some_iff] at hshard
    obtain ⟨old, hold, -⟩ := hshard
    exact ⟨old, hold⟩
  forth := by
    intro shardID shard hshard
    refine ⟨change shardID shard, ?_, hlists shardID shard⟩
    rw [hshards, hshard, Option.map_some]

theorem Carries.of_same (hshards : ∀ shardID, after.shard? shardID = c.shard? shardID) :
    c.Carries after :=
  @Carries.of_map c after (fun _ shard => shard)
    (fun shardID => by rw [hshards, Option.map_id_fun', id])
    (fun _ _ _ h => h)

theorem Carries.sameBut (hsame : SameBut c after) : c.Carries after := by
  obtain ⟨taken, rfl⟩ := hsame
  exact .of_same (fun _ => rfl)

theorem Carries.trans {middle : Cluster}
    (hfirst : c.Carries middle) (hsecond : middle.Carries after) :
    c.Carries after where
  back := by
    intro shardID shard hshard
    obtain ⟨old, hold⟩ := hsecond.back shardID shard hshard
    exact hfirst.back shardID old hold
  forth := by
    intro shardID shard hshard
    obtain ⟨new, hnew, hlists⟩ := hfirst.forth shardID shard hshard
    obtain ⟨last, hlast, hmore⟩ := hsecond.forth shardID new hnew
    exact ⟨last, hlast, fun repoID hlisted =>
      hmore repoID (hlists repoID hlisted)⟩

theorem Assigns.carried (hassigns : c.Assigns repoID) (hcarries : c.Carries after) :
    after.Assigns repoID := by
  obtain ⟨shardID, shard, hshard, hlisted⟩ := hassigns
  obtain ⟨new, hnew, hlists⟩ := hcarries.forth shardID shard hshard
  exact ⟨shardID, new, hnew, hlists repoID hlisted⟩

theorem Assigns.placeShard {shard : Shard}
    (hassigns : c.Assigns repoID) (hvacant : c.Vacant shard.id) :
    (c.placeShard shard).Assigns repoID := by
  obtain ⟨shardID, old, hold, hlisted⟩ := hassigns
  refine ⟨shardID, old, ?_, hlisted⟩
  rw [shard?_placeShard, if_neg]
  · exact hold
  · rintro rfl
    rw [hvacant old hold repoID] at hlisted
    exact absurd hlisted Bool.false_ne_true

theorem carries_filed (c : Cluster) {pointer : ℕ} {repoID : GoString}
    {repo : ℕ} : c.Carries (c.filed pointer repoID repo) := by
  apply Carries.of_map
  · intro shardID
    rw [filed, (nodeFree_shard? shardID).putOnAll, shard?_updateShard]
  · intro shardID shard asked hlisted
    split
    · rw [Shard.lists_addRepository]
      exact .inr hlisted
    · exact hlisted

theorem assigns_filed {shardID : GoString}
    (hlookup : c.shards.lookup shardID = some pointer) {repoID : GoString}
    {repo : ℕ} : (c.filed pointer repoID repo).Assigns repoID := by
  obtain ⟨shard, hheap⟩ := exists_shard hlookup
  refine ⟨shardID, shard.addRepository repoID, ?_,
    shard.lists_addRepository.mpr (.inl rfl)⟩
  rw [filed, (nodeFree_shard? shardID).putOnAll, shard?_updateShard,
    shard?_eq_some.mpr ⟨pointer, hlookup, hheap⟩, Option.map_some,
    if_pos hlookup]

theorem Opens.lookup {opened : Cluster} {order : RangeOrder}
    (hopens : c.Opens order repoID opened pointer) :
    ∃ shardID, opened.shards.lookup shardID = some pointer := by
  cases hopens with
  | found hfound =>
    obtain ⟨shardID, -, hlookup, -⟩ := findShard_eq_some hfound
    exact ⟨shardID, hlookup⟩
  | @made first rest shard hkey hnone hselects =>
    refine ⟨shard.id, ?_⟩
    change (c.shards.insert shard.id c.heap.length).lookup shard.id = _
    rw [GoMap.lookup_insert_eq, if_pos rfl]

end Cluster

namespace Deployment

variable {host : Host}

/-- Every shard of the cluster was made by the cluster, under an id of its
kind, or by the manager, which then knows it. -/
def Known (d : Deployment host) : Prop :=
  ∀ shardID shard, d.cluster.shard? shardID = some shard →
    hasPrefix shardID (str "shard-") = true ∨ d.shardMap.contains shardID = true

theorem hasPrefix_shardIDFor {repoID nodeID : GoString} :
    hasPrefix (shardIDFor host repoID nodeID) (str "shard-") = false := by
  rw [Bool.eq_false_iff]
  intro hprefix
  rw [hasPrefix_iff] at hprefix
  obtain ⟨rest, hrest⟩ := hprefix
  have hmem : (115 : UInt8) ∈ shardIDFor host repoID nodeID := by
    rw [← hrest]
    exact List.mem_append_left rest (by decide)
  have hhex := List.all_eq_true.mp (hexEncode_isLowerHex) 115 hmem
  exact absurd hhex (by decide)

theorem hasPrefix_generateShardID {keyRange : ShardKeyRange} :
    hasPrefix (generateShardID keyRange) (str "shard-") = true := by
  rw [hasPrefix_iff, generateShardID, List.append_assoc, List.append_assoc]
  exact List.prefix_append _ _

variable {d : Deployment host} {repoID : GoString}

theorem Known.vacant_ringShard (hknown : d.Known)
    (hnew : d.shardMap.lookup (d.ringShard repoID).id = none) :
    d.cluster.Vacant (d.ringShard repoID).id := by
  intro shard hshard
  rcases hknown _ shard hshard with hprefix | hmap
  · rw [ringShard, hasPrefix_shardIDFor] at hprefix
    exact absurd hprefix Bool.false_ne_true
  · rw [GoMap.contains, hnew] at hmap
    cases hmap

/-- If no range has the key, then the shard that is made for it replaces none
with repositories. -/
def ReplacesNone (d : Deployment host) (repoID : GoString) : Prop :=
  ∀ first rest, repoID = first :: rest →
    (∀ shardID shard, d.cluster.shard? shardID = some shard →
      keyInRange repoID shard.keyRange = false) →
    d.cluster.Vacant (generateShardID (firstByteRange first))

/-- A step that loses nothing.  A new shard replaces none with repositories; a
migration completes and is `Migratable`; a failed node's shards have a replica
or go to a node that is still there; a removed node leaves another holder; the
ring gives nodes that are still there. -/
def keepsRepositories (d : Deployment host) : ClusterInput → Prop
  | .removeNode _ nodeID _ =>
    ∀ shardID shard, d.cluster.shard? shardID = some shard →
      shard.primaryNode = nodeID → ∃ replica rest,
        shard.replicaNodes = replica :: rest ∧ replica ≠ nodeID
  | .createShard _ keyRange _ => d.cluster.Vacant (generateShardID keyRange)
  | .distribute _ repoID _ _ => d.ReplacesNone repoID
  | .managedShard repoID => d.keepsPlacement (.managedShard repoID)
  | .processMigration index =>
    ∀ task, d.migrations[index]? = some task →
      d.shardingMu = false ∧ d.cluster.Migratable d.shardMap task
  | .processFailover _ index =>
    ∀ task, d.failovers[index]? = some task →
      (d.cluster.mu = false ∧ d.cluster.hasNode task.targetNode = true) ∨
        d.cluster.Spare task.sourceNode
  | _ => True

structure Keeps (d after : Deployment host) : Prop where
  held : after.cluster.Held
  known : after.Known
  assigns : ∀ repoID, d.cluster.Assigns repoID → after.cluster.Assigns repoID

variable {after : Deployment host}

theorem Keeps.of_carries (hknown : d.Known)
    (hheld : after.cluster.Held) (hcarries : d.cluster.Carries after.cluster)
    (hmap : after.shardMap = d.shardMap) : Keeps d after where
  held := hheld
  known := by
    intro shardID shard hshard
    obtain ⟨old, hold⟩ := hcarries.back shardID shard hshard
    rw [hmap]
    exact hknown shardID old hold
  assigns := fun _ hassigns => hassigns.carried hcarries

theorem Keeps.of_map (hknown : d.Known) {next : Cluster} {change : GoString → Shard → Shard}
    (hheld : next.Held)
    (hshards : ∀ shardID, next.shard? shardID = (d.cluster.shard? shardID).map (change shardID))
    (hlists : ∀ shardID shard repoID, shard.lists repoID = true →
      (change shardID shard).lists repoID = true)
    (hcluster : after.cluster = next) (hmap : after.shardMap = d.shardMap) : Keeps d after := by
  subst hcluster
  exact .of_carries hknown hheld (.of_map hshards hlists) hmap

section

variable (hheld : d.cluster.Held) (hknown : d.Known)

include hheld hknown

theorem Keeps.of_tables (hsame : SameTables d after) : Keeps d after := by
  apply Keeps.of_carries hknown _ _ hsame.shardMap
  · rw [hsame.cluster]
    exact hheld
  · rw [hsame.cluster]
    exact .of_same (fun _ => rfl)

theorem Keeps.of_made (hselects : d.cluster.Selects keyRange shard)
    (hvacant : d.cluster.Vacant (generateShardID keyRange))
    (hmade : Cluster.SameBut (d.cluster.placeShard shard) after.cluster)
    (hmap : after.shardMap = d.shardMap) : Keeps d after := by
  have hplaced := hselects.placed
  obtain ⟨order, primary, replicas, -, -, rfl⟩ := hselects
  have hcarries := Cluster.Carries.sameBut hmade
  refine ⟨?_, ?_, ?_⟩
  · exact (hheld.placeShard hplaced.2 (fun _ => rfl)).sameBut hmade
  · intro shardID other hother
    obtain ⟨old, hold⟩ := hcarries.back shardID other hother
    rw [Cluster.shard?_placeShard] at hold
    rw [hmap]
    by_cases hnew : shardID = (Shard.new keyRange primary replicas).id
    · rw [hnew]
      exact .inl (hasPrefix_generateShardID)
    · rw [if_neg hnew] at hold
      exact hknown shardID old hold
  · intro repoID hassigns
    exact (hassigns.placeShard hvacant).carried hcarries

theorem Keeps.of_managed
    (hpresent : ∀ holder ∈ (d.ringShard repoID).holders, d.cluster.hasNode holder = true)
    (hnew : d.shardMap.lookup (d.ringShard repoID).id = none)
    (hcluster : after.cluster = d.cluster.placeShard (d.ringShard repoID))
    (hmap : after.shardMap = d.shardMap.insert (d.ringShard repoID).id d.cluster.heap.length) :
    Keeps d after := by
  refine ⟨?_, ?_, ?_⟩
  · rw [hcluster]
    exact hheld.placeShard hpresent (fun _ => rfl)
  · intro shardID shard hshard
    rw [hcluster, Cluster.shard?_placeShard] at hshard
    rw [hmap, GoMap.contains, GoMap.lookup_insert_eq]
    by_cases hsame : shardID = (d.ringShard repoID).id
    · rw [if_pos hsame]
      exact .inr rfl
    · rw [if_neg hsame] at hshard ⊢
      exact hknown shardID shard hshard
  · intro asked hassigns
    rw [hcluster]
    exact hassigns.placeShard (hknown.vacant_ringShard hnew)

omit hheld hknown in
theorem Keeps.trans {middle : Deployment host}
    (hfirst : Keeps d middle) (hsecond : Keeps middle after) :
    Keeps d after where
  held := hsecond.held
  known := hsecond.known
  assigns := fun repoID hassigns =>
    hsecond.assigns repoID (hfirst.assigns repoID hassigns)

variable {order : RangeOrder} {pointer : ℕ}

theorem Keeps.of_opens (hopens : d.cluster.Opens order repoID opened pointer)
    (hguard : d.ReplacesNone repoID) :
    Keeps d { d with cluster := opened } := by
  cases hopens with
  | found hfound => exact .of_tables hheld hknown (.refl d)
  | made hkey hnone hselects =>
    refine .of_made hheld hknown hselects ?_ ⟨false, rfl⟩ rfl
    exact hguard _ _ hkey (fun _ _ => Cluster.findShard_eq_none hnone)

theorem Keeps.of_stalls (hstalls : d.cluster.Stalls order repoID after.cluster)
    (hguard : d.ReplacesNone repoID)
    (hmap : after.shardMap = d.shardMap) : Keeps d after := by
  rcases hstalls with hsame | ⟨first, rest, shard, hkey, hnone, hselects, hmade⟩
  · exact .of_carries hknown (hheld.sameBut hsame) (.sameBut hsame) hmap
  · refine .of_made hheld hknown hselects ?_ hmade hmap
    exact hguard first rest hkey (fun _ _ => Cluster.findShard_eq_none hnone)

theorem Keeps.of_filed {opened : Cluster} (hopens : d.cluster.Opens order repoID opened pointer)
    (hguard : d.ReplacesNone repoID)
    (hcluster : after.cluster = opened.filed pointer repoID repo)
    (hmap : after.shardMap = d.shardMap) : Keeps d after := by
  have hopened := Keeps.of_opens hheld hknown hopens hguard
  refine hopened.trans (.of_carries hopened.known ?_ ?_ hmap)
  · rw [hcluster]
    exact hopened.held.filed pointer repoID repo
  · rw [hcluster]
    exact opened.carries_filed

theorem keeps_updateNode (hcluster : after.cluster = d.cluster.updateNode nodeID change)
    (hmap : after.shardMap = d.shardMap)
    (hsame : ∀ node, (change node).repositories = node.repositories) :
    Keeps d after := by
  apply Keeps.of_carries hknown _ _ hmap
  · rw [hcluster]
    exact hheld.updateNode nodeID hsame
  · rw [hcluster]
    apply Cluster.Carries.of_same
    intro shardID
    rw [Cluster.shard?_updateNode]

end

theorem keeps_effect {input : ClusterInput}
    (heffect : Effect d input after) (hheld : d.cluster.Held)
    (hknown : d.Known) (hguard : d.keepsRepositories input) :
    Keeps d after := by
  cases heffect with
  | same hsame hmap =>
    exact .of_carries hknown (hheld.sameBut hsame) (.sameBut hsame) hmap
  | @joined node _ _ hnew hjoined hmap =>
    have hinserted : d.cluster.Carries
        { d.cluster with nodes := d.cluster.nodes.insert node.id node } :=
      .of_same (fun _ => rfl)
    exact .of_carries hknown ((hheld.joined hnew).sameBut hjoined)
      (hinserted.trans (.sameBut hjoined)) hmap
  | @departed order nodeID _ _ hleft hmap =>
    refine .of_carries hknown ((hheld.departed order hguard).sameBut hleft)
      (.trans (.of_map (fun shardID =>
        Cluster.shard?_departed) ?_)
        (.sameBut hleft)) hmap
    intro shardID shard repoID hlisted
    rw [Shard.lists_withoutNode]
    exact hlisted
  | made hselects hmade hmap =>
    exact .of_made hheld hknown hselects hguard hmade hmap
  | stalled hstalls hmap => exact .of_stalls hheld hknown hstalls hguard hmap
  | filed hopens hcluster hmap =>
    exact .of_filed hheld hknown hopens hguard hcluster hmap
  | managed hnode hnew hcluster hmap =>
    obtain ⟨hprimary, hothers⟩ := hguard hnode hnew
    exact .of_managed hheld hknown (placed_ringShard hprimary hothers).present hnew hcluster hmap
  | migrated htask htarget hcluster hmap =>
    obtain ⟨hopen, hmigratable⟩ := hguard _ htask
    rw [hopen, if_neg Bool.false_ne_true] at hcluster
    exact .of_map hknown (hheld.migrated htarget hmigratable)
      (Cluster.shard?_migrated _ _ _) (fun _ _ _ => Shard.lists_ite rfl) hcluster hmap
  | replaced hmissing hsome hcluster hmap =>
    exact keeps_updateNode hheld hknown hcluster hmap (fun _ => rfl)
  | elected hsome hcluster hmap =>
    exact keeps_updateNode hheld hknown hcluster hmap (fun _ => rfl)
  | failedOver htask hcluster hmap =>
    exact .of_map hknown (hheld.failedOver _ _ ((hguard _ htask).imp_left And.right))
      (shard?_foldl_failedOver) (fun _ _ _ => Shard.lists_ite (Cluster.lists_failOver ..)) hcluster hmap
  | failedOverFirst htask hlocked hmem hcluster hmap =>
    rcases hguard _ htask with ⟨hfree, -⟩ | hspare
    · rw [hlocked] at hfree
      cases hfree
    · exact .of_map hknown (hheld.failedOverFirst hmem hspare)
        (d.cluster.shard?_updateShard _ _) (fun _ _ _ => Shard.lists_ite (Cluster.lists_failOver ..)) hcluster hmap
  | stepped hcluster hmap =>
    exact keeps_updateNode hheld hknown hcluster hmap (fun _ => rfl)

theorem assigns_succeeded (hsucceeded : d.succeeded input = some repoID) :
    (d.perform input).cluster.Assigns repoID := by
  cases input with
  | distribute order asked repo written =>
    rw [succeeded] at hsucceeded
    rcases Cluster.distributeRepository_cases with ⟨-, hfails⟩ | ⟨opened, pointer, hopens, hfiled⟩
    · rw [if_neg hfails] at hsucceeded
      cases hsucceeded
    · split_ifs at hsucceeded
      rw [Option.some.injEq] at hsucceeded
      subst hsucceeded
      change (Cluster.distributeRepository order asked repo written d.cluster).2.Assigns asked
      rw [hfiled]
      obtain ⟨shardID, hlookup⟩ := hopens.lookup
      exact Cluster.assigns_filed hlookup
  | managedDistribute asked repo =>
    rw [succeeded, distributeRepository_eq] at hsucceeded
    cases hsucceeded
  | _ => cases hsucceeded

end Deployment

/-- Each repository whose distribution succeeded is in a shard and on the
primary of that shard. -/
def ClusterRun.RepositoriesKept {host : Host} (run : ClusterRun host) : Prop :=
  ∀ repoID ∈ run.distributed, ∃ shardID shard,
    run.cluster.shard? shardID = some shard ∧ shard.lists repoID = true ∧
      run.cluster.hosts shard.primaryNode repoID = true

/-- In every run whose steps all keep repositories, they are kept. -/
theorem distributed_repositories_kept {host : Host} {run : ClusterRun host}
    (hreach : Runs.Reachable (clusterSystem host)
      (fun run input => run.keepsRepositories input) run) :
    run.RepositoriesKept := by
  have hkept : run.cluster.Held ∧ run.Known ∧
      ∀ repoID ∈ run.distributed, run.cluster.Assigns repoID := by
    apply hreach.invariant
    · rintro first ⟨replicationFactor, dataDir, loaded, policy, rfl⟩
      refine ⟨?_, ?_, ?_⟩
      · intro shardID shard hshard
        cases hshard
      · intro shardID shard hshard
        cases hshard
      · intro repoID hmem
        cases hmem
    · rintro before input after ⟨hheld, hknown, hassigned⟩ hguard rfl
      have hkeeps := Deployment.keeps_effect (before.effect_perform) hheld hknown hguard
      refine ⟨hkeeps.held, hkeeps.known, ?_⟩
      intro repoID hmem
      rcases List.mem_append.mp hmem with hold | hnew
      · exact hkeeps.assigns repoID (hassigned repoID hold)
      · exact Deployment.assigns_succeeded (Option.mem_toList.mp hnew)
  intro repoID hmem
  obtain ⟨shardID, shard, hshard, hlisted⟩ := hkept.2.2 repoID hmem
  exact ⟨shardID, shard, hshard, hlisted,
    (hkept.1 shardID shard hshard shard.primaryNode List.mem_cons_self).2 repoID hlisted⟩

def failedPrimary : List ClusterInput :=
  [.addNode (joining "a") (.ok ()), .addNode (joining "b") (.ok ()),
    .distribute (fun _ => .inserted) (str "x") 7 (fun _ => .ok ()),
    .node (str "b") .fail, .nodeFailure .inserted 0 (str "b"),
    .processFailover (fun _ => .inserted) 0]

theorem distributed_repositories_kept_failover :
    (start.play failedPrimary).distributed = [str "x"] ∧
      (start.play failedPrimary).RepositoriesKept := by
  refine ⟨by decide, distributed_repositories_kept
    (reachable_play ?_)⟩
  refine ⟨trivial, trivial, ?_, trivial, trivial, ?_, trivial⟩
  · intro first rest hkey hfree shard hshard
    cases hshard
  · intro task htask
    left
    cases htask
    exact ⟨rfl, by decide⟩

/-- A repository is filed, and a shard is created for the range of its shard. -/
def recreatedShard : List ClusterInput :=
  [.addNode (joining "a") (.ok ()), .distribute (fun _ => .inserted) (str "x") 7 (fun _ => .ok ()),
    .createShard .inserted ⟨str "x", str "y"⟩ (.ok ())]

/-- The new shard takes the place of the first, with the repository that was
in it. -/
theorem recreated_shard_loses_repository :
    Runs.Reachable (clusterSystem .checksums) (fun _ _ => True) (start.play recreatedShard) ∧
      ¬ (start.play recreatedShard).RepositoriesKept := by
  refine ⟨reachable_play ⟨trivial, trivial, trivial, trivial⟩, ?_⟩
  intro hkept
  obtain ⟨shardID, shard, hshard, hlisted, -⟩ := hkept (str "x") (by decide)
  have hassigns : (start.play recreatedShard).cluster.Assigns (str "x") :=
    ⟨shardID, shard, hshard, hlisted⟩
  revert hassigns
  decide

end Govc
