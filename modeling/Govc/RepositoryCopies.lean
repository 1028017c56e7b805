import Govc.ManagerEffects

/-!
# Which node has which repository

What filing, migrating and failing over do to the repositories that the nodes
have.  Filing and failing over only add copies.  A migration takes each
repository of its task from the source; if source and target are one node, the
copy that was put there is taken again.
-/

namespace Govc

open Go Deployment

namespace Cluster

def hosts (c : Cluster) (nodeID repoID : GoString) : Bool := (c.repositoryOn nodeID repoID).isSome

theorem hosts_eq (c : Cluster) :
    c.hosts nodeID repoID = true ↔
      ∃ node, c.nodes.lookup nodeID = some node ∧ node.repositories.contains repoID = true := by
  unfold hosts repositoryOn GoMap.contains
  cases c.nodes.lookup nodeID <;> simp

theorem hosts_updateNode (hsame : ∀ node, (change node).repositories = node.repositories)
    (nodeID other repoID : GoString) (c : Cluster) :
    (c.updateNode nodeID change).hosts other repoID = c.hosts other repoID := by
  unfold hosts repositoryOn
  rw [lookup_updateNode]
  by_cases heq : other = nodeID
  · subst heq
    rw [if_pos rfl]
    cases c.nodes.lookup other with
    | none => rfl
    | some node => rw [Option.map_some, Option.bind_some, hsame, Option.bind_some]
  · rw [if_neg heq]

theorem hosts_putRepository {c : Cluster} :
    (c.putRepository repoID repo nodeID).hosts other asked = true ↔
      (other = nodeID ∧ asked = repoID ∧ c.hasNode nodeID = true) ∨ c.hosts other asked = true := by
  unfold putRepository hosts repositoryOn hasNode GoMap.contains
  rw [lookup_updateNode]
  by_cases heq : other = nodeID
  · subst heq
    rw [if_pos rfl]
    cases c.nodes.lookup other with
    | none => simp
    | some node =>
      simp only [Option.map_some, Option.bind_some, GoMap.lookup_insert_eq]
      by_cases hasked : asked = repoID
      · simp [hasked]
      · simp [hasked]
  · simp [heq]

theorem hosts_dropRepository {c : Cluster} :
    (c.dropRepository repoID nodeID).hosts other asked = true ↔
      ¬ (other = nodeID ∧ asked = repoID) ∧ c.hosts other asked = true := by
  unfold dropRepository hosts repositoryOn
  rw [lookup_updateNode]
  by_cases heq : other = nodeID
  · subst heq
    rw [if_pos rfl]
    cases c.nodes.lookup other with
    | none => simp
    | some node =>
      simp only [Option.map_some, Option.bind_some, GoMap.lookup_erase_eq]
      by_cases hasked : asked = repoID
      · simp [hasked]
      · simp [hasked]
  · simp [heq]

/-! ## Filing -/

theorem hosts_putOnAll (repoID : GoString) (repo : ℕ)
    (nodeIDs : List GoString) (other asked : GoString) (c : Cluster) :
    (c.putOnAll repoID repo nodeIDs).hosts other asked = true ↔
      (other ∈ nodeIDs ∧ asked = repoID ∧ c.hasNode other = true) ∨ c.hosts other asked = true := by
  induction nodeIDs generalizing c with
  | nil => simp [putOnAll]
  | cons nodeID rest ih =>
    change ((c.putRepository repoID repo nodeID).putOnAll repoID repo
      rest).hosts other asked = true ↔ _
    rw [ih, hosts_putRepository, putRepository, hasNode_updateNode, List.mem_cons]
    constructor
    · rintro (⟨hmem, hasked, hnode⟩ | ⟨rfl, hasked, hnode⟩ | hold)
      · exact .inl ⟨.inr hmem, hasked, hnode⟩
      · exact .inl ⟨.inl rfl, hasked, hnode⟩
      · exact .inr hold
    · rintro (⟨rfl | hmem, hasked, hnode⟩ | hold)
      · exact .inr (.inl ⟨rfl, hasked, hnode⟩)
      · exact .inl ⟨hmem, hasked, hnode⟩
      · exact .inr (.inr hold)

/-! ## Migrations -/

variable {c : Cluster}

theorem hosts_moveRepository (htarget : c.hasNode target = true) :
    (moveRepository source target c repoID).hosts other asked = true ↔
      if asked = repoID ∧ c.hosts source repoID = true then
        other ≠ source ∧ (other = target ∨ c.hosts other asked = true)
      else c.hosts other asked = true := by
  unfold moveRepository
  cases hrepo : c.repositoryOn source repoID with
  | none => simp [hosts, hrepo]
  | some repo =>
    have hsource : c.hosts source repoID = true := by
      rw [hosts, hrepo]
      rfl
    rw [hosts_dropRepository, hosts_putRepository]
    by_cases hasked : asked = repoID
    · simp [hasked, hsource, htarget]
    · simp [hasked]

theorem hosts_moveRepositories {repositories : List GoString}
    (htarget : c.hasNode target = true) (other asked : GoString) :
    (repositories.foldl (moveRepository source target) c).hosts other asked = true ↔
      if asked ∈ repositories ∧ c.hosts source asked = true then
        other ≠ source ∧ (other = target ∨ c.hosts other asked = true)
      else c.hosts other asked = true := by
  induction repositories generalizing c with
  | nil => simp
  | cons repoID rest ih =>
    have hkept : (moveRepository source target c repoID).hasNode target = true := by
      unfold moveRepository
      cases c.repositoryOn source repoID with
      | none => exact htarget
      | some repo =>
        exact hasNode_updateNode.trans (hasNode_updateNode.trans htarget)
    rw [List.foldl_cons, ih hkept]
    simp only [hosts_moveRepository htarget]
    by_cases hasked : asked = repoID
    · subst hasked
      by_cases hsource : c.hosts source asked = true
      · simp [hsource]
      · simp [hsource]
    · simp [hasked]

/-! ## Failovers -/

theorem hosts_foldl_copy {shard : Shard}
    {entries : List (GoString × ℕ)} {c : Cluster} :
    (entries.foldl
        (fun c entry =>
          if shard.lists entry.1 then
            c.putRepository entry.1 entry.2 target
          else c)
        c).hosts other asked = true ↔
      (other = target ∧ c.hasNode target = true ∧ shard.lists asked = true ∧
          asked ∈ entries.map Prod.fst) ∨
        c.hosts other asked = true := by
  induction entries generalizing c with
  | nil => simp
  | cons entry rest ih =>
    rw [List.foldl_cons, ih, List.map_cons, List.mem_cons]
    cases hlisted : shard.lists entry.1 with
    | false =>
      constructor
      · rintro (⟨hother, hnode, hasked, hmem⟩ | hold)
        · exact .inl ⟨hother, hnode, hasked, .inr hmem⟩
        · exact .inr hold
      · rintro (⟨hother, hnode, hasked, rfl | hmem⟩ | hold)
        · rw [hlisted] at hasked
          exact absurd hasked Bool.false_ne_true
        · exact .inl ⟨hother, hnode, hasked, hmem⟩
        · exact .inr hold
    | true =>
      rw [if_pos rfl, hosts_putRepository, putRepository, hasNode_updateNode]
      constructor
      · rintro (⟨hother, hnode, hasked, hmem⟩ | ⟨hother, rfl, hnode⟩ | hold)
        · exact .inl ⟨hother, hnode, hasked, .inr hmem⟩
        · exact .inl ⟨hother, hnode, hlisted, .inl rfl⟩
        · exact .inr hold
      · rintro (⟨hother, hnode, hasked, rfl | hmem⟩ | hold)
        · exact .inr (.inl ⟨hother, rfl, hnode⟩)
        · exact .inl ⟨hother, hnode, hasked, hmem⟩
        · exact .inr (.inr hold)

variable {pointer : ℕ} {shard : Shard}

variable (order : RangeOrder)

theorem hosts_copyRepositories (hshard : c.heap[pointer]? = some shard) :
    (c.copyRepositories order source target pointer).hosts other asked = true ↔
      (other = target ∧ c.hasNode target = true ∧ shard.lists asked = true ∧
          c.hosts source asked = true) ∨
        c.hosts other asked = true := by
  rw [hosts_eq c]
  unfold copyRepositories
  cases hsource : c.nodes.lookup source with
  | none => simp
  | some sourceNode =>
    cases htarget : c.nodes.lookup target with
    | none => simp [hasNode, GoMap.contains, htarget]
    | some targetNode =>
      have hkeys : asked ∈ (sourceNode.repositories.range order).map Prod.fst ↔
          sourceNode.repositories.contains asked = true := by
        rw [GoMap.range_keys, (order.perm _).mem_iff, ← AList.mem_keys, ← AList.lookup_isSome]
        rfl
      rw [hshard]
      rw [hosts_foldl_copy, hkeys]
      simp

theorem lists_failOver (shard : Shard) (target repoID : GoString) :
    (shard.failOver target).lists repoID = shard.lists repoID := by
  unfold Shard.failOver
  cases shard.replicaNodes <;> rfl

theorem hosts_failedOver {task : FailoverTask}
    (hshard : c.heap[pointer]? = some shard) :
    (failedOver order task c pointer).hosts other asked = true ↔
      (other = task.targetNode ∧ c.hasNode task.targetNode = true ∧
          shard.lists asked = true ∧ c.hosts task.sourceNode asked = true) ∨
        c.hosts other asked = true := by
  have hreassigned : (c.updateShard pointer (Shard.failOver task.targetNode)).heap[pointer]? =
      some (shard.failOver task.targetNode) := by
    rw [getElem?_updateShard, hshard, Option.map_some, if_pos rfl]
  rw [failedOver, hosts_copyRepositories order hreassigned, lists_failOver]
  rfl

theorem failedOver_eq_of_none (hnone : c.heap[pointer]? = none) :
    (failedOver order task c pointer).hosts other asked = c.hosts other asked := by
  have hreassigned : (c.updateShard pointer
      (Shard.failOver task.targetNode)).heap[pointer]? = none := by
    rw [getElem?_updateShard, hnone, Option.map_none]
  unfold failedOver copyRepositories
  rw [hreassigned]
  cases (c.updateShard pointer (Shard.failOver task.targetNode)).nodes.lookup task.sourceNode with
  | none => rfl
  | some source =>
    cases (c.updateShard pointer (Shard.failOver task.targetNode)).nodes.lookup task.targetNode with
    | none => rfl
    | some target => rfl

variable {order : RangeOrder} {task : FailoverTask}

theorem hosts_foldl_failedOver_of_hosts (pointers : List ℕ) (hold : c.hosts other asked = true) :
    (pointers.foldl (failedOver order task) c).hosts other asked = true := by
  induction pointers generalizing c with
  | nil => exact hold
  | cons pointer rest ih =>
    apply ih
    cases hshard : c.heap[pointer]? with
    | none =>
      rw [failedOver_eq_of_none order hshard]
      exact hold
    | some shard => exact (hosts_failedOver order hshard).mpr (.inr hold)

theorem hosts_foldl_failedOver_of_mem {pointers : List ℕ}
    (hmem : pointer ∈ pointers) (hshard : c.heap[pointer]? = some shard)
    (hlisted : shard.lists asked = true)
    (htarget : c.hasNode task.targetNode = true)
    (hsource : c.hosts task.sourceNode asked = true) :
    (pointers.foldl (failedOver order task) c).hosts task.targetNode asked = true := by
  induction pointers generalizing c shard with
  | nil => cases hmem
  | cons first rest ih =>
    rw [List.foldl_cons]
    by_cases hfirst : pointer = first
    · subst hfirst
      apply hosts_foldl_failedOver_of_hosts
      exact (hosts_failedOver order hshard).mpr (.inl ⟨rfl, htarget, hlisted, hsource⟩)
    · have hrest : pointer ∈ rest := by
        rcases List.mem_cons.mp hmem with heq | hrest
        · exact absurd heq hfirst
        · exact hrest
      refine ih hrest ?_ hlisted ?_ ?_
      · rw [failedOver_unchanged updateNode_heap, getElem?_updateShard, hshard, Option.map_some,
          if_neg (Ne.symm hfirst)]
      · rw [failedOver_unchanged (nodeFree_hasNode)]
        exact htarget
      · exact hosts_foldl_failedOver_of_hosts [first] hsource

end Cluster

end Govc
