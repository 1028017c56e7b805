import Govc.GoMaps
import Govc.GoSort
import Govc.GuardedRuns
import Govc.RingSuccessor
import Mathlib.Tactic

/-!
# The consistent hash ring

Every node occupies one position for each of its virtual nodes.  A key belongs to
the node at the first position at or behind the key's hash, or to the first of
all; the binary search finds it whatever the hash function is.
-/

namespace Govc

open Go

def virtualKey (nodeID : GoString) (i : ℕ) : GoString := nodeID ++ str ":" ++ formatNat i

/-- One of the first `count` virtual nodes of a node has this position. -/
def IsVirtual (hash : GoString → UInt32) (nodeID : GoString) (count : ℕ)
    (position : UInt32) : Prop :=
  ∃ i < count, position = hash (virtualKey nodeID i)

instance (hash : GoString → UInt32) (nodeID : GoString) (count : ℕ)
    (position : UInt32) : Decidable (IsVirtual hash nodeID count position) :=
  inferInstanceAs (Decidable (∃ i < count, _))

theorem isVirtual_succ {hash : GoString → UInt32} {nodeID : GoString}
    {count : ℕ} {position : UInt32} :
    IsVirtual hash nodeID (count + 1) position ↔
      IsVirtual hash nodeID count position ∨ position = hash (virtualKey nodeID count) :=
  Nat.exists_lt_succ_right

/-- The slice holds the positions in order, and every position was taken by a
virtual node of the node that is there. -/
structure ConsistentHashRing (hash : GoString → UInt32) where
  nodes : GoMap UInt32 GoString
  sortedNodes : List UInt32
  replicas : ℤ
  sorted : sortedNodes = sortByKey id nodes.keys
  virtual : ∀ position nodeID, nodes.lookup position = some nodeID →
    IsVirtual hash nodeID replicas.toNat position

namespace ConsistentHashRing

variable {hash : GoString → UInt32}

def new (replicas : ℤ) : ConsistentHashRing hash where
  nodes := ∅
  sortedNodes := []
  replicas := replicas
  sorted := rfl
  virtual := by
    intro position nodeID hlookup
    cases hlookup

def addVirtual (hash : GoString → UInt32) (nodeID : GoString)
    (nodes : GoMap UInt32 GoString) : ℕ → GoMap UInt32 GoString
  | 0 => nodes
  | count + 1 =>
    (addVirtual hash nodeID nodes count).insert (hash (virtualKey nodeID count)) nodeID

def removeVirtual (hash : GoString → UInt32) (nodeID : GoString)
    (nodes : GoMap UInt32 GoString) : ℕ → GoMap UInt32 GoString
  | 0 => nodes
  | count + 1 =>
    (removeVirtual hash nodeID nodes count).erase (hash (virtualKey nodeID count))

theorem lookup_addVirtual {nodeID : GoString}
    {nodes : GoMap UInt32 GoString} {count : ℕ} {position : UInt32} :
    (addVirtual hash nodeID nodes count).lookup position =
      if IsVirtual hash nodeID count position then some nodeID
      else nodes.lookup position := by
  induction count with
  | zero => simp [addVirtual, IsVirtual]
  | succ count ih =>
    rw [addVirtual, GoMap.lookup_insert_eq, ih]
    by_cases hlast : position = hash (virtualKey nodeID count)
    · rw [if_pos hlast, if_pos (isVirtual_succ.mpr (.inr hlast))]
    · simp only [isVirtual_succ, hlast, or_false, if_false]

theorem lookup_removeVirtual {nodeID : GoString}
    {nodes : GoMap UInt32 GoString} {count : ℕ} {position : UInt32} :
    (removeVirtual hash nodeID nodes count).lookup position =
      if IsVirtual hash nodeID count position then none
      else nodes.lookup position := by
  induction count with
  | zero => simp [removeVirtual, IsVirtual]
  | succ count ih =>
    rw [removeVirtual, GoMap.lookup_erase_eq, ih]
    by_cases hlast : position = hash (virtualKey nodeID count)
    · rw [if_pos hlast, if_pos (isVirtual_succ.mpr (.inr hlast))]
    · simp only [isVirtual_succ, hlast, or_false, if_false]

def addNode (nodeID : GoString) (ring : ConsistentHashRing hash) : ConsistentHashRing hash where
  nodes := addVirtual hash nodeID ring.nodes ring.replicas.toNat
  sortedNodes := sortByKey id (addVirtual hash nodeID ring.nodes ring.replicas.toNat).keys
  replicas := ring.replicas
  sorted := rfl
  virtual := by
    intro position other hlookup
    rw [lookup_addVirtual] at hlookup
    by_cases hnew : IsVirtual hash nodeID ring.replicas.toNat position
    · rw [if_pos hnew, Option.some.injEq] at hlookup
      rw [← hlookup]
      exact hnew
    · rw [if_neg hnew] at hlookup
      exact ring.virtual position other hlookup

def removeNode (nodeID : GoString) (ring : ConsistentHashRing hash) : ConsistentHashRing hash where
  nodes := removeVirtual hash nodeID ring.nodes ring.replicas.toNat
  sortedNodes := sortByKey id (removeVirtual hash nodeID ring.nodes ring.replicas.toNat).keys
  replicas := ring.replicas
  sorted := rfl
  virtual := by
    intro position other hlookup
    rw [lookup_removeVirtual] at hlookup
    by_cases hgone : IsVirtual hash nodeID ring.replicas.toNat position
    · rw [if_pos hgone] at hlookup
      cases hlookup
    · rw [if_neg hgone] at hlookup
      exact ring.virtual position other hlookup

def search (point : UInt32) (ring : ConsistentHashRing hash) : ℕ :=
  let idx := sortSearch
    (fun i => decide (point ≤ ring.sortedNodes.getD i 0))
    ring.sortedNodes.length 0 ring.sortedNodes.length
  if idx = ring.sortedNodes.length then 0 else idx

def nodeAt (ring : ConsistentHashRing hash) (idx : ℕ) : GoString :=
  (ring.nodes.lookup (ring.sortedNodes.getD idx 0)).getD []

def getNode (key : GoString) (ring : ConsistentHashRing hash) : GoString :=
  if ring.sortedNodes.length = 0 then []
  else ring.nodeAt (ring.search (hash key))

/-- The loop of `GetNodes` from the `i`-th place on: nodes that were not seen
yet, up to `count`. -/
def collectNodes (ring : ConsistentHashRing hash) (count : ℤ) (idx : ℕ) :
    ℕ → ℕ → List GoString → List GoString
  | 0, _, nodes => nodes
  | fuel + 1, i, nodes =>
    if (nodes.length : ℤ) < count then
      let nodeID := ring.nodeAt ((idx + i) % ring.sortedNodes.length)
      collectNodes ring count idx fuel (i + 1) (if nodeID ∈ nodes then nodes else nodes ++ [nodeID])
    else nodes

def getNodes (key : GoString) (count : ℤ) (ring : ConsistentHashRing hash) : List GoString :=
  if ring.sortedNodes.length = 0 ∨ count ≤ 0 then []
  else
    ring.collectNodes count (ring.search (hash key)) ring.sortedNodes.length 0 []

/-- The nodes in the order in which the loop of `GetNodes` meets them, from
the `i`-th place on. -/
def visited (ring : ConsistentHashRing hash) (idx i count : ℕ) : List GoString :=
  (List.range' i count).map fun i => ring.nodeAt ((idx + i) % ring.sortedNodes.length)

theorem collectNodes_eq (ring : ConsistentHashRing hash) {count : ℤ} (i : ℕ)
    {nodes : List GoString} (hroom : (nodes.length : ℤ) ≤ count) :
    ring.collectNodes count idx fuel i nodes =
      (Clockwise.firsts nodes (ring.visited idx i fuel)).take count.toNat := by
  induction fuel generalizing i nodes with
  | zero =>
    have hlength : nodes.length ≤ count.toNat := by
      omega
    exact (List.take_of_length_le hlength).symm
  | succ fuel ih =>
    rw [collectNodes]
    by_cases hmore : (nodes.length : ℤ) < count
    · rw [if_pos hmore, visited, List.range'_succ, List.map_cons, Clockwise.firsts]
      by_cases hseen : ring.nodeAt ((idx + i) % ring.sortedNodes.length) ∈ nodes
      · simp only [if_pos hseen]
        exact ih (i + 1) hroom
      · simp only [if_neg hseen]
        apply ih (i + 1)
        rw [List.length_append, List.length_singleton]
        omega
    · -- enough nodes are collected, and those to come would stand behind them
      have hkept := Clockwise.isPrefix_firsts nodes (ring.visited idx i (fuel + 1))
      rw [if_neg hmore, show count.toNat = nodes.length by omega]
      exact List.prefix_iff_eq_take.mp hkept

/-- `GetNodes` returns the first `count` of the nodes met around the ring,
each at its first place. -/
theorem getNodes_eq (ring : ConsistentHashRing hash) {count : ℤ} :
    ring.getNodes key count =
      (Clockwise.firsts [] (ring.visited (ring.search (hash key)) 0
        ring.sortedNodes.length)).take count.toNat := by
  unfold getNodes
  split_ifs with hnone
  · rcases hnone with hempty | hcount
    · rw [hempty]
      exact List.take_nil.symm
    · rw [Int.toNat_of_nonpos hcount]
      rfl
  · exact ring.collectNodes_eq _ (by rw [List.length_nil]; omega)

theorem getNodes_nodup (ring : ConsistentHashRing hash)
    : (ring.getNodes key count).Nodup := by
  rw [getNodes_eq]
  exact (Clockwise.nodup_firsts _ List.nodup_nil).sublist (List.take_sublist _ _)

/-! ## The search finds the successor -/

def occupied (ring : ConsistentHashRing hash) : Set UInt32 :=
  { position | (ring.nodes.lookup position).isSome }

theorem mem_sortedNodes (ring : ConsistentHashRing hash) :
    position ∈ ring.sortedNodes ↔ position ∈ ring.occupied := by
  rw [ring.sorted, mem_sortByKey, ← AList.mem_keys, ← AList.lookup_isSome]
  rfl

theorem sortedNodes_ascending (ring : ConsistentHashRing hash) : Ascending id ring.sortedNodes := by
  rw [ring.sorted]
  apply sortByKey_ascending
  rw [List.map_id]
  exact ring.nodes.nodupKeys

theorem getD_mem {items : List UInt32} (hi : i < items.length) :
    items[i]? = some (items.getD i 0) := by
  rw [List.getD_eq_getElem?_getD, List.getElem?_eq_getElem hi]
  rfl

theorem getD_le_getD (ring : ConsistentHashRing hash)
    (hij : i ≤ j) (hj : j < ring.sortedNodes.length) :
    ring.sortedNodes.getD i 0 ≤ ring.sortedNodes.getD j 0 := by
  rcases Nat.lt_or_eq_of_le hij with hlt | rfl
  · exact le_of_lt (ring.sortedNodes_ascending.getElem?_lt (getD_mem (by omega)) (getD_mem hj) hlt)
  · exact le_refl _

theorem search_spec (ring : ConsistentHashRing hash) :
    ∃ idx ≤ ring.sortedNodes.length,
      ring.search point = (if idx = ring.sortedNodes.length then 0 else idx) ∧
      (∀ i < idx, ring.sortedNodes.getD i 0 < point) ∧
      ∀ i, idx ≤ i → i < ring.sortedNodes.length → point ≤ ring.sortedNodes.getD i 0 := by
  obtain ⟨hsize, hbefore, hafter⟩ := @sortSearch_spec
    (fun i => decide (point ≤ ring.sortedNodes.getD i 0))
    ring.sortedNodes.length ring.sortedNodes.length 0 ring.sortedNodes.length
    (fun i j hij hj hi => decide_eq_true
      ((of_decide_eq_true hi).trans (ring.getD_le_getD hij hj)))
    (Nat.zero_le _) (le_refl _) (by omega) (by omega) (by omega)
  exact ⟨_, hsize, rfl, fun i hi => not_le.mp (of_decide_eq_false (hbefore i hi)),
    fun i hi hin => of_decide_eq_true (hafter i hi hin)⟩

theorem search_lt (ring : ConsistentHashRing hash)
    (hsome : ring.sortedNodes.length ≠ 0) : ring.search point < ring.sortedNodes.length := by
  obtain ⟨idx, hsize, hsearch, -, -⟩ := ring.search_spec
  rw [hsearch]
  split_ifs <;> omega

theorem search_isSuccessor (ring : ConsistentHashRing hash) (point : UInt32)
    (hsome : ring.sortedNodes.length ≠ 0) :
    Clockwise.IsSuccessor ring.occupied point (ring.sortedNodes.getD (ring.search point) 0) := by
  obtain ⟨idx, hsize, hsearch, hbefore, hafter⟩ := ring.search_spec
  have hplace : ∀ other ∈ ring.occupied, ∃ i < ring.sortedNodes.length,
      ring.sortedNodes.getD i 0 = other := by
    intro other hother
    rw [← mem_sortedNodes] at hother
    obtain ⟨i, hi, rfl⟩ := List.mem_iff_getElem.mp hother
    exact ⟨i, hi, Option.some.inj ((getD_mem hi).symm.trans (List.getElem?_eq_getElem hi))⟩
  have hmem : ∀ i < ring.sortedNodes.length, ring.sortedNodes.getD i 0 ∈ ring.occupied := by
    intro i hi
    rw [← mem_sortedNodes]
    exact List.mem_of_getElem? (getD_mem hi)
  rw [hsearch]
  by_cases hend : idx = ring.sortedNodes.length
  · -- no position at or behind the point: the search wraps to the first
    rw [if_pos hend]
    refine ⟨hmem 0 (by omega), .inr ⟨?_, ?_⟩⟩
    · intro other hother
      obtain ⟨i, hi, rfl⟩ := hplace other hother
      exact hbefore i (by omega)
    · intro other hother
      obtain ⟨i, hi, rfl⟩ := hplace other hother
      exact ring.getD_le_getD (Nat.zero_le i) hi
  · rw [if_neg hend]
    have hin : idx < ring.sortedNodes.length := by omega
    refine ⟨hmem idx hin, .inl ⟨hafter idx le_rfl hin, ?_⟩⟩
    intro other hother hbehind
    obtain ⟨i, hi, rfl⟩ := hplace other hother
    by_cases hlt : i < idx
    · exact absurd hbehind (hbefore i hlt).not_ge
    · exact ring.getD_le_getD (by omega) hi

theorem length_eq_zero_iff (ring : ConsistentHashRing hash) :
    ring.sortedNodes.length = 0 ↔ ring.occupied = ∅ := by
  rw [List.length_eq_zero_iff, List.eq_nil_iff_forall_not_mem, Set.eq_empty_iff_forall_notMem]
  simp only [mem_sortedNodes]

variable {ring : ConsistentHashRing hash} {key : GoString} {position : UInt32}

/-- What `GetNode` answers, by positions: nothing on an empty ring, and
otherwise the node at the successor. -/
theorem getNode_of_isSuccessor (hsucc : Clockwise.IsSuccessor ring.occupied (hash key) position)
    (hnode : ring.nodes.lookup position = some nodeID) :
    ring.getNode key = nodeID := by
  have hsome : ring.sortedNodes.length ≠ 0 := by
    rw [Ne, length_eq_zero_iff]
    intro hempty
    have := hsucc.mem
    rw [hempty] at this
    exact this
  rw [getNode, if_neg hsome, nodeAt, (ring.search_isSuccessor (hash key) hsome).unique hsucc, hnode]
  rfl

theorem exists_successor (key : GoString) (hsome : ring.occupied ≠ ∅) :
    ∃ position, Clockwise.IsSuccessor ring.occupied (hash key) position ∧
      ring.nodes.lookup position = some (ring.getNode key) := by
  have hlength : ring.sortedNodes.length ≠ 0 := by
    rw [Ne, length_eq_zero_iff]
    exact hsome
  have hsucc := ring.search_isSuccessor (hash key) hlength
  obtain ⟨nodeID, hnode⟩ := Option.isSome_iff_exists.mp hsucc.mem
  exact ⟨_, hsucc, by rw [hnode, getNode_of_isSuccessor hsucc hnode]⟩

theorem getNode_of_empty (hempty : ring.occupied = ∅) : ring.getNode key = [] := by
  rw [getNode, if_pos (ring.length_eq_zero_iff.mpr hempty)]

/-- A ring with fewer positions gives a key the same node, if the position
where the key was found is still that node's. -/
theorem getNode_of_kept {larger smaller : ConsistentHashRing hash}
    (hsub : smaller.occupied ⊆ larger.occupied)
    (hsucc : Clockwise.IsSuccessor larger.occupied (hash key) position)
    (hnode : smaller.nodes.lookup position = some nodeID) :
    smaller.getNode key = nodeID := by
  have hmem : position ∈ smaller.occupied := by
    change (smaller.nodes.lookup position).isSome = true
    rw [hnode]
    rfl
  exact getNode_of_isSuccessor (hsucc.of_subset hsub hmem) hnode

theorem getNode_congr {first second : ConsistentHashRing hash}
    (hlookup : ∀ position, first.nodes.lookup position = second.nodes.lookup position)
    : first.getNode key = second.getNode key := by
  have hsame : second.occupied = first.occupied := by
    unfold occupied
    simp only [hlookup]
  by_cases hempty : first.occupied = ∅
  · rw [getNode_of_empty hempty, getNode_of_empty (hsame.trans hempty)]
  · obtain ⟨position, hsucc, hnode⟩ := exists_successor key hempty
    rw [hlookup] at hnode
    exact (getNode_of_kept hsame.le hsucc hnode).symm

/-! ## Moved keys -/

def members (ring : ConsistentHashRing hash) : List GoString := ring.nodes.entries.map Sigma.snd

/-- No virtual node of `nodeID` has the position of another node's. -/
def CollisionFree (ring : ConsistentHashRing hash) (nodeID : GoString) : Prop :=
  ∀ other ∈ ring.members, other ≠ nodeID →
    ∀ i < ring.replicas.toNat, ∀ j < ring.replicas.toNat,
      hash (virtualKey nodeID i) ≠ hash (virtualKey other j)

variable {ring : ConsistentHashRing hash} {nodeID : GoString}

theorem mem_members (hlookup : ring.nodes.lookup position = some other) : other ∈ ring.members :=
  List.mem_map.mpr ⟨⟨position, other⟩, AList.mem_lookup_iff.mp hlookup, rfl⟩

/-- Walking once around from any place meets the nodes of the ring and no others. -/
theorem mem_visited (hidx : ring.sortedNodes.length ≠ 0 → idx < ring.sortedNodes.length) :
    other ∈ ring.visited idx 0 ring.sortedNodes.length ↔ other ∈ ring.members := by
  rw [visited, List.mem_map]
  constructor
  · rintro ⟨i, hi, rfl⟩
    have hplaces : 0 < ring.sortedNodes.length := by
      rw [List.mem_range'_1] at hi
      omega
    have hplace := List.mem_of_getElem? (getD_mem (Nat.mod_lt (idx + i) hplaces))
    rw [mem_sortedNodes] at hplace
    obtain ⟨other, hlookup⟩ := Option.isSome_iff_exists.mp hplace
    rw [nodeAt, hlookup]
    exact mem_members hlookup
  · intro hmember
    obtain ⟨⟨position, other⟩, hentry, rfl⟩ := List.mem_map.mp hmember
    have hlookup := AList.mem_lookup_iff.mpr hentry
    obtain ⟨j, hj, hposition⟩ := List.mem_iff_getElem.mp
      (ring.mem_sortedNodes.mpr (Option.isSome_of_mem hlookup))
    have hnode : ring.nodeAt j = other := by
      rw [nodeAt, List.getD_eq_getElem?_getD, List.getElem?_eq_getElem hj, hposition]
      exact congrArg (Option.getD · []) hlookup
    -- the place is met behind `idx`, or in the next round
    specialize hidx (by omega)
    rcases Nat.lt_or_ge j idx with hbefore | hbehind
    · refine ⟨j + ring.sortedNodes.length - idx, by simp; omega, ?_⟩
      rw [Nat.add_sub_cancel' (by omega), Nat.add_mod_right, Nat.mod_eq_of_lt hj, hnode]
    · refine ⟨j - idx, by simp; omega, ?_⟩
      rw [Nat.add_sub_cancel' hbehind, Nat.mod_eq_of_lt hj, hnode]

theorem length_firsts_visited :
    (Clockwise.firsts [] (ring.visited (ring.search (hash key)) 0 ring.sortedNodes.length)).length =
      ring.members.toFinset.card := by
  rw [← List.toFinset_card_of_nodup (Clockwise.nodup_firsts _ List.nodup_nil)]
  apply congrArg
  ext other
  rw [List.mem_toFinset, List.mem_toFinset, Clockwise.mem_firsts]
  simp only [List.not_mem_nil, false_or, mem_visited (ring.search_lt)]

theorem head_getNodes
    (hfirst : (ring.getNodes key count).head? = some first) : first = ring.getNode key := by
  rw [getNodes_eq, List.head?_take] at hfirst
  split_ifs at hfirst
  cases hlength : ring.sortedNodes.length with
  | zero =>
    rw [hlength] at hfirst
    cases hfirst
  | succ places =>
    have hsome : ring.sortedNodes.length ≠ 0 := by
      omega
    rw [hlength, visited, List.range'_succ, List.map_cons, Clockwise.head?_firsts,
      Option.some.injEq, Nat.add_zero, Nat.mod_eq_of_lt (ring.search_lt hsome)] at hfirst
    rw [getNode, if_neg hsome, hfirst]

theorem CollisionFree.not_isVirtual (hfree : ring.CollisionFree nodeID)
    (hlookup : ring.nodes.lookup position = some other) (hne : other ≠ nodeID) :
    ¬ IsVirtual hash nodeID ring.replicas.toNat position := by
  rintro ⟨i, hi, hposition⟩
  obtain ⟨j, hj, hother⟩ := ring.virtual position other hlookup
  exact hfree other (mem_members hlookup) hne i hi j hj (hposition.symm.trans hother)

theorem lookup_addNode {ring : ConsistentHashRing hash} :
    (ring.addNode nodeID).nodes.lookup position =
      if IsVirtual hash nodeID ring.replicas.toNat position then some nodeID
      else ring.nodes.lookup position :=
  lookup_addVirtual

theorem lookup_removeNode {ring : ConsistentHashRing hash} :
    (ring.removeNode nodeID).nodes.lookup position =
      if IsVirtual hash nodeID ring.replicas.toNat position then none
      else ring.nodes.lookup position :=
  lookup_removeVirtual

theorem occupied_subset_addNode (ring : ConsistentHashRing hash)
    (nodeID : GoString) : ring.occupied ⊆ (ring.addNode nodeID).occupied := by
  intro position hmem
  change ((ring.addNode nodeID).nodes.lookup position).isSome = true
  rw [lookup_addNode]
  split_ifs
  · rfl
  · exact hmem

theorem removeNode_occupied_subset (ring : ConsistentHashRing hash) (nodeID : GoString) :
    (ring.removeNode nodeID).occupied ⊆ ring.occupied := by
  intro position hmem
  change ((ring.removeNode nodeID).nodes.lookup position).isSome = true at hmem
  rw [lookup_removeNode] at hmem
  split_ifs at hmem
  · cases hmem
  · exact hmem

theorem getNode_addNode (ring : ConsistentHashRing hash) (key : GoString) :
    (ring.addNode nodeID).getNode key = nodeID ∨
      (ring.addNode nodeID).getNode key = ring.getNode key := by
  have hsub := ring.occupied_subset_addNode nodeID
  by_cases hempty : (ring.addNode nodeID).occupied = ∅
  · right
    rw [hempty] at hsub
    rw [getNode_of_empty hempty, getNode_of_empty (Set.subset_empty_iff.mp hsub)]
  · obtain ⟨position, hsucc, hnode⟩ := exists_successor key hempty
    by_cases hnew : IsVirtual hash nodeID ring.replicas.toNat position
    · left
      rw [lookup_addNode, if_pos hnew, Option.some.injEq] at hnode
      exact hnode.symm
    · right
      rw [lookup_addNode, if_neg hnew] at hnode
      exact (getNode_of_kept hsub hsucc hnode).symm

theorem CollisionFree.getNode_removeNode (hfree : ring.CollisionFree nodeID)
    (hother : ring.getNode key ≠ nodeID) :
    (ring.removeNode nodeID).getNode key = ring.getNode key := by
  have hsub := ring.removeNode_occupied_subset nodeID
  by_cases hempty : ring.occupied = ∅
  · rw [hempty] at hsub
    rw [getNode_of_empty hempty, getNode_of_empty (Set.subset_empty_iff.mp hsub)]
  · obtain ⟨position, hsucc, hnode⟩ := exists_successor key hempty
    apply getNode_of_kept hsub hsucc
    rw [lookup_removeNode, if_neg (hfree.not_isVirtual hnode hother)]
    exact hnode

theorem CollisionFree.lookup_addNode_removeNode
    (hfree : ring.CollisionFree nodeID) (hnew : nodeID ∉ ring.members)
    (position : UInt32) :
    ((ring.addNode nodeID).removeNode nodeID).nodes.lookup position =
      ring.nodes.lookup position := by
  rw [lookup_removeNode, lookup_addNode]
  change (if IsVirtual hash nodeID ring.replicas.toNat position then _
    else _) = _
  split_ifs with hvirtual
  · cases hlookup : ring.nodes.lookup position with
    | none => rfl
    | some other =>
      by_cases heq : other = nodeID
      · rw [heq] at hlookup
        exact absurd (mem_members hlookup) hnew
      · exact absurd hvirtual (hfree.not_isVirtual hlookup heq)
  · rfl

end ConsistentHashRing

/-- The replicas of a key: as many distinct nodes as asked for or as there
are, the key's own node first, and more of them keep those there were. -/
theorem getNodes_selects (hash : GoString → UInt32) (ring : ConsistentHashRing hash)
    (key : GoString) (count : ℤ) :
    (ring.getNodes key count).length = min count.toNat ring.members.toFinset.card ∧
      (ring.getNodes key count).Nodup ∧
      (∀ first, (ring.getNodes key count).head? = some first → first = ring.getNode key) ∧
      ring.getNodes key count <+: ring.getNodes key (count + 1) := by
  refine ⟨?_, ring.getNodes_nodup, fun _ => ConsistentHashRing.head_getNodes, ?_⟩
  · rw [ring.getNodes_eq, List.length_take, ConsistentHashRing.length_firsts_visited]
  · rw [ring.getNodes_eq, ring.getNodes_eq, List.take_isPrefix_take]
    exact .inl (by omega)

/-- Whatever the hash function is: if the virtual nodes of `nodeID` share no
position with the other nodes', adding it moves keys only to it, removing it
moves only its own keys, and adding and removing a new node moves none. -/
theorem ring_moves_few_keys (hash : GoString → UInt32)
    (ring : ConsistentHashRing hash) (nodeID key : GoString)
    (hfree : ring.CollisionFree nodeID) :
    ((ring.addNode nodeID).getNode key ≠ ring.getNode key →
        (ring.addNode nodeID).getNode key = nodeID) ∧
      ((ring.removeNode nodeID).getNode key ≠ ring.getNode key → ring.getNode key = nodeID) ∧
      (nodeID ∉ ring.members →
        ((ring.addNode nodeID).removeNode nodeID).getNode key = ring.getNode key) := by
  refine ⟨?_, ?_, ?_⟩
  · intro hmoved
    exact (ring.getNode_addNode key).resolve_right hmoved
  · intro hmoved
    by_contra hother
    exact hmoved (hfree.getNode_removeNode hother)
  · intro hnew
    exact ConsistentHashRing.getNode_congr (hfree.lookup_addNode_removeNode hnew)

def byteSum (key : GoString) : UInt32 := key.foldl (fun sum b => sum * 31 + b.toUInt32) 7

def ConsistentHashRing.ofTwo : ConsistentHashRing byteSum :=
  ((ConsistentHashRing.new 3).addNode (str "a")).addNode (str "b")

theorem ring_moves_few_keys_ofTwo :
    ConsistentHashRing.ofTwo.CollisionFree (str "c") ∧ str "c" ∉ ConsistentHashRing.ofTwo.members ∧
      ConsistentHashRing.ofTwo.getNode (str "bz:") = str "a" ∧
      ((ConsistentHashRing.ofTwo.addNode (str "c")).removeNode
        (str "c")).getNode (str "bz:") = str "a" := by
  have hfree : ConsistentHashRing.ofTwo.CollisionFree (str "c") := by
    unfold ConsistentHashRing.CollisionFree
    decide +kernel
  have hnew : str "c" ∉ ConsistentHashRing.ofTwo.members := by
    decide +kernel
  have hnode : ConsistentHashRing.ofTwo.getNode (str "bz:") = str "a" := by
    decide +kernel
  refine ⟨hfree, hnew, hnode, ?_⟩
  rw [(ring_moves_few_keys byteSum .ofTwo (str "c") (str "bz:") hfree).2.2 hnew]
  exact hnode

/-! ## Histories of a ring -/

structure RingCall where
  nodeID : GoString
  joins : Bool

def RingCall.update (present : Finset GoString) (call : RingCall) : Finset GoString :=
  if call.joins then insert call.nodeID present else present.erase call.nodeID

namespace ConsistentHashRing

variable {hash : GoString → UInt32} {ring : ConsistentHashRing hash}

def perform (ring : ConsistentHashRing hash) (call : RingCall) : ConsistentHashRing hash :=
  if call.joins then ring.addNode call.nodeID else ring.removeNode call.nodeID

/-- The ring holds the virtual nodes of the present nodes and nothing else. -/
def Holds (replicas : ℤ) (present : Finset GoString) (ring : ConsistentHashRing hash) : Prop :=
  ring.replicas = replicas ∧ ∀ position nodeID, ring.nodes.lookup position = some nodeID ↔
    nodeID ∈ present ∧ IsVirtual hash nodeID replicas.toNat position

theorem holds_perform {call : RingCall} (h : ring.Holds count present)
    (hfree : ring.CollisionFree call.nodeID) :
    (ring.perform call).Holds count (call.update present) := by
  obtain ⟨rfl, h⟩ := h
  have heq : ∀ position nodeID, nodeID ∈ present →
      IsVirtual hash nodeID ring.replicas.toNat position →
      IsVirtual hash call.nodeID ring.replicas.toNat position → nodeID = call.nodeID := by
    intro position nodeID hpresent hvirtual hshared
    by_contra hne
    exact hfree.not_isVirtual ((h position nodeID).mpr ⟨hpresent, hvirtual⟩) hne hshared
  unfold perform RingCall.update
  split_ifs
  · refine ⟨rfl, fun position nodeID => ?_⟩
    rw [lookup_addNode]
    grind [h position nodeID]
  · refine ⟨rfl, fun position nodeID => ?_⟩
    rw [lookup_removeNode]
    grind [h position nodeID]

/-- Nodes join and leave without collisions with those that are there. -/
def Orderly (ring : ConsistentHashRing hash) (calls : List RingCall) : Prop :=
  Runs.Admits perform (fun ring call => ring.CollisionFree call.nodeID) ring calls

theorem holds_history {calls : List RingCall} (h : ring.Holds count present)
    (horderly : ring.Orderly calls) :
    (calls.foldl perform ring).Holds count (calls.foldl RingCall.update present) := by
  induction calls generalizing ring present with
  | nil => exact h
  | cons call rest ih => exact ih (holds_perform h horderly.1) horderly.2

/-- Histories that leave the same nodes give every key the same node. -/
theorem routing_follows_members (hash : GoString → UInt32) (replicas : ℤ) (key : GoString)
    {first second : List RingCall}
    (hfirst : (new replicas : ConsistentHashRing hash).Orderly first)
    (hsecond : (new replicas : ConsistentHashRing hash).Orderly second)
    (hsame : first.foldl RingCall.update ∅ = second.foldl RingCall.update ∅) :
    (first.foldl perform (new replicas : ConsistentHashRing hash)).getNode key =
      (second.foldl perform (new replicas : ConsistentHashRing hash)).getNode key := by
  have hnew : (new replicas : ConsistentHashRing hash).Holds replicas ∅ := by
    simp [Holds, new]
  refine getNode_congr fun position => Option.ext fun nodeID => ?_
  rw [(holds_history hnew hfirst).2, (holds_history hnew hsecond).2, hsame]

theorem routing_follows_members_again :
    ([⟨str "a", true⟩, ⟨str "b", true⟩].foldl perform
        (new 3 : ConsistentHashRing byteSum)).getNode (str "bz:") =
      ([⟨str "b", true⟩, ⟨str "a", false⟩, ⟨str "a", true⟩].foldl perform
        (new 3 : ConsistentHashRing byteSum)).getNode (str "bz:") := by
  refine routing_follows_members byteSum 3 (str "bz:") ?_ ?_ (by decide)
  all_goals
    simp only [Orderly, Runs.Admits, CollisionFree]
    decide +kernel

end ConsistentHashRing

end Govc
